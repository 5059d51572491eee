import ContentDiscovery.Discovery
import ContentDiscovery.RetryLoop

/-!
# Building an index and keeping its servers

`AddrIndexBuilder` of `iroh-mainline-endpoint-discovery/src/addr_index.rs`: an index uses the
servers it is given, or looks for them when it is built and from then on in a task. The first
refresh decides whether there is an index at all; later ones that fail change nothing. The client
and its callers go on with their own events in between.
-/

namespace ContentDiscovery

/-- How often discovery looks for the current index servers: 10 minutes. -/
@[irreducible] def DISCOVERY_REFRESH : ℕ := 10 * 60 * 10 ^ 9

/-- Delay before a failed discovery is retried: 30 seconds. -/
@[irreducible] def DISCOVERY_RETRY : ℕ := 30 * 10 ^ 9

/-- How long lookups are remembered by default: 5 minutes. -/
def DEFAULT_LOOKUP_CACHE_TTL : ℕ := 5 * 60 * 10 ^ 9

/-- The key of the server list maintained by n0. -/
def DEFAULT_INDEX_LIST_KEY : PkarrKey :=
  #v[191, 136, 19, 206, 0, 147, 105, 54, 43, 148, 59, 158, 122, 233, 214, 67, 47, 52, 190, 154, 118,
    20, 212, 117, 226, 54, 65, 95, 30, 141, 1, 29]

/-- `AddrIndexBuilder`: where an index finds its servers. -/
structure AddrIndexBuilder where
  /-- servers that are used as given -/
  servers : HashSet SocketAddrV4
  /-- where they are looked for otherwise -/
  sources : Sources
  /-- the deadline of a publication or a lookup -/
  timeout : ℕ
  /-- how long lookups are remembered, if they are -/
  lookupCache : Option ℕ

namespace AddrIndexBuilder

/-- `AddrIndex::builder`. -/
def builder : AddrIndexBuilder := ⟨∅, ⟨none, none, none⟩, DEFAULT_TIMEOUT, none⟩

variable (b : AddrIndexBuilder)

/-- `server`. -/
def server (addr : SocketAddrV4) : AddrIndexBuilder := { b with servers := insert addr b.servers }

/-- `list_key`. -/
def listKey (key : PkarrKey) : AddrIndexBuilder :=
  { b with sources := { b.sources with listKey := some key } }

/-- `fallback_list`. -/
def fallbackList (item : MutableItem) : AddrIndexBuilder :=
  { b with sources := { b.sources with fallbackList := some item } }

/-- `rendezvous_hash`. -/
def rendezvousHash (hash : Vector UInt8 20) : AddrIndexBuilder :=
  { b with sources := { b.sources with rendezvousHash := some hash } }

/-- `lookup_cache`. -/
def setLookupCache (ttl : ℕ) : AddrIndexBuilder := { b with lookupCache := some ttl }

/-- `timeout`. -/
def setTimeout (timeout : ℕ) : AddrIndexBuilder := { b with timeout }

/-- `n0_defaults`. -/
def n0Defaults : AddrIndexBuilder :=
  (b.listKey DEFAULT_INDEX_LIST_KEY).setLookupCache DEFAULT_LOOKUP_CACHE_TTL

/-- What a refresh comes to for the task, or for the index that is not built yet. -/
inductive Refreshed where
  /-- it succeeded -/
  | refreshed
  /-- it failed, and the servers in use are kept -/
  | failed (error : DiscoveryError)
  /-- it was the first one and found no servers: there is no index -/
  | rejected (error : DiscoveryError)
  deriving DecidableEq

/-- The client of an index before its first refresh. -/
def unbuilt : Discovery := ⟨⟨none⟩, ∅, [], .new b.timeout⟩

/-- What the first refresh comes to. -/
def first (r : Discovery × Except DiscoveryError Unit) : Refreshed :=
  match r.2 with
  | .error error => .rejected error
  | .ok () => if r.1.servers = ∅ then .rejected (.udp .noServers) else .refreshed

variable {Name : Type} [BEq Name] (dns : Dns Name) (z : Z32)

/-- `build`, where `attached` says whether the client can be attached to the node: the client, and
whether it discovers its servers. -/
def build (attached : Bool) (answers : Answers) : Except DiscoveryError (Discovery × Bool) :=
  if b.servers ≠ ∅ then
    if ¬ attached then .error .dht
    else if ¬ answers.live then .error .closed
    else .ok (⟨⟨none⟩, b.servers, [.replaceServers b.servers], .new b.timeout⟩, false)
  else if b.sources.listKey = none ∧ b.sources.rendezvousHash = none then .error (.udp .noServers)
  else if ¬ attached then .error .dht
  else
    let r := b.unbuilt.refresh dns z b.sources answers
    match first r with
    | .refreshed => .ok (r.1, true)
    | .failed error | .rejected error => .error error

end AddrIndexBuilder

namespace IndexTask

open AddrIndexBuilder (Refreshed)

/-- The loop of the background discovery, from the first refresh. -/
def refreshLoop : RetryLoop Refreshed DiscoveryError where
  verdict
    | .refreshed => .ok DISCOVERY_REFRESH
    | .failed _ => .ok DISCOVERY_RETRY
    | .rejected error => .error error
  timeout := none

/-- An index that discovers its servers. -/
structure State where
  /-- its client and its discovery -/
  discovery : Discovery
  /-- its task -/
  loop : RetryLoop.State DiscoveryError
  /-- whether it is built -/
  built : Bool

/-- What may happen. -/
inductive Event where
  /-- time passes -/
  | tick (d : ℕ)
  /-- a refresh begins -/
  | woken
  /-- it ends, and has found these answers -/
  | refresh (answers : Answers)
  /-- an event of the client or a caller -/
  | client (e : Discovery.Event)

/-- What a step shows. -/
inductive Output where
  /-- nothing -/
  | quiet
  /-- what a refresh comes to -/
  | refreshed (out : Discovery.Outcome) (result : Refreshed)
      (attempt : Option (RetryLoop.Attempt Refreshed))
  /-- what the client does -/
  | client (out : Discovery.Outcome)

variable {Name : Type} [BEq Name] (dns : Dns Name) (z : Z32) (b : AddrIndexBuilder)

/-- What a refresh comes to. -/
def State.result (s : State) (answers : Answers) : Refreshed :=
  let r := s.discovery.refresh dns z b.sources answers
  if s.built then
    match r.2 with
    | .ok () => .refreshed
    | .error error => .failed error
  else AddrIndexBuilder.first r

/-- One step. A step that is not enabled does nothing. -/
def step (s : State) : Event → State × Output
  | .tick d => ({ s with loop := (refreshLoop.step s.loop (.tick d)).1 }, .quiet)
  | .woken => ({ s with loop := (refreshLoop.step s.loop .woken).1 }, .quiet)
  | .refresh answers =>
    let r := s.discovery.step dns z b.sources (.refresh answers)
    let result := s.result dns z b answers
    let loop := refreshLoop.step s.loop (.ended result)
    (⟨r.1, loop.1, s.built || result = .refreshed⟩, .refreshed r.2 result loop.2)
  | .client e =>
    let r := s.discovery.step dns z b.sources e
    ({ s with discovery := r.1 }, .client r.2)

/-- When a step can happen. There are no callers before the index is built. -/
def State.Enabled (lag : ℕ) (s : State) : Event → Prop
  | .tick d => refreshLoop.Enabled lag s.loop (.tick d)
  | .woken => refreshLoop.Enabled lag s.loop .woken
  | .refresh _ => ∃ since, s.loop.pc = .trying since
  | .client e => Discovery.Enabled e ∧ (∀ answers, e ≠ .refresh answers) ∧
      ∀ message, e = .call message → s.built = true

/-- An index from when it is built. -/
def machine (lag start : ℕ) : Machine State Event Output where
  init s := s = ⟨b.unbuilt, ⟨start, .trying start⟩, false⟩
  enabled _ s e := s.Enabled lag e
  step := step dns z b

/-- An index that uses the servers it was given. -/
def given (d : Discovery) : Machine Discovery Discovery.Event Discovery.Outcome where
  init s := s = d
  enabled _ _ e := Discovery.Enabled e ∧ ∀ answers, e ≠ .refresh answers
  step := Discovery.step dns z b.sources

/-! ## Runs -/

/-- The event of discovery or the client that a step shows. -/
def discoveryStep : Event × Output → Option (Discovery.Event × Discovery.Outcome)
  | (.refresh answers, .refreshed out _ _) => some (.refresh answers, out)
  | (.client e, .client out) => some (e, out)
  | _ => none

/-- The event of the loop that a step shows. -/
def loopStep : Event × Output →
    Option (RetryLoop.Event Refreshed × Option (RetryLoop.Attempt Refreshed))
  | (.tick d, _) => some (.tick d, none)
  | (.woken, _) => some (.woken, none)
  | (.refresh _, .refreshed _ result attempt) => some (.ended result, attempt)
  | _ => none

variable {dns z b} {lag start : ℕ} {t : List (Event × Output)} {s : State}

/-- The refreshes and the events of the client are a run of discovery. -/
theorem discovery_run (h : (machine dns z b lag start).Run t s) :
    (Discovery.machine dns z b.sources).Run (t.filterMap discoveryStep) s.discovery := by
  refine h.invariant (I := fun t s => (Discovery.machine dns z b.sources).Run
    (t.filterMap discoveryStep) s.discovery) ?_ ?_
  · rintro s rfl
    exact .start rfl
  · intro t s e hrun hen ih
    rw [List.filterMap_append]
    cases e with
    | tick d =>
      rw [List.filterMap_cons_none rfl, List.filterMap_nil, List.append_nil]
      exact ih
    | woken =>
      rw [List.filterMap_cons_none rfl, List.filterMap_nil, List.append_nil]
      exact ih
    | refresh answers => exact ih.step (a := .refresh answers) (by trivial)
    | client e => exact ih.step (a := e) hen.1

/-- The task runs the loop. -/
theorem loop_run (h : (machine dns z b lag start).Run t s) :
    (refreshLoop.machine lag start).Run (t.filterMap loopStep) s.loop := by
  refine h.invariant (I := fun t s => (refreshLoop.machine lag start).Run
    (t.filterMap loopStep) s.loop) ?_ ?_
  · rintro s rfl
    exact .start rfl
  · intro t s e hrun hen ih
    rw [List.filterMap_append]
    cases e with
    | tick d => exact ih.step (a := .tick d) (by exact hen)
    | woken => exact ih.step (a := .woken) (by exact hen)
    | refresh answers =>
      obtain ⟨since, hpc⟩ := hen
      refine ih.step (a := .ended (s.result dns z b answers)) ?_
      simp [RetryLoop.machine, RetryLoop.Enabled, hpc, refreshLoop]
    | client e =>
      rw [List.filterMap_cons_none rfl, List.filterMap_nil, List.append_nil]
      exact ih

/-- Only a refresh has a result. -/
theorem refreshed_of_ok {e : Discovery.Event} {d : Discovery} {result : Except DiscoveryError Unit}
    (h : (d.step dns z b.sources e).2.refreshed = some result) :
    ∃ answers, e = .refresh answers := by
  cases e with
  | refresh answers => exact ⟨answers, rfl⟩
  | handle tx now =>
    simp only [Discovery.step] at h
    split at h <;> cases h
  | call | packet | flush => cases h

/-- A refresh that counts for the task succeeded. -/
theorem ok_of_refreshed {answers : Answers} (h : s.result dns z b answers = .refreshed) :
    (s.discovery.refresh dns z b.sources answers).2 = .ok () := by
  simp only [State.result, AddrIndexBuilder.first] at h
  split at h
  · split at h
    · rename_i hok
      exact hok
    · cases h
  · split at h
    · cases h
    · rename_i hok
      exact hok

/-- An index that is built was by a refresh that succeeded. -/
theorem success_of_built (h : (machine dns z b lag start).Run t s) :
    s.built = true → ∃ x ∈ t.filterMap discoveryStep, x.2.refreshed = some (.ok ()) := by
  refine h.invariant (I := fun t s => s.built = true →
    ∃ x ∈ t.filterMap discoveryStep, x.2.refreshed = some (.ok ())) ?_ ?_
  · rintro s rfl hbuilt
    cases hbuilt
  · intro t s e hrun hen ih hbuilt
    rw [List.filterMap_append]
    by_cases hbefore : s.built = true
    · obtain ⟨x, hx, hok⟩ := ih hbefore
      exact ⟨x, List.mem_append_left _ hx, hok⟩
    cases e with
    | refresh answers =>
      have hresult : s.result dns z b answers = .refreshed := by
        simp only [machine, step, Bool.or_eq_true, decide_eq_true_eq] at hbuilt
        exact hbuilt.resolve_left hbefore
      refine ⟨_, List.mem_append_right _ (List.mem_singleton_self _), ?_⟩
      exact congrArg some (ok_of_refreshed hresult)
    | tick | woken | client => exact absurd hbuilt hbefore

theorem built_of_failed {answers : Answers} {error : DiscoveryError}
    (h : s.result dns z b answers = .failed error) : s.built = true := by
  by_contra hno
  rw [State.result, if_neg hno, AddrIndexBuilder.first] at h
  split at h
  · cases h
  · split at h <;> cases h

theorem unbuilt_of_rejected {answers : Answers} {error : DiscoveryError}
    (h : s.result dns z b answers = .rejected error) : s.built = false := by
  by_contra hyes
  rw [State.result, if_pos (Bool.not_eq_false _ ▸ hyes)] at h
  split at h <;> cases h

/-- The first refresh decides whether there is an index: as long as there is none, there was none
before, or it was rejected. -/
theorem built_run (h : (machine dns z b lag start).Run t s) :
    (s.built = false → (∃ since, s.loop.pc = .trying since) ∧
      RetryLoop.attempts (t.filterMap loopStep) = [] ∨ ∃ error, s.loop.pc = .returned error) ∧
    (s.built = true → (∀ error, s.loop.pc ≠ .returned error) ∧
      RetryLoop.attempts (t.filterMap loopStep) ≠ []) := by
  refine h.invariant (I := fun t s =>
    (s.built = false → (∃ since, s.loop.pc = .trying since) ∧
      RetryLoop.attempts (t.filterMap loopStep) = [] ∨ ∃ error, s.loop.pc = .returned error) ∧
    (s.built = true → (∀ error, s.loop.pc ≠ .returned error) ∧
      RetryLoop.attempts (t.filterMap loopStep) ≠ [])) ?_ ?_
  · rintro s rfl
    exact ⟨fun _ => .inl ⟨⟨start, rfl⟩, rfl⟩, by simp⟩
  · rintro t s e hrun hen ⟨hunbuilt, hbuilt⟩
    rw [List.filterMap_append]
    cases e with
    | tick d =>
      have hattempts := RetryLoop.attempts_concat_none (t := t.filterMap loopStep) (.tick d)
      refine ⟨fun hno => ?_, fun hyes => ⟨(hbuilt hyes).1, hattempts.symm ▸ (hbuilt hyes).2⟩⟩
      exact (hunbuilt hno).imp_left fun h => ⟨h.1, hattempts.trans h.2⟩
    | woken =>
      have hattempts := RetryLoop.attempts_concat_none (t := t.filterMap loopStep) .woken
      refine ⟨fun hno => ?_, fun hyes => ⟨fun error => ?_, hattempts.symm ▸ (hbuilt hyes).2⟩⟩
      · change refreshLoop.Enabled lag s.loop .woken at hen
        rcases hunbuilt hno with ⟨⟨since, hpc⟩, -⟩ | ⟨error, hpc⟩
        · simp only [RetryLoop.Enabled, hpc] at hen
        · simp only [RetryLoop.Enabled, hpc] at hen
      · simp [machine, step, RetryLoop.step]
    | client e =>
      rw [List.filterMap_cons_none rfl, List.filterMap_nil, List.append_nil]
      exact ⟨hunbuilt, hbuilt⟩
    | refresh answers =>
      obtain ⟨since, hpc⟩ := hen
      have hattempts : RetryLoop.attempts (t.filterMap loopStep ++
          [(.refresh answers, (step dns z b s (.refresh answers)).2)].filterMap loopStep) ≠ [] := by
        simp only [step, RetryLoop.step, hpc]
        exact (RetryLoop.attempts_concat_some _ _).trans_ne (List.concat_ne_nil _ _)
      refine ⟨fun hno => ?_, fun hyes => ⟨fun error => ?_, hattempts⟩⟩
      · simp only [machine, step, RetryLoop.step, hpc] at hno ⊢
        rw [Bool.or_eq_false_iff, decide_eq_false_iff_not] at hno
        cases hresult : s.result dns z b answers with
        | refreshed => exact absurd hresult hno.2
        | failed error => exact absurd (built_of_failed hresult) (by simp [hno.1])
        | rejected error => exact .inr ⟨error, rfl⟩
      · simp only [machine, step, RetryLoop.step, hpc] at hyes ⊢
        rw [Bool.or_eq_true, decide_eq_true_eq] at hyes
        cases hresult : s.result dns z b answers with
        | refreshed | failed => simp [refreshLoop]
        | rejected error' =>
          rw [unbuilt_of_rejected hresult, hresult] at hyes
          simp at hyes

/-- How the next refresh follows one: after ten minutes, or half a minute if it failed. -/
def Follows (lag : ℕ) (a b : RetryLoop.Attempt Refreshed) : Prop :=
  a.outcome = .refreshed ∧ a.now + DISCOVERY_REFRESH ≤ b.since ∧
      b.since ≤ a.now + DISCOVERY_REFRESH + lag ∨
    (∃ error, a.outcome = .failed error) ∧ a.now + DISCOVERY_RETRY ≤ b.since ∧
      b.since ≤ a.now + DISCOVERY_RETRY + lag

theorem follows_of_next {a : RetryLoop.Attempt Refreshed} {b : RetryLoop.Attempt Refreshed}
    (h : refreshLoop.Next lag a b.since) : Follows lag a b := by
  obtain ⟨delay, hverdict, hle, hlag⟩ := h
  cases houtcome : a.outcome with
  | refreshed =>
    rw [houtcome] at hverdict
    obtain rfl := Except.ok.inj hverdict
    exact .inl ⟨houtcome, hle, hlag⟩
  | failed error =>
    rw [houtcome] at hverdict
    obtain rfl := Except.ok.inj hverdict
    exact .inr ⟨⟨error, houtcome⟩, hle, hlag⟩
  | rejected error =>
    rw [houtcome] at hverdict
    cases hverdict

/-- An index that was given servers uses them, whatever happens. -/
theorem given_kept {attached discovers : Bool} {answers : Answers} {d d' : Discovery}
    {t : Discovery.History} (hservers : b.servers ≠ ∅)
    (hbuild : b.build dns z attached answers = .ok (d, discovers))
    (h : (given dns z b d).Run t d') :
    discovers = false ∧ d'.clientServers = b.servers ∧ d'.servers = b.servers := by
  have hstart : d = ⟨⟨none⟩, b.servers, [.replaceServers b.servers], .new b.timeout⟩ ∧
      discovers = false := by
    rw [AddrIndexBuilder.build, if_pos hservers] at hbuild
    split at hbuild
    · cases hbuild
    · split at hbuild
      · cases hbuild
      · cases hbuild
        exact ⟨rfl, rfl⟩
  refine ⟨hstart.2, ?_⟩
  refine h.invariant (I := fun _ d' => d'.clientServers = b.servers ∧ d'.servers = b.servers) ?_ ?_
  · rintro _ rfl
    rw [hstart.1]
    exact ⟨rfl, rfl⟩
  · rintro t d e - ⟨hen, hne⟩ ⟨hclient, hwatched⟩
    obtain ⟨-, hclient', hwatched', -⟩ := Discovery.step_of_ne dns z b.sources hen hne
    exact ⟨hclient'.trans hclient, hwatched'.trans hwatched⟩

/-- **An index keeps its servers.** With servers given, an index has these for good. Otherwise, once
it is built it always uses, with those who watch it, what the last refresh that succeeded chose by
the newest list offered until then, and has none only if the authority withdrew them; it is not
built, and the task does not go on, exactly if the first refresh found nothing; and each refresh
follows the one before it after ten minutes, or half a minute if that failed. -/
theorem index_kept (dns : Dns Name) (z : Z32) (b : AddrIndexBuilder) (lag start : ℕ) :
    (∀ attached discovers answers d t d', b.servers ≠ ∅ →
      b.build dns z attached answers = .ok (d, discovers) → (given dns z b d).Run t d' →
        discovers = false ∧ d'.clientServers = b.servers ∧ d'.servers = b.servers) ∧
    ∀ t s, (machine dns z b lag start).Run t s →
      (s.built = true → s.discovery.clientServers = s.discovery.servers ∧
        ∃ pre answers out post signed,
          t.filterMap discoveryStep = pre ++ (.refresh answers, out) :: post ∧
          out.refreshed = some (.ok ()) ∧ (∀ x ∈ post, x.2.refreshed ≠ some (.ok ())) ∧
          Discovery.IsNewest dns z
            (Discovery.offered dns z b.sources (pre ++ [(.refresh answers, out)])) signed ∧
          Discovery.Chosen dns z signed answers.peers s.discovery.servers) ∧
      (s.built = false ↔ RetryLoop.attempts (t.filterMap loopStep) = [] ∨
        ∃ error, s.loop.pc = .returned error) ∧
      (RetryLoop.attempts (t.filterMap loopStep)).IsChain (Follows lag) := by
  refine ⟨fun attached discovers answers d t d' => given_kept, fun t s h => ⟨fun hbuilt => ?_, ?_,
    (RetryLoop.kept_run (loop_run h)).chain.imp fun a b => follows_of_next⟩⟩
  · obtain ⟨pre, ⟨e, out⟩, post, hsplit, hok, hpost⟩ := exists_last (success_of_built h hbuilt)
    have hrun := discovery_run h
    rw [hsplit] at hrun
    obtain ⟨d, -, -, hout⟩ := hrun.stepAt rfl
    obtain ⟨answers, rfl⟩ := refreshed_of_ok (hout ▸ hok)
    obtain ⟨signed, hnewest, hsame, hchosen⟩ := Discovery.chosen_run hrun hok hpost
    exact ⟨hsame, pre, answers, out, post, signed, hsplit, hok, hpost, hnewest, hchosen⟩
  · obtain ⟨hunbuilt, hbuilt⟩ := built_run h
    refine ⟨fun hno => (hunbuilt hno).imp_left And.right, fun h => ?_⟩
    by_contra hyes
    obtain ⟨hpc, hne⟩ := hbuilt (Bool.not_eq_false _ ▸ hyes)
    rcases h with hnil | ⟨error, herror⟩
    · exact hne hnil
    · exact hpc error herror

namespace Sample

/-- An index that looks for the list of a key. -/
def builder : AddrIndexBuilder := AddrIndexBuilder.builder.listKey Discovery.Sample.key

/-- Mainline has an error. -/
def outage : Answers := ⟨some true, .failed, .failed, true⟩

/-- The index before its first refresh. -/
def fresh : State := ⟨builder.unbuilt, ⟨0, .trying 0⟩, false⟩

/-- A step of the index. -/
def next (s : State) (e : Event) : State := (step Discovery.Sample.dns Z32.standard builder s e).1

/-- The first refresh succeeds. -/
def found : State := next fresh (.refresh Discovery.Sample.first)

theorem loop_found : found.loop = ⟨0, .sleeping DISCOVERY_REFRESH⟩ := by decide +kernel

/-- The time of the next one has come. -/
def later : State := { found with loop := ⟨DISCOVERY_REFRESH, .trying DISCOVERY_REFRESH⟩ }

end Sample

/-- A task sleeps until its deadline, and wakes. -/
theorem run_woken (h : (machine dns z b lag start).Run t s) {now deadline : ℕ}
    (hloop : s.loop = ⟨now, .sleeping deadline⟩) (hle : now ≤ deadline) :
    ∃ t', (machine dns z b lag start).Run t' { s with loop := ⟨deadline, .trying deadline⟩ } := by
  obtain ⟨discovery, loop, built⟩ := s
  obtain rfl : loop = _ := hloop
  have htick := h.step (a := .tick (deadline - now)) (by
    change now + (deadline - now) ≤ deadline + lag
    omega)
  have hclock : (machine dns z b lag start).Run _
      ⟨discovery, ⟨now + (deadline - now), .sleeping deadline⟩, built⟩ := htick
  rw [Nat.add_sub_cancel' hle] at hclock
  exact ⟨_, hclock.step (a := .woken) (by exact le_refl deadline)⟩

open Sample in
/-- An index uses the list that its first refresh found, through an outage. -/
theorem index_kept_sample : ∃ t s,
    (machine Discovery.Sample.dns Z32.standard builder 0 0).Run t s ∧ s.built = true ∧
      s.discovery.clientServers = s.discovery.servers ∧ s.discovery.servers.card = 1 := by
  have hstart : (machine Discovery.Sample.dns Z32.standard builder 0 0).Run [] fresh := .start rfl
  have hfound := hstart.step (a := .refresh Discovery.Sample.first) (by exact ⟨0, rfl⟩)
  obtain ⟨t, hlater⟩ : ∃ t, (machine Discovery.Sample.dns Z32.standard builder 0 0).Run t later :=
    run_woken (s := found) hfound loop_found (Nat.zero_le _)
  have houtage := hlater.step (a := .refresh outage) (by exact ⟨_, rfl⟩)
  change (machine Discovery.Sample.dns Z32.standard builder 0 0).Run _
    (next later (.refresh outage)) at houtage
  have hbuilt : (next later (.refresh outage)).built = true := by decide +kernel
  have hcard : (next later (.refresh outage)).discovery.servers.card = 1 := by decide +kernel
  obtain ⟨hsame, -⟩ := ((index_kept _ _ _ 0 0).2 _ _ houtage).1 hbuilt
  exact ⟨_, _, houtage, hbuilt, hsame, hcard⟩

end IndexTask

end ContentDiscovery
