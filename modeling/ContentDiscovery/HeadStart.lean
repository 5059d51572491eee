import ContentDiscovery.HintHistory
import ContentDiscovery.ProviderHistory
import ContentDiscovery.Probes
import ContentDiscovery.Workload

/-!
# The head start of hints

One call of `Gateway::connection` of `iroh-link-gateway/src/lib.rs`, with a clock. The candidates
are the providers that links named, then those that passed a probe before, and then, once a sleep
is over, what Mainline finds; `race_probes` takes them as it has room for their probes. Timers are
never early, and late by no more than a given lag; code that can run does not wait otherwise.

`race_run` is the refinement: whatever the clock does, the probes are raced as without one. Mainline
is asked last (`Kept.asked`), and the work of probing the others bounds how late (`Kept.busy`), so
the links of a page cannot keep a gateway from Mainline (`mainline_fallback`).
-/

namespace ContentDiscovery

/-- `HINT_HEAD_START`: how long providers named by links get before Mainline is asked, 1 second. -/
def HINT_HEAD_START : ℕ := 10 ^ 9

/-- `PROBE_TIMEOUT`: the deadline of a probe, 10 seconds. -/
def PROBE_TIMEOUT : ℕ := 10 * 10 ^ 9

namespace HeadStart

open Race (History)

/-- A call of `connection` that looks for a provider. -/
structure State (Hash EndpointId : Type) where
  /-- the time -/
  clock : Instant
  /-- when the call began -/
  started : Instant
  /-- the named and the known providers not yet looked at -/
  candidates : List (EndpointId × Provenance)
  /-- when the sleep before Mainline is over -/
  wake : Instant
  /-- when Mainline was asked -/
  asked : Option Instant
  /-- the stages of the stream of providers -/
  race : Race Hash EndpointId
  /-- when the probe of an endpoint began -/
  since : EndpointId → Instant
  /-- what the call comes to -/
  result : Option (Except Miss EndpointId)

/-- What may happen next. -/
inductive Event (Hash EndpointId : Type) where
  /-- time passes -/
  | tick (d : ℕ)
  /-- the next named or known provider is looked at -/
  | candidate
  /-- the sleep is over: `resolve_stream` -/
  | ask
  /-- Mainline finds a provider -/
  | discovered (provider : EndpointId)
  /-- Mainline finds no more providers -/
  | exhausted
  /-- a probe ends -/
  | probed (provider : EndpointId) (passed : Bool)
  /-- no provider is left -/
  | finished
  /-- the call runs out of time -/
  | elapsed
  /-- others have used the cache -/
  | cache (cache : ProviderCache Hash EndpointId)

variable {Hash EndpointId : Type}

/-- `buffered_unordered` polls the stream of candidates. -/
def Polls (s : State Hash EndpointId) : Prop := s.race.Enabled .exhausted

/-- What keeps time from passing: a candidate there is room for, and timers that are due. -/
structure MayPass (lag : ℕ) (s : State Hash EndpointId) (d : ℕ) : Prop where
  candidates : Polls s → s.candidates = []
  sleep : Polls s → s.asked = none → s.clock + d ≤ s.wake + lag
  probes : ∀ p ∈ s.race.running, s.clock + d ≤ s.since p + (PROBE_TIMEOUT + lag)
  finished : ¬ s.race.Enabled .finished
  elapsed : s.clock + d ≤ s.started + DISCOVERY_TIMEOUT + lag

/-- When a step can happen. -/
def Enabled (lag : ℕ) (s : State Hash EndpointId) (e : Event Hash EndpointId) : Prop :=
  s.result = none ∧
    match e with
    | .tick d => MayPass lag s d
    | .candidate => s.candidates ≠ [] ∧ Polls s
    | .ask => s.asked = none ∧ s.candidates = [] ∧ Polls s ∧ s.wake ≤ s.clock
    | .discovered provider => s.asked.isSome ∧ s.race.Enabled (.candidate provider .Discovered)
    | .exhausted => s.asked.isSome ∧ Polls s
    | .probed provider _ => s.race.Enabled (.probed provider none)
    | .finished => s.race.Enabled .finished
    | .elapsed => s.started + DISCOVERY_TIMEOUT ≤ s.clock
    | .cache _ => True

section Decidable

variable [DecidableEq Hash] [DecidableEq EndpointId]

instance (s : State Hash EndpointId) : Decidable (Polls s) :=
  inferInstanceAs (Decidable (s.race.Enabled .exhausted))

instance (lag : ℕ) (s : State Hash EndpointId) (d : ℕ) : Decidable (MayPass lag s d) :=
  decidable_of_iff ((Polls s → s.candidates = []) ∧
    (Polls s → s.asked = none → s.clock + d ≤ s.wake + lag) ∧
    (∀ p ∈ s.race.running, s.clock + d ≤ s.since p + (PROBE_TIMEOUT + lag)) ∧
    ¬ s.race.Enabled .finished ∧ s.clock + d ≤ s.started + DISCOVERY_TIMEOUT + lag)
    ⟨fun ⟨h₁, h₂, h₃, h₄, h₅⟩ => ⟨h₁, h₂, h₃, h₄, h₅⟩,
      fun ⟨h₁, h₂, h₃, h₄, h₅⟩ => ⟨h₁, h₂, h₃, h₄, h₅⟩⟩

instance (lag : ℕ) (s : State Hash EndpointId) : DecidablePred (Enabled lag s)
  | .tick d => inferInstanceAs (Decidable (_ ∧ MayPass lag s d))
  | .candidate => inferInstanceAs (Decidable (_ ∧ _ ∧ _))
  | .ask => inferInstanceAs (Decidable (_ ∧ _ ∧ _ ∧ _ ∧ _))
  | .discovered _ => inferInstanceAs (Decidable (_ ∧ _ ∧ _))
  | .exhausted => inferInstanceAs (Decidable (_ ∧ _ ∧ _))
  | .probed provider _ => inferInstanceAs (Decidable (_ ∧ s.race.Enabled (.probed provider none)))
  | .finished => inferInstanceAs (Decidable (_ ∧ s.race.Enabled .finished))
  | .elapsed => inferInstanceAs (Decidable (_ ∧ _))
  | .cache _ => inferInstanceAs (Decidable (_ ∧ True))

end Decidable

variable [DecidableEq Hash] [DecidableEq EndpointId]

/-- The stream of providers goes on. -/
def advance (hash : Hash) (s : State Hash EndpointId) (e : Race.Event Hash EndpointId) :
    State Hash EndpointId × History Hash EndpointId :=
  let r := s.race.step hash (s.clock, e)
  ({ s with race := r.1 }, [((s.clock, e), r.2)])

/-- It gets a candidate, whose probe begins now unless there was one. -/
def offer (hash : Hash) (s : State Hash EndpointId) (provider : EndpointId)
    (provenance : Provenance) : State Hash EndpointId × History Hash EndpointId :=
  advance hash { s with
    since := if provider ∈ s.race.seen then s.since
      else Function.update s.since provider s.clock } (.candidate provider provenance)

/-- One step. -/
def step (hash : Hash) (s : State Hash EndpointId) :
    Event Hash EndpointId → State Hash EndpointId × History Hash EndpointId
  | .tick d => ({ s with clock := s.clock + d }, [])
  | .candidate =>
    match s.candidates with
    | [] => (s, [])
    | (provider, provenance) :: rest =>
      offer hash { s with candidates := rest } provider provenance
  | .ask => ({ s with asked := some s.clock }, [])
  | .discovered provider => offer hash s provider .Discovered
  | .exhausted => advance hash s .exhausted
  | .probed provider true =>
    advance hash { s with result := some (.ok provider) }
      (.probed provider (some (s.clock - s.since provider)))
  | .probed provider false => advance hash s (.probed provider none)
  | .finished => advance hash { s with result := some (.error .NotFound) } .finished
  | .elapsed => ({ s with result := some (.error .TimedOut) }, [])
  | .cache cache => advance hash s (.cache cache)

/-- The lookup of a call. -/
def lookUp (cache : ProviderCache Hash EndpointId) (hash : Hash) (hinted : List EndpointId)
    (now : Instant) : State Hash EndpointId where
  clock := now
  started := now
  candidates := (hinted.map fun provider => (provider, .Linked)) ++
    (cache.providers hash now).2.map fun x => (x.1, .Verified x.2)
  wake := now + if hinted = [] then 0 else HINT_HEAD_START
  asked := none
  race := ⟨∅, [], false, false, some (cache.providers hash now).1⟩
  since := fun _ => now
  result := none

/-- `Gateway::connection`, up to its lookup: a remembered miss is the answer if no link named a
provider. -/
def connect (hints : Hints Hash EndpointId) (cache : ProviderCache Hash EndpointId) (hash : Hash)
    (clock : ℕ → Instant) (now : Instant) : Except Miss (State Hash EndpointId) :=
  let hinted := (hints.get hash clock).2
  if hinted = [] then
    let r := cache.missing hash now
    match r.2 with
    | some miss => .error miss
    | none => .ok (lookUp r.1 hash hinted now)
  else .ok (lookUp cache hash hinted now)

/-- A call, from its lookup. -/
def machine (hash : Hash) (lag : ℕ) (s₀ : State Hash EndpointId) :
    Machine (State Hash EndpointId) (Event Hash EndpointId) (History Hash EndpointId) where
  init s := s = s₀
  enabled _ s e := Enabled lag s e
  step := step hash

instance (hash : Hash) (lag : ℕ) (s₀ : State Hash EndpointId) (t) (s : State Hash EndpointId)
    (e : Event Hash EndpointId) : Decidable ((machine hash lag s₀).enabled t s e) :=
  inferInstanceAs (Decidable (Enabled lag s e))

/-- What the stream of providers has done. -/
def raced (t : List (Event Hash EndpointId × History Hash EndpointId)) : History Hash EndpointId :=
  t.flatMap Prod.snd

/-! ## What a call keeps -/

/-- A call that has not done anything. -/
structure Begins (s₀ : State Hash EndpointId) : Prop where
  started : s₀.started = s₀.clock
  asked : s₀.asked = none
  race : s₀.race.seen = ∅ ∧ s₀.race.running = [] ∧ s₀.race.exhausted = false ∧
    s₀.race.finished = false
  result : s₀.result = none

/-- No probe takes longer than it may. -/
def InTime (lag : ℕ) (s : State Hash EndpointId) : Prop :=
  ∀ p ∈ s.race.running, s.clock ≤ s.since p + (PROBE_TIMEOUT + lag)

/-- All places for probes have been taken so far. -/
def Full (lag : ℕ) (s₀ s : State Hash EndpointId) : Prop :=
  Busy CONCURRENT_PROBES (PROBE_TIMEOUT + lag) s₀.clock s.clock s.race.seen.card
    (s.race.running.map s.since)

/-- They have, or only the sleep is left to wait for. -/
def Works (lag : ℕ) (s₀ s : State Hash EndpointId) : Prop :=
  Full lag s₀ s ∨
    s.candidates = [] ∧ s.race.running.length < CONCURRENT_PROBES ∧ s.clock ≤ s.wake + lag

/-- A time is no later than the sleep, or than the probes of all candidates take. -/
def Prompt (lag : ℕ) (s₀ : State Hash EndpointId) (time : Instant) : Prop :=
  time ≤ s₀.wake + lag ∨
    CONCURRENT_PROBES * (time - s₀.clock) ≤ s₀.candidates.length * (PROBE_TIMEOUT + lag)

/-- What holds of a call. -/
structure Kept (lag : ℕ) (s₀ s : State Hash EndpointId) : Prop where
  started : s.started = s₀.clock
  wake : s.wake = s₀.wake
  past : s₀.clock ≤ s.clock
  deadline : s.clock ≤ s₀.clock + DISCOVERY_TIMEOUT + lag
  /-- a candidate was looked at, or it is left -/
  taken : ∀ x ∈ s₀.candidates, x.1 ∈ s.race.seen ∨ x ∈ s.candidates
  left : ∀ x ∈ s.candidates, x ∈ s₀.candidates
  /-- Mainline finds nothing before it is asked -/
  few : s.asked = none → ∀ p ∈ s.race.seen, p ∈ s₀.candidates.map Prod.fst
  waits : s.asked = none → s.race.exhausted = false
  /-- probes end in time -/
  timely : InTime lag s
  busy : s.asked = none → Works lag s₀ s
  /-- Mainline is asked last, and in time -/
  asked : ∀ time, s.asked = some time →
    s.candidates = [] ∧ s₀.wake ≤ time ∧ time ≤ s.clock ∧ Prompt lag s₀ time
  finished : s.race.finished = true → s.result ≠ none
  /-- a call fails when Mainline has no more providers, or when its time is over -/
  error : ∀ miss, s.result = some (.error miss) →
    s.asked ≠ none ∨ s₀.clock + DISCOVERY_TIMEOUT ≤ s.clock

section Steps

variable {lag : ℕ} {s₀ s s' : State Hash EndpointId} {hash : Hash} {d : ℕ}
  {t : List (Event Hash EndpointId × History Hash EndpointId)} {e : Event Hash EndpointId}

omit [DecidableEq Hash] [DecidableEq EndpointId] in
theorem raced_concat (x : Event Hash EndpointId × History Hash EndpointId) :
    raced (t ++ [x]) = raced t ++ x.2 := by
  rw [raced, List.flatMap_append, List.flatMap_singleton, raced]

theorem advance_run {T : History Hash EndpointId} {e : Race.Event Hash EndpointId}
    (h : (Race.machine hash).Run T s.race) (he : s.race.Enabled e) :
    (Race.machine hash).Run (T ++ (advance hash s e).2) (advance hash s e).1.race :=
  Machine.Run.step (a := (s.clock, e)) h he

/-- A step of a call is one of the race, or none. -/
theorem race_step {T : History Hash EndpointId} (h : (Race.machine hash).Run T s.race)
    (hen : Enabled lag s e) :
    (Race.machine hash).Run (T ++ (step hash s e).2) (step hash s e).1.race := by
  obtain ⟨-, hen⟩ := hen
  cases e with
  | tick | ask | elapsed =>
    simp only [step, List.append_nil]
    exact h
  | candidate =>
    rw [step]
    split
    · rename_i hnone
      exact absurd hnone hen.1
    · exact advance_run h hen.2
  | discovered provider => exact advance_run h hen.2
  | exhausted => exact advance_run h hen.2
  | probed provider passed =>
    cases passed with
    | true => exact advance_run h hen
    | false => exact advance_run h hen
  | finished => exact advance_run h hen
  | cache cache => exact advance_run h trivial

/-- **The probes are raced as they are without a clock.** -/
theorem race_run (hs₀ : Begins s₀) (h : (machine hash lag s₀).Run t s) :
    (Race.machine hash).Run (raced t) s.race := by
  refine h.invariant (I := fun t s => (Race.machine hash).Run (raced t) s.race)
    (fun s hs => ?_) fun t s e _ hen hrace => ?_
  · rw [hs]
    exact .start hs₀.race
  · rw [raced_concat]
    exact race_step hrace hen

/-- What a candidate changes: nothing if its endpoint was seen. -/
def offered (s : State Hash EndpointId) (provider : EndpointId) : State Hash EndpointId :=
  if provider ∈ s.race.seen then s
  else { s with
    since := Function.update s.since provider s.clock
    race := { s.race with
      seen := insert provider s.race.seen, running := s.race.running ++ [provider] } }

theorem offer_fst (provider : EndpointId) (provenance : Provenance) :
    (offer hash s provider provenance).1 = offered s provider := by
  rw [offer, advance, offered]
  simp only [Race.step, Race.arrive]
  split
  · rfl
  · rfl

omit [DecidableEq Hash] in
/-- What runs has been seen. -/
theorem mem_seen {T : History Hash EndpointId} (h : Race.Racing T s.race) {p : EndpointId}
    (hp : p ∈ s.race.running) : p ∈ s.race.seen :=
  (h.called p).mp (h.running.mem_iff.mpr (List.mem_append_right _ hp))

section

variable {T : History Hash EndpointId} {provider : EndpointId}

omit [DecidableEq Hash] in
/-- The probes that run keep the times when they began. -/
theorem since_of_mem (h : Race.Racing T s.race) (hnew : provider ∉ s.race.seen) {p : EndpointId}
    (hp : p ∈ s.race.running) : Function.update s.since provider s.clock p = s.since p := by
  have hne : p ≠ provider := by
    rintro rfl
    exact hnew (mem_seen h hp)
  exact Function.update_of_ne hne _ _

omit [DecidableEq Hash] in
theorem InTime.offered (h : InTime lag s) (hrace : Race.Racing T s.race)
    (provider : EndpointId) : InTime lag (offered s provider) := by
  rw [HeadStart.offered]
  split
  · exact h
  · rename_i hnew
    intro p hp
    rcases List.mem_append.mp hp with hp | hp
    · exact (h p hp).trans_eq
        (congrArg (· + (PROBE_TIMEOUT + lag)) (since_of_mem hrace hnew hp).symm)
    · obtain rfl := List.mem_singleton.mp hp
      exact (Nat.le_add_right _ _).trans_eq
        (congrArg (· + (PROBE_TIMEOUT + lag)) (Function.update_self p s.clock s.since).symm)

omit [DecidableEq Hash] in
theorem Full.offered (h : Full lag s₀ s) (hrace : Race.Racing T s.race) (provider : EndpointId) :
    Full lag s₀ (offered s provider) := by
  rw [HeadStart.offered]
  split
  · exact h
  · rename_i hnew
    have hmap : (s.race.running ++ [provider]).map (Function.update s.since provider s.clock) =
        s.race.running.map s.since ++ [s.clock] := by
      rw [List.map_append, List.map_congr_left fun p hp => since_of_mem hrace hnew hp,
        List.map_singleton, Function.update_self]
    have hcard : (insert provider s.race.seen).card = s.race.seen.card + 1 :=
      Finset.card_insert_of_notMem hnew
    simp only [Full, hmap, hcard]
    exact h.begin.perm (List.perm_append_singleton _ _).symm

omit [DecidableEq Hash] in
theorem offered_spec (s : State Hash EndpointId) (provider : EndpointId) :
    ∃ race since, offered s provider = { s with race, since } ∧
      race.seen = insert provider s.race.seen ∧ race.exhausted = s.race.exhausted ∧
      race.finished = s.race.finished := by
  rw [offered]
  split
  · rename_i hseen
    exact ⟨s.race, s.since, rfl, (Finset.insert_eq_of_mem hseen).symm, rfl, rfl⟩
  · exact ⟨_, _, rfl, rfl, rfl, rfl⟩

end

omit [DecidableEq Hash] [DecidableEq EndpointId] in
theorem Kept.start (hs₀ : Begins s₀) : Kept lag s₀ s₀ where
  started := hs₀.started
  wake := rfl
  past := le_rfl
  deadline := by
    rw [Nat.add_assoc]
    exact Nat.le_add_right _ _
  taken x hx := .inr hx
  left x hx := hx
  few _ p hp := by
    rw [hs₀.race.1] at hp
    cases hp
  waits _ := hs₀.race.2.2.1
  timely p hp := by
    rw [hs₀.race.2.1] at hp
    cases hp
  busy _ := by
    left
    rw [Full, hs₀.race.1, hs₀.race.2.1]
    exact Busy.new
  asked time h := by
    rw [hs₀.asked] at h
    cases h
  finished h := by
    rw [hs₀.race.2.2.2] at h
    cases h
  error miss h := by
    rw [hs₀.result] at h
    cases h

section Kept

variable {T : History Hash EndpointId} {provider : EndpointId} {provenance : Provenance}
  {rest : List (EndpointId × Provenance)}

omit [DecidableEq Hash] [DecidableEq EndpointId] in
/-- A call that waits for candidates with room for their probes polls them. -/
theorem Kept.polls (h : Kept lag s₀ s) (hasked : s.asked = none) (hresult : s.result = none)
    (hroom : s.race.running.length < CONCURRENT_PROBES) : Polls s := by
  refine ⟨?_, h.waits hasked, hroom⟩
  cases hfinished : s.race.finished with
  | false => rfl
  | true => exact absurd hresult (h.finished hfinished)

omit [DecidableEq Hash] in
/-- All probes so far have been few, and so was the time that they took. -/
theorem Kept.prompt (h : Kept lag s₀ s) (hasked : s.asked = none) : Prompt lag s₀ s.clock := by
  rcases h.busy hasked with hbusy | ⟨-, -, hsleep⟩
  · right
    have hcard : s.race.seen.card ≤ s₀.candidates.length := by
      have hsub : s.race.seen ⊆ (s₀.candidates.map Prod.fst).toFinset :=
        fun p hp => List.mem_toFinset.mpr (h.few hasked p hp)
      refine (Finset.card_le_card hsub).trans ((List.toFinset_card_le _).trans_eq ?_)
      exact List.length_map _
    refine (hbusy.mul_le fun time htime => ?_).trans (Nat.mul_le_mul_right _ hcard)
    obtain ⟨p, hp, rfl⟩ := List.mem_map.mp htime
    exact h.timely p hp
  · exact .inl (hsleep.trans_eq (by rw [h.wake]))

omit [DecidableEq Hash] in
/-- Time passes. -/
theorem Kept.tick (h : Kept lag s₀ s) (hrace : Race.Racing T s.race) (hresult : s.result = none)
    (hpass : MayPass lag s d) : Kept lag s₀ { s with clock := s.clock + d } :=
  { h with
    past := h.past.trans (Nat.le_add_right _ _)
    deadline := hpass.elapsed.trans_eq (by rw [h.started])
    timely := hpass.probes
    busy := by
      intro hasked
      by_cases hroom : s.race.running.length < CONCURRENT_PROBES
      · -- only the sleep is left to wait for
        have hpolls := h.polls hasked hresult hroom
        exact .inr ⟨hpass.candidates hpolls, hroom, hpass.sleep hpolls hasked⟩
      · rcases h.busy hasked with hbusy | ⟨-, hless, -⟩
        · left
          refine hbusy.wait ?_ d
          rw [List.length_map]
          exact le_antisymm hrace.bounded (not_lt.mp hroom)
        · exact absurd hless hroom
    asked := fun time htime => by
      obtain ⟨hnone, hwake, hpast, hprompt⟩ := h.asked time htime
      exact ⟨hnone, hwake, hpast.trans (Nat.le_add_right _ _), hprompt⟩
    error := fun miss herror => by
      rw [hresult] at herror
      cases herror }

omit [DecidableEq Hash] in
/-- A candidate is looked at. -/
theorem Kept.candidate (h : Kept lag s₀ s) (hrace : Race.Racing T s.race)
    (hcandidates : s.candidates = (provider, provenance) :: rest) :
    Kept lag s₀ (offered { s with candidates := rest } provider) := by
  generalize hs' : { s with candidates := rest } = s'
  have hrace' : Race.Racing T s'.race := hs' ▸ hrace
  have htimely : InTime lag s' := hs' ▸ h.timely
  have hfull (hfull : Full lag s₀ s) : Full lag s₀ (offered s' provider) :=
    Full.offered (hs' ▸ hfull) hrace' provider
  obtain ⟨race, since, heq, hseen, hexhausted, hfinished⟩ := offered_spec s' provider
  have hnext := htimely.offered hrace' provider
  rw [heq] at hnext hfull ⊢
  subst hs'
  have hmem : (provider, provenance) ∈ s.candidates := hcandidates ▸ List.mem_cons_self
  refine { h with
    taken := fun x hx => ?_, left := fun x hx => ?_, few := fun hasked p hp => ?_,
    waits := fun hasked => hexhausted.trans (h.waits hasked), timely := hnext,
    busy := fun hasked => ?_, asked := fun time htime => ?_,
    finished := fun hf => h.finished (hfinished ▸ hf) }
  · rcases h.taken x hx with hx | hx
    · exact .inl (hseen ▸ Finset.mem_insert_of_mem hx)
    · rw [hcandidates] at hx
      rcases List.mem_cons.mp hx with rfl | hx
      · exact .inl (hseen ▸ Finset.mem_insert_self _ _)
      · exact .inr hx
  · exact h.left x (hcandidates ▸ List.mem_cons_of_mem _ hx)
  · rw [hseen] at hp
    rcases Finset.mem_insert.mp hp with rfl | hp
    · exact List.mem_map_of_mem (h.left _ hmem)
    · exact h.few hasked p hp
  · rcases h.busy hasked with hworks | ⟨hnone, -⟩
    · exact .inl (hfull hworks)
    · rw [hnone] at hmem
      cases hmem
  · rw [(h.asked time htime).1] at hmem
    cases hmem

omit [DecidableEq Hash] in
/-- Mainline finds a provider. -/
theorem Kept.discovered (h : Kept lag s₀ s) (hrace : Race.Racing T s.race)
    (hasked : s.asked ≠ none) (provider : EndpointId) : Kept lag s₀ (offered s provider) := by
  have hnext := h.timely.offered hrace provider
  obtain ⟨race, since, heq, hseen, -, hfinished⟩ := offered_spec s provider
  rw [heq] at hnext ⊢
  exact { h with
    taken := fun x hx => (h.taken x hx).imp_left fun hx => hseen ▸ Finset.mem_insert_of_mem hx
    few := fun hnone => absurd hnone hasked
    waits := fun hnone => absurd hnone hasked
    timely := hnext
    busy := fun hnone => absurd hnone hasked
    finished := fun hf => h.finished (hfinished ▸ hf) }

omit [DecidableEq Hash] in
/-- Mainline is asked. -/
theorem Kept.ask (h : Kept lag s₀ s) (hasked : s.asked = none) (hnone : s.candidates = [])
    (hwake : s.wake ≤ s.clock) : Kept lag s₀ { s with asked := some s.clock } :=
  { h with
    few := nofun
    waits := nofun
    busy := nofun
    asked := fun time htime => by
      obtain rfl : s.clock = time := Option.some.inj htime
      exact ⟨hnone, h.wake ▸ hwake, le_rfl, h.prompt hasked⟩
    error := fun miss _ => .inl nofun }

/-- A probe ends. -/
theorem Kept.probed (h : Kept lag s₀ s) (hprovider : provider ∈ s.race.running)
    (latency : Option ℕ) (result : Option (Except Miss EndpointId))
    (hresult : ∀ miss, result ≠ some (.error miss)) (hfinished : s.race.finished = false) :
    Kept lag s₀ (advance hash { s with result := result } (.probed provider latency)).1 :=
  { h with
    timely := fun p hp => h.timely p (List.mem_of_mem_erase hp)
    busy := fun hasked => by
      rcases h.busy hasked with hfull | ⟨hnone, hroom, hsleep⟩
      · left
        have hperm := (List.perm_cons_erase hprovider).map s.since
        exact (Busy.perm hfull hperm).finish (h.timely provider hprovider)
      · exact .inr ⟨hnone, (List.length_erase_le ..).trans_lt hroom, hsleep⟩
    finished := fun hf => absurd (hfinished.symm.trans hf) Bool.false_ne_true
    error := fun miss herror => absurd herror (hresult miss) }

/-- **One step keeps a call.** -/
theorem Kept.step (h : Kept lag s₀ s) (hrace : Race.Racing T s.race) (hen : Enabled lag s e) :
    Kept lag s₀ (step hash s e).1 := by
  obtain ⟨hresult, hen⟩ := hen
  cases e with
  | tick d => exact h.tick hrace hresult hen
  | candidate =>
    rw [HeadStart.step]
    split
    · exact h
    · rename_i hcandidates
      rw [offer_fst]
      exact h.candidate hrace hcandidates
  | ask => exact h.ask hen.1 hen.2.1 hen.2.2.2
  | discovered provider =>
    rw [HeadStart.step, offer_fst]
    exact h.discovered hrace (Option.isSome_iff_ne_none.mp hen.1) provider
  | exhausted =>
    exact { h with waits := fun hnone => absurd hnone (Option.isSome_iff_ne_none.mp hen.1) }
  | probed provider passed =>
    cases passed with
    | true => exact h.probed hen.2 _ _ nofun hen.1
    | false =>
      refine h.probed hen.2 _ s.result (fun miss herror => ?_) hen.1
      rw [hresult] at herror
      cases herror
  | finished =>
    have hasked : s.asked ≠ none := by
      intro hasked
      have hopen := h.waits hasked
      rw [hen.2.1] at hopen
      cases hopen
    exact { h with finished := nofun, error := fun _ _ => .inl hasked }
  | elapsed =>
    exact { h with
      finished := nofun
      error := fun _ _ => .inr (h.started ▸ hen) }
  | cache cache => exact { h with }

end Kept

end Steps

/-! ## Over a whole call -/

/-- The provider that a call has found. -/
def found : Option (Except Miss EndpointId) → List EndpointId
  | some (.ok provider) => [provider]
  | _ => []

section Runs

variable {lag : ℕ} {s₀ s : State Hash EndpointId} {hash : Hash} {e : Event Hash EndpointId}
  {t : List (Event Hash EndpointId × History Hash EndpointId)}

theorem kept_run (hs₀ : Begins s₀) (h : (machine hash lag s₀).Run t s) : Kept lag s₀ s := by
  refine h.invariant (I := fun _ s => Kept lag s₀ s) (fun s hs => ?_) fun t s e hrun hen hkept => ?_
  · rw [hs]
    exact .start hs₀
  · exact hkept.step (Race.racing_of_run (race_run hs₀ hrun)) hen

theorem asked_step (hash : Hash) (he : e ≠ .ask) : (step hash s e).1.asked = s.asked := by
  cases e with
  | ask => exact absurd rfl he
  | candidate =>
    rw [step]
    split
    · rfl
    · rfl
  | probed provider passed =>
    cases passed with
    | true => rfl
    | false => rfl
  | _ => rfl

theorem not_asked_run (h : (machine hash lag s₀).Run t s) (hasked : s.asked = none) :
    ∀ y ∈ t, y.1 ≠ .ask := by
  revert hasked
  refine h.invariant (I := fun t s => s.asked = none → ∀ y ∈ t, y.1 ≠ .ask)
    (fun s _ _ y hy => nomatch hy) fun t s e _ _ ih hasked y hy => ?_
  have he : e ≠ .ask := by
    rintro rfl
    cases hasked
  have hbefore : s.asked = none := (asked_step hash he).symm.trans hasked
  rcases List.mem_append.mp hy with hy | hy
  · exact ih hbefore y hy
  · rw [List.mem_singleton.mp hy]
    exact he

/-- When Mainline is asked, the probes of all other candidates were called. -/
theorem probed_before_ask (hs₀ : Begins s₀) (h : (machine hash lag s₀).Run t s)
    {before after : List (Event Hash EndpointId × History Hash EndpointId)}
    {x : Event Hash EndpointId × History Hash EndpointId} (ht : t = before ++ x :: after)
    (hx : x.1 = .ask) :
    (∀ y ∈ before, y.1 ≠ .ask) ∧
      ∀ y ∈ s₀.candidates, y.1 ∈ (Race.calls (Race.actions (raced before))).map Prod.fst := by
  obtain ⟨s₁, hrun, hen, -⟩ := h.stepAt ht
  rw [hx] at hen
  obtain ⟨-, hasked, hnone, -, -⟩ := hen
  refine ⟨not_asked_run hrun hasked, fun y hy => ?_⟩
  have hracing := Race.racing_of_run (race_run hs₀ hrun)
  rw [hracing.called]
  rcases (kept_run hs₀ hrun).taken y hy with hseen | hleft
  · exact hseen
  · rw [hnone] at hleft
    cases hleft

theorem yields_offer (s : State Hash EndpointId) (provider : EndpointId)
    (provenance : Provenance) :
    Race.yields (Race.actions (offer hash s provider provenance).2) = [] := by
  simp only [offer, advance, Race.step, Race.arrive]
  split
  · rfl
  · rfl

/-- What passes is yielded, after it is recorded. -/
theorem yields_probed (s : State Hash EndpointId) (provider : EndpointId) (latency : Option ℕ) :
    Race.yields (Race.actions (advance hash s (.probed provider latency)).2) =
      if latency.isSome then [provider] else [] := by
  simp only [advance, Race.step, Race.complete]
  cases s.race.cache <;> cases latency <;> rfl

theorem yields_step (hresult : s.result = none) :
    Race.yields (Race.actions (step hash s e).2) = found (step hash s e).1.result := by
  have hnone : found s.result = [] := by
    rw [hresult]
    rfl
  cases e with
  | tick | ask | exhausted | cache => exact hnone.symm
  | finished | elapsed => rfl
  | candidate =>
    rw [step]
    split
    · exact hnone.symm
    · exact (yields_offer _ _ _).trans hnone.symm
  | discovered provider => exact (yields_offer s provider _).trans hnone.symm
  | probed provider passed =>
    cases passed with
    | true => exact yields_probed { s with result := some (.ok provider) } provider _
    | false => exact (yields_probed s provider none).trans hnone.symm

/-- A call comes to the first provider whose probe passes. -/
theorem yields_run (hs₀ : Begins s₀) (h : (machine hash lag s₀).Run t s) :
    Race.yields (Race.actions (raced t)) = found s.result := by
  refine h.invariant (I := fun t s => Race.yields (Race.actions (raced t)) = found s.result)
    (fun s hs => ?_) fun t s e _ hen ih => ?_
  · rw [hs, hs₀.result]
    rfl
  · rw [hen.1] at ih
    rw [raced_concat, Race.actions, List.flatMap_append, Race.yields_append]
    exact (congrArg (· ++ _) ih).trans (yields_step hen.1)

omit [DecidableEq Hash] in
/-- A call that has not ended goes on. -/
theorem goes_on (h : Kept lag s₀ s) (hresult : s.result = none) :
    ∃ e, Enabled lag s e ∧ (∀ cache, e ≠ .cache cache) ∧ ∀ d, e = .tick d → 0 < d := by
  have hopen : s.race.finished = false := by
    cases hfinished : s.race.finished with
    | false => rfl
    | true => exact absurd hresult (h.finished hfinished)
  by_cases hfinished : s.race.Enabled .finished
  · exact ⟨.finished, ⟨hresult, hfinished⟩, nofun, nofun⟩
  by_cases helapsed : s.started + DISCOVERY_TIMEOUT ≤ s.clock
  · exact ⟨.elapsed, ⟨hresult, helapsed⟩, nofun, nofun⟩
  by_cases hprobes : ∃ p ∈ s.race.running, s.since p + (PROBE_TIMEOUT + lag) ≤ s.clock
  · obtain ⟨p, hp, -⟩ := hprobes
    exact ⟨.probed p false, ⟨hresult, hopen, hp⟩, nofun, nofun⟩
  by_cases hcandidates : Polls s ∧ s.candidates ≠ []
  · exact ⟨.candidate, ⟨hresult, hcandidates.2, hcandidates.1⟩, nofun, nofun⟩
  have hnone (hpolls : Polls s) : s.candidates = [] :=
    not_not.mp fun hsome => hcandidates ⟨hpolls, hsome⟩
  by_cases hask : Polls s ∧ s.asked = none ∧ s.wake ≤ s.clock
  · obtain ⟨hpolls, hasked, hwake⟩ := hask
    exact ⟨.ask, ⟨hresult, hasked, hnone hpolls, hpolls, hwake⟩, nofun, nofun⟩
  -- nothing is due
  refine ⟨.tick 1, ⟨hresult, hnone, fun hpolls hasked => ?_, fun p hp => ?_, hfinished, ?_⟩, nofun,
    fun d hd => ?_⟩
  · have hlt : s.clock < s.wake := not_le.mp fun hwake => hask ⟨hpolls, hasked, hwake⟩
    exact Nat.le_add_right_of_le hlt
  · exact not_le.mp fun hle => hprobes ⟨p, hp, hle⟩
  · exact Nat.le_add_right_of_le (not_le.mp helapsed)
  · cases hd
    exact Nat.one_pos

/-! ## From the caches of a gateway -/

omit [DecidableEq EndpointId] in
theorem begins_lookUp (cache : ProviderCache Hash EndpointId) (hash : Hash)
    (hinted : List EndpointId) (now : Instant) : Begins (lookUp cache hash hinted now) where
  started := rfl
  asked := rfl
  race := ⟨rfl, rfl, rfl, rfl⟩
  result := rfl

variable {z : Z32} {K : EndpointIds EndpointId} {named : Hints.Calls Hash EndpointId}
  {calls : ProviderCache.Calls Hash EndpointId} {clock : ℕ → Instant} {now : Instant}

/-- A lookup begins with few candidates, and Mainline sleeps if links named one. -/
theorem connect_spec (hs₀ : connect (Hints.after z K named) (ProviderCache.after calls) hash clock
      now = .ok s₀) :
    Begins s₀ ∧ s₀.clock = now ∧ s₀.candidates.length ≤ 12 ∧ s₀.wake ≤ now + HINT_HEAD_START ∧
      ∀ y ∈ s₀.candidates, y.2 = .Linked → s₀.wake = now + HINT_HEAD_START := by
  have hlookUp : ∃ cache : ProviderCache Hash EndpointId, cache.Few ∧
      s₀ = lookUp cache hash ((Hints.after z K named).get hash clock).2 now := by
    have hfew : (ProviderCache.after calls).Few := ProviderCache.few_after calls
    simp only [connect] at hs₀
    split at hs₀
    · split at hs₀
      · cases hs₀
      · exact ⟨_, hfew.perform (now, .missing hash), (Except.ok.inj hs₀).symm⟩
    · exact ⟨_, hfew, (Except.ok.inj hs₀).symm⟩
  obtain ⟨cache, hfew, rfl⟩ := hlookUp
  have hhinted := (Hints.few_after (z := z) (K := K) named).get hash clock
  have hknown := hfew.providers hash now
  generalize ((Hints.after z K named).get hash clock).2 = hinted at hhinted ⊢
  refine ⟨begins_lookUp .., rfl, ?_, ?_, fun y hy hlinked => ?_⟩
  · simp only [lookUp, List.length_append, List.length_map]
    exact Nat.add_le_add hhinted hknown
  · refine Nat.add_le_add_left ?_ now
    split
    · exact Nat.zero_le _
    · exact le_rfl
  · refine congrArg (now + ·) (if_neg ?_)
    rintro rfl
    rcases List.mem_append.mp hy with hy | hy
    · cases hy
    · obtain ⟨x, -, rfl⟩ := List.mem_map.mp hy
      cases hlinked

omit [DecidableEq Hash] [DecidableEq EndpointId] in
/-- With timers that are late by a second or less, what is prompt is within 44 seconds. -/
theorem Prompt.le {time : Instant} (h : Prompt lag s₀ time) (hlag : lag ≤ 10 ^ 9)
    (hlength : s₀.candidates.length ≤ 12) (hwake : s₀.wake ≤ s₀.clock + HINT_HEAD_START) :
    time ≤ s₀.clock + 44 * 10 ^ 9 := by
  rcases h with hsleep | hprobes
  · calc
      time ≤ s₀.wake + lag := hsleep
      _ ≤ s₀.clock + HINT_HEAD_START + 10 ^ 9 := Nat.add_le_add hwake hlag
      _ ≤ s₀.clock + 44 * 10 ^ 9 := by
        rw [Nat.add_assoc]
        exact Nat.add_le_add_left (by decide) _
  · have hwork : CONCURRENT_PROBES * (time - s₀.clock) ≤ CONCURRENT_PROBES * (44 * 10 ^ 9) := calc
      _ ≤ s₀.candidates.length * (PROBE_TIMEOUT + lag) := hprobes
      _ ≤ 12 * (PROBE_TIMEOUT + 10 ^ 9) :=
        Nat.mul_le_mul hlength (Nat.add_le_add_left hlag _)
      _ = CONCURRENT_PROBES * (44 * 10 ^ 9) := rfl
    exact Nat.sub_le_iff_le_add'.mp (Nat.le_of_mul_le_mul_left hwork (by decide))

end Runs

namespace Sample

/-- The time after the calls of the hints. -/
def now : Instant := 5

/-- Links named two providers, and none is known. -/
def start : State ℕ ℕ := lookUp (ProviderCache.after []) 1 [1, 2] now

/-- Both are probed, and one of them fails; Mainline is asked after a second. -/
def events : List (Event ℕ ℕ) :=
  [.candidate, .candidate, .tick (10 ^ 9), .probed 1 false, .ask, .exhausted, .tick 1,
    .probed 2 false, .finished]

end Sample

end HeadStart

end ContentDiscovery
