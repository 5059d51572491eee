import ContentDiscovery.Connections

/-!
# Racing probes

`race_probes` of `iroh-link-gateway/src/providers.rs` as `verified_providers` uses it: a stream
of candidates that arrive at any time, of which each is probed once, a few at a time, and those
that pass are yielded. The stages of the stream are a filter of what was seen, a map to probes,
`buffered_unordered` and a filter of what passed. Which candidates come, when the probes end, how
they do, and what others do to the cache meanwhile is up to the environment.

No candidate is lost or probed again, and what a probe found is recorded before its endpoint is
yielded (`race_probes_once`).
-/

namespace ContentDiscovery

/-- `Provenance`: where a candidate provider came from. -/
inductive Provenance where
  /-- announced for the content and found through discovery -/
  | Discovered
  /-- named by a link for the content -/
  | Linked
  /-- passed a probe for the content before -/
  | Verified (probed : Probed)
  deriving DecidableEq

/-- The stages of a stream of providers. -/
structure Race (Hash EndpointId : Type) where
  /-- the candidates that were let through -/
  seen : Finset EndpointId
  /-- the endpoints whose probes `buffered_unordered` runs -/
  running : List EndpointId
  /-- the stream of candidates has ended -/
  exhausted : Bool
  /-- so has the one of providers -/
  finished : Bool
  /-- the cache that the outcomes are recorded in -/
  cache : Option (ProviderCache Hash EndpointId)

namespace Race

/-- What may happen next. -/
inductive Event (Hash EndpointId : Type) where
  /-- a candidate arrives -/
  | candidate (provider : EndpointId) (provenance : Provenance)
  /-- there are no more candidates -/
  | exhausted
  /-- a probe ends: how long it took if it passed -/
  | probed (provider : EndpointId) (latency : Option ℕ)
  /-- there are no more providers -/
  | finished
  /-- others have used the cache -/
  | cache (cache : ProviderCache Hash EndpointId)

/-- What is done. -/
inductive Action (EndpointId : Type) where
  /-- a call of `probe` -/
  | probe (provider : EndpointId) (provenance : Provenance)
  /-- a call of `ProviderCache::confirm` -/
  | confirm (provider : EndpointId) (latency : ℕ)
  /-- a call of `ProviderCache::forget` -/
  | forget (provider : EndpointId)
  /-- the stream yields a provider -/
  | yielded (provider : EndpointId)
  /-- the stream ends -/
  | ended
  deriving DecidableEq

variable {Hash EndpointId : Type}

/-- `buffered_unordered` waits for a candidate only while there is room for its probe. -/
def Enabled (race : Race Hash EndpointId) : Event Hash EndpointId → Prop
  | .candidate .. =>
    race.finished = false ∧ race.exhausted = false ∧ race.running.length < CONCURRENT_PROBES
  | .exhausted =>
    race.finished = false ∧ race.exhausted = false ∧ race.running.length < CONCURRENT_PROBES
  | .probed provider _ => race.finished = false ∧ provider ∈ race.running
  | .finished => race.finished = false ∧ race.exhausted = true ∧ race.running = []
  | .cache _ => True

variable [DecidableEq Hash] [DecidableEq EndpointId]

instance (race : Race Hash EndpointId) : DecidablePred race.Enabled
  | .candidate .. => inferInstanceAs (Decidable (_ ∧ _ ∧ _))
  | .exhausted => inferInstanceAs (Decidable (_ ∧ _ ∧ _))
  | .probed .. => inferInstanceAs (Decidable (_ ∧ _))
  | .finished => inferInstanceAs (Decidable (_ ∧ _ ∧ _))
  | .cache _ => inferInstanceAs (Decidable True)

/-- A candidate passes the filter unless it was seen; then its probe is called. -/
def arrive (race : Race Hash EndpointId) (provider : EndpointId) (provenance : Provenance) :
    Race Hash EndpointId × List (Action EndpointId) :=
  if provider ∈ race.seen then (race, [])
  else
    ({ race with
        seen := insert provider race.seen, running := race.running ++ [provider] },
      [.probe provider provenance])

/-- What `verified_providers` does with the outcome of a probe. -/
def record (hash : Hash) (provider : EndpointId) (latency : Option ℕ) (now : Instant)
    (cache : ProviderCache Hash EndpointId) :
    ProviderCache Hash EndpointId × Action EndpointId :=
  match latency with
  | some latency => (cache.confirm hash provider latency now, .confirm provider latency)
  | none => (cache.forget hash provider, .forget provider)

/-- A probe ends: it is recorded if there is a cache, and its endpoint is yielded if it passed. -/
def complete (hash : Hash) (race : Race Hash EndpointId) (provider : EndpointId)
    (latency : Option ℕ) (now : Instant) : Race Hash EndpointId × List (Action EndpointId) :=
  let recorded := race.cache.map (record hash provider latency now)
  ({ race with running := race.running.erase provider, cache := recorded.map Prod.fst },
    (recorded.map Prod.snd).toList ++ if latency.isSome then [.yielded provider] else [])

/-- One event, at its time. -/
def step (hash : Hash) (race : Race Hash EndpointId) (x : Instant × Event Hash EndpointId) :
    Race Hash EndpointId × List (Action EndpointId) :=
  match x.2 with
  | .candidate provider provenance => race.arrive provider provenance
  | .exhausted => ({ race with exhausted := true }, [])
  | .probed provider latency => race.complete hash provider latency x.1
  | .finished => ({ race with finished := true }, [.ended])
  | .cache cache => ({ race with cache := race.cache.map fun _ => cache }, [])

/-- `race_probes`, with the probes of `verified_providers` for a hash. -/
def machine (hash : Hash) : Machine (Race Hash EndpointId)
    (Instant × Event Hash EndpointId) (List (Action EndpointId)) where
  init race := race.seen = ∅ ∧ race.running = [] ∧ race.exhausted = false ∧ race.finished = false
  enabled _ race x := race.Enabled x.2
  step race x := race.step hash x

instance (hash : Hash) (t) (race : Race Hash EndpointId) (x : Instant × Event Hash EndpointId) :
    Decidable ((machine hash).enabled t race x) :=
  inferInstanceAs (Decidable (race.Enabled x.2))

/-! ## What has happened -/

/-- What has happened. -/
abbrev History (Hash EndpointId : Type) : Type :=
  List ((Instant × Event Hash EndpointId) × List (Action EndpointId))

/-- The candidate that an event brings. -/
def Event.item : Event Hash EndpointId → Option (EndpointId × Provenance)
  | .candidate provider provenance => some (provider, provenance)
  | _ => none

/-- The probe that ends with an event. -/
def Event.outcome : Event Hash EndpointId → Option (EndpointId × Option ℕ)
  | .probed provider latency => some (provider, latency)
  | _ => none

/-- The candidates, in the order they came in. -/
def items (t : History Hash EndpointId) : List (EndpointId × Provenance) :=
  t.filterMap fun x => x.1.2.item

/-- The probes that ended, in their order. -/
def outcomes (t : History Hash EndpointId) : List (EndpointId × Option ℕ) :=
  t.filterMap fun x => x.1.2.outcome

/-- What was done, in its order. -/
def actions (t : History Hash EndpointId) : List (Action EndpointId) := t.flatMap Prod.snd

/-- The calls of `probe`. -/
def calls (log : List (Action EndpointId)) : List (EndpointId × Provenance) :=
  log.filterMap fun
    | .probe provider provenance => some (provider, provenance)
    | _ => none

/-- The calls of the cache. -/
def records (log : List (Action EndpointId)) : List (EndpointId × Option ℕ) :=
  log.filterMap fun
    | .confirm provider latency => some (provider, some latency)
    | .forget provider => some (provider, none)
    | _ => none

/-- The providers that the stream yields. -/
def yields (log : List (Action EndpointId)) : List EndpointId :=
  log.filterMap fun
    | .yielded provider => some provider
    | _ => none

/-- The endpoints whose probes passed. -/
def passed (outcomes : List (EndpointId × Option ℕ)) : List EndpointId :=
  outcomes.filterMap fun x => x.2.map fun _ => x.1

/-- Before a provider is yielded, one call of the cache is about it, and confirms it. -/
def RecordedFirst (log : List (Action EndpointId)) : Prop :=
  ∀ before provider after, log = before ++ .yielded provider :: after →
    ∃ latency, (records before).filter (fun x => x.1 = provider) = [(provider, some latency)]

/-- The state of a race tells what has happened. -/
structure Racing (t : History Hash EndpointId) (race : Race Hash EndpointId) : Prop where
  /-- the filter knows all candidates -/
  seen : ∀ p, p ∈ race.seen ↔ p ∈ (items t).map Prod.fst
  /-- no endpoint is probed twice -/
  nodup : ((calls (actions t)).map Prod.fst).Nodup
  /-- all candidates are probed -/
  called : ∀ p, p ∈ (calls (actions t)).map Prod.fst ↔ p ∈ race.seen
  /-- with the provenance they came with first -/
  provenance : ∀ x ∈ calls (actions t), (items t).lookup x.1 = some x.2
  /-- a probe that was called is running, or it ended -/
  running : ((calls (actions t)).map Prod.fst).Perm ((outcomes t).map Prod.fst ++ race.running)
  bounded : race.running.length ≤ CONCURRENT_PROBES
  /-- what passed is yielded, in the order of completion -/
  yields : yields (actions t) = passed (outcomes t)
  /-- what ended is recorded -/
  recorded : race.cache.isSome → records (actions t) = outcomes t
  recordedFirst : race.cache.isSome → RecordedFirst (actions t)
  /-- the stream ends after everything else -/
  finished : race.finished = true → race.exhausted = true ∧ race.running = []

/-! ## One event -/

section Step

variable {t : History Hash EndpointId} {race race' : Race Hash EndpointId} {hash : Hash}
  {x : (Instant × Event Hash EndpointId) × List (Action EndpointId)} {provider : EndpointId}
  {provenance : Provenance} {latency : Option ℕ} {now : Instant}
  {log new : List (Action EndpointId)}

omit [DecidableEq Hash] [DecidableEq EndpointId]

@[simp] theorem items_concat : items (t ++ [x]) = items t ++ x.1.2.item.toList := by
  rw [items, List.filterMap_append]
  cases h : x.1.2.item <;> simp [items, h]

@[simp] theorem outcomes_concat : outcomes (t ++ [x]) = outcomes t ++ x.1.2.outcome.toList := by
  rw [outcomes, List.filterMap_append]
  cases h : x.1.2.outcome <;> simp [outcomes, h]

@[simp] theorem actions_concat : actions (t ++ [x]) = actions t ++ x.2 := by
  rw [actions, List.flatMap_append, List.flatMap_singleton, actions]

@[simp] theorem calls_append : calls (log ++ new) = calls log ++ calls new :=
  List.filterMap_append

@[simp] theorem records_append : records (log ++ new) = records log ++ records new :=
  List.filterMap_append

@[simp] theorem yields_append : yields (log ++ new) = yields log ++ yields new :=
  List.filterMap_append

@[simp] theorem passed_append {a b : List (EndpointId × Option ℕ)} :
    passed (a ++ b) = passed a ++ passed b :=
  List.filterMap_append

variable [DecidableEq EndpointId]

/-- What is done next yields nothing that was not recorded. -/
theorem RecordedFirst.append (h : RecordedFirst log)
    (hnew : ∀ before provider after, new = before ++ .yielded provider :: after →
      ∃ latency, (records (log ++ before)).filter (fun x => x.1 = provider) =
        [(provider, some latency)]) :
    RecordedFirst (log ++ new) := by
  intro before provider after heq
  rcases List.append_eq_append_iff.mp heq with ⟨later, rfl, htail⟩ | ⟨middle, hlog, htail⟩
  · exact hnew later provider after htail
  · cases middle with
    | nil =>
      rw [List.append_nil] at hlog
      rw [← hlog, ← List.append_nil log]
      exact hnew [] provider after htail.symm
    | cons action middle =>
      obtain ⟨rfl, -⟩ := List.cons.inj htail
      exact h before provider middle hlog

/-- Nothing is done, but that the stream may end. -/
theorem Racing.quiet (h : Racing t race) (hitem : x.1.2.item = none)
    (houtcome : x.1.2.outcome = none) (hdone : x.2 = [] ∨ x.2 = [.ended])
    (hseen : race'.seen = race.seen) (hrunning : race'.running = race.running)
    (hcache : race'.cache.isSome → race.cache.isSome)
    (hfinished : race'.finished = true → race'.exhausted = true ∧ race'.running = []) :
    Racing (t ++ [x]) race' := by
  have hcalls : calls x.2 = [] := by rcases hdone with heq | heq <;> rw [heq] <;> rfl
  have hrecords : records x.2 = [] := by rcases hdone with heq | heq <;> rw [heq] <;> rfl
  have hyields : ContentDiscovery.Race.yields x.2 = [] := by
    rcases hdone with heq | heq <;> rw [heq] <;> rfl
  refine ⟨?_, ?_, ?_, ?_, ?_, hrunning ▸ h.bounded, ?_, fun hc => ?_, fun hc => ?_, hfinished⟩
  · simpa [hitem, hseen] using h.seen
  · simpa [hcalls] using h.nodup
  · simpa [hcalls, hseen] using h.called
  · simpa [hcalls, hitem] using h.provenance
  · simpa [hcalls, houtcome, hrunning] using h.running
  · simpa [hyields, houtcome] using h.yields
  · simpa [hrecords, houtcome] using h.recorded (hcache hc)
  · rw [actions_concat]
    refine (h.recordedFirst (hcache hc)).append fun before provider after heq => ?_
    have hmem : Action.yielded provider ∈ x.2 := by rw [heq]; simp
    rcases hdone with hnil | hended
    · rw [hnil] at hmem
      cases hmem
    · rw [hended, List.mem_singleton] at hmem
      cases hmem

/-- A candidate arrives. -/
theorem Racing.arrive (h : Racing t race)
    (hroom : race.running.length < CONCURRENT_PROBES) (hopen : race.finished = false)
    (hx : x.1.2 = .candidate provider provenance)
    (hdone : x.2 = (race.arrive provider provenance).2) :
    Racing (t ++ [x]) (race.arrive provider provenance).1 := by
  have hitem : x.1.2.item = some (provider, provenance) := by rw [hx]; rfl
  have houtcome : x.1.2.outcome = none := by rw [hx]; rfl
  rw [Race.arrive] at hdone ⊢
  split
  · -- a candidate that is known is dropped
    rename_i hseen
    rw [if_pos hseen] at hdone
    refine ⟨fun p => ?_, ?_, ?_, fun y hy => ?_, ?_, h.bounded, ?_, fun hc => ?_, fun hc => ?_, ?_⟩
    · rw [items_concat, hitem, Option.toList_some, List.map_append, List.mem_append, h.seen p]
      simp only [List.map_cons, List.map_nil, List.mem_singleton]
      refine ⟨.inl, ?_⟩
      rintro (hp | rfl)
      · exact hp
      · exact (h.seen p).mp hseen
    · simpa [hdone] using h.nodup
    · simpa [hdone] using h.called
    · rw [actions_concat, hdone, List.append_nil] at hy
      rw [items_concat, List.lookup_append, h.provenance y hy, Option.some_or]
    · simpa [hdone, houtcome] using h.running
    · simpa [hdone, houtcome] using h.yields
    · simpa [hdone, houtcome] using h.recorded hc
    · simpa [hdone] using h.recordedFirst hc
    · exact h.finished
  · -- a new one is probed
    rename_i hnew
    rw [if_neg hnew] at hdone
    have hcalls : calls x.2 = [(provider, provenance)] := by rw [hdone]; rfl
    have hrecords : records x.2 = [] := by rw [hdone]; rfl
    have hyields : ContentDiscovery.Race.yields x.2 = [] := by rw [hdone]; rfl
    have hfresh : provider ∉ (calls (actions t)).map Prod.fst := fun hp => hnew ((h.called _).mp hp)
    refine ⟨fun p => ?_, ?_, fun p => ?_, fun y hy => ?_, ?_, ?_, ?_, fun hc => ?_, fun hc => ?_,
      ?_⟩
    · rw [items_concat, hitem, Option.toList_some, List.map_append, List.mem_append, ← h.seen p,
        Finset.mem_insert, or_comm]
      simp
    · rw [actions_concat, calls_append, hcalls, List.map_append, List.map_singleton,
        List.nodup_append]
      refine ⟨h.nodup, List.nodup_singleton _, fun p hp q hq => ?_⟩
      rw [List.mem_singleton.mp hq]
      exact ne_of_mem_of_not_mem hp hfresh
    · rw [actions_concat, calls_append, hcalls, List.map_append, List.mem_append, h.called p,
        Finset.mem_insert, or_comm]
      simp
    · rw [actions_concat, calls_append, hcalls, List.mem_append, List.mem_singleton] at hy
      rw [items_concat, hitem, List.lookup_append]
      rcases hy with hy | rfl
      · rw [h.provenance y hy, Option.some_or]
      · have hnone : (items t).lookup provider = none := by
          refine List.lookup_eq_none_iff.mpr fun y hy => bne_iff_ne.mpr fun heq => hnew ?_
          exact (h.seen _).mpr (List.mem_map.mpr ⟨y, hy, heq.symm⟩)
        simp [hnone]
    · rw [actions_concat, calls_append, hcalls, outcomes_concat, houtcome, List.map_append,
        Option.toList_none, List.append_nil, ← List.append_assoc]
      exact h.running.append_right _
    · rw [List.length_append, List.length_singleton]
      exact hroom
    · simpa [hyields, houtcome] using h.yields
    · simpa [hrecords, houtcome] using h.recorded hc
    · rw [actions_concat]
      refine (h.recordedFirst hc).append fun before p after heq => ?_
      have hmem : Action.yielded p ∈ x.2 := by rw [heq]; simp
      rw [hdone, List.mem_singleton] at hmem
      cases hmem
    · exact fun hf => absurd hf (by simp [hopen])

variable [DecidableEq Hash]

/-- A probe ends. -/
theorem Racing.complete (h : Racing t race) (hopen : race.finished = false)
    (hrunning : provider ∈ race.running) (hx : x.1.2 = .probed provider latency)
    (hdone : x.2 = (race.complete hash provider latency now).2) :
    Racing (t ++ [x]) (race.complete hash provider latency now).1 := by
  have hitem : x.1.2.item = none := by rw [hx]; rfl
  have houtcome : x.1.2.outcome = some (provider, latency) := by rw [hx]; rfl
  have hcalls : calls x.2 = [] := by
    rw [hdone, Race.complete]
    cases race.cache <;> cases latency <;> rfl
  have hseen : (race.complete hash provider latency now).1.seen = race.seen := rfl
  have hyields : ContentDiscovery.Race.yields x.2 = passed [(provider, latency)] := by
    rw [hdone, Race.complete]
    cases race.cache <;> cases latency <;> rfl
  have hcached : (race.complete hash provider latency now).1.cache.isSome → race.cache.isSome := by
    rw [Race.complete]
    simp
  have hrecords (hc : race.cache.isSome) : records x.2 = [(provider, latency)] := by
    obtain ⟨cache, hcache⟩ := Option.isSome_iff_exists.mp hc
    rw [hdone, Race.complete, hcache]
    cases latency <;> rfl
  -- it is running, so no probe of it has ended
  have hended : provider ∉ (outcomes t).map Prod.fst := by
    intro hmem
    have hnodup := h.running.nodup_iff.mp h.nodup
    exact (List.nodup_append.mp hnodup).2.2 provider hmem provider hrunning rfl
  refine ⟨fun p => ?_, ?_, fun p => ?_, ?_, ?_, ?_, ?_, fun hc => ?_, fun hc => ?_, fun hf => ?_⟩
  · simpa [hitem, hseen] using h.seen p
  · simpa [hcalls] using h.nodup
  · simpa [hcalls, hseen] using h.called p
  · simpa [hcalls, hitem] using h.provenance
  · rw [actions_concat, calls_append, hcalls, List.append_nil, outcomes_concat, houtcome,
      Option.toList_some, List.map_append, List.append_assoc]
    exact h.running.trans ((List.perm_cons_erase hrunning).append_left _)
  · exact (List.length_erase_le ..).trans h.bounded
  · rw [actions_concat, yields_append, hyields, outcomes_concat, houtcome, passed_append, h.yields]
    rfl
  · rw [actions_concat, records_append, hrecords (hcached hc), outcomes_concat, houtcome,
      h.recorded (hcached hc)]
    rfl
  · rw [actions_concat]
    refine (h.recordedFirst (hcached hc)).append fun before p after heq => ?_
    obtain ⟨cache, hcache⟩ := Option.isSome_iff_exists.mp (hcached hc)
    have hnone : (outcomes t).filter (fun y => y.1 = provider) = [] := by
      refine List.filter_eq_nil_iff.mpr fun y hy => ?_
      rw [decide_eq_true_eq]
      exact fun heq => hended (List.mem_map.mpr ⟨y, hy, heq⟩)
    rw [hdone, Race.complete, hcache] at heq
    cases latency with
    | none =>
      obtain ⟨rfl, hbad⟩ | ⟨_, -, hbad⟩ := List.cons_eq_append_iff.mp heq
      · cases hbad
      · simp at hbad
    | some latency =>
      obtain ⟨-, hbad⟩ | ⟨tail, rfl, htail⟩ := List.cons_eq_append_iff.mp heq
      · cases hbad
      -- the endpoint is yielded right after it was confirmed
      obtain ⟨rfl, hyield⟩ | ⟨_, -, hbad⟩ := List.cons_eq_append_iff.mp htail
      · cases hyield
        refine ⟨latency, ?_⟩
        rw [records_append, h.recorded (hcached hc), List.filter_append, hnone]
        simp [records, record]
      · simp at hbad
  · exact absurd hf (by simp [Race.complete, hopen])

theorem Racing.step (h : Racing t race) {e : Event Hash EndpointId} (hen : race.Enabled e) :
    Racing (t ++ [((now, e), (race.step hash (now, e)).2)]) (race.step hash (now, e)).1 := by
  cases e with
  | candidate provider provenance =>
    obtain ⟨hopen, -, hroom⟩ := hen
    exact h.arrive hroom hopen rfl rfl
  | exhausted =>
    obtain ⟨hopen, -, -⟩ := hen
    exact h.quiet rfl rfl (.inl rfl) rfl rfl id fun hf => absurd (hopen.symm.trans hf) (by decide)
  | probed provider latency =>
    obtain ⟨hopen, hrunning⟩ := hen
    exact h.complete hopen hrunning rfl rfl
  | finished =>
    obtain ⟨-, hexhausted, hnone⟩ := hen
    exact h.quiet rfl rfl (.inr rfl) rfl rfl id fun _ => ⟨hexhausted, hnone⟩
  | cache cache =>
    refine h.quiet rfl rfl (.inl rfl) rfl rfl ?_ h.finished
    simp [Race.step]

end Step

variable {t : History Hash EndpointId} {race : Race Hash EndpointId} {hash : Hash}

theorem racing_of_run (h : (machine hash).Run t race) : Racing t race := by
  refine h.invariant (fun race hinit => ?_) fun t race x _ hen hracing => hracing.step hen
  obtain ⟨hseen, hrunning, -, hfinished⟩ := hinit
  refine ⟨fun p => ?_, List.nodup_nil, fun p => ?_, fun x hx => (nomatch hx), ?_, ?_, rfl,
    fun _ => rfl, fun _ before p after heq => ?_, fun hf => ?_⟩
  · simp [hseen, items]
  · simp [hseen, actions, calls]
  · simp [hrunning, actions, calls, outcomes]
  · simp [hrunning]
  · simp [actions] at heq
  · simp [hfinished] at hf

omit [DecidableEq Hash] [DecidableEq EndpointId] in
/-- A stream that has not ended goes on: it waits for a candidate or a probe, or ends. -/
theorem progress (hopen : race.finished = false) :
    race.Enabled .exhausted ∨ race.Enabled .finished ∨
      ∃ provider, ∀ latency, race.Enabled (.probed provider latency) := by
  cases hrunning : race.running with
  | nil =>
    cases hexhausted : race.exhausted with
    | false => exact .inl ⟨hopen, hexhausted, hrunning ▸ Nat.zero_lt_succ _⟩
    | true => exact .inr (.inl ⟨hopen, hexhausted, hrunning⟩)
  | cons provider rest =>
    exact .inr (.inr ⟨provider, fun _ => ⟨hopen, by rw [hrunning]; exact List.mem_cons_self⟩⟩)

omit [DecidableEq Hash] in
theorem Racing.nodup_outcomes (h : Racing t race) : ((outcomes t).map Prod.fst).Nodup :=
  (List.nodup_append.mp (h.running.nodup_iff.mp h.nodup)).1

omit [DecidableEq EndpointId] in
theorem nodup_passed {l : List (EndpointId × Option ℕ)} (h : (l.map Prod.fst).Nodup) :
    (passed l).Nodup := by
  refine h.sublist ?_
  induction l with
  | nil => exact List.Sublist.refl _
  | cons x l ih =>
    rw [List.map_cons, List.nodup_cons] at h
    obtain ⟨provider, _ | latency⟩ := x
    · exact (ih h.2).cons provider
    · exact (ih h.2).cons_cons provider

/-- Every candidate is probed once, with the provenance it came with first, and at most three
probes run. What passes is yielded once, in the order of completion, and nothing else is. With a
cache, what ends is recorded once, and before it is yielded. A stream that has ended has probed
all candidates to the end, and one that has not goes on. -/
theorem race_probes_once (h : (machine hash).Run t race) :
    (((calls (actions t)).map Prod.fst).Nodup ∧
      (∀ p, p ∈ (calls (actions t)).map Prod.fst ↔ p ∈ (items t).map Prod.fst) ∧
      ∀ x ∈ calls (actions t), (items t).lookup x.1 = some x.2) ∧
    (((calls (actions t)).map Prod.fst).Perm ((outcomes t).map Prod.fst ++ race.running) ∧
      race.running.length ≤ 3) ∧
    (yields (actions t) = passed (outcomes t) ∧ (yields (actions t)).Nodup) ∧
    (race.cache.isSome → records (actions t) = outcomes t ∧
      ((records (actions t)).map Prod.fst).Nodup ∧ RecordedFirst (actions t)) ∧
    (race.finished = true →
      ∀ p, p ∈ (items t).map Prod.fst ↔ p ∈ (outcomes t).map Prod.fst) ∧
    (race.finished = false → race.Enabled .exhausted ∨ race.Enabled .finished ∨
      ∃ provider, ∀ latency, race.Enabled (.probed provider latency)) := by
  have hracing := racing_of_run h
  have hnodup := hracing.nodup_outcomes
  have hcalled (p : EndpointId) :
      p ∈ (calls (actions t)).map Prod.fst ↔ p ∈ (items t).map Prod.fst :=
    (hracing.called p).trans (hracing.seen p)
  refine ⟨⟨hracing.nodup, hcalled, hracing.provenance⟩, ⟨hracing.running, hracing.bounded⟩,
    ⟨hracing.yields, hracing.yields ▸ nodup_passed hnodup⟩, fun hc => ?_, fun hf p => ?_,
    progress⟩
  · have hrecorded := hracing.recorded hc
    exact ⟨hrecorded, hrecorded ▸ hnodup, hracing.recordedFirst hc⟩
  · have hperm := hracing.running
    rw [(hracing.finished hf).2, List.append_nil] at hperm
    rw [← hcalled, hperm.mem_iff]

namespace Sample

/-- A stream that has not begun, with an empty cache. -/
def start : Race ℕ ℕ := ⟨∅, [], false, false, some .default⟩

/-- A candidate that comes twice, and one whose probe fails. -/
def events : List (Instant × Event ℕ ℕ) :=
  [(0, .candidate 7 (.Verified ⟨0, 50⟩)), (1, .candidate 7 .Discovered),
    (2, .candidate 8 .Linked), (3, .exhausted), (4, .probed 8 none), (5, .probed 7 (some 5)),
    (6, .finished)]

end Sample

/-- The endpoint that passes is yielded once, after it was confirmed. -/
theorem race_probes_once_sample :
    actions ((machine 1).exec Sample.start Sample.events).1 =
      [.probe 7 (.Verified ⟨0, 50⟩), .probe 8 .Linked, .forget 8, .confirm 7 5, .yielded 7,
        .ended] ∧
    RecordedFirst (actions ((machine 1).exec Sample.start Sample.events).1) := by
  have hstart : (machine 1).Run [] Sample.start := .start ⟨rfl, rfl, rfl, rfl⟩
  have hevents : (machine 1).Follows [] Sample.start Sample.events :=
    ⟨by decide, by decide, by decide, by decide, by decide, by decide, by decide, trivial⟩
  have hrun := hstart.follows hevents
  exact ⟨rfl, ((race_probes_once hrun).2.2.2.1 rfl).2.2⟩

end Race

end ContentDiscovery
