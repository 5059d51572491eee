import ContentDiscovery.Announcements
import ContentDiscovery.Publisher

/-!
# The books of the publisher

What holds of the publisher in every run, whoever makes a step when. As the keeper and the workers
only make steps of the keeper's machine, a run of the publisher is a run of that machine
(`keeper_run`). `Books` says how the workers and the activity follow the snapshot of the loop, and
that a snapshot which is outdated is noticed; `Reports` where the successes that the loop knows of
come from.
-/

namespace ContentDiscovery

namespace IndexKeeper

variable {ι : Type} [DecidableEq ι] {s : State ι} {t : List (Event ι × Output)}

/-- Only the activity is set from outside. -/
theorem active_step {e : Event ι} (h : ∀ active, e ≠ .setActive active) :
    (s.step e).1.active = s.active := by
  have hreport : ∀ publicAddr, (s.report publicAddr).active = s.active := by
    intro publicAddr
    rw [State.report]
    split <;> rfl
  cases e with
  | setActive active => exact absurd rfl (h active)
  | address publicAddr =>
    simp only [State.step, State.afterAddress]
    split <;> rfl
  | published result =>
    simp only [State.step, State.afterPublish]
    split
    · split <;> rfl
    · rfl
  | wake cause => cases cause <;> rfl
  | closest i result =>
    simp only [State.step]
    split
    · exact hreport _
    · rfl
  | check i =>
    simp only [State.step]
    split
    · split <;> rfl
    · rfl
  | changed i jitter =>
    simp only [State.step]
    split
    · split <;> rfl
    · rfl
  | _ => rfl

/-- A record is never taken back. -/
theorem isSome_record_step {e : Event ι} (hen : s.Enabled e) (h : s.record.isSome) :
    (s.step e).1.record.isSome := by
  cases record_step hen with
  | frame hrecord =>
    rw [hrecord]
    exact h
  | address publicAddr hrecord =>
    rw [hrecord]
    exact h
  | published r q hpc hrecord =>
    rw [hrecord]
    rfl

/-- An announcement goes ahead only if there is a record. -/
theorem announcing_step {e : Event ι} {i : ι} {publicAddr : Option SocketAddrV4}
    (h : (s.step e).1.announcements i = .announcing publicAddr) :
    s.announcements i = .announcing publicAddr ∨ s.record.isSome := by
  have hmove : ∀ (s : State ι) (j : ι) (a : Announcement),
      (s.move j a).announcements i = .announcing publicAddr →
        s.announcements i = .announcing publicAddr ∨ a = .announcing publicAddr := by
    intro s j a h
    change Function.update s.announcements j a i = _ at h
    by_cases hij : i = j
    · rw [hij, Function.update_self] at h
      exact .inr h
    · rw [Function.update_of_ne hij] at h
      exact .inl h
  have hother : ∀ (j : ι) (a : Announcement), a ≠ .announcing publicAddr →
      (s.move j a).announcements i = .announcing publicAddr →
        s.announcements i = .announcing publicAddr ∨ s.record.isSome :=
    fun j a ha h => .inl ((hmove s j a h).resolve_right ha)
  have hreport : ∀ publicAddr, (s.report publicAddr).announcements = s.announcements := by
    intro publicAddr
    rw [State.report]
    split <;> rfl
  cases e with
  | address publicAddr =>
    simp only [State.step, State.afterAddress] at h
    split at h <;> exact .inl h
  | published result =>
    simp only [State.step, State.afterPublish] at h
    split at h
    · split at h <;> exact .inl h
    · exact .inl h
  | wake cause => cases cause <;> exact .inl h
  | announce j => exact hother j .pacing (by simp) h
  | paced j => exact hother j (.finding _) (by simp) h
  | closest j result =>
    simp only [State.step] at h
    split at h
    · have hreported := (hmove _ j _ h).resolve_right (by simp)
      rw [hreport] at hreported
      exact .inl hreported
    · exact hother j .idle (by simp) h
  | check j =>
    simp only [State.step] at h
    split at h
    · split at h
      · rename_i hlive
        obtain ⟨record, hrecord, -⟩ := hlive
        exact .inr (Option.isSome_of_mem hrecord)
      · exact hother j (.blocked _ _ _) (by simp) h
    · exact .inl h
  | changed j jitter =>
    simp only [State.step] at h
    split at h
    · split at h
      · exact hother j (.restarting _) (by simp) h
      · exact hother j .pacing (by simp) h
    · exact .inl h
  | restart j => exact hother j .pacing (by simp) h
  | announced j => exact hother j .idle (by simp) h
  | loop => exact .inl h
  | activated => exact .inl h
  | closed => exact .inl h
  | tick d => exact .inl h
  | setActive active => exact .inl h
  | setServers servers => exact .inl h

omit [DecidableEq ι] in
/-- `publish` returns a socket under which a server stored the record. -/
theorem State.Enabled.mapping {q : Publication} (hen : s.Enabled (.published (some q))) :
    q.mapping ∈ q.stored.map Prod.snd := by
  obtain ⟨r, hpc⟩ := hen.publishing
  simp only [State.Enabled, hpc] at hen
  exact (hen q rfl).1

omit [DecidableEq ι] in
/-- `announce` returns to the announcement that called it. -/
theorem State.enabled_announced {i : ι} {publicAddr : Option SocketAddrV4}
    (hi : s.announcements i = .announcing publicAddr) : s.Enabled (.announced i) := by
  simp only [State.Enabled, hi]

/-- Nothing is announced without a record. -/
theorem isSome_record_of_announcing (h : (machine ι).Run t s) {i : ι}
    {publicAddr : Option SocketAddrV4} (hi : s.announcements i = .announcing publicAddr) :
    s.record.isSome := by
  refine h.invariant (I := fun _ s => ∀ i publicAddr,
    s.announcements i = .announcing publicAddr → s.record.isSome) ?_ ?_ i publicAddr hi
  · rintro s ⟨-, -, -, -, -, -, hidle⟩ i publicAddr hi
    rw [hidle i] at hi
    cases hi
  · intro t s e hrun hen ih i publicAddr hi
    refine isSome_record_step hen ?_
    exact (announcing_step hi).elim (ih i publicAddr) id

end IndexKeeper

namespace Publisher

open IndexKeeper (Publication)

variable {Id : Type} [DecidableEq Id] {s : State Id} {t : List (Event Id × Output Id)}
  {hash : Id} {entries : HashSet Id} {n : ℕ}

/-! ## The keeper's machine -/

/-- The step of the keeper's machine that a step shows. -/
def keeperStep (x : Event Id × Output Id) :
    Option (IndexKeeper.Event (TaskId Id) × IndexKeeper.Output) :=
  match x.2 with
  | .keeper e out => some (e, out)
  | _ => none

/-- A step makes one step of the keeper's machine, or it leaves the keeper alone. -/
theorem step_keeper {e : Event Id} (hen : s.Enabled e) :
    (∃ e', s.keeper.Enabled e' ∧ (s.step e).2 = .keeper e' (s.keeper.step e').2 ∧
      (s.step e).1.keeper = (s.keeper.step e').1) ∨
    keeperStep (e, (s.step e).2) = none ∧ (s.step e).1.keeper = s.keeper := by
  cases e with
  | add hash =>
    right
    simp only [State.step, State.modify]
    split <;> exact ⟨rfl, rfl⟩
  | remove hash =>
    right
    simp only [State.step, State.modify]
    split <;> exact ⟨rfl, rfl⟩
  | manage =>
    obtain ⟨entries, hpc⟩ := hen
    simp only [State.step, hpc]
    split
    · exact .inl ⟨.setActive (decide (entries ≠ ∅)), trivial, rfl, rfl⟩
    · exact .inr ⟨rfl, rfl⟩
  | publish =>
    obtain ⟨entries, hpc⟩ := hen
    simp only [State.step, hpc]
    split <;> exact .inr ⟨rfl, rfl⟩
  | received =>
    right
    simp only [State.step]
    split <;> exact ⟨rfl, rfl⟩
  | keeper e => exact .inl ⟨e, hen.1, rfl, rfl⟩
  | announced i ok =>
    refine .inl ⟨.announced i, hen.1, ?_⟩
    cases ok <;> exact ⟨rfl, rfl⟩
  | notify => exact .inr ⟨rfl, rfl⟩
  | snapshot => exact .inr ⟨rfl, rfl⟩
  | notified => exact .inr ⟨rfl, rfl⟩
  | changed => exact .inr ⟨rfl, rfl⟩
  | stopped => exact .inr ⟨rfl, rfl⟩

/-- A run of the publisher is a run of the keeper and its announcements. -/
theorem keeper_run (h : (machine Id).Run t s) :
    (IndexKeeper.machine (TaskId Id)).Run (t.filterMap keeperStep) s.keeper := by
  refine h.invariant (I := fun t s =>
    (IndexKeeper.machine (TaskId Id)).Run (t.filterMap keeperStep) s.keeper) ?_ ?_
  · rintro s ⟨-, -, -, -, hkeeper, -⟩
    exact .start hkeeper
  · intro t s e hrun hen ih
    rw [List.filterMap_append]
    rcases step_keeper hen with ⟨e', hen', hout, hkeeper⟩ | ⟨hout, hkeeper⟩
    · have hstep : [(e, (s.step e).2)].filterMap keeperStep = [(e', (s.keeper.step e').2)] := by
        rw [List.filterMap_cons, keeperStep, hout]
        rfl
      change Machine.Run _ (_ ++ [(e, (s.step e).2)].filterMap keeperStep) (s.step e).1.keeper
      rw [hstep, hkeeper]
      exact ih.step hen'
    · have hstep : [(e, (s.step e).2)].filterMap keeperStep = [] := by
        rw [List.filterMap_cons, hout]
        rfl
      change Machine.Run _ (_ ++ [(e, (s.step e).2)].filterMap keeperStep) (s.step e).1.keeper
      rw [hstep, hkeeper, List.append_nil]
      exact ih

/-! ## The workers and the activity -/

/-- The snapshot of this iteration. -/
def Pc.snapshot : Pc Id → Option (HashSet Id)
  | .taken entries | .managed entries | .select entries => some entries
  | .head | .returned => none

/-- The snapshot that the workers follow. -/
def Pc.staffed : Pc Id → Option (HashSet Id)
  | .managed entries | .select entries => some entries
  | .head | .taken _ | .returned => none

/-- The tasks: those whose handles are kept are the workers. -/
structure Tasks (s : State Id) : Prop where
  /-- a worker is a task that is not aborted -/
  workers : ∀ hash n, s.workers hash = some n ↔ s.Spawned (hash, n) ∧ s.aborted (hash, n) = false
  /-- only what was spawned is aborted -/
  aborted : ∀ i, s.aborted i = true → s.Spawned i

/-- How the loop, its workers and the activity follow the entries. -/
structure Books (s : State Id) : Prop where
  /-- a snapshot that is outdated is noticed -/
  noticed : ∀ entries, s.pc.snapshot = some entries → entries ≠ s.entries →
    s.permit = true ∨ 0 < s.calls
  /-- the workers are the tasks that are not aborted -/
  tasks : Tasks s
  /-- the workers and the activity follow the snapshot -/
  staffed : ∀ entries, s.pc.staffed = some entries →
    (∀ hash, (s.workers hash).isSome ↔ hash ∈ entries) ∧ (s.keeper.active = true ↔ entries ≠ ∅)

/-- A handle that is dropped aborts its task, and a new worker is a new task. -/
theorem Tasks.staff (h : Tasks s) (entries : HashSet Id) : Tasks (s.staff entries) := by
  have hfresh : ∀ hash, s.aborted (hash, s.spawned hash) = false := by
    intro hash
    rw [← Bool.not_eq_true]
    exact fun haborted => Nat.lt_irrefl _ (h.aborted _ haborted)
  refine ⟨fun hash n => ?_, fun i hi => ?_⟩
  · have hworkers := h.workers hash n
    simp only [State.staff, State.Spawned, Bool.or_eq_false_iff, decide_eq_false_iff_not]
      at hworkers ⊢
    by_cases hmem : hash ∈ entries
    · cases hworker : s.workers hash with
      | some m =>
        rw [hworker] at hworkers
        simpa [hmem] using hworkers
      | none =>
        -- the new task is the only one that is not aborted
        simp only [hmem, if_true, Option.getD_none, Option.some.injEq,
          not_true_eq_false, false_and, not_false_eq_true, and_true]
        constructor
        · rintro rfl
          exact ⟨Nat.lt_succ_self _, hfresh hash⟩
        · rintro ⟨hlt, haborted⟩
          by_contra hne
          have hworker' := hworkers.mpr ⟨by omega, haborted⟩
          rw [hworker] at hworker'
          cases hworker'
    · simp only [hmem, if_false, false_and, reduceCtorEq, not_false_eq_true, true_and, false_iff]
      rintro ⟨hlt, haborted, hnot⟩
      exact hnot (hworkers.mpr ⟨hlt, haborted⟩)
  · have hspawned : s.Spawned i := by
      rcases Bool.or_eq_true_iff.mp hi with haborted | hdropped
      · exact h.aborted i haborted
      · exact ((h.workers i.1 i.2).mp (of_decide_eq_true hdropped).2).1
    refine Nat.lt_of_lt_of_le hspawned ?_
    simp only [State.staff]
    split
    · exact Nat.le_succ _
    · exact le_rfl

theorem isSome_staff (s : State Id) (entries : HashSet Id) (hash : Id) :
    ((s.staff entries).workers hash).isSome ↔ hash ∈ entries := by
  simp only [State.staff]
  split
  · rename_i hmem
    exact iff_of_true rfl hmem
  · rename_i hmem
    exact iff_of_false Bool.false_ne_true hmem

/-- An entry is added or removed by a call that will notify the loop. -/
theorem Books.modify (h : Books s) (entries : HashSet Id) : Books (s.modify entries).1 := by
  rw [State.modify]
  split
  · exact h
  · exact ⟨fun _ _ _ => .inr (Nat.succ_pos _), ⟨h.tasks.workers, h.tasks.aborted⟩, h.staffed⟩

omit [DecidableEq Id] in
/-- The loop goes back to its head. -/
theorem Books.head (h : Books s) {s' : State Id} (hpc : s'.pc = .head)
    (hworkers : s'.workers = s.workers) (hspawned : s'.spawned = s.spawned)
    (haborted : s'.aborted = s.aborted) : Books s' := by
  refine ⟨fun entries hentries => ?_, ⟨?_, ?_⟩, fun entries hentries => ?_⟩
  · rw [hpc] at hentries
    cases hentries
  · simp only [State.Spawned, hworkers, hspawned, haborted]
    exact h.tasks.workers
  · simp only [State.Spawned, hspawned, haborted]
    exact h.tasks.aborted
  · rw [hpc] at hentries
    cases hentries

/-- The keeper and the workers leave the books alone. -/
theorem Books.stepKeeper (h : Books s) {e : IndexKeeper.Event (TaskId Id)}
    (he : ∀ active, e ≠ .setActive active) : Books (s.stepKeeper e).1 := by
  refine ⟨h.noticed, ⟨h.tasks.workers, h.tasks.aborted⟩, fun entries hentries => ?_⟩
  have hactive : (s.stepKeeper e).1.keeper.active = s.keeper.active := IndexKeeper.active_step he
  rw [hactive]
  exact h.staffed entries hentries

/-- The loop staffs its snapshot, and the activity is whether there is an entry. -/
theorem Books.manage (h : Books s) (hpc : s.pc = .taken entries) : Books (s.step .manage).1 := by
  have hnoticed : entries ≠ s.entries → s.permit = true ∨ 0 < s.calls :=
    h.noticed entries (by rw [hpc]; rfl)
  have htasks := h.tasks.staff entries
  simp only [State.step, hpc]
  split
  · refine ⟨?_, ⟨htasks.workers, htasks.aborted⟩, ?_⟩
    · rintro _ ⟨⟩
      exact hnoticed
    · rintro _ ⟨⟩
      exact ⟨isSome_staff s entries, decide_eq_true_iff⟩
  · rename_i hactive
    refine ⟨?_, ⟨htasks.workers, htasks.aborted⟩, ?_⟩
    · rintro _ ⟨⟩
      exact hnoticed
    · rintro _ ⟨⟩
      refine ⟨isSome_staff s entries, ?_⟩
      change s.keeper.active = true ↔ entries ≠ ∅
      by_cases hempty : entries = ∅
      · rw [decide_eq_true hempty] at hactive
        exact iff_of_false hactive (not_not_intro hempty)
      · rw [decide_eq_false hempty, Bool.not_eq_false] at hactive
        exact iff_of_true hactive hempty

theorem Books.step (h : Books s) {e : Event Id} (hen : s.Enabled e) : Books (s.step e).1 := by
  cases e with
  | add hash => exact h.modify _
  | remove hash => exact h.modify _
  | notify =>
    exact ⟨fun _ _ _ => .inl rfl, ⟨h.tasks.workers, h.tasks.aborted⟩, h.staffed⟩
  | snapshot =>
    refine ⟨?_, ⟨h.tasks.workers, h.tasks.aborted⟩, nofun⟩
    rintro _ ⟨⟩ hne
    exact absurd rfl hne
  | manage =>
    obtain ⟨entries, hpc⟩ := hen
    exact h.manage hpc
  | publish =>
    obtain ⟨entries, hpc⟩ := hen
    have hnoticed := h.noticed entries (by rw [hpc]; rfl)
    have hstaffed := h.staffed entries (by rw [hpc]; rfl)
    simp only [State.step, hpc]
    split
    · refine ⟨?_, ⟨h.tasks.workers, h.tasks.aborted⟩, ?_⟩
      · rintro _ ⟨⟩
        exact hnoticed
      · rintro _ ⟨⟩
        exact hstaffed
    · refine ⟨?_, ⟨h.tasks.workers, h.tasks.aborted⟩, ?_⟩
      · rintro _ ⟨⟩
        exact hnoticed
      · rintro _ ⟨⟩
        exact hstaffed
  | notified => exact h.head rfl rfl rfl rfl
  | changed => exact h.head rfl rfl rfl rfl
  | received =>
    simp only [State.step]
    split
    · exact h
    · exact h.head rfl rfl rfl rfl
  | stopped =>
    have htasks := h.tasks.staff ∅
    exact ⟨nofun, ⟨htasks.workers, htasks.aborted⟩, nofun⟩
  | keeper e =>
    refine h.stepKeeper fun active heq => ?_
    obtain ⟨-, hmoves⟩ := hen
    rw [heq] at hmoves
    exact hmoves
  | announced i ok =>
    cases ok with
    | false => exact h.stepKeeper nofun
    | true =>
      have hsent : Books { s with messages := s.messages ++ [i.1] } :=
        ⟨h.noticed, ⟨h.tasks.workers, h.tasks.aborted⟩, h.staffed⟩
      exact hsent.stepKeeper nofun

theorem books_run (h : (machine Id).Run t s) : Books s := by
  refine h.invariant (I := fun _ s => Books s) ?_ fun t s e hrun hen ih => ih.step hen
  rintro s ⟨-, -, -, -, -, -, hpc, hworkers, hspawned, haborted, -⟩
  refine ⟨fun entries hentries => ?_, ⟨fun hash n => ?_, fun i hi => ?_⟩,
    fun entries hentries => ?_⟩
  · rw [hpc] at hentries
    cases hentries
  · rw [hworkers, State.Spawned, hspawned]
    exact iff_of_false nofun fun h => Nat.not_lt_zero _ h.1
  · rw [haborted] at hi
    cases hi
  · rw [hpc] at hentries
    cases hentries

/-! ## What was reported -/

/-- Where the successes that the loop knows of come from. -/
structure Reports (t : List (Event Id × Output Id)) (s : State Id) : Prop where
  /-- the snapshot is the last one that was taken -/
  taken : ∀ entries, s.pc.snapshot = some entries →
    Latest (· = .snapshot) (.snapshot, .snapshot entries) t
  /-- what was announced was received -/
  announced : ∀ hash ∈ s.announced, (.received, .received hash) ∈ t
  /-- what was received, or will be, was sent by a worker that succeeded -/
  sent : ∀ hash, (.received, .received hash) ∈ t ∨ hash ∈ s.messages →
    ∃ n out, (.announced (hash, n) true, out) ∈ t
  /-- a worker only succeeds if there is a record -/
  record : (∃ i out, (.announced i true, out) ∈ t) → s.keeper.record.isSome

/-- What a step leaves alone that reports nothing and takes no snapshot. -/
structure Quiet (s s' : State Id) : Prop where
  /-- the snapshot, unless it is dropped -/
  pc : s'.pc.snapshot = s.pc.snapshot ∨ s'.pc.snapshot = none
  /-- what was announced, unless it is not registered any more -/
  announced : s'.announced ⊆ s.announced
  /-- the messages -/
  messages : s'.messages = s.messages

/-- A step that takes a snapshot, or reports a success. -/
def Event.Tells : Event Id → Prop
  | .snapshot | .received | .announced _ true => True
  | _ => False

theorem quiet_step {e : Event Id} (hen : s.Enabled e) (h : ¬ e.Tells) : Quiet s (s.step e).1 := by
  have hmodify : ∀ entries, Quiet s (s.modify entries).1 := by
    intro entries
    rw [State.modify]
    split <;> exact ⟨.inl rfl, Finset.Subset.refl _, rfl⟩
  cases e with
  | add hash => exact hmodify _
  | remove hash => exact hmodify _
  | manage =>
    obtain ⟨entries, hpc⟩ := hen
    have hsame : (Pc.managed entries).snapshot = s.pc.snapshot := by
      rw [hpc]
      rfl
    simp only [State.step, hpc]
    split <;> exact ⟨.inl hsame, Finset.filter_subset _ _, rfl⟩
  | publish =>
    obtain ⟨entries, hpc⟩ := hen
    have hsame : (Pc.select entries).snapshot = s.pc.snapshot := by
      rw [hpc]
      rfl
    simp only [State.step, hpc]
    split <;> exact ⟨.inl hsame, Finset.Subset.refl _, rfl⟩
  | notified => exact ⟨.inr rfl, Finset.Subset.refl _, rfl⟩
  | changed => exact ⟨.inr rfl, Finset.Subset.refl _, rfl⟩
  | stopped => exact ⟨.inr rfl, Finset.filter_subset _ _, rfl⟩
  | notify => exact ⟨.inl rfl, Finset.Subset.refl _, rfl⟩
  | keeper e => exact ⟨.inl rfl, Finset.Subset.refl _, rfl⟩
  | announced i ok =>
    cases ok with
    | false => exact ⟨.inl rfl, Finset.Subset.refl _, rfl⟩
    | true => exact absurd trivial h
  | snapshot => exact absurd trivial h
  | received => exact absurd trivial h

/-- A record stays, whoever makes a step. -/
theorem isSome_record_publisher {e : Event Id} (hen : s.Enabled e)
    (h : s.keeper.record.isSome) : (s.step e).1.keeper.record.isSome := by
  rcases step_keeper hen with ⟨e', hen', -, hkeeper⟩ | ⟨-, hkeeper⟩
  · rw [hkeeper]
    exact IndexKeeper.isSome_record_step hen' h
  · rw [hkeeper]
    exact h

omit [DecidableEq Id] in
/-- What was sent stays so. -/
theorem Reports.sent_concat (h : Reports t s) (x : Event Id × Output Id)
    (hhash : (.received, .received hash) ∈ t ∨ hash ∈ s.messages) :
    ∃ n out, (.announced (hash, n) true, out) ∈ t ++ [x] := by
  obtain ⟨n, out, hsent⟩ := h.sent hash hhash
  exact ⟨n, out, List.mem_append_left _ hsent⟩

/-- A step that does not end an announcement adds no success. -/
theorem Reports.record_concat (h : Reports t s) {e : Event Id} (hen : s.Enabled e)
    (out : Output Id) (he : ∀ i, e ≠ .announced i true)
    (hmem : ∃ i out', (.announced i true, out') ∈ t ++ [(e, out)]) :
    (s.step e).1.keeper.record.isSome := by
  obtain ⟨i, out', hmem⟩ := hmem
  rcases List.mem_append.mp hmem with hold | hnew
  · exact isSome_record_publisher hen (h.record ⟨i, out', hold⟩)
  · exact absurd (Prod.mk.inj (List.mem_singleton.mp hnew)).1.symm (he i)

theorem Reports.quiet (h : Reports t s) {e : Event Id} (hen : s.Enabled e) (he : ¬ e.Tells)
    (out : Output Id) : Reports (t ++ [(e, out)]) (s.step e).1 := by
  obtain ⟨hpc, hannounced, hmessages⟩ := quiet_step hen he
  refine ⟨fun entries hentries => ?_, fun hash hhash => ?_, fun hash hhash => ?_,
    h.record_concat hen out fun i heq => he (heq ▸ trivial)⟩
  · rcases hpc with hpc | hpc
    · rw [hpc] at hentries
      have hsnapshot : e ≠ .snapshot := fun heq => he (heq ▸ trivial)
      exact (h.taken entries hentries).concat hsnapshot
    · rw [hpc] at hentries
      cases hentries
  · exact List.mem_append_left _ (h.announced hash (hannounced hhash))
  · rw [hmessages, List.mem_append, List.mem_singleton] at hhash
    refine h.sent_concat _ ?_
    rcases hhash with (hold | hnew) | hold
    · exact .inl hold
    · exact absurd (show e.Tells from (Prod.mk.inj hnew).1 ▸ trivial) he
    · exact .inr hold

/-- The loop receives a message. -/
theorem Reports.receive (h : Reports t s) {messages : List Id}
    (hmessages : s.messages = hash :: messages) (hen : s.Enabled .received) :
    Reports (t ++ [(.received, .received hash)]) (s.step .received).1 := by
  have hstep : (s.step .received).1 = { s with
      announced := insert hash s.announced, messages := messages, pc := .head } := by
    simp only [State.step, hmessages]
  have hrecord := h.record_concat hen (.received hash) fun i => nofun
  rw [hstep] at hrecord ⊢
  refine ⟨nofun, fun hash' hhash' => ?_, fun hash' hhash' => ?_, hrecord⟩
  · rcases Finset.mem_insert.mp hhash' with rfl | hold
    · exact List.mem_append_right _ List.mem_cons_self
    · exact List.mem_append_left _ (h.announced hash' hold)
  · refine h.sent_concat _ ?_
    rw [hmessages, List.mem_cons]
    rw [List.mem_append, List.mem_singleton] at hhash'
    rcases hhash' with (hold | hnew) | hold
    · exact .inl hold
    · exact .inr (.inl (Output.received.inj (Prod.mk.inj hnew).2))
    · exact .inr (.inr hold)

/-- A worker succeeds, and sends its infohash. -/
theorem Reports.succeed (hrun : (machine Id).Run t s) (h : Reports t s) {i : TaskId Id}
    (hen : s.Enabled (.announced i true)) (out : Output Id) :
    Reports (t ++ [(.announced i true, out)]) (s.step (.announced i true)).1 := by
  have hrecord : s.keeper.record.isSome := by
    obtain ⟨hannouncing, -⟩ := hen
    simp only [IndexKeeper.State.Enabled] at hannouncing
    split at hannouncing
    · rename_i publicAddr hi
      exact IndexKeeper.isSome_record_of_announcing (keeper_run hrun) hi
    · exact hannouncing.elim
  refine ⟨fun entries hentries => (h.taken entries hentries).concat (by simp),
    fun hash hhash => List.mem_append_left _ (h.announced hash hhash), fun hash hhash => ?_,
    fun _ => isSome_record_publisher hen hrecord⟩
  have hcases : ((.received, .received hash) ∈ t ∨ hash ∈ s.messages) ∨ hash = i.1 := by
    rcases hhash with hmem | hmem
    · rcases List.mem_append.mp hmem with hold | hnew
      · exact .inl (.inl hold)
      · cases List.mem_singleton.mp hnew
    · rcases List.mem_append.mp hmem with hold | hnew
      · exact .inl (.inr hold)
      · exact .inr (List.mem_singleton.mp hnew)
  rcases hcases with hold | rfl
  · exact h.sent_concat _ hold
  · exact ⟨i.2, out, List.mem_append_right _ List.mem_cons_self⟩

theorem Reports.step (hrun : (machine Id).Run t s) (h : Reports t s) {e : Event Id}
    (hen : s.Enabled e) : Reports (t ++ [(e, (s.step e).2)]) (s.step e).1 := by
  by_cases he : e.Tells
  swap
  · exact h.quiet hen he _
  cases e with
  | snapshot =>
    refine ⟨?_, fun hash hhash => List.mem_append_left _ (h.announced hash hhash),
      fun hash hhash => h.sent_concat _ ?_, h.record_concat hen _ fun i => nofun⟩
    · rintro _ ⟨⟩
      exact .self rfl
    · rcases hhash with hmem | hmem
      · rcases List.mem_append.mp hmem with hold | hnew
        · exact .inl hold
        · cases List.mem_singleton.mp hnew
      · exact .inr hmem
  -- the message that is received was sent, so a worker has succeeded
  | received =>
    obtain ⟨hash, messages, hmessages⟩ := List.exists_cons_of_ne_nil hen.2
    have hout : (s.step .received).2 = .received hash := by
      simp only [State.step, hmessages]
    rw [hout]
    exact h.receive hmessages hen
  | announced i ok =>
    cases ok with
    | false => cases he
    | true => exact h.succeed hrun hen _
  | _ => cases he

theorem reports_run (h : (machine Id).Run t s) : Reports t s := by
  refine h.invariant (I := fun t s => Reports t s) ?_ fun t s e hrun hen ih => ih.step hrun hen
  rintro s ⟨-, -, -, -, -, -, hpc, -, -, -, hannounced, hmessages, -⟩
  refine ⟨fun entries hentries => ?_, fun hash hhash => ?_, fun hash hhash => ?_, ?_⟩
  · rw [hpc] at hentries
    cases hentries
  · rw [hannounced] at hhash
    exact absurd hhash (Finset.notMem_empty hash)
  · rw [hmessages] at hhash
    rcases hhash with hhash | hhash <;> cases hhash
  · rintro ⟨i, out, hmem⟩
    cases hmem

/-! ## The entries -/

/-- The event is a call for an infohash. -/
def Event.Calls (hash : Id) (e : Event Id) : Prop := e = .add hash ∨ e = .remove hash

/-- Only calls change the entries, and only the loop sets `published`. -/
theorem step_frame (s : State Id) (e : Event Id) :
    ((∀ hash, ¬ e.Calls hash) → (s.step e).1.entries = s.entries) ∧
      (e ≠ .publish → (s.step e).1.published = s.published) := by
  have hmodify : ∀ entries, (s.modify entries).1.published = s.published := by
    intro entries
    rw [State.modify]
    split <;> rfl
  cases e with
  | add hash => exact ⟨fun h => absurd (.inl rfl) (h hash), fun _ => hmodify _⟩
  | remove hash => exact ⟨fun h => absurd (.inr rfl) (h hash), fun _ => hmodify _⟩
  | manage =>
    simp only [State.step]
    split
    · split <;> exact ⟨fun _ => rfl, fun _ => rfl⟩
    · exact ⟨fun _ => rfl, fun _ => rfl⟩
  | publish =>
    refine ⟨fun _ => ?_, fun hne => absurd rfl hne⟩
    simp only [State.step]
    split
    · split <;> rfl
    · rfl
  | received =>
    simp only [State.step]
    split <;> exact ⟨fun _ => rfl, fun _ => rfl⟩
  | announced i ok => cases ok <;> exact ⟨fun _ => rfl, fun _ => rfl⟩
  | notify => exact ⟨fun _ => rfl, fun _ => rfl⟩
  | snapshot => exact ⟨fun _ => rfl, fun _ => rfl⟩
  | notified => exact ⟨fun _ => rfl, fun _ => rfl⟩
  | changed => exact ⟨fun _ => rfl, fun _ => rfl⟩
  | stopped => exact ⟨fun _ => rfl, fun _ => rfl⟩
  | keeper e => exact ⟨fun _ => rfl, fun _ => rfl⟩

theorem mem_entries_step (s : State Id) (e : Event Id) (hash : Id) :
    hash ∈ (s.step e).1.entries ↔ e = .add hash ∨ hash ∈ s.entries ∧ e ≠ .remove hash := by
  have hmodify : ∀ entries, (s.modify entries).1.entries = entries := by
    intro entries
    rw [State.modify]
    split
    · rename_i heq
      exact heq.symm
    · rfl
  by_cases hcalls : ∃ hash', e.Calls hash'
  · obtain ⟨hash', rfl | rfl⟩ := hcalls
    · change hash ∈ (s.modify (insert hash' s.entries)).1.entries ↔ _
      rw [hmodify, Finset.mem_insert]
      simp [eq_comm]
    · change hash ∈ (s.modify (s.entries.erase hash')).1.entries ↔ _
      rw [hmodify, Finset.mem_erase]
      simp [eq_comm, and_comm]
  · rw [(step_frame s e).1 fun hash' h => hcalls ⟨hash', h⟩,
      or_iff_right fun heq => hcalls ⟨hash, .inl heq⟩]
    exact (and_iff_left fun heq => hcalls ⟨hash, .inr heq⟩).symm

/-- An infohash is registered if the last call for it added it. -/
theorem mem_entries_iff (h : (machine Id).Run t s) (hash : Id) :
    hash ∈ s.entries ↔ ∃ out, Latest (Event.Calls hash) (.add hash, out) t := by
  refine h.invariant (I := fun t s =>
    hash ∈ s.entries ↔ ∃ out, Latest (Event.Calls hash) (.add hash, out) t) ?_ ?_
  · rintro s ⟨hentries, -⟩
    rw [hentries]
    refine iff_of_false (Finset.notMem_empty hash) ?_
    rintro ⟨out, before, after, heq, -⟩
    cases before <;> cases heq
  · intro t s e hrun hen ih
    change hash ∈ (s.step e).1.entries ↔
      ∃ out, Latest (Event.Calls hash) (.add hash, out) (t ++ [(e, (s.step e).2)])
    rw [mem_entries_step, ih]
    simp only [latest_concat]
    constructor
    · rintro (rfl | ⟨⟨out, hlatest⟩, hne⟩)
      · exact ⟨_, .inl ⟨rfl, .inl rfl⟩⟩
      · by_cases hadd : e = .add hash
        · exact ⟨(s.step e).2, .inl ⟨by rw [hadd], .inl hadd⟩⟩
        · exact ⟨out, .inr ⟨hlatest, not_or.mpr ⟨hadd, hne⟩⟩⟩
    · rintro ⟨out, ⟨heq, -⟩ | ⟨hlatest, hcalls⟩⟩
      · exact .inl (Prod.mk.inj heq).1.symm
      · exact .inr ⟨⟨out, hlatest⟩, fun heq => hcalls (.inr heq)⟩

/-! ## What is published -/

/-- `published` is set with the snapshot that the loop manages. -/
theorem step_publish {value : Option SocketAddrV4} (hen : s.Enabled .publish)
    (hout : (s.step .publish).2 = .published entries value) :
    s.pc = .managed entries ∧ entries ≠ ∅ ∧ entries ⊆ s.announced ∧ value = s.mapping := by
  obtain ⟨entries', hpc⟩ := hen
  simp only [State.step, hpc] at hout
  split at hout
  · rename_i hannounced
    obtain ⟨rfl, rfl⟩ := Output.published.inj hout
    exact ⟨hpc, hannounced.1, hannounced.2, rfl⟩
  · cases hout

/-- What `published` changes to is shown. -/
theorem published_step {e : Event Id} (hne : (s.step e).1.published ≠ s.published) :
    ∃ entries, e = .publish ∧ (s.step e).2 = .published entries (s.step e).1.published := by
  obtain rfl : e = .publish := by
    by_contra he
    exact hne ((step_frame s e).2 he)
  cases hpc : s.pc with
  | managed entries =>
    by_cases hannounced : entries ≠ ∅ ∧ entries ⊆ s.announced
    · have hstep : s.step .publish =
          ({ s with published := s.mapping, pc := .select entries },
            .published entries s.mapping) := by
        simp only [State.step, hpc]
        exact if_pos hannounced
      exact ⟨entries, rfl, by rw [hstep]⟩
    · exact absurd (by simp only [State.step, hpc, if_neg hannounced]) hne
  | _ => exact absurd (by simp only [State.step, hpc]) hne

/-- What `published` is was set. -/
theorem published_run (h : (machine Id).Run t s) {value : SocketAddrV4}
    (hvalue : s.published = some value) :
    ∃ entries, (.publish, .published entries (some value)) ∈ t := by
  refine h.invariant (I := fun t s => s.published = some value →
    ∃ entries, (.publish, .published entries (some value)) ∈ t) ?_ ?_ hvalue
  · rintro s ⟨-, -, -, hnone, -⟩ hvalue
    rw [hnone] at hvalue
    cases hvalue
  · intro t s e hrun hen ih hvalue
    by_cases heq : (s.step e).1.published = s.published
    · obtain ⟨entries, hmem⟩ := ih (heq.symm.trans hvalue)
      exact ⟨entries, List.mem_append_left _ hmem⟩
    · obtain ⟨entries, rfl, hout⟩ := published_step heq
      refine ⟨entries, List.mem_append_right _ (List.mem_singleton.mpr ?_)⟩
      exact congrArg (Prod.mk _) ((congrArg (Output.published entries) hvalue).symm.trans hout.symm)

omit [DecidableEq Id] in
theorem mem_filterMap_keeperStep {e : IndexKeeper.Event (TaskId Id)} {out : IndexKeeper.Output} :
    (e, out) ∈ t.filterMap keeperStep ↔ ∃ e', (e', .keeper e out) ∈ t := by
  rw [List.mem_filterMap]
  constructor
  · rintro ⟨⟨e', out'⟩, hmem, hstep⟩
    simp only [keeperStep] at hstep
    split at hstep
    · obtain ⟨rfl, rfl⟩ := Prod.mk.inj (Option.some.inj hstep)
      exact ⟨e', hmem⟩
    · cases hstep
  · rintro ⟨e', hmem⟩
    exact ⟨_, hmem, rfl⟩

/-- The record is one that `publish` stored under the socket that it returned. -/
theorem stored_of_record (h : (machine Id).Run t s) (hrecord : s.keeper.record.isSome) :
    ∃ q : Publication, s.mapping = some q.mapping ∧
      (∃ e out, (e, .keeper (.published (some q)) out) ∈ t) ∧
      ∃ server, (server, q.mapping) ∈ q.stored := by
  obtain ⟨record, hrecord⟩ := Option.isSome_iff_exists.mp hrecord
  obtain ⟨r, q, ⟨pre, now, post, heq, -⟩, rfl⟩ :=
    (IndexKeeper.schedule_run (keeper_run h)).record record hrecord
  obtain ⟨s₁, -, hen, -⟩ := (keeper_run h).stepAt heq
  have hmem : (.published (some q), .finished now) ∈ t.filterMap keeperStep :=
    heq ▸ List.mem_append_right _ List.mem_cons_self
  obtain ⟨e, he⟩ := mem_filterMap_keeperStep.mp hmem
  refine ⟨q, ?_, ⟨e, _, he⟩, ?_⟩
  · rw [State.mapping, hrecord]
    rfl
  · obtain ⟨x, hx, heq⟩ := List.mem_map.mp (IndexKeeper.State.Enabled.mapping hen)
    exact ⟨x.1, heq ▸ hx⟩

/-- At the `select`, with nothing to take and no call under way, the loop knows the entries. -/
theorem Books.select (h : Books s) (hselect : s.Selects) (hpermit : s.permit = false)
    (hcalls : s.calls = 0) : s.pc.staffed = some s.entries := by
  obtain ⟨entries, hpc⟩ := hselect
  rw [hpc]
  by_contra hne
  have hne' : entries ≠ s.entries := fun heq => hne (congrArg some heq)
  -- were the snapshot outdated, a notification would be pending or on its way
  rcases h.noticed entries (by rw [hpc]; rfl) hne' with hnoticed | hnoticed
  · rw [hpermit] at hnoticed
    cases hnoticed
  · rw [hcalls] at hnoticed
    exact absurd hnoticed (Nat.lt_irrefl 0)

omit [DecidableEq Id] in
/-- An infohash has one task that is not aborted if it has a worker, and otherwise none. -/
theorem Tasks.existsUnique (h : Tasks s) (hworker : (s.workers hash).isSome) :
    ∃! n, s.Spawned (hash, n) ∧ s.aborted (hash, n) = false := by
  obtain ⟨n, hn⟩ := Option.isSome_iff_exists.mp hworker
  refine ⟨n, (h.workers hash n).mp hn, fun m hm => ?_⟩
  exact Option.some.inj (((h.workers hash m).mpr hm).symm.trans hn)

/-- **The books of the publisher.** While the loop waits, no notification is pending and no call is
under way, every registered infohash has exactly one worker, no other has one, and the activity is
whether there is a registered infohash; what is registered is what the calls say, in their order.
`published` is what the loop set. Whenever it does, its snapshot is not empty and was what was
registered when it was taken, a success was reported for each infohash of it, and the value is a
socket under which the record was stored. -/
theorem publisher_books (h : (machine Id).Run t s) :
    (s.Selects → s.permit = false → s.calls = 0 →
      (∀ hash ∈ s.entries, ∃! n, s.Spawned (hash, n) ∧ s.aborted (hash, n) = false) ∧
      (∀ hash ∉ s.entries, ∀ n, s.Spawned (hash, n) → s.aborted (hash, n) = true) ∧
      (s.keeper.active = true ↔ s.entries.Nonempty)) ∧
    (∀ hash, hash ∈ s.entries ↔ ∃ out, Latest (Event.Calls hash) (.add hash, out) t) ∧
    (∀ value, s.published = some value →
      ∃ entries, (.publish, .published entries (some value)) ∈ t) ∧
    ∀ pre post entries value, t = pre ++ (.publish, .published entries value) :: post →
      entries.Nonempty ∧
      (∃ before after s₀, pre = before ++ (.snapshot, .snapshot entries) :: after ∧
        (∀ y ∈ after, y.1 ≠ .snapshot) ∧ (machine Id).Run before s₀ ∧ s₀.entries = entries) ∧
      (∀ hash ∈ entries, (.received, .received hash) ∈ pre ∧
        ∃ n out, (.announced (hash, n) true, out) ∈ pre) ∧
      ∃ q : Publication, value = some q.mapping ∧
        (∃ e out, (e, .keeper (.published (some q)) out) ∈ pre) ∧
        ∃ server, (server, q.mapping) ∈ q.stored := by
  have hbooks := books_run h
  refine ⟨fun hselect hpermit hcalls => ?_, mem_entries_iff h, fun value => published_run h,
    fun pre post entries value ht => ?_⟩
  · obtain ⟨hworkers, hactive⟩ := hbooks.staffed _ (hbooks.select hselect hpermit hcalls)
    refine ⟨fun hash hhash => hbooks.tasks.existsUnique ((hworkers hash).mpr hhash),
      fun hash hhash n hspawned => ?_, hactive.trans Finset.nonempty_iff_ne_empty.symm⟩
    -- a task that is not aborted is a worker, and workers are only kept for entries
    by_contra hlive
    have hworker := (hbooks.tasks.workers hash n).mpr ⟨hspawned, Bool.not_eq_true _ ▸ hlive⟩
    exact hhash ((hworkers hash).mp (Option.isSome_of_mem hworker))
  · obtain ⟨s₁, hrun, hen, hout⟩ := h.stepAt ht
    obtain ⟨hpc, hne, hannounced, rfl⟩ := step_publish hen hout.symm
    have hreports := reports_run hrun
    have hsuccess : ∀ hash ∈ entries, ∃ n out, (.announced (hash, n) true, out) ∈ pre :=
      fun hash hhash => hreports.sent hash (.inl (hreports.announced hash (hannounced hhash)))
    obtain ⟨hash, hhash⟩ := Finset.nonempty_iff_ne_empty.mpr hne
    refine ⟨⟨hash, hhash⟩, ?_, fun hash hhash => ⟨hreports.announced hash (hannounced hhash),
      hsuccess hash hhash⟩, ?_⟩
    · obtain ⟨before, after, hpre, -, hafter⟩ := hreports.taken entries (by rw [hpc]; rfl)
      obtain ⟨s₀, hrun₀, -, hsnapshot⟩ := hrun.stepAt hpre
      exact ⟨before, after, s₀, hpre, hafter, hrun₀, (Output.snapshot.inj hsnapshot).symm⟩
    -- as some announcement succeeded, there is a record
    · obtain ⟨n, out, hmem⟩ := hsuccess hash hhash
      exact stored_of_record hrun (hreports.record ⟨(hash, n), out, hmem⟩)

namespace Sample

open IndexKeeper.Sample (home publication server)

/-- A publisher with one index server, for one infohash at most. -/
def start : State Unit where
  entries := ∅
  calls := 0
  permit := false
  published := none
  keeper :=
    { clock := 0
      record := none
      version := 0
      servers := ∅
      reported := false
      failed := none
      pc := .head
      active := false
      activeChanged := false
      discovered := {server}
      discoveredChanged := false
      announcements := fun _ => .idle }
  pc := .head
  workers _ := none
  spawned _ := 0
  aborted _ := false
  announced := ∅
  messages := []
  seen := 0

theorem initial_start : start.Initial :=
  ⟨rfl, rfl, rfl, rfl, ⟨rfl, rfl, rfl, rfl, rfl, rfl, fun _ => rfl⟩, rfl, rfl, fun _ => rfl,
    fun _ => rfl, fun _ => rfl, rfl, rfl, rfl⟩

/-- The infohash is added, its record is published, its worker succeeds, and the loop takes the
message and another snapshot. -/
def success : List (Event Unit) :=
  [.add (), .notify, .snapshot, .manage, .publish, .notified, .snapshot, .manage, .publish,
    .keeper .loop, .keeper (.address (some home)), .keeper (.published (some publication)),
    .keeper (.announce ((), 0)), .keeper (.paced ((), 0)),
    .keeper (.closest ((), 0) (some (some home))), .keeper (.check ((), 0)),
    .announced ((), 0) true, .received, .snapshot]

theorem follows_success : (machine Unit).Follows [] start success := by
  refine ⟨trivial, Nat.one_pos, rfl, ⟨_, rfl⟩, ⟨_, rfl⟩, ⟨⟨_, rfl⟩, rfl⟩, rfl, ⟨_, rfl⟩, ⟨_, rfl⟩,
    ⟨rfl, ⟨_, rfl⟩⟩, ⟨rfl, ⟨_, rfl⟩⟩, ⟨?_, ⟨_, rfl⟩⟩, ⟨rfl, Nat.one_pos⟩, ⟨rfl, Nat.one_pos⟩,
    ⟨trivial, Nat.one_pos⟩, ⟨trivial, Nat.one_pos⟩, ⟨?_, Nat.one_pos⟩, ⟨⟨_, rfl⟩, ?_⟩, rfl, trivial⟩
  · rintro _ ⟨⟩
    exact ⟨by decide, by decide⟩
  · have hannouncing : ((machine Unit).exec start (success.take 16)).2.keeper.announcements
        ((), 0) = .announcing (some home) := by decide +kernel
    exact IndexKeeper.State.enabled_announced hannouncing
  · have hmessages : ((machine Unit).exec start (success.take 17)).2.messages ≠ [] := by
      decide +kernel
    exact hmessages

/-- The history of these steps. -/
def history : List (Event Unit × Output Unit) := ((machine Unit).exec start success).1

/-- The state that they lead to. -/
def final : State Unit := ((machine Unit).exec start success).2

/-- The publisher makes these steps. -/
theorem run_success : (machine Unit).Run history final :=
  (Machine.Run.start initial_start).follows follows_success

end Sample

/-- An infohash with a worker, and `published` set. -/
theorem publisher_books_sample : ∃ (t : List (Event Unit × Output Unit)) (s : State Unit),
    (machine Unit).Run t s ∧ s.published = some IndexKeeper.Sample.home ∧
      (∃! n, s.Spawned ((), n) ∧ s.aborted ((), n) = false) ∧ s.keeper.active = true ∧
      ∃ n out, (.announced ((), n) true, out) ∈ t := by
  have hpc : (Sample.final.step .manage).1.pc = .managed {()} := by decide +kernel
  have hpc' : ((Sample.final.step .manage).1.step .publish).1.pc = .select {()} := by
    decide +kernel
  have hpublished : ((Sample.final.step .manage).1.step .publish).2 =
      .published {()} (some IndexKeeper.Sample.home) := by decide +kernel
  have hmanage := Sample.run_success.step (a := (.manage : Event Unit)) ⟨{()}, rfl⟩
  have hrun := hmanage.step (a := (.publish : Event Unit)) ⟨{()}, hpc⟩
  replace hrun := congrArg (fun out => _ ++ [(Event.publish, out)]) hpublished ▸ hrun
  have hentries : ((Sample.final.step .manage).1.step .publish).1.entries = {()} := by
    decide +kernel
  obtain ⟨hselect, -, -, hset⟩ := publisher_books hrun
  obtain ⟨hworkers, -, hactive⟩ := hselect ⟨{()}, hpc'⟩ (by decide +kernel) (by decide +kernel)
  obtain ⟨-, -, hsuccess, -⟩ := hset _ [] _ _ rfl
  refine ⟨_, _, hrun, by decide +kernel, hworkers () ?_, hactive.mpr ?_, ?_⟩
  · exact hentries ▸ Finset.mem_singleton_self ()
  · exact hentries ▸ Finset.singleton_nonempty ()
  · obtain ⟨n, out, hmem⟩ := (hsuccess () (Finset.mem_singleton_self ())).2
    exact ⟨n, out, List.mem_append_left _ hmem⟩

/-- Nothing may be registered any more when `published` is set: a call between the snapshot and
the end of an iteration is only noticed in the next one. -/
theorem publisher_books_fails : ¬ ∀ (t : List (Event Unit × Output Unit)) (s : State Unit)
    (entries : HashSet Unit) (value : Option SocketAddrV4),
    (machine Unit).Run (t ++ [(.publish, .published entries value)]) s → s.entries.Nonempty := by
  intro hall
  have hpc : ((Sample.final.step (.remove ())).1.step .manage).1.pc = .managed {()} := by
    decide +kernel
  have hpublished : (((Sample.final.step (.remove ())).1.step .manage).1.step .publish).2 =
      .published {()} (some IndexKeeper.Sample.home) := by decide +kernel
  have hremove := Sample.run_success.step (a := (.remove () : Event Unit)) trivial
  have hmanage := hremove.step (a := (.manage : Event Unit)) ⟨{()}, by decide +kernel⟩
  have hrun := hmanage.step (a := (.publish : Event Unit)) ⟨{()}, hpc⟩
  replace hrun := congrArg (fun out => _ ++ [(Event.publish, out)]) hpublished ▸ hrun
  have hentries : (((Sample.final.step (.remove ())).1.step .manage).1.step .publish).1.entries =
      ∅ := by decide +kernel
  have hnonempty := hall _ _ _ _ hrun
  exact Finset.not_nonempty_empty (hentries ▸ hnonempty)

end Publisher

end ContentDiscovery
