import ContentDiscovery.Pacing

/-!
# Announcements at a pace

Whoever makes a step when, and whichever tasks are aborted where: starts are a gap apart, no more
announcements than there are permits go on at a time, and no permit is lost (`paced_announcements`).
Each task keeps its own schedule, which nothing else moves (`announcements_renewed`).
-/

namespace ContentDiscovery

/-! ## What a step of an announcement does to its place -/

namespace IndexKeeper

variable {ι : Type} [DecidableEq ι] {s : State ι} {e : Event ι} {i : ι}

theorem announcements_move (s : State ι) (j : ι) (a : Announcement) (h : j ≠ i) :
    (s.move j a).announcements i = s.announcements i := by
  simp only [State.move, Function.update_of_ne h.symm]

theorem announcements_move_self (s : State ι) (i : ι) (a : Announcement) :
    (s.move i a).announcements i = a := by
  simp only [State.move, Function.update_self]

omit [DecidableEq ι] in
theorem announcements_report (publicAddr : Option SocketAddrV4) :
    (s.report publicAddr).announcements = s.announcements := by
  rw [State.report]
  split <;> rfl

/-- A step moves no announcement but the one that makes it. -/
theorem announcements_frame (h : e.task ≠ some i) :
    (s.step e).1.announcements i = s.announcements i := by
  cases e with
  | address publicAddr =>
    simp only [State.step, State.afterAddress]
    split <;> rfl
  | published result =>
    simp only [State.step, State.afterPublish]
    split
    · split <;> rfl
    · rfl
  | wake cause => cases cause <;> rfl
  | closest j result =>
    have hj : j ≠ i := fun heq => h (congrArg some heq)
    simp only [State.step]
    split
    · rw [announcements_move _ _ _ hj, announcements_report]
    · exact announcements_move _ _ _ hj
  | check j =>
    have hj : j ≠ i := fun heq => h (congrArg some heq)
    simp only [State.step]
    split
    · split <;> exact announcements_move _ _ _ hj
    · rfl
  | changed j jitter =>
    have hj : j ≠ i := fun heq => h (congrArg some heq)
    simp only [State.step]
    split
    · split <;> exact announcements_move _ _ _ hj
    · rfl
  | announce j => exact announcements_move _ _ _ fun heq => h (congrArg some heq)
  | paced j => exact announcements_move _ _ _ fun heq => h (congrArg some heq)
  | restart j => exact announcements_move _ _ _ fun heq => h (congrArg some heq)
  | announced j => exact announcements_move _ _ _ fun heq => h (congrArg some heq)
  | loop | activated | closed | tick | setActive | setServers => rfl

/-- How the place of an announcement may change without `pace`. -/
structure PlaceStep (before after : Place) : Prop where
  /-- it does not wait -/
  awake : before ≠ .waiting
  /-- it calls `pace` without a guard -/
  calls : after = .waiting → before = .outside
  /-- it has no guard that it had not -/
  keeps : after = .guarded → before = .guarded

/-- The step of an announcement whose `pace` does not return. -/
theorem placeStep (hen : s.Enabled e) (htask : e.task = some i) (hpaced : e ≠ .paced i) :
    PlaceStep (s.announcements i).place ((s.step e).1.announcements i).place := by
  cases e with
  | announce j =>
    obtain rfl := Option.some.inj htask
    have ha : s.announcements j = .idle := hen
    simp only [State.step, ha, announcements_move_self, Announcement.place]
    exact ⟨by simp, fun _ => rfl, by simp⟩
  | paced j =>
    obtain rfl := Option.some.inj htask
    exact absurd rfl hpaced
  | closest j result =>
    obtain rfl := Option.some.inj htask
    simp only [State.Enabled] at hen
    split at hen
    · rename_i seen ha
      cases result with
      | none =>
        simp only [State.step, ha, announcements_move_self, Announcement.place]
        exact ⟨by simp, by simp, by simp⟩
      | some publicAddr =>
        simp only [State.step, ha, announcements_move_self, Announcement.place]
        exact ⟨by simp, by simp, fun _ => rfl⟩
    · cases hen
  | check j =>
    obtain rfl := Option.some.inj htask
    simp only [State.Enabled] at hen
    split at hen
    · rename_i seen publicAddr ha
      simp only [State.step, ha]
      split
      · simp only [announcements_move_self, Announcement.place]
        exact ⟨by simp, by simp, fun _ => rfl⟩
      · simp only [announcements_move_self, Announcement.place]
        exact ⟨by simp, by simp, by simp⟩
    · cases hen
  | changed j jitter =>
    obtain rfl := Option.some.inj htask
    simp only [State.Enabled] at hen
    split at hen
    · rename_i seen publicAddr waiting ha
      simp only [State.step, ha]
      split
      · simp only [announcements_move_self, Announcement.place]
        exact ⟨by simp, by simp, by simp⟩
      · simp only [announcements_move_self, Announcement.place]
        exact ⟨by simp, fun _ => rfl, by simp⟩
    · cases hen
  | restart j =>
    obtain rfl := Option.some.inj htask
    simp only [State.Enabled] at hen
    split at hen
    · rename_i wake ha
      simp only [State.step, ha, announcements_move_self, Announcement.place]
      exact ⟨by simp, fun _ => rfl, by simp⟩
    · cases hen
  | announced j =>
    obtain rfl := Option.some.inj htask
    simp only [State.Enabled] at hen
    split at hen
    · rename_i publicAddr ha
      simp only [State.step, ha, announcements_move_self, Announcement.place]
      exact ⟨by simp, by simp, by simp⟩
    · cases hen
  | loop | activated | closed | address | published | wake | tick | setActive | setServers =>
    cases htask

omit [DecidableEq ι] in
/-- An announcement that is not called can only be. -/
theorem announce_of_idle (hen : s.Enabled e) (htask : e.task = some i)
    (hidle : s.announcements i = .idle) : e = .announce i := by
  cases e with
  | announce j =>
    obtain rfl := Option.some.inj htask
    rfl
  | paced j =>
    obtain rfl := Option.some.inj htask
    exact nomatch hidle.symm.trans hen
  | closest j | check j | changed j | restart j | announced j =>
    obtain rfl := Option.some.inj htask
    simp only [State.Enabled, hidle] at hen
  | loop | activated | closed | address | published | wake | tick | setActive | setServers =>
    cases htask

end IndexKeeper

namespace Publisher

variable {Id : Type} [DecidableEq Id] {s : State Id} {e : Event Id} {i : TaskId Id}

theorem announcements_frame (h : e.task ≠ some i) :
    (s.step e).1.keeper.announcements i = s.keeper.announcements i := by
  cases e with
  | add hash =>
    simp only [State.step, State.modify]
    split <;> rfl
  | remove hash =>
    simp only [State.step, State.modify]
    split <;> rfl
  | manage =>
    simp only [State.step]
    split
    · split <;> rfl
    · rfl
  | publish =>
    simp only [State.step]
    split
    · split <;> rfl
    · rfl
  | received =>
    simp only [State.step]
    split <;> rfl
  | keeper e => exact IndexKeeper.announcements_frame h
  | announced j ok => cases ok <;> exact IndexKeeper.announcements_frame h
  | notify | snapshot | notified | changed | stopped => rfl

omit [DecidableEq Id] in
/-- A task that makes a step was spawned. -/
theorem spawned_of_task (hen : s.Enabled e) (htask : e.task = some i) : s.Spawned i := by
  cases e with
  | keeper e =>
    obtain ⟨-, hmoves⟩ := hen
    cases e with
    | announce | paced | closest | check | changed | restart =>
      obtain rfl := Option.some.inj htask
      exact hmoves
    | announced => cases hmoves
    | loop | activated | closed | address | published | wake | tick | setActive | setServers =>
      cases htask
  | announced j ok =>
    obtain rfl := Option.some.inj htask
    exact hen.2
  | add | remove | notify | snapshot | manage | publish | notified | changed | received | stopped =>
    cases htask

theorem placeStep (hen : s.Enabled e) (htask : e.task = some i) (hpaced : e ≠ .keeper (.paced i)) :
    IndexKeeper.PlaceStep (s.keeper.announcements i).place
      ((s.step e).1.keeper.announcements i).place := by
  cases e with
  | keeper e => exact IndexKeeper.placeStep hen.1 htask fun heq => hpaced (congrArg _ heq)
  | announced j ok =>
    cases ok <;> exact IndexKeeper.placeStep hen.1 htask (by simp)
  | add | remove | notify | snapshot | manage | publish | notified | changed | received | stopped =>
    cases htask

omit [DecidableEq Id] in
/-- A task that announces nothing can only begin to. -/
theorem announce_of_idle (hen : s.Enabled e) (htask : e.task = some i)
    (hidle : s.keeper.announcements i = .idle) : e = .keeper (.announce i) := by
  cases e with
  | keeper e => exact congrArg _ (IndexKeeper.announce_of_idle hen.1 htask hidle)
  | announced j ok => exact nomatch IndexKeeper.announce_of_idle hen.1 htask hidle
  | add | remove | notify | snapshot | manage | publish | notified | changed | received | stopped =>
    cases htask

theorem spawned_staff (s : State Id) (entries : HashSet Id) (hash : Id) :
    s.spawned hash ≤ (s.staff entries).spawned hash := by
  simp only [State.staff]
  split
  · exact Nat.le_succ _
  · exact le_rfl

/-- A task that was spawned stays so. -/
theorem spawned_step (h : s.Spawned i) : (s.step e).1.Spawned i := by
  cases e with
  | add hash =>
    simp only [State.step, State.modify]
    split <;> exact h
  | remove hash =>
    simp only [State.step, State.modify]
    split <;> exact h
  | manage =>
    simp only [State.step]
    split
    · split <;> exact h.trans_le (spawned_staff s _ i.1)
    · exact h
  | publish =>
    simp only [State.step]
    split
    · split <;> exact h
    · exact h
  | received =>
    simp only [State.step]
    split <;> exact h
  | announced j ok => cases ok <;> exact h
  | stopped => exact h.trans_le (spawned_staff s ∅ i.1)
  | keeper | notify | snapshot | notified | changed => exact h

/-- Time does not go back. -/
theorem clock_step (hen : s.Enabled e) : s.keeper.clock ≤ (s.step e).1.keeper.clock := by
  rcases step_keeper hen with ⟨e', hen', -, heq⟩ | ⟨-, heq⟩
  · rw [heq]
    exact IndexKeeper.clock_step hen'
  · rw [heq]

end Publisher

namespace Pacing

open Publisher (TaskId)
open IndexKeeper (Place)

variable {Id : Type} [DecidableEq Id] {s : State Id} {t : List (Event Id × Output Id)}
  {i j : TaskId Id} {g : Guard}

/-! ## What a task has -/

/-- What a task has after a step of its announcement. -/
def guardAfter (g : Guard) : Place → Guard
  | .outside => .outside
  | .waiting => .acquiring
  | .guarded => g

theorem setGuard_self (s : State Id) (i : TaskId Id) : s.setGuard i (s.guard i) = s := by
  simp only [State.setGuard, and_not_self, not_and_self, if_false, Function.update_eq_self]

/-- A step of an announcement changes what its task has, and its timer when it is over. -/
theorem follow_fst (s : State Id) (i : TaskId Id) (ok : Bool) (jitter : ℕ)
    (out : Publisher.Output Id) : (s.follow i ok jitter out).1 =
      { s.setGuard i (guardAfter (s.guard i) (s.announcement i).place) with
        timer := if s.announcement i = .idle then
          Function.update s.timer i (s.clock + delay ok jitter) else s.timer } := by
  rw [State.follow]
  split <;> rename_i ha <;> rw [ha]
  case h_2 | h_3 | h_4 =>
    simp only [IndexKeeper.Announcement.place, guardAfter, setGuard_self, reduceCtorEq, if_false]
  all_goals rfl

theorem step_other {e : Publisher.Event Id} (htask : e.task = none) (jitter : ℕ) :
    s.step (.publisher e jitter) = ({ s with publisher := (s.publisher.step e).1 },
      .publisher (s.publisher.step e).2) := by
  simp only [State.step, htask]

theorem step_task {e : Publisher.Event Id} (htask : e.task = some i) (jitter : ℕ) :
    s.step (.publisher e jitter) =
      ({ s with publisher := (s.publisher.step e).1 } : State Id).follow
      i e.succeeded jitter (s.publisher.step e).2 := by
  simp only [State.step, htask]

/-- What holds in every reachable state: of the guards and what is shared. -/
structure Inv (s : State Id) : Prop where
  /-- a guard is what the announcement takes it for -/
  agree : ∀ i, s.guard i ≠ .dropped → (s.guard i).place = (s.announcement i).place
  /-- who waits was spawned -/
  spawned : ∀ i, (s.guard i).place = .waiting → s.publisher.Spawned i
  /-- permits are held or available -/
  permits : Permits PERMITS s.available fun i => (s.guard i).Holds
  /-- the lock is held by the one who sleeps -/
  mutex : ∀ i, s.mutex = some i ↔ (s.guard i).Locks
  /-- who sleeps does until the next start -/
  deadline : ∀ i deadline, s.guard i = .sleeping deadline → deadline = s.next
  /-- which is not far ahead -/
  next_le : s.next ≤ s.clock + ANNOUNCE_SPACING

/-- Who has the lock holds a permit. -/
theorem Guard.Locks.holds (h : g.Locks) : g.Holds := by
  cases g with
  | sleeping => trivial
  | _ => cases h

theorem Guard.Locks.sleeping (h : g.Locks) : ∃ deadline, g = .sleeping deadline := by
  cases g with
  | sleeping deadline => exact ⟨deadline, rfl⟩
  | _ => cases h

/-- Permits stay with those who hold them. -/
theorem Inv.permits_setGuard (h : Inv s)
    (hpos : g.Holds → ¬ (s.guard i).Holds → 0 < s.available) :
    Permits PERMITS (s.setGuard i g).available fun j => ((s.setGuard i g).guard j).Holds := by
  by_cases hi : (s.guard i).Holds <;> by_cases hg : g.Holds
  · simp only [State.setGuard, hi, hg, not_true, and_false, false_and, if_false]
    exact h.permits.move (P := Guard.Holds) (iff_of_true hg hi)
  · simp only [State.setGuard, hi, hg, not_false_iff, and_self, if_true]
    exact h.permits.release (P := Guard.Holds) hi hg
  · simp only [State.setGuard, hi, hg, not_true, not_false_iff, and_self, if_true, if_false]
    exact h.permits.acquire (P := Guard.Holds) (hpos hg hi) hi hg
  · simp only [State.setGuard, hi, hg, not_false_iff, and_false, false_and, if_false]
    exact h.permits.move (P := Guard.Holds) (iff_of_false hg hi)

theorem guard_setGuard (s : State Id) (i j : TaskId Id) (g : Guard) :
    (s.setGuard i g).guard j = if j = i then g else s.guard j := by
  simp only [State.setGuard, Function.update_apply]

/-- The lock stays with the one who has it. -/
theorem Inv.mutex_setGuard (h : Inv s) (hfree : g.Locks → ¬ (s.guard i).Locks → s.mutex = none)
    (j : TaskId Id) : (s.setGuard i g).mutex = some j ↔ ((s.setGuard i g).guard j).Locks := by
  rw [guard_setGuard]
  by_cases hi : (s.guard i).Locks <;> by_cases hg : g.Locks
  · simp only [State.setGuard, hi, hg, not_true, and_false, false_and, if_false]
    rw [h.mutex]
    split
    · rename_i hj
      rw [hj]
      exact iff_of_true hi hg
    · rfl
  · simp only [State.setGuard, hi, hg, not_false_iff, and_self, if_true]
    split
    · exact iff_of_false nofun hg
    · rename_i hj
      -- it was the only one
      refine iff_of_false nofun fun hlocks => hj ?_
      exact Option.some.inj (((h.mutex j).mpr hlocks).symm.trans ((h.mutex i).mpr hi))
  · simp only [State.setGuard, hi, hg, not_true, not_false_iff, and_self, if_true, if_false]
    split
    · rename_i hj
      exact iff_of_true (congrArg some hj.symm) hg
    · rename_i hj
      refine iff_of_false (fun heq => hj (Option.some.inj heq).symm) fun hlocks => ?_
      exact nomatch ((h.mutex j).mpr hlocks).symm.trans (hfree hg hi)
  · simp only [State.setGuard, hi, hg, not_false_iff, and_false, false_and, if_false]
    rw [h.mutex]
    split
    · rename_i hj
      rw [hj]
      exact iff_of_false hi hg
    · rfl

/-- What one task has changes, while the publisher makes a step of that task or none. -/
theorem Inv.move (h : Inv s) {p : Publisher.State Id} {next : Instant} {timer : TaskId Id → Instant}
    (hagree : g ≠ .dropped → g.place = (p.keeper.announcements i).place)
    (hwaits : g.place = .waiting → p.Spawned i)
    (hframe : ∀ j, j ≠ i → p.keeper.announcements j = s.announcement j)
    (hspawned : ∀ j, s.publisher.Spawned j → p.Spawned j)
    (hpos : g.Holds → ¬ (s.guard i).Holds → 0 < s.available)
    (hfree : g.Locks → ¬ (s.guard i).Locks → s.mutex = none)
    (hdeadline : ∀ j deadline, ((s.setGuard i g).guard j) = .sleeping deadline → deadline = next)
    (hnext : next ≤ p.keeper.clock + ANNOUNCE_SPACING) :
    Inv { s.setGuard i g with publisher := p, next := next, timer := timer } where
  agree j hj := by
    change (s.setGuard i g).guard j ≠ .dropped at hj
    change ((s.setGuard i g).guard j).place = (p.keeper.announcements j).place
    rw [guard_setGuard] at hj ⊢
    split at hj <;> rename_i hji
    · rw [if_pos hji, hji]
      exact hagree hj
    · rw [if_neg hji, hframe j hji]
      exact h.agree j hj
  spawned j hj := by
    change ((s.setGuard i g).guard j).place = _ at hj
    rw [guard_setGuard] at hj
    split at hj <;> rename_i hji
    · rw [hji]
      exact hwaits hj
    · exact hspawned j (h.spawned j hj)
  permits := h.permits_setGuard hpos
  mutex := h.mutex_setGuard hfree
  deadline := hdeadline
  next_le := hnext

/-- The deadline of a sleeper that goes on sleeping. -/
theorem Inv.deadline_setGuard (h : Inv s) (hg : ∀ deadline, g = .sleeping deadline →
      s.guard i = .sleeping deadline) {deadline : Instant}
    (hj : (s.setGuard i g).guard j = .sleeping deadline) : deadline = s.next := by
  rw [guard_setGuard] at hj
  split at hj
  · exact h.deadline i deadline (hg deadline hj)
  · exact h.deadline j deadline hj

omit [DecidableEq Id] in
/-- Whoever sleeps is waiting for `pace`, which can return. -/
theorem Inv.enabled_paced (h : Inv s) {deadline : Instant} (hi : s.guard i = .sleeping deadline) :
    s.publisher.Enabled (.keeper (.paced i)) := by
  have hplace : (s.guard i).place = .waiting := by
    rw [hi]
    rfl
  have hagree := h.agree i (by rw [hi]; exact nofun)
  refine ⟨?_, h.spawned i hplace⟩
  rw [hplace] at hagree
  change s.announcement i = .pacing
  cases ha : s.announcement i with
  | pacing => rfl
  | _ =>
    rw [ha] at hagree
    cases hagree

theorem inv_step {e : Event Id} (h : Inv s) (hen : s.Enabled e) : Inv (s.step e).1 := by
  cases e with
  | publisher e jitter =>
    obtain ⟨hen, -, hdropped, -, hpaced⟩ := hen
    have hclock : s.next ≤ (s.publisher.step e).1.keeper.clock + ANNOUNCE_SPACING :=
      h.next_le.trans (Nat.add_le_add_right (Publisher.clock_step hen) _)
    cases htask : e.task with
    | none =>
      rw [step_other htask]
      have hannouncement : ∀ j, (s.publisher.step e).1.keeper.announcements j = s.announcement j :=
        fun j => Publisher.announcements_frame (by rw [htask]; exact nofun)
      exact
        { agree := fun j hj => (h.agree j hj).trans (congrArg _ (hannouncement j)).symm
          spawned := fun j hj => Publisher.spawned_step (h.spawned j hj)
          permits := h.permits
          mutex := h.mutex
          deadline := h.deadline
          next_le := hclock }
    | some i =>
      rw [step_task htask, follow_fst]
      have hplace := Publisher.placeStep hen htask (hpaced i)
      have hagree := h.agree i (hdropped i htask)
      change (s.guard i).place = (s.publisher.keeper.announcements i).place at hagree
      rw [← hagree] at hplace
      have hmove : ∀ timer, Inv { s.setGuard i (guardAfter (s.guard i)
          ((s.publisher.step e).1.keeper.announcements i).place) with
            publisher := (s.publisher.step e).1, next := s.next, timer := timer } := by
        intro timer
        generalize hafter : ((s.publisher.step e).1.keeper.announcements i).place = after at hplace
        -- the guard is kept, or there is none
        have hguard : guardAfter (s.guard i) after = s.guard i ∨
            ¬ (guardAfter (s.guard i) after).Holds := by
          cases after with
          | guarded => exact .inl rfl
          | outside | waiting => exact .inr id
        refine h.move ?_ ?_ ?_ ?_ ?_ ?_ ?_ hclock
        · intro _
          rw [hafter]
          cases after with
          | guarded => exact hplace.keeps rfl
          | outside | waiting => rfl
        · exact fun _ => Publisher.spawned_step (Publisher.spawned_of_task hen htask)
        · exact fun j hj => Publisher.announcements_frame (by
            rw [htask]
            exact fun heq => hj (Option.some.inj heq).symm)
        · exact fun j hj => Publisher.spawned_step hj
        · intro hholds hnot
          rcases hguard with heq | hnone
          · exact absurd (heq ▸ hholds) hnot
          · exact absurd hholds hnone
        · intro hlocks hnot
          rcases hguard with heq | hnone
          · exact absurd (heq ▸ hlocks) hnot
          · exact absurd hlocks.holds hnone
        · refine fun j deadline hj => h.deadline_setGuard (fun deadline heq => ?_) hj
          rcases hguard with hsame | hnone
          · exact hsame.symm.trans heq
          · rw [heq] at hnone
            exact absurd trivial hnone
      exact hmove _
  | acquired i =>
    obtain ⟨hi, hpos⟩ := hen
    have hagree := h.agree i (by rw [hi]; exact nofun)
    have hwaits := h.spawned i (by rw [hi]; rfl)
    rw [hi] at hagree
    exact h.move (fun _ => hagree) (fun _ => hwaits) (fun _ _ => rfl) (fun _ hj => hj)
      (fun _ _ => hpos) (fun hlocks => hlocks.elim)
      (fun _ _ hj => h.deadline_setGuard (g := .locking) nofun hj) h.next_le
  | locked i =>
    obtain ⟨hi, hfree⟩ := hen
    have hagree := h.agree i (by rw [hi]; exact nofun)
    have hwaits := h.spawned i (by rw [hi]; rfl)
    rw [hi] at hagree
    refine h.move (fun _ => hagree) (fun _ => hwaits) (fun _ _ => rfl) (fun _ hj => hj)
      (fun _ hnot => absurd (by rw [hi]; trivial) hnot) (fun _ _ => hfree) ?_ h.next_le
    intro j deadline hj
    rw [guard_setGuard] at hj
    split at hj
    · cases hj
      rfl
    · exact h.deadline j deadline hj
  | slept i =>
    obtain ⟨deadline, hi, hle⟩ := hen
    have hkeeper := (h.enabled_paced hi).1
    have hpace : ((s.publisher.step (.keeper (.paced i))).1.keeper.announcements i).place =
        .guarded := by
      change (((s.publisher.keeper.move i (.finding s.publisher.keeper.version)).announcements
        i)).place = .guarded
      rw [IndexKeeper.announcements_move_self]
      rfl
    have hsleeps : (s.guard i).Holds := by
      rw [hi]
      trivial
    refine h.move (fun _ => hpace.symm) nofun ?_ (fun j hj => Publisher.spawned_step hj)
      (fun _ hnot => absurd hsleeps hnot) (fun hlocks => hlocks.elim) ?_ le_rfl
    · exact fun j hj => Publisher.announcements_frame
        (e := .keeper (.paced i)) fun heq => hj (Option.some.inj heq).symm
    · intro j deadline' hj
      rw [guard_setGuard] at hj
      split at hj <;> rename_i hji
      · cases hj
      · -- there is no other sleeper
        have hmutex := (h.mutex i).mpr (by rw [hi]; trivial)
        have hother := (h.mutex j).mpr (by rw [hj]; trivial)
        exact absurd (Option.some.inj (hother.symm.trans hmutex)) hji
  | dropped i =>
    exact h.move (fun hne => absurd rfl hne) nofun (fun _ _ => rfl) (fun _ hj => hj)
      (fun hholds => hholds.elim) (fun hlocks => hlocks.elim)
      (fun _ _ hj => h.deadline_setGuard (g := .dropped) nofun hj) h.next_le

/-! ## Runs -/

/-- The step of the publisher that a step shows. -/
def publisherStep (x : Event Id × Output Id) :
    Option (Publisher.Event Id × Publisher.Output Id) :=
  match x with
  | (.publisher e _, .publisher out) => some (e, out)
  | (.publisher e _, .ended _ _ _ _ out) => some (e, out)
  | (_, .started i _ out) => some (.keeper (.paced i), out)
  | _ => none

/-- The time at which `pace` returned. -/
def startOf (x : Event Id × Output Id) : Option Instant :=
  match x.2 with
  | .started _ now _ => some now
  | _ => none

/-- The times at which `pace` returned. -/
def starts (t : List (Event Id × Output Id)) : List Instant := t.filterMap startOf

omit [DecidableEq Id] in
theorem inv_initial (h : s.Initial) : Inv s := by
  obtain ⟨⟨-, -, -, -, ⟨-, -, -, -, -, -, hidle⟩, -⟩, havailable, hmutex, hnext, hguard, -⟩ := h
  refine ⟨fun i _ => ?_, fun i hi => ?_, ?_, fun i => ?_, fun i deadline hi => ?_, ?_⟩
  · rw [hguard, State.announcement, hidle]
    rfl
  · rw [hguard] at hi
    cases hi
  · rw [havailable]
    exact .all fun i hi => by
      rw [hguard] at hi
      exact hi
  · rw [hmutex, hguard]
    exact iff_of_false nofun id
  · rw [hguard] at hi
    cases hi
  · rw [hnext]
    exact Nat.le_add_right _ _

/-- A step of a publisher, or none. -/
theorem publisher_step {e : Event Id} (h : Inv s) (hen : s.Enabled e) :
    (∃ e', s.publisher.Enabled e' ∧
      publisherStep (e, (s.step e).2) = some (e', (s.publisher.step e').2) ∧
      (s.step e).1.publisher = (s.publisher.step e').1) ∨
    publisherStep (e, (s.step e).2) = none ∧ (s.step e).1.publisher = s.publisher := by
  cases e with
  | publisher e jitter =>
    refine .inl ⟨e, hen.1, ?_⟩
    cases htask : e.task with
    | none =>
      rw [step_other htask]
      exact ⟨rfl, rfl⟩
    | some i =>
      rw [step_task htask, follow_fst]
      refine ⟨?_, rfl⟩
      rw [State.follow]
      split <;> rfl
  | slept i =>
    obtain ⟨deadline, hi, -⟩ := hen
    exact .inl ⟨.keeper (.paced i), h.enabled_paced hi, rfl, rfl⟩
  | acquired | locked | dropped => exact .inr ⟨rfl, rfl⟩

/-- What holds of a run: of its state, and of the starts in it. -/
structure Paced (t : List (Event Id × Output Id)) (s : State Id) : Prop extends Inv s where
  /-- they are a gap apart -/
  spaced : Spaced ANNOUNCE_SPACING (starts t)
  /-- the next one is a gap after them -/
  starts_le : ∀ x ∈ starts t, x + ANNOUNCE_SPACING ≤ s.next

theorem paced_run (h : (machine Id).Run t s) : Paced t s := by
  refine h.invariant (I := Paced) ?_ ?_
  · exact fun s hs => ⟨inv_initial hs, .nil, nofun⟩
  · intro t s e hrun hen ih
    have hinv := inv_step ih.toInv hen
    by_cases he : ∃ i, e = .slept i
    · obtain ⟨i, rfl⟩ := he
      obtain ⟨deadline, hi, hle⟩ := hen
      have hstarts : starts (t ++ [(.slept i, (s.step (.slept i)).2)]) =
          starts t ++ [s.clock] := List.filterMap_append
      -- it slept until the next start, which is a gap after all others
      have hgap : ∀ x ∈ starts t, x + ANNOUNCE_SPACING ≤ s.clock :=
        fun x hx => (ih.starts_le x hx).trans (ih.deadline i deadline hi ▸ hle)
      refine ⟨hinv, ?_, ?_⟩
      · rw [machine, hstarts]
        exact ih.spaced.concat hgap
      · rw [machine, hstarts]
        intro x hx
        rcases List.mem_append.mp hx with hx | hx
        · exact (hgap x hx).trans (Nat.le_add_right _ _)
        · rw [List.mem_singleton.mp hx]
          exact le_rfl
    · have hstart : startOf (e, (s.step e).2) = none ∧ (s.step e).1.next = s.next := by
        cases e with
        | publisher e jitter =>
          cases htask : e.task with
          | none =>
            rw [step_other htask]
            exact ⟨rfl, rfl⟩
          | some i =>
            rw [step_task htask, follow_fst]
            refine ⟨?_, rfl⟩
            rw [State.follow]
            split <;> rfl
        | slept i => exact absurd ⟨i, rfl⟩ he
        | acquired | locked | dropped => exact ⟨rfl, rfl⟩
      have hstarts : starts (t ++ [(e, (s.step e).2)]) = starts t := by
        rw [starts, List.filterMap_append, List.filterMap_cons_none hstart.1, List.filterMap_nil,
          List.append_nil]
        rfl
      refine ⟨hinv, ?_, ?_⟩
      · rw [machine, hstarts]
        exact ih.spaced
      · rw [machine, hstarts]
        exact fun x hx => (ih.starts_le x hx).trans_eq hstart.2.symm

/-- A run of a publisher whose announcements are paced is a run of the publisher. -/
theorem run_publisher (h : (machine Id).Run t s) :
    (Publisher.machine Id).Run (t.filterMap publisherStep) s.publisher := by
  refine h.invariant (I := fun t s =>
    (Publisher.machine Id).Run (t.filterMap publisherStep) s.publisher) ?_ ?_
  · exact fun s hs => .start hs.1
  · intro t s e hrun hen ih
    rw [List.filterMap_append]
    rcases publisher_step (paced_run hrun).toInv hen with ⟨e', hen', hshown, heq⟩ | ⟨hshown, heq⟩
    · rw [machine, List.filterMap_cons_some hshown, heq]
      exact ih.step hen'
    · rw [machine, List.filterMap_cons_none hshown, heq, List.filterMap_nil, List.append_nil]
      exact ih

/-! ## At a pace -/

/-- A task has got its guard, and asks Mainline. -/
def State.Announces (s : State Id) (i : TaskId Id) : Prop :=
  s.guard i ≠ .dropped ∧ (s.announcement i).place = .guarded

/-- A task waits for its guard. -/
def State.Waits (s : State Id) (i : TaskId Id) : Prop :=
  s.guard i ≠ .dropped ∧ (s.announcement i).place = .waiting

/-- Someone gets on: with a permit, with the lock, within a gap, or all permits are in use. -/
inductive State.GoesOn (s : State Id) : Prop where
  /-- a permit can be acquired -/
  | acquired (j : TaskId Id) (h : s.Enabled (.acquired j))
  /-- the time can be locked -/
  | locked (j : TaskId Id) (h : s.Enabled (.locked j))
  /-- a task starts after at most a gap -/
  | slept (j : TaskId Id) (deadline : Instant) (h : s.guard j = .sleeping deadline)
      (hsoon : deadline ≤ s.clock + ANNOUNCE_SPACING)
  /-- as many announcements go on as may -/
  | busy (group : Finset (TaskId Id)) (hcard : group.card = PERMITS)
      (h : ∀ j ∈ group, s.Announces j)

omit [DecidableEq Id] in
theorem Inv.guard_paced (h : Inv s) : s.guard i = .paced ↔ s.Announces i := by
  constructor
  · intro hi
    have hne : s.guard i ≠ .dropped := by
      rw [hi]
      exact nofun
    exact ⟨hne, by rw [← h.agree i hne, hi]; rfl⟩
  · rintro ⟨hne, hplace⟩
    rw [← h.agree i hne] at hplace
    cases hi : s.guard i with
    | paced => rfl
    | _ =>
      rw [hi] at hplace
      cases hplace

omit [DecidableEq Id] in
/-- Nobody waits for nothing. -/
theorem Inv.goesOn (h : Inv s) (hi : s.Waits i) : s.GoesOn := by
  by_cases hsleeps : ∃ j, (s.guard j).Locks
  · obtain ⟨j, hj⟩ := hsleeps
    obtain ⟨deadline, hj⟩ := hj.sleeping
    exact .slept j deadline hj ((h.deadline j deadline hj).trans_le h.next_le)
  have hmutex : s.mutex = none := by
    cases hmutex : s.mutex with
    | none => rfl
    | some j => exact absurd ⟨j, (h.mutex j).mp hmutex⟩ hsleeps
  by_cases hlocking : ∃ j, s.guard j = .locking
  · obtain ⟨j, hj⟩ := hlocking
    exact .locked j ⟨hj, hmutex⟩
  obtain ⟨hne, hplace⟩ := hi
  rw [← h.agree i hne] at hplace
  have hacquiring : s.guard i = .acquiring := by
    cases hi : s.guard i with
    | acquiring => rfl
    | locking => exact absurd ⟨i, hi⟩ hlocking
    | sleeping deadline => exact absurd ⟨i, by rw [hi]; trivial⟩ hsleeps
    | _ =>
      rw [hi] at hplace
      cases hplace
  rcases Nat.eq_zero_or_pos s.available with hzero | hpos
  · -- all who hold a permit have got their guard
    obtain ⟨group, hcard, hgroup⟩ := (hzero ▸ h.permits).exhausted
    refine .busy group hcard fun j hj => h.guard_paced.mp ?_
    have hholds := hgroup j hj
    cases hg : s.guard j with
    | paced => rfl
    | locking => exact absurd ⟨j, hg⟩ hlocking
    | sleeping deadline => exact absurd ⟨j, by rw [hg]; trivial⟩ hsleeps
    | _ =>
      rw [hg] at hholds
      cases hholds
  · exact .acquired i ⟨hacquiring, hpos⟩

/-- **Announcements are paced.** In every run, with tasks that are aborted anywhere, a window of
time has no more starts than there are gaps in it, and one; no more announcements go on at a time
than there are permits; when none goes on or waits, all permits and the lock are back; and when
one waits, some task gets on. -/
theorem paced_announcements (h : (machine Id).Run t s) :
    (∀ first last, TokenBucket.countIn (starts t) first last ≤
      (last - first) / ANNOUNCE_SPACING + 1) ∧
    (∀ group : Finset (TaskId Id), (∀ i ∈ group, s.Announces i) → group.card ≤ PERMITS) ∧
    ((∀ i, ¬ s.Announces i ∧ ¬ s.Waits i) → s.available = PERMITS ∧ s.mutex = none) ∧
    ∀ i, s.Waits i → s.GoesOn := by
  have hpaced := paced_run h
  have hinv := hpaced.toInv
  refine ⟨fun first last => hpaced.spaced.countIn_le ANNOUNCE_SPACING_pos first last,
    fun group hgroup => ?_, fun hnone => ?_, fun i hi => hinv.goesOn hi⟩
  · refine hinv.permits.card_le fun i hi => ?_
    rw [hinv.guard_paced.mpr (hgroup i hi)]
    trivial
  · have hholds : ∀ i, ¬ (s.guard i).Holds := by
      intro i hi
      have hne : s.guard i ≠ .dropped := by
        intro heq
        rw [heq] at hi
        exact hi
      obtain ⟨hannounces, hwaits⟩ := hnone i
      have hagree := hinv.agree i hne
      cases hg : s.guard i with
      | paced => exact hannounces (hinv.guard_paced.mp hg)
      | locking | sleeping => exact hwaits ⟨hne, by rw [← hagree, hg]; rfl⟩
      | _ =>
        rw [hg] at hi
        exact hi
    obtain ⟨holders, hmem, hcard⟩ := hinv.permits
    have hempty : holders = ∅ :=
      Finset.eq_empty_of_forall_notMem fun i hi => hholds i ((hmem i).mp hi)
    refine ⟨?_, ?_⟩
    · rw [hempty, Finset.card_empty] at hcard
      exact hcard
    · cases hmutex : s.mutex with
      | none => rfl
      | some i => exact absurd ((hinv.mutex i).mp hmutex).holds (hholds i)

/-! ## On time -/

/-- The end of an announcement. -/
structure End where
  /-- when it was -/
  now : Instant
  /-- whether the announcement succeeded -/
  ok : Bool
  /-- how long the task sleeps -/
  delay : ℕ
  deriving DecidableEq

/-- When the task may announce again. -/
def End.due (x : End) : Instant := x.now + x.delay

/-- The end of an announcement of the task `i`. -/
def endOf (i : TaskId Id) (x : Event Id × Output Id) : Option End :=
  match x.2 with
  | .ended j now ok delay _ => if j = i then some ⟨now, ok, delay⟩ else none
  | _ => none

/-- How the announcements of the task `i` ended. -/
def ends (i : TaskId Id) (t : List (Event Id × Output Id)) : List End := t.filterMap (endOf i)

/-- A renewal is after nine to ten minutes, and a retry after half a minute. -/
def End.Delayed (x : End) : Prop :=
  (x.ok = true → REFRESH - REFRESH_JITTER * 10 ^ 9 ≤ x.delay ∧ x.delay ≤ REFRESH) ∧
    (x.ok = false → x.delay = RETRY)

/-- What holds of a task in every run. -/
structure Timed (i : TaskId Id) (t : List (Event Id × Output Id)) (s : State Id) : Prop where
  /-- it announces when its timer is over -/
  busy : s.announcement i ≠ .idle → s.timer i ≤ s.clock
  /-- the timer is that of the last end -/
  last : ∀ x, (ends i t).getLast? = some x → s.timer i = x.due
  /-- and of no earlier time than the others -/
  due_le : ∀ x ∈ ends i t, x.due ≤ s.timer i
  /-- none comes before the task may announce again -/
  ordered : (ends i t).Pairwise fun x y => x.due ≤ y.now
  /-- the delays are as they should be -/
  delayed : ∀ x ∈ ends i t, x.Delayed
  /-- it was spawned -/
  spawned : ends i t ≠ [] → s.publisher.Spawned i

theorem delayed_delay {now : Instant} {ok : Bool} {jitter : ℕ} (h : jitter ≤ REFRESH_JITTER) :
    End.Delayed ⟨now, ok, delay ok jitter⟩ := by
  have hjitter : jitter * 10 ^ 9 ≤ REFRESH_JITTER * 10 ^ 9 := Nat.mul_le_mul_right _ h
  cases ok with
  | true =>
    simp only [End.Delayed, delay, if_true, reduceCtorEq, false_implies, and_true, true_implies]
    exact ⟨Nat.sub_le_sub_left hjitter _, Nat.sub_le _ _⟩
  | false =>
    simp only [End.Delayed, delay, reduceCtorEq, false_implies, true_implies, if_false, true_and]

/-- Others leave the timer and the ends of a task alone. -/
theorem Timed.frame (h : Timed i t s) {s' : State Id} {x : Event Id × Output Id}
    (hend : endOf i x = none) (htimer : s'.timer i = s.timer i) (hclock : s.clock ≤ s'.clock)
    (hbusy : s'.announcement i ≠ .idle → s.announcement i ≠ .idle ∨ s.timer i ≤ s.clock)
    (hspawned : s.publisher.Spawned i → s'.publisher.Spawned i) : Timed i (t ++ [x]) s' := by
  have hends : ends i (t ++ [x]) = ends i t := by
    rw [ends, List.filterMap_append, List.filterMap_cons_none hend, List.filterMap_nil,
      List.append_nil]
    rfl
  constructor
  case busy => exact fun hi => htimer ▸ ((hbusy hi).elim h.busy id).trans hclock
  case spawned => exact fun hne => hspawned (h.spawned (hends ▸ hne))
  all_goals rw [hends]
  case last => exact fun x hx => htimer ▸ h.last x hx
  case due_le => exact fun x hx => htimer ▸ h.due_le x hx
  case ordered => exact h.ordered
  case delayed => exact h.delayed

/-- The announcement of a task ends. -/
theorem Timed.ended (h : Timed i t s) {s' : State Id} {x : Event Id × Output Id} {y : End}
    (hend : endOf i x = some y) (hbefore : s.announcement i ≠ .idle) (hclock : s.clock ≤ y.now)
    (hafter : s'.announcement i = .idle) (htimer : s'.timer i = y.due) (hdelayed : y.Delayed)
    (hspawned : s'.publisher.Spawned i) : Timed i (t ++ [x]) s' := by
  have hends : ends i (t ++ [x]) = ends i t ++ [y] := by
    rw [ends, List.filterMap_append, List.filterMap_cons_some hend, List.filterMap_nil]
    rfl
  -- the announcement began when the timer was over
  have hover : ∀ z ∈ ends i t, z.due ≤ y.now :=
    fun z hz => (h.due_le z hz).trans ((h.busy hbefore).trans hclock)
  constructor
  case busy => exact fun hne => absurd hafter hne
  case spawned => exact fun _ => hspawned
  all_goals rw [hends]
  case last =>
    intro z hz
    rw [List.getLast?_concat] at hz
    rw [← Option.some.inj hz]
    exact htimer
  case due_le =>
    intro z hz
    rw [htimer]
    rcases List.mem_append.mp hz with hz | hz
    · exact (hover z hz).trans (Nat.le_add_right _ _)
    · rw [List.mem_singleton.mp hz]
  case ordered =>
    refine List.pairwise_append.mpr ⟨h.ordered, List.pairwise_singleton _ _, fun z hz w hw => ?_⟩
    rw [List.mem_singleton.mp hw]
    exact hover z hz
  case delayed =>
    intro z hz
    rcases List.mem_append.mp hz with hz | hz
    · exact h.delayed z hz
    · rw [List.mem_singleton.mp hz]
      exact hdelayed

theorem timed_step {e : Event Id} (hinv : Inv s) (h : Timed i t s) (hen : s.Enabled e) :
    Timed i (t ++ [(e, (s.step e).2)]) (s.step e).1 := by
  cases e with
  | publisher e jitter =>
    obtain ⟨hen, hjitter, -, hdue, hpaced⟩ := hen
    have hclock := Publisher.clock_step hen
    cases htask : e.task with
    | none =>
      rw [step_other htask]
      refine h.frame rfl rfl hclock (fun hne => .inl fun heq => hne ?_) Publisher.spawned_step
      exact (Publisher.announcements_frame (by rw [htask]; exact nofun)).trans heq
    | some j =>
      rw [step_task htask]
      by_cases hj : j = i
      swap
      · refine h.frame ?_ ?_ ?_ (fun hne => .inl fun heq => hne ?_) ?_
        · rw [State.follow]
          split <;> first | rfl | exact if_neg hj
        · rw [follow_fst]
          split
          · exact Function.update_of_ne (Ne.symm hj) ..
          · rfl
        · rw [follow_fst]
          exact hclock
        · rw [follow_fst]
          exact (Publisher.announcements_frame (by
            rw [htask]
            exact fun heq => hj (Option.some.inj heq))).trans heq
        · rw [follow_fst]
          exact Publisher.spawned_step
      subst hj
      have hspawned := Publisher.spawned_of_task hen htask
      by_cases hafter : (s.publisher.step e).1.keeper.announcements j = .idle
      · -- the announcement is over
        have hbefore : s.announcement j ≠ .idle := by
          intro heq
          obtain rfl := Publisher.announce_of_idle hen htask heq
          exact nomatch (IndexKeeper.announcements_move_self _ _ _).symm.trans hafter
        simp only [State.follow, State.announcement, hafter]
        refine h.ended (y := ⟨_, _, _⟩) (if_pos rfl) hbefore hclock hafter ?_
          (delayed_delay hjitter) (Publisher.spawned_step hspawned)
        exact Function.update_self ..
      · -- it begins, or goes on
        refine h.frame ?_ ?_ ?_ (fun _ => ?_) ?_
        · rw [State.follow]
          split
          case h_7 ha => exact absurd ha hafter
          all_goals rfl
        · rw [follow_fst]
          exact congrFun (if_neg hafter) j
        · rw [follow_fst]
          exact hclock
        · by_cases heq : s.announcement j = .idle
          · exact .inr (hdue j (Publisher.announce_of_idle hen htask heq))
          · exact .inl heq
        · rw [follow_fst]
          exact Publisher.spawned_step
  | slept j =>
    obtain ⟨deadline, hj, -⟩ := hen
    have hpacing := (hinv.enabled_paced hj).1
    refine h.frame rfl rfl le_rfl (fun hne => .inl fun heq => ?_) Publisher.spawned_step
    by_cases hji : j = i
    · subst hji
      exact nomatch heq.symm.trans hpacing
    · refine hne ((Publisher.announcements_frame (e := .keeper (.paced j)) ?_).trans heq)
      exact fun heq => hji (Option.some.inj heq)
  | acquired | locked | dropped => exact h.frame rfl rfl le_rfl .inl id

theorem timed_run (h : (machine Id).Run t s) (i : TaskId Id) : Timed i t s := by
  refine h.invariant (I := Timed i) ?_ ?_
  · rintro s ⟨-, -, -, -, -, htimer⟩
    exact ⟨fun _ => htimer i, nofun, nofun, .nil, nofun, fun hne => absurd rfl hne⟩
  · exact fun t s e hrun hen ih => timed_step (paced_run hrun).toInv ih hen

omit [DecidableEq Id] in
/-- A task starts an announcement as soon as its timer is over, and not before. -/
theorem enabled_announce (hspawned : s.publisher.Spawned i) (hclosed : s.guard i ≠ .dropped) :
    s.Enabled (.publisher (.keeper (.announce i)) 0) ↔
      s.announcement i = .idle ∧ s.timer i ≤ s.clock := by
  constructor
  · rintro ⟨⟨hidle, -⟩, -, -, htimer, -⟩
    exact ⟨hidle, htimer i rfl⟩
  · rintro ⟨hidle, htimer⟩
    refine ⟨⟨hidle, hspawned⟩, Nat.zero_le _, fun j hj => ?_, fun j hj => ?_, fun j hj => ?_⟩
    · obtain rfl := Option.some.inj hj
      exact hclosed
    · cases hj
      exact htimer
    · cases hj

/-- **Announcements are renewed on time.** In every run, each task on its own: after a success it
announces again as soon as nine to ten minutes are over, and after a failure as soon as half a
minute is, whatever other tasks, the keeper or the calls do meanwhile; so its successes are at
least nine minutes apart, and no two announcements end within half a minute. -/
theorem announcements_renewed (h : (machine Id).Run t s) (i : TaskId Id) :
    (∀ x ∈ ends i t, x.Delayed) ∧
    (∀ x, (ends i t).getLast? = some x → s.guard i ≠ .dropped →
      (s.Enabled (.publisher (.keeper (.announce i)) 0) ↔
        s.announcement i = .idle ∧ x.due ≤ s.clock)) ∧
    Spaced (REFRESH - REFRESH_JITTER * 10 ^ 9) (((ends i t).filter End.ok).map End.now) ∧
    Spaced RETRY ((ends i t).map End.now) := by
  have htimed := timed_run h i
  refine ⟨htimed.delayed, fun x hx hclosed => ?_, ?_, ?_⟩
  · have hspawned := htimed.spawned fun hnil => by
      rw [hnil] at hx
      cases hx
    rw [enabled_announce hspawned hclosed, htimed.last x hx]
  · refine List.pairwise_map.mpr ?_
    refine (htimed.ordered.sublist List.filter_sublist).imp_of_mem fun {x y} hx hy hxy => ?_
    obtain ⟨hmem, hok⟩ := List.mem_filter.mp hx
    exact (Nat.add_le_add_left ((htimed.delayed x hmem).1 hok).1 _).trans hxy
  · refine List.pairwise_map.mpr (htimed.ordered.imp_of_mem fun {x y} hx _ hxy => ?_)
    refine le_trans (Nat.add_le_add_left ?_ _) hxy
    cases hok : x.ok with
    | true => exact RETRY_le_renewal.trans ((htimed.delayed x hx).1 hok).1
    | false => exact ((htimed.delayed x hx).2 hok).ge

/-! ## A paced publisher -/

namespace Sample

open IndexKeeper.Sample (home)

/-- A publisher that was just made, with all its permits. -/
def start : State Unit :=
  ⟨Publisher.Sample.start, PERMITS, none, 0, fun _ => .outside, fun _ => 0⟩

theorem initial_start : start.Initial :=
  ⟨Publisher.Sample.initial_start, rfl, rfl, rfl, fun _ => rfl, fun _ => Nat.zero_le _⟩

/-- An infohash is added, its worker waits for its turn, and its first announcement fails. -/
def steps : List (Event Unit) :=
  [.publisher (.add ()) 0, .publisher .notify 0, .publisher .snapshot 0, .publisher .manage 0,
    .publisher (.keeper (.announce ((), 0))) 0, .acquired ((), 0), .locked ((), 0), .slept ((), 0),
    .publisher (.keeper (.closest ((), 0) none)) 0]

theorem follows_steps : (machine Unit).Follows [] start steps := by
  refine ⟨⟨trivial, Nat.zero_le _, nofun, nofun, nofun⟩,
    ⟨Nat.one_pos, Nat.zero_le _, nofun, nofun, nofun⟩,
    ⟨rfl, Nat.zero_le _, nofun, nofun, nofun⟩,
    ⟨⟨_, rfl⟩, Nat.zero_le _, nofun, nofun, nofun⟩,
    ⟨⟨rfl, Nat.one_pos⟩, Nat.zero_le _, fun _ _ => nofun, fun _ _ => le_rfl, nofun⟩,
    ⟨rfl, by decide⟩, ⟨rfl, rfl⟩, ⟨0, rfl, le_rfl⟩,
    ⟨⟨trivial, Nat.one_pos⟩, Nat.zero_le _, fun i hi => ?_, nofun, nofun⟩, trivial⟩
  obtain rfl := Option.some.inj hi
  exact nofun

/-- The history of these steps. -/
def history : List (Event Unit × Output Unit) := ((machine Unit).exec start steps).1

/-- The state that they lead to. -/
def final : State Unit := ((machine Unit).exec start steps).2

/-- The publisher makes these steps. -/
theorem run_steps : (machine Unit).Run history final :=
  (Machine.Run.start initial_start).follows follows_steps

end Sample

/-- A start at time zero, no other one within a gap, and everything back after it. -/
theorem paced_announcements_sample : ∃ (t : List (Event Unit × Output Unit)) (s : State Unit),
    (machine Unit).Run t s ∧ starts t = [0] ∧
      TokenBucket.countIn (starts t) 0 (ANNOUNCE_SPACING - 1) ≤ 1 ∧ s.available = PERMITS := by
  obtain ⟨hwindow, -, hback, -⟩ := paced_announcements Sample.run_steps
  have hplace : ∀ i, (Sample.final.announcement i).place = .outside := by
    rintro ⟨-, n⟩
    cases n with
    | zero => rfl
    | succ n => rfl
  refine ⟨_, _, Sample.run_steps, by decide +kernel, hwindow 0 _, (hback fun i => ?_).1⟩
  refine ⟨fun h => ?_, fun h => ?_⟩
  · exact nomatch (hplace i).symm.trans h.2
  · exact nomatch (hplace i).symm.trans h.2

/-- A failure at time zero, and the next announcement half a minute later. -/
theorem announcements_renewed_sample : ∃ (t : List (Event Unit × Output Unit)) (s : State Unit)
    (x : End), (machine Unit).Run t s ∧ (ends ((), 0) t).getLast? = some x ∧ x.due = RETRY ∧
      ¬ s.Enabled (.publisher (.keeper (.announce ((), 0))) 0) := by
  obtain ⟨hdelayed, hdue, -, -⟩ := announcements_renewed Sample.run_steps ((), 0)
  have hends : ends ((), 0) Sample.history = [⟨0, false, RETRY⟩] := by decide +kernel
  rw [hends] at hdelayed hdue
  have hclock : Sample.final.clock = 0 := by decide +kernel
  refine ⟨_, _, ⟨0, false, RETRY⟩, Sample.run_steps, by rw [hends]; rfl, Nat.zero_add _, ?_⟩
  rw [hdue _ rfl (by decide +kernel), hclock]
  rintro ⟨-, hle⟩
  exact RETRY_pos.not_ge ((Nat.zero_add _).symm.trans_le hle)

end Pacing

end ContentDiscovery
