import ContentDiscovery.KeeperSchedule

/-!
# How long the index keeper sleeps

The keeper sleeps until a timer when nothing else wakes it, so it spins if the timer
lies in the past. It does in one case: an iteration finds the record not due although
a failure is remembered whose backoff is over. That takes a record that stops being
due while the keeper backs off, because an address or a set of servers comes back, or
an iteration that is late.

* `address_rests_iff` — the timer of an iteration that does not publish is in the
  future if and only if this is not the case.
* `keeper_rests` — so the timer always is, in the runs without such an iteration.
-/

namespace ContentDiscovery

namespace IndexKeeper

variable {ι : Type} {s : State ι} {t : List (Event ι × Output)}

/-- The iteration finds the record not due, and a failure whose backoff is over. -/
def State.StaleFailure (s : State ι) (publicAddr : Option SocketAddrV4) : Prop :=
  ¬ (s.reading publicAddr).Due ∧ ∃ failed ∈ s.failed, failed + RETRY ≤ s.clock

/-- The steps of a keeper that never meets a stale failure. -/
def NoStaleFailure (_ : List (Event ι × Output)) (s : State ι) (e : Event ι) : Prop :=
  ∀ publicAddr, e = .address publicAddr → ¬ s.StaleFailure publicAddr

/-- The publications that take less than `INDEX_REFRESH`. -/
def Prompt (_ : List (Event ι × Output)) (s : State ι) (e : Event ι) : Prop :=
  ∀ r result, s.pc = .publishing r → e = .published result → s.clock < r.now + INDEX_REFRESH

/-- The timer of the `select`, if it has one, is after the time the iteration read. -/
def Rests (pc : Pc) : Prop := ∀ r deadline, pc = .select r (some deadline) → r.now < deadline

/-- Only the end of a publication is late. -/
theorem prompt_of_ne {e : Event ι} (he : ∀ result, e ≠ .published result) : Prompt t s e :=
  fun _ result _ hresult => absurd hresult (he result)

theorem INDEX_REFRESH_lt (now : Instant) : now < now + INDEX_REFRESH :=
  Nat.lt_add_of_pos_right INDEX_REFRESH_pos

theorem RETRY_lt (now : Instant) : now < now + RETRY :=
  Nat.lt_add_of_pos_right RETRY_pos

/-- An iteration rests after `address` if and only if it meets no stale failure. -/
theorem address_rests_iff {publicAddr : Option SocketAddrV4} :
    Rests (s.afterAddress publicAddr).1.pc ↔ ¬ s.StaleFailure publicAddr := by
  by_cases hpublish : (s.reading publicAddr).Due ∧ ¬ s.BackingOff
  · have hpc : (s.afterAddress publicAddr).1.pc = .publishing (s.reading publicAddr) := by
      rw [State.afterAddress, if_pos hpublish]
    refine iff_of_true (fun r deadline h => ?_) fun h => h.1 hpublish.1
    rw [hpc] at h
    cases h
  · have hpc : (s.afterAddress publicAddr).1.pc = .select (s.reading publicAddr) s.next := by
      rw [State.afterAddress, if_neg hpublish]
      rfl
    rw [hpc]
    constructor
    · -- the timer is the retry of the stale failure, which is over
      rintro hrests ⟨-, failed, hfailed, hle⟩
      have hnext : s.next = some (failed + RETRY) := by
        rw [State.next, Option.mem_def.mp hfailed]
      have hlt := hrests _ (failed + RETRY) (congrArg _ hnext)
      exact absurd hle (not_le.mpr hlt)
    · intro hstale r deadline h
      obtain ⟨rfl, hnext⟩ := Pc.select.inj h
      cases hfailed : s.failed with
      | some failed =>
        obtain rfl : failed + RETRY = deadline := by
          rw [State.next, hfailed] at hnext
          exact Option.some.inj hnext
        by_contra hle
        have hover : ¬ s.BackingOff := by
          rw [State.not_backingOff]
          intro f hf
          obtain rfl := Option.some.inj (hfailed.symm.trans hf)
          exact not_lt.mp hle
        exact hstale ⟨fun hdue => hpublish ⟨hdue, hover⟩, failed, hfailed, not_lt.mp hle⟩
      | none =>
        -- nothing failed, so the iteration did not publish because nothing is due
        have hnot : ¬ (s.reading publicAddr).Due := by
          intro hdue
          refine hpublish ⟨hdue, ?_⟩
          rintro ⟨f, hf, -⟩
          rw [hfailed] at hf
          cases hf
        rw [State.next, hfailed] at hnext
        obtain ⟨record, hrecord, rfl⟩ := Option.map_eq_some_iff.mp hnext
        simp only [Reading.Due, not_forall, not_or, not_le] at hnot
        obtain ⟨record', hrecord', -, -, hlt⟩ := hnot
        obtain rfl := Option.some.inj (hrecord.symm.trans hrecord')
        exact hlt

/-- An iteration that published rests: its failure ended after it read the time, and its
record has that time. -/
theorem published_rests {r : Reading} (hnow : r.now ≤ s.clock) (result : Option Publication) :
    Rests (s.afterPublish r result).1.pc := by
  intro r' deadline h
  cases result with
  | some p =>
    obtain ⟨rfl, hnext⟩ := Pc.select.inj h
    obtain rfl := Option.some.inj hnext
    exact INDEX_REFRESH_lt _
  | none =>
    obtain ⟨rfl, hnext⟩ := Pc.select.inj h
    obtain rfl := Option.some.inj hnext
    exact hnow.trans_lt (RETRY_lt _)

variable [DecidableEq ι]

/-- A keeper that meets no stale failure rests. -/
theorem rests_run (h : ((machine ι).restrict NoStaleFailure).Run t s) : Rests s.pc := by
  refine h.invariant (I := fun _ s => Rests s.pc) ?_ ?_
  · rintro s ⟨-, -, -, -, -, hpc, -⟩ r deadline h
    rw [hpc] at h
    cases h
  rintro t s e hrun ⟨hen, hstale⟩ ih
  by_cases he : e.IsKeeper
  swap
  · have hpc : (s.step e).1.pc = s.pc := (step_frame s he).pc
    intro r deadline h
    exact ih r deadline (hpc.symm.trans h)
  cases e with
  | loop =>
    intro r deadline h
    have hpc : (s.step .loop).1.pc = if s.active then .address else .inactive := rfl
    have h := hpc.symm.trans h
    split at h <;> cases h
  | activated => exact fun r deadline h => nomatch h
  | closed => exact fun r deadline h => nomatch h
  | address publicAddr => exact address_rests_iff.mpr (hstale publicAddr rfl)
  | published result =>
    obtain ⟨r, hpc⟩ := State.Enabled.publishing hen
    have hstep : ((machine ι).restrict NoStaleFailure).step s (.published result) =
        s.afterPublish r result := State.step_published hpc result
    rw [hstep]
    exact published_rests ((schedule_run hrun.of_restrict).publishing r hpc).2.1 result
  | wake cause =>
    intro r deadline h
    have hpc : (s.woken cause).pc = .head := by cases cause <;> rfl
    exact absurd (hpc.symm.trans h) (nomatch ·)
  | _ => cases he

/-- **The keeper rests.** In a run whose iterations meet no stale failure, every timer is
after the time its iteration read, so the timer wakes the keeper only after time has
passed. An iteration that meets one has its timer in the past. -/
theorem keeper_rests :
    (∀ t s, ((machine ι).restrict NoStaleFailure).Run t s →
      ∀ r deadline, s.pc = .select r (some deadline) →
        r.now < deadline ∧ (s.Enabled (.wake .timer) → r.now < s.clock)) ∧
    ∀ t s publicAddr, (machine ι).Run t s → s.Enabled (.address publicAddr) →
      s.StaleFailure publicAddr →
        ∃ r deadline, (s.step (.address publicAddr)).1.pc = .select r (some deadline) ∧
          deadline ≤ r.now := by
  constructor
  · intro t s hrun r deadline hpc
    have hlt := rests_run hrun r deadline hpc
    refine ⟨hlt, fun hen => ?_⟩
    simp only [State.Enabled, hpc] at hen
    obtain ⟨deadline', hdeadline, hle⟩ := hen
    obtain rfl := Option.some.inj hdeadline
    exact hlt.trans_le hle
  · intro t s publicAddr hrun hen hstale
    have hnot := mt address_rests_iff.mp (not_not.mpr hstale)
    simp only [Rests, not_forall, not_lt] at hnot
    obtain ⟨r, deadline, hpc, hle⟩ := hnot
    exact ⟨r, deadline, hpc, hle⟩

namespace Sample

/-- The record is published; publishing it to other servers fails, and when the keeper
retries, the first servers are back. -/
def comeback : List (Event Unit) :=
  [.loop, .address (some home), .published (some publication),
    .setServers {server₂}, .wake .servers, .loop, .address (some home), .published none,
    .setServers {server}, .tick RETRY, .wake .timer, .loop, .address (some home)]

end Sample

/-- A publication, and then a failure that still backs off. -/
theorem keeper_rests_sample :
    ∃ t s, ((machine Unit).restrict NoStaleFailure).Run t s ∧
      ∃ r deadline, s.pc = .select r (some deadline) ∧ r.now < deadline := by
  have hfollows : ((machine Unit).restrict NoStaleFailure).Follows [] Sample.start
      (Sample.comeback.take 8) := by
    refine ⟨⟨rfl, nofun⟩, ⟨rfl, ?first⟩, ⟨?result, nofun⟩, ⟨trivial, nofun⟩, ⟨rfl, nofun⟩,
      ⟨rfl, nofun⟩, ⟨rfl, ?second⟩, ⟨nofun, nofun⟩, trivial⟩
    case first =>
      rintro _ ⟨⟩ ⟨-, f, hf, -⟩
      cases hf
    case result =>
      rintro _ ⟨⟩
      exact ⟨by decide, by decide⟩
    case second =>
      rintro _ ⟨⟩ ⟨-, f, hf, -⟩
      cases hf
  have hrun := (Machine.Run.start Sample.initial_start).follows hfollows
  exact ⟨_, _, hrun, _, _, rfl, (keeper_rests.1 _ _ hrun _ _ rfl).1⟩

/-- The keeper spins, although every publication ends at once. -/
theorem keeper_spins :
    ¬ ∀ t s, ((machine Unit).restrict Prompt).Run t s →
      ∀ r deadline, s.pc = .select r (some deadline) → r.now < deadline := by
  intro h
  have hfollows : ((machine Unit).restrict Prompt).Follows [] Sample.start Sample.comeback := by
    refine ⟨⟨rfl, prompt_of_ne nofun⟩, ⟨rfl, prompt_of_ne nofun⟩, ⟨?_, ?_⟩,
      ⟨trivial, prompt_of_ne nofun⟩, ⟨rfl, prompt_of_ne nofun⟩, ⟨rfl, prompt_of_ne nofun⟩,
      ⟨rfl, prompt_of_ne nofun⟩, ⟨nofun, ?_⟩, ⟨trivial, prompt_of_ne nofun⟩,
      ⟨trivial, prompt_of_ne nofun⟩, ⟨⟨_, rfl, by decide +kernel⟩, prompt_of_ne nofun⟩,
      ⟨rfl, prompt_of_ne nofun⟩, ⟨rfl, prompt_of_ne nofun⟩, trivial⟩
    · rintro _ ⟨⟩
      exact ⟨by decide, by decide⟩
    · rintro r result ⟨⟩ ⟨⟩
      exact INDEX_REFRESH_lt _
    · rintro r result ⟨⟩ ⟨⟩
      exact INDEX_REFRESH_lt _
  have hrun := (Machine.Run.start Sample.initial_start).follows hfollows
  have hpc : (((machine Unit).restrict Prompt).exec Sample.start Sample.comeback).2.pc =
      .select ⟨some Sample.home, {Sample.server},
        some ⟨some Sample.home, Sample.home, 0, {Sample.server}⟩, RETRY⟩ (some RETRY) := by
    decide +kernel
  exact absurd (h _ _ hrun _ _ hpc) (lt_irrefl _)

end IndexKeeper

end ContentDiscovery
