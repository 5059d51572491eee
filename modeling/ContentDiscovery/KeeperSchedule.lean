import ContentDiscovery.IndexKeeper

/-!
# When the index keeper publishes

The schedule of the keeper over whole runs: it publishes when it is active and the
record is due, backs off after failures whatever woke it, and sleeps until the retry
or the refresh. `Schedule` is the invariant; the other steps leave the part of the
state that it is about alone (`step_frame`), so only the keeper's own steps count.

-/

namespace ContentDiscovery

namespace IndexKeeper

variable {ι : Type} {s : State ι} {t : List (Event ι × Output)}

/-- The steps of the keeper. -/
def Event.IsKeeper : Event ι → Prop
  | .loop | .activated | .closed | .address _ | .published _ | .wake _ => True
  | _ => False

/-- What an announcement or the environment leaves alone. -/
structure Frame (s s' : State ι) : Prop where
  /-- the record -/
  record : s'.record = s.record
  /-- its version -/
  version : s'.version = s.version
  /-- the servers the keeper saw -/
  servers : s'.servers = s.servers
  /-- the last failure -/
  failed : s'.failed = s.failed
  /-- the keeper's place -/
  pc : s'.pc = s.pc
  /-- time does not go back -/
  clock : s.clock ≤ s'.clock

theorem frame_report (publicAddr : Option SocketAddrV4) : Frame s (s.report publicAddr) := by
  rw [State.report]
  split <;> exact ⟨rfl, rfl, rfl, rfl, rfl, le_rfl⟩

/-! ## The schedule -/

/-- A call of `publish` ended. -/
def Event.IsPublished : Event ι → Prop
  | .published _ => True
  | _ => False

/-- The record of the state, seen with the readings of an iteration. -/
def Reading.at (r : Reading) (record : Option Record) : Reading := { r with record := record }

/-- `publish` returned `q` to an iteration that read `r`. -/
def Published (t : List (Event ι × Output)) (r : Reading) (q : Publication) : Prop :=
  ∃ pre now post, t = pre ++ (.published (some q), .finished now) :: post ∧
    Latest Event.IsKeeper (.address r.publicAddr, .publish r) pre

theorem Published.concat {r : Reading} {q : Publication} (h : Published t r q)
    (x : Event ι × Output) : Published (t ++ [x]) r q := by
  obtain ⟨pre, now, post, rfl, hlatest⟩ := h
  exact ⟨pre, now, post ++ [x], by simp, hlatest⟩

/-- The record that an iteration leaves when `publish` returned `q`. -/
def Reading.published (r : Reading) (q : Publication) : Record :=
  ⟨r.publicAddr, q.mapping, r.now, r.servers⟩

/-- What the keeper's place says about its past. -/
structure Schedule (t : List (Event ι × Output)) (s : State ι) : Prop where
  /-- failures lie in the past -/
  clocked : ∀ f, s.failed = some f → f ≤ s.clock
  /-- a failure is remembered, or its backoff is over -/
  failures : ∀ f, (.published none, .finished f) ∈ t →
    (∃ f', s.failed = some f' ∧ f ≤ f') ∨ f + RETRY ≤ s.clock
  /-- the failure that is remembered is the last publication that ended -/
  lastFailure : ∀ f, s.failed = some f →
    Latest Event.IsPublished (.published none, .finished f) t
  /-- an iteration asks for the address after it read `active` -/
  address : s.pc = .address → Latest Event.IsKeeper (.loop, .active true) t
  /-- it publishes with what it read since, and not while it backs off -/
  publishing : ∀ r, s.pc = .publishing r → r.servers = s.servers ∧ r.now ≤ s.clock ∧
    (∀ f, s.failed = some f → f + RETRY ≤ r.now) ∧
    Latest Event.IsKeeper (.address r.publicAddr, .publish r) t
  /-- it sleeps while the record is not due, or after a failure -/
  select : ∀ r next, s.pc = .select r next → next = s.next ∧
    ((r.at s.record).Due → ∃ f, s.failed = some f)
  /-- the record is what the iteration that published it read -/
  record : ∀ record, s.record = some record → ∃ r q, Published t r q ∧
    record = r.published q

theorem isPublished_isKeeper {e : Event ι} (h : e.IsPublished) : e.IsKeeper := by
  cases e with
  | published => trivial
  | _ => cases h

/-- The history of the record goes on. -/
theorem Schedule.record_concat (h : Schedule t s) (x : Event ι × Output) (record : Record)
    (hrecord : s.record = some record) : ∃ r q, Published (t ++ [x]) r q ∧
      record = r.published q := by
  obtain ⟨r, q, hpublished, heq⟩ := h.record record hrecord
  exact ⟨r, q, hpublished.concat x, heq⟩

/-- A step that is not the end of a publication adds no failure. -/
theorem Schedule.failures_concat (h : Schedule t s) {e : Event ι} (he : ¬ e.IsPublished)
    (out : Output) {f : Instant} (hf : (.published none, .finished f) ∈ t ++ [(e, out)]) :
    (∃ f', s.failed = some f' ∧ f ≤ f') ∨ f + RETRY ≤ s.clock := by
  rcases List.mem_append.mp hf with hf | hf
  · exact h.failures f hf
  · obtain ⟨rfl, -⟩ := Prod.mk.inj (List.mem_singleton.mp hf)
    exact absurd trivial he

/-- The steps of others keep the schedule. -/
theorem Schedule.frame (h : Schedule t s) {s' : State ι} {e : Event ι} (he : ¬ e.IsKeeper)
    (out : Output) (hframe : Frame s s') : Schedule (t ++ [(e, out)]) s' where
  clocked f hf := by
    rw [hframe.failed] at hf
    exact (h.clocked f hf).trans hframe.clock
  failures f hf := by
    rw [hframe.failed]
    exact (h.failures_concat (fun hp => he (isPublished_isKeeper hp)) out hf).imp_right
      fun hle => hle.trans hframe.clock
  lastFailure f hf := by
    rw [hframe.failed] at hf
    exact (h.lastFailure f hf).concat fun hp => he (isPublished_isKeeper hp)
  address hpc := by
    rw [hframe.pc] at hpc
    exact (h.address hpc).concat he
  publishing r hpc := by
    rw [hframe.pc] at hpc
    obtain ⟨hservers, hnow, hbackoff, hlatest⟩ := h.publishing r hpc
    rw [hframe.failed, hframe.servers]
    exact ⟨hservers, hnow.trans hframe.clock, hbackoff, hlatest.concat he⟩
  select r next hpc := by
    rw [hframe.pc] at hpc
    obtain ⟨hnext, hdue⟩ := h.select r next hpc
    rw [hframe.record, hframe.failed]
    refine ⟨hnext.trans ?_, hdue⟩
    rw [State.next, State.next, hframe.record, hframe.failed]
  record record hrecord := by
    rw [hframe.record] at hrecord
    exact h.record_concat _ record hrecord

/-- A keeper step that only moves the keeper, to a place without obligations. -/
theorem Schedule.move (h : Schedule t s) {s' : State ι} {e : Event ι} (he : ¬ e.IsPublished)
    (out : Output) (hrecord : s'.record = s.record) (hfailed : s'.failed = s.failed)
    (hclock : s'.clock = s.clock)
    (haddress : s'.pc = .address → Latest Event.IsKeeper (.loop, .active true) (t ++ [(e, out)]))
    (hpublishing : ∀ r, s'.pc = .publishing r → r.servers = s'.servers ∧ r.now ≤ s.clock ∧
      (∀ f, s.failed = some f → f + RETRY ≤ r.now) ∧
      Latest Event.IsKeeper (.address r.publicAddr, .publish r) (t ++ [(e, out)]))
    (hselect : ∀ r next, s'.pc = .select r next → next = s.next ∧
      ((r.at s.record).Due → ∃ f, s.failed = some f)) :
    Schedule (t ++ [(e, out)]) s' where
  clocked f hf := by
    rw [hclock]
    exact h.clocked f (hfailed ▸ hf)
  failures f hf := by
    rw [hfailed, hclock]
    exact h.failures_concat he out hf
  lastFailure f hf := (h.lastFailure f (hfailed ▸ hf)).concat he
  address := haddress
  publishing r hpc := by
    rw [hclock, hfailed]
    exact hpublishing r hpc
  select r next hpc := by
    obtain ⟨hnext, hdue⟩ := hselect r next hpc
    rw [hrecord, hfailed]
    refine ⟨hnext.trans ?_, hdue⟩
    rw [State.next, State.next, hrecord, hfailed]
  record record hrec := h.record_concat _ record (hrecord ▸ hrec)

theorem State.not_backingOff :
    ¬ s.BackingOff ↔ ∀ f, s.failed = some f → f + RETRY ≤ s.clock := by
  simp only [State.BackingOff, not_exists, not_and, not_lt, Option.mem_def]

/-- The record is published, with what the iteration read. -/
theorem Schedule.published (h : Schedule t s) {r : Reading} (hpc : s.pc = .publishing r)
    (result : Option Publication) :
    Schedule (t ++ [(.published result, (s.afterPublish r result).2)])
      (s.afterPublish r result).1 := by
  obtain ⟨-, hnow, hbackoff, hlatest⟩ := h.publishing r hpc
  have hold {f : Instant}
      (hf : (.published none, .finished f) ∈ t) :
      f + RETRY ≤ s.clock := by
    rcases h.failures f hf with ⟨f', hf', hle⟩ | hle
    · exact (Nat.add_le_add_right hle RETRY).trans ((hbackoff f' hf').trans hnow)
    · exact hle
  cases result with
  | none =>
    exact {
      clocked := by
        rintro f ⟨⟩
        exact le_rfl
      failures := by
        intro f hf
        rcases List.mem_append.mp hf with hf | hf
        · exact .inl ⟨s.clock, rfl, (Nat.le_add_right f RETRY).trans (hold hf)⟩
        · obtain ⟨-, ⟨⟩⟩ := Prod.mk.inj (List.mem_singleton.mp hf)
          exact .inl ⟨s.clock, rfl, le_rfl⟩
      lastFailure := by
        rintro f ⟨⟩
        exact .self trivial
      address := fun hpc => nomatch hpc
      publishing := fun r hpc => nomatch hpc
      select := by
        rintro r next ⟨⟩
        exact ⟨rfl, fun _ => ⟨s.clock, rfl⟩⟩
      record := h.record_concat _ }
  | some q =>
    exact {
      clocked := fun f hf => nomatch hf
      failures := by
        intro f hf
        rcases List.mem_append.mp hf with hf | hf
        · exact .inr (hold hf)
        · obtain ⟨⟨⟩, -⟩ := Prod.mk.inj (List.mem_singleton.mp hf)
      lastFailure := fun f hf => nomatch hf
      address := fun hpc => nomatch hpc
      publishing := fun r hpc => nomatch hpc
      select := by
        rintro r next ⟨⟩
        refine ⟨rfl, fun hdue => ?_⟩
        -- the record was published with these very readings
        rcases hdue _ rfl with hservers | haddr | hold
        · exact absurd rfl hservers
        · exact absurd rfl haddr
        · exact absurd hold (not_le.mpr (Nat.lt_add_of_pos_right INDEX_REFRESH_pos))
      record := by
        rintro record ⟨⟩
        exact ⟨r, q, ⟨t, s.clock, [], rfl, hlatest⟩, rfl⟩ }

/-- The rest of an iteration after `address`. -/
theorem Schedule.afterAddress (h : Schedule t s) (publicAddr : Option SocketAddrV4) :
    Schedule (t ++ [(.address publicAddr, (s.afterAddress publicAddr).2)])
      (s.afterAddress publicAddr).1 := by
  have he : ¬ (Event.address publicAddr : Event ι).IsPublished := fun he => he
  rw [State.afterAddress]
  dsimp only
  split
  · rename_i hdue
    refine h.move he _ rfl rfl rfl (fun hpc => nomatch hpc) ?_ fun r next hpc => nomatch hpc
    rintro r ⟨⟩
    exact ⟨rfl, le_rfl, State.not_backingOff.mp hdue.2, .self trivial⟩
  · rename_i hdue
    refine h.move he _ rfl rfl rfl (fun hpc => nomatch hpc) (fun r hpc => nomatch hpc) ?_
    rintro r next ⟨⟩
    refine ⟨rfl, fun hdue' => ?_⟩
    by_contra hnone
    exact hdue ⟨hdue', State.not_backingOff.mpr fun f hf => absurd ⟨f, hf⟩ hnone⟩

/-! ## Runs -/

/-- `publish` returns to the iteration that called it. -/
theorem State.Enabled.publishing {result : Option Publication}
    (hen : s.Enabled (.published result)) : ∃ r, s.pc = .publishing r := by
  simp only [State.Enabled] at hen
  split at hen
  · exact ⟨_, ‹_›⟩
  · exact hen.elim

theorem State.Enabled.stored {r : Reading} {q : Publication} (hen : s.Enabled (.published (some q)))
    (hpc : s.pc = .publishing r) {x : SocketAddrV4 × SocketAddrV4} (hx : x ∈ q.stored) :
    x.1 ∈ r.servers := by
  simp only [State.Enabled, hpc] at hen
  exact (hen q rfl).2 x hx

variable [DecidableEq ι]

/-- Only the keeper moves the keeper. -/
theorem step_frame (s : State ι) {e : Event ι} (h : ¬ e.IsKeeper) : Frame s (s.step e).1 := by
  have hmove (i : ι) (a : Announcement) : Frame s (s.move i a) :=
    ⟨rfl, rfl, rfl, rfl, rfl, le_rfl⟩
  cases e with
  | loop | activated | closed | address | published | wake => exact absurd trivial h
  | announce i => exact hmove i _
  | paced i => exact hmove i _
  | closest i result =>
    simp only [State.step]
    split
    · obtain ⟨h₁, h₂, h₃, h₄, h₅, h₆⟩ := frame_report (s := s) _
      exact ⟨h₁, h₂, h₃, h₄, h₅, h₆⟩
    · exact hmove i _
  | check i =>
    simp only [State.step]
    split
    · split <;> exact hmove i _
    · exact ⟨rfl, rfl, rfl, rfl, rfl, le_rfl⟩
  | changed i jitter =>
    simp only [State.step]
    split
    · split <;> exact hmove i _
    · exact ⟨rfl, rfl, rfl, rfl, rfl, le_rfl⟩
  | restart i => exact hmove i _
  | announced i => exact hmove i _
  | tick d => exact ⟨rfl, rfl, rfl, rfl, rfl, Nat.le_add_right _ _⟩
  | setActive active => exact ⟨rfl, rfl, rfl, rfl, rfl, le_rfl⟩
  | setServers servers => exact ⟨rfl, rfl, rfl, rfl, rfl, le_rfl⟩

theorem State.step_published {r : Reading} (hpc : s.pc = .publishing r)
    (result : Option Publication) : s.step (.published result) = s.afterPublish r result := by
  simp only [State.step, hpc]

/-- Every step keeps the schedule. -/
theorem Schedule.step (h : Schedule t s) {e : Event ι} (hen : s.Enabled e) :
    Schedule (t ++ [(e, (s.step e).2)]) (s.step e).1 := by
  by_cases he : e.IsKeeper
  swap
  · exact h.frame he _ (step_frame s he)
  cases e with
  | loop =>
    have hnot : ¬ (Event.loop : Event ι).IsPublished := fun he => he
    have hpc : (s.step .loop).1.pc = if s.active then .address else .inactive := rfl
    refine h.move hnot _ rfl rfl rfl (fun hpc' => ?_) (fun r hpc' => ?_) fun r next hpc' => ?_
    · have hactive : s.active = true := by
        by_contra hactive
        rw [hpc, if_neg hactive] at hpc'
        cases hpc'
      have hout : (s.step .loop).2 = .active true := congrArg Output.active hactive
      rw [hout]
      exact .self trivial
    · rw [hpc] at hpc'
      split at hpc' <;> cases hpc'
    · rw [hpc] at hpc'
      split at hpc' <;> cases hpc'
  | activated =>
    exact h.move (e := .activated) (fun he => he) _ rfl rfl rfl (fun hpc => nomatch hpc)
      (fun r hpc => nomatch hpc) fun r next hpc => nomatch hpc
  | closed =>
    exact h.move (e := .closed) (fun he => he) _ rfl rfl rfl (fun hpc => nomatch hpc)
      (fun r hpc => nomatch hpc) fun r next hpc => nomatch hpc
  | address publicAddr => exact h.afterAddress publicAddr
  | published result =>
    obtain ⟨r, hpc⟩ := hen.publishing
    rw [State.step_published hpc]
    exact h.published hpc result
  | wake cause =>
    have hnot : ¬ (Event.wake cause : Event ι).IsPublished := fun he => he
    have hpc : (s.woken cause).pc = .head := by cases cause <;> rfl
    refine h.move hnot _ ?_ ?_ ?_ (fun hpc' => ?_) (fun r hpc' => ?_) fun r next hpc' => ?_
    · cases cause <;> rfl
    · cases cause <;> rfl
    · cases cause <;> rfl
    · exact absurd (hpc.symm.trans hpc') (nomatch ·)
    · exact absurd (hpc.symm.trans hpc') (nomatch ·)
    · exact absurd (hpc.symm.trans hpc') (nomatch ·)
  | _ => cases he

theorem schedule_run (h : (machine ι).Run t s) : Schedule t s := by
  refine h.invariant (I := Schedule) ?_ fun t s e _ hen h => h.step hen
  rintro s ⟨hrecord, -, -, -, hfailed, hpc, -⟩
  exact {
    clocked := by simp [hfailed]
    failures := fun f hf => nomatch hf
    lastFailure := by simp [hfailed]
    address := by simp [hpc]
    publishing := by simp [hpc]
    select := by simp [hpc]
    record := by simp [hrecord] }

/-- Only the end of the part of an iteration before `publish` calls it. -/
theorem State.step_publish {e : Event ι} {r : Reading} (h : (s.step e).2 = .publish r) :
    ∃ p, e = .address p ∧ r = s.reading p ∧ r.Due ∧ ¬ s.BackingOff := by
  cases e with
  | address p =>
    simp only [State.step, State.afterAddress] at h
    split at h
    · rename_i hdue
      obtain rfl := Output.publish.inj h
      exact ⟨p, rfl, rfl, hdue⟩
    · cases h
  | published result =>
    simp only [State.step] at h
    split at h
    · cases result <;> cases h
    · cases h
  | closest i result =>
    simp only [State.step] at h
    split at h <;> cases h
  | check i =>
    simp only [State.step] at h
    split at h
    · split at h <;> cases h
    · cases h
  | changed i jitter =>
    simp only [State.step] at h
    split at h
    · split at h <;> cases h
    · cases h
  | _ => cases h

/-- **The schedule of publications.** `publish` is called only by an iteration that read
`active` as true and found the record due, and at least `RETRY` after every failure before
it. The record carries what its iteration read before it published. A keeper that sleeps
while the record is due has its timer on the last failure plus `RETRY`. -/
theorem publication_schedule (h : (machine ι).Run t s) :
    (∀ e r, s.Enabled e → (s.step e).2 = .publish r →
      Latest Event.IsKeeper (.loop, .active true) t ∧ (∃ p, e = .address p ∧ r = s.reading p) ∧
        r.Due ∧ ∀ f, (.published none, .finished f) ∈ t → f + RETRY ≤ s.clock) ∧
    (∀ record, s.record = some record → ∃ before s₁ p mid q now post,
      t = before ++ (.address p, .publish (s₁.reading p)) :: mid ++
          (.published (some q), .finished now) :: post ∧
        (machine ι).Run before s₁ ∧ (∀ x ∈ mid, ¬ x.1.IsKeeper) ∧
        record = ⟨p, q.mapping, s₁.clock, s₁.discovered⟩) ∧
    ∀ r next, s.pc = .select r next → (r.at s.record).Due →
      ∃ f, next = some (f + RETRY) ∧ Latest Event.IsPublished (.published none, .finished f) t := by
  have hs := schedule_run h
  refine ⟨fun e r hen hpub => ?_, fun record hrecord => ?_, fun r next hpc hdue => ?_⟩
  · obtain ⟨p, rfl, rfl, hdue, hbackoff⟩ := State.step_publish hpub
    refine ⟨hs.address hen, ⟨p, rfl, rfl⟩, hdue, fun f hf => ?_⟩
    -- an earlier failure is remembered through the last one, or its backoff is over
    rcases hs.failures f hf with ⟨f', hf', hle⟩ | hle
    · exact (Nat.add_le_add_right hle RETRY).trans (State.not_backingOff.mp hbackoff f' hf')
    · exact hle
  · obtain ⟨r, q, ⟨pre, now, post, rfl, before, mid, rfl, -, hmid⟩, rfl⟩ := hs.record record hrecord
    obtain ⟨s₁, hrun, -, hout⟩ := h.stepAt (List.append_assoc before (_ :: mid) _)
    obtain ⟨p, hp, rfl, -⟩ := State.step_publish hout.symm
    exact ⟨before, s₁, p, mid, q, now, post, rfl, hrun, hmid, rfl⟩
  · obtain ⟨hnext, hfailed⟩ := hs.select r next hpc
    obtain ⟨f, hf⟩ := hfailed hdue
    refine ⟨f, hnext.trans ?_, hs.lastFailure f hf⟩
    rw [State.next, hf]

namespace Sample

/-- The socket of the endpoint. -/
def home : SocketAddrV4 := ⟨⟨203, 0, 113, 7⟩, 1⟩

/-- An index server. -/
def server : SocketAddrV4 := ⟨⟨192, 0, 2, 53⟩, 6881⟩

/-- Another index server. -/
def server₂ : SocketAddrV4 := ⟨⟨198, 51, 100, 53⟩, 6881⟩

/-- A publication that one server stored. -/
def publication : Publication := ⟨home, [(server, home)]⟩

/-- An active keeper that starts with one server. -/
def start : State Unit where
  clock := 0
  record := none
  version := 0
  servers := ∅
  reported := false
  failed := none
  pc := .head
  active := true
  activeChanged := false
  discovered := {server}
  discoveredChanged := false
  announcements _ := .idle

theorem initial_start : start.Initial := ⟨rfl, rfl, rfl, rfl, rfl, rfl, fun _ => rfl⟩

/-- The first publication fails, and the keeper wakes to retry it. -/
def failure : List (Event Unit) :=
  [.loop, .address (some home), .published none, .tick RETRY, .wake .timer, .loop]

end Sample

/-- A retry, `RETRY` after the failure. -/
theorem publication_schedule_sample :
    ∃ t s, (machine Unit).Run t s ∧ (.published none, .finished 0) ∈ t ∧
      (s.step (.address (some Sample.home))).2 = .publish (s.reading (some Sample.home)) ∧
      Latest Event.IsKeeper (.loop, .active true) t ∧ 0 + RETRY ≤ s.clock := by
  have hfollows : (machine Unit).Follows [] Sample.start Sample.failure :=
    ⟨rfl, rfl, nofun, trivial, ⟨_, rfl, by decide +kernel⟩, rfl, trivial⟩
  have hrun := (Machine.Run.start Sample.initial_start).follows hfollows
  have hmem : (.published none, .finished 0) ∈
      ((machine Unit).exec Sample.start Sample.failure).1 := by decide +kernel
  have hpub : (((machine Unit).exec Sample.start Sample.failure).2.step
      (.address (some Sample.home))).2 =
        .publish (((machine Unit).exec Sample.start Sample.failure).2.reading
          (some Sample.home)) := by decide +kernel
  obtain ⟨hactive, -, -, hretry⟩ := (publication_schedule hrun).1 (.address _) _ rfl hpub
  exact ⟨_, _, hrun, hmem, hpub, hactive, hretry 0 hmem⟩

end IndexKeeper

end ContentDiscovery
