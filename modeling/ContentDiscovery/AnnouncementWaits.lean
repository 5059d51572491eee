import ContentDiscovery.Announcements

/-!
# When an announcement waits

An announcement that finds the record not live waits for the next publication, and only
a publication wakes it. The record can become live again without one: the keeper goes
back to servers that hold it, and has nothing to publish. `blocked_while_live` says that
this is the only way to wait while the record is live.
-/

namespace ContentDiscovery

namespace IndexKeeper

variable {ι : Type} [DecidableEq ι] {s : State ι} {t : List (Event ι × Output)}

/-- The version of the record that a subscribed announcement saw. -/
def Announcement.seen : Announcement → Option ℕ
  | .finding seen | .reported seen _ | .blocked seen _ _ => some seen
  | _ => none

/-- What a step does to the announcement `i`. -/
inductive AnnouncementStep (s : State ι) (i : ι) : Event ι → Announcement → Prop where
  /-- it stays where it is -/
  | frame {e : Event ι} : AnnouncementStep s i e (s.announcements i)
  /-- it is not subscribed -/
  | unsubscribed {e : Event ι} {a : Announcement} (ha : a.seen = none) : AnnouncementStep s i e a
  /-- it subscribes -/
  | finding : AnnouncementStep s i (.paced i) (.finding s.version)
  /-- it learns the address -/
  | reported {seen : ℕ} {publicAddr : Option SocketAddrV4}
      (ha : s.announcements i = .finding seen) :
      AnnouncementStep s i (.closest i (some publicAddr)) (.reported seen publicAddr)
  /-- it finds the record not live -/
  | blocked {seen : ℕ} {publicAddr : Option SocketAddrV4}
      (ha : s.announcements i = .reported seen publicAddr)
      (hlive : ¬ s.IsLive publicAddr s.clock) :
      AnnouncementStep s i (.check i) (.blocked seen publicAddr s.clock)

/-- An announcement that moves does what its move says, and the others stay. -/
theorem AnnouncementStep.move {s' : State ι} (hs' : s'.announcements = s.announcements) {i j : ι}
    {e : Event ι} {a : Announcement} (h : AnnouncementStep s j e a) :
    AnnouncementStep s i e ((s'.move j a).announcements i) := by
  simp only [State.move, hs']
  by_cases hij : i = j
  · subst hij
    rw [Function.update_self]
    exact h
  · rw [Function.update_of_ne hij]
    exact .frame

theorem announcement_step (s : State ι) (e : Event ι) (i : ι) :
    AnnouncementStep s i e ((s.step e).1.announcements i) := by
  cases e with
  | address publicAddr =>
    simp only [State.step, State.afterAddress]
    split <;> exact .frame
  | published result =>
    simp only [State.step]
    split
    · cases result <;> exact .frame
    · exact .frame
  | wake cause => cases cause <;> exact .frame
  | announce j => exact .move rfl (.unsubscribed rfl)
  | paced j => exact .move rfl .finding
  | closest j result =>
    simp only [State.step]
    split
    · rename_i seen publicAddr ha
      refine .move ?_ (.reported ha)
      rw [State.report]
      split <;> rfl
    · exact .move rfl (.unsubscribed rfl)
  | check j =>
    simp only [State.step]
    split
    · rename_i seen publicAddr ha
      split
      · exact .move rfl (.unsubscribed rfl)
      · rename_i hlive
        exact .move rfl (.blocked ha hlive)
    · exact .frame
  | changed j jitter =>
    simp only [State.step]
    split
    · split <;> exact .move rfl (.unsubscribed rfl)
    · exact .frame
  | restart j => exact .move rfl (.unsubscribed rfl)
  | announced j => exact .move rfl (.unsubscribed rfl)
  | loop | activated | closed | tick | setActive | setServers => exact .frame

/-- The record is published no less often than an announcement saw. -/
theorem seen_le_run (h : (machine ι).Run t s) :
    ∀ i seen, (s.announcements i).seen = some seen → seen ≤ s.version := by
  refine h.invariant (I := fun _ s => ∀ i seen, (s.announcements i).seen = some seen →
    seen ≤ s.version) ?_ ?_
  · rintro s ⟨-, -, -, -, -, -, hidle⟩ i seen hseen
    rw [hidle i] at hseen
    cases hseen
  intro t s e hrun hen ih i seen hseen
  have hversion : s.version ≤ (s.step e).1.version := by
    obtain ⟨_, -, hversion, -⟩ | ⟨_, _, -, -, hversion, -⟩ | ⟨-, hversion, -⟩ := record_step hen
    · exact hversion.ge
    · exact hversion ▸ Nat.le_succ _
    · exact hversion.ge
  refine le_trans ?_ hversion
  have hstep := announcement_step s e i
  simp only [machine] at hseen
  generalize (s.step e).1.announcements i = a at hseen hstep
  cases hstep with
  | frame => exact ih i seen hseen
  | unsubscribed ha =>
    rw [ha] at hseen
    cases hseen
  | finding => exact (Option.some.inj hseen).ge
  | reported ha => exact ih i seen (by rw [ha]; exact hseen)
  | blocked ha => exact ih i seen (by rw [ha]; exact hseen)

/-- Since it checked, what an announcement that waits relies on has changed only through a
publication, or through servers that the keeper read. -/
def WaitsSince (t : List (Event ι × Output)) (s : State ι) (i : ι) (seen : ℕ)
    (publicAddr : Option SocketAddrV4) : Prop :=
  ∃ pre post s₁, t = pre ++ (.check i, .quiet) :: post ∧ (machine ι).Run pre s₁ ∧
    s₁.announcements i = .reported seen publicAddr ∧ ¬ s₁.IsLive publicAddr s₁.clock ∧
    s₁.clock ≤ s.clock ∧ s₁.version ≤ s.version ∧
    (s₁.version = s.version → s₁.record = s.record) ∧
    ((∀ x ∈ post, ∀ p, x.1 ≠ .address p) → s₁.servers = s.servers)

theorem WaitsSince.step {i : ι} {seen : ℕ} {publicAddr : Option SocketAddrV4} {e : Event ι}
    (h : WaitsSince t s i seen publicAddr) (hen : s.Enabled e) :
    WaitsSince (t ++ [(e, (s.step e).2)]) (s.step e).1 i seen publicAddr := by
  obtain ⟨pre, post, s₁, rfl, hrun, ha, hlive, hclock, hversion, hrecord, hservers⟩ := h
  refine ⟨pre, post ++ [(e, (s.step e).2)], s₁, by simp, hrun, ha, hlive,
    hclock.trans (clock_step hen), ?_⟩
  obtain ⟨p, hrecord', hversion', -⟩ | ⟨_, _, -, -, hversion', hservers'⟩ |
    ⟨hrecord', hversion', hservers'⟩ := record_step hen
  · rw [hrecord', hversion']
    refine ⟨hversion, hrecord, fun hno => ?_⟩
    -- the keeper read the servers, so nothing is claimed about them
    have hread := hno (.address p, (s.step (.address p)).2)
      (List.mem_append_right _ (List.mem_singleton_self _)) p
    exact absurd rfl hread
  · rw [hversion', hservers']
    refine ⟨hversion.trans (Nat.le_succ _), fun heq => ?_, fun hno => hservers fun x hx => ?_⟩
    · exact absurd heq (Nat.lt_succ_of_le hversion).ne
    · exact hno x (List.mem_append_left _ hx)
  · rw [hrecord', hversion', hservers']
    refine ⟨hversion, hrecord, fun hno => hservers fun x hx => ?_⟩
    exact hno x (List.mem_append_left _ hx)

theorem waitsSince_run (h : (machine ι).Run t s) : ∀ i seen publicAddr waiting,
    s.announcements i = .blocked seen publicAddr waiting → WaitsSince t s i seen publicAddr := by
  refine h.invariant (I := fun t s => ∀ i seen publicAddr waiting,
    s.announcements i = .blocked seen publicAddr waiting →
      WaitsSince t s i seen publicAddr) ?_ ?_
  · rintro s ⟨-, -, -, -, -, -, hidle⟩ i seen publicAddr waiting ha
    rw [hidle i] at ha
    cases ha
  intro t s e hrun hen ih i seen publicAddr waiting ha
  have hstep := announcement_step s e i
  have hquiet : s.announcements i = .reported seen publicAddr → ¬ s.IsLive publicAddr s.clock →
      (s.step (.check i)).2 = .quiet := by
    intro hreported hlive
    simp only [State.step, hreported, if_neg hlive]
  simp only [machine] at ha
  generalize (s.step e).1.announcements i = a at ha hstep
  cases hstep with
  | frame => exact (ih i seen publicAddr waiting ha).step hen
  | unsubscribed hnone =>
    rw [ha] at hnone
    cases hnone
  | finding => cases ha
  | reported => cases ha
  | blocked hreported hlive =>
    obtain ⟨rfl, rfl, -⟩ := Announcement.blocked.inj ha
    have hrecord := record_step (e := .check i) hen
    refine ⟨t, [], s, ?_, hrun, hreported, hlive, clock_step hen, ?_⟩
    · exact congrArg (fun out => t ++ [(Event.check i, out)]) (hquiet hreported hlive)
    · cases hrecord with
      | frame hrecord hversion hservers =>
        exact ⟨hversion.ge, fun _ => hrecord.symm, fun _ => hservers.symm⟩

/-- **A wait while the record is live.** If the record is live for an announcement that is
blocked, and nothing was published since it subscribed, then the record was out of reach
of the servers in use when it checked, and the keeper has read the servers since. -/
theorem blocked_while_live (h : (machine ι).Run t s) {i : ι} {seen : ℕ}
    {publicAddr : Option SocketAddrV4} {waiting : Instant}
    (ha : s.announcements i = .blocked seen publicAddr waiting) (hseen : seen = s.version)
    (hlive : s.IsLive publicAddr s.clock) :
    ∃ pre post s₁, t = pre ++ (.check i, .quiet) :: post ∧ (machine ι).Run pre s₁ ∧
      s₁.announcements i = .reported seen publicAddr ∧ s₁.version = s.version ∧
      (∃ record, s₁.record = some record ∧ s.record = some record ∧
        ¬ record.Reaches s₁.servers ∧ record.Reaches s.servers) ∧
      ∃ x ∈ post, ∃ p, x.1 = .address p := by
  obtain ⟨pre, post, s₁, rfl, hrun, hreported, hnot, hclock, hversion, hrecord, hservers⟩ :=
    waitsSince_run h i seen publicAddr waiting ha
  have hsame : s₁.version = s.version := by
    refine le_antisymm hversion (hseen.symm.trans_le ?_)
    exact seen_le_run hrun i seen (by rw [hreported]; rfl)
  obtain ⟨record, hsome, haddr, hreaches, hage⟩ := hlive
  have hsome₁ : s₁.record = some record := (hrecord hsame).trans hsome
  -- the address and the age did not keep the record from being live
  have hunreached : ¬ record.Reaches s₁.servers := by
    intro hreaches₁
    refine hnot ⟨record, hsome₁, haddr, hreaches₁, lt_of_le_of_lt ?_ hage⟩
    exact Nat.sub_le_sub_right hclock _
  refine ⟨pre, post, s₁, rfl, hrun, hreported, hsame, ⟨record, hsome₁, hsome, hunreached,
    hreaches⟩, ?_⟩
  by_contra hno
  simp only [not_exists, not_and] at hno
  rw [hservers hno] at hunreached
  exact hunreached hreaches

/-- The keeper sleeps, and no notification is pending. -/
def Asleep (s : State ι) : Prop :=
  (∃ r next, s.pc = .select r next) ∧ s.reported = false ∧ s.discoveredChanged = false ∧
    s.activeChanged = false

namespace Sample

/-- An announcement finds the record on servers that are gone; then they are back. -/
def stall : List (Event Unit) :=
  [.loop, .address (some home), .published (some publication),
    .setServers {server₂}, .wake .servers, .loop, .address (some home), .published none,
    .announce (), .paced (), .closest () (some (some home)), .check (),
    .setServers {server}, .wake .servers, .loop, .address (some home)]

theorem follows_stall : (machine Unit).Follows [] start stall := by
  refine ⟨rfl, rfl, ?_, trivial, rfl, rfl, rfl, nofun, rfl, rfl, trivial, trivial, trivial, rfl,
    rfl, rfl, trivial⟩
  rintro _ ⟨⟩
  exact ⟨by decide, by decide⟩

theorem exec_stall :
    ((machine Unit).exec start stall).2.announcements () = .blocked 1 (some home) 0 ∧
      ((machine Unit).exec start stall).2.version = 1 ∧
      ((machine Unit).exec start stall).2.IsLive (some home)
        ((machine Unit).exec start stall).2.clock ∧
      Asleep ((machine Unit).exec start stall).2 := by
  have hpc : ((machine Unit).exec start stall).2.pc =
      .select ⟨some home, {server}, some ⟨some home, home, 0, {server}⟩, 0⟩ (some RETRY) := by
    decide +kernel
  refine ⟨by decide +kernel, by decide +kernel, by decide +kernel, ⟨_, _, hpc⟩, ?_⟩
  decide +kernel

end Sample

theorem blocked_while_live_sample : ∃ t s, (machine Unit).Run t s ∧
    s.announcements () = .blocked 1 (some Sample.home) 0 ∧ s.version = 1 ∧
      s.IsLive (some Sample.home) s.clock ∧ ∃ pre post s₁,
        t = pre ++ (.check (), .quiet) :: post ∧ (machine Unit).Run pre s₁ ∧
          ∃ x ∈ post, ∃ p, x.1 = .address p := by
  have hrun := (Machine.Run.start Sample.initial_start).follows Sample.follows_stall
  obtain ⟨ha, hversion, hlive, -⟩ := Sample.exec_stall
  obtain ⟨pre, post, s₁, ht, hpre, -, -, -, hx⟩ := blocked_while_live hrun ha hversion.symm hlive
  exact ⟨_, _, hrun, ha, hversion, hlive, pre, post, s₁, ht, hpre, hx⟩

/-- An announcement stays blocked while the record is live and the keeper sleeps. -/
theorem blocked_while_asleep :
    ¬ ∀ t s, (machine Unit).Run t s → Asleep s → ∀ i publicAddr waiting,
      s.announcements i = .blocked s.version publicAddr waiting →
        ¬ s.IsLive publicAddr s.clock := by
  intro h
  have hrun := (Machine.Run.start Sample.initial_start).follows Sample.follows_stall
  obtain ⟨ha, hversion, hlive, hasleep⟩ := Sample.exec_stall
  exact h _ _ hrun hasleep () (some Sample.home) 0 (hversion.symm ▸ ha) hlive

end IndexKeeper

end ContentDiscovery
