import ContentDiscovery.KeeperSchedule
import Mathlib.Algebra.Order.Group.Nat

/-!
# When an announcement goes ahead

An announcement goes ahead when the record is live. It is then resolvable
(`announced_resolvable`): a server in use holds the record under the announced socket.
The gate knows which servers were asked and the address that Mainline reported, not who
stored the record under which socket, so this takes two assumptions
(`StoredUnderAddress`, `KeepsHolder`), and fails without either
(`announced_unresolvable`).
-/

namespace ContentDiscovery

namespace IndexKeeper

variable {ι : Type} {s : State ι} {t : List (Event ι × Output)}

/-- A server stored our record under `socket`, and keeps it. -/
def Holds (t : List (Event ι × Output)) (server socket : SocketAddrV4) (now : Instant) : Prop :=
  ∃ r q, Published t r q ∧ (server, socket) ∈ q.stored ∧ now < r.now + INDEX_TTL

/-- If `servers` are enough for the record to be live, one of them holds it under the
address that it is for. -/
def HasHolder (t : List (Event ι × Output)) (record : Option Record)
    (servers : BTreeSet SocketAddrV4) : Prop :=
  ∀ x p, record = some x → x.publicAddr = some p → x.Reaches servers →
    ∃ r q, Published t r q ∧ x = r.published q ∧ ∃ server ∈ servers, (server, p) ∈ q.stored

/-- The publications that a server stores under the address Mainline reported. -/
def StoredUnderAddress (_ : List (Event ι × Output)) (s : State ι) (e : Event ι) : Prop :=
  ∀ r q p, s.pc = .publishing r → e = .published (some q) → r.publicAddr = some p →
    ∃ server, (server, p) ∈ q.stored

/-- The changes of the servers that keep one that stored the record, if they keep any. -/
def KeepsHolder (t : List (Event ι × Output)) (s : State ι) (e : Event ι) : Prop :=
  ∀ publicAddr, e = .address publicAddr → HasHolder t s.record s.discovered

theorem HasHolder.concat {record : Option Record} {servers : BTreeSet SocketAddrV4}
    (h : HasHolder t record servers) (x : Event ι × Output) :
    HasHolder (t ++ [x]) record servers := by
  intro y p hy hp hreaches
  obtain ⟨r, q, hpublished, heq, hserver⟩ := h y p hy hp hreaches
  exact ⟨r, q, hpublished.concat x, heq, hserver⟩

/-- Only the end of a publication stores anything. -/
theorem storedUnderAddress_of_ne {e : Event ι} (he : ∀ q, e ≠ .published (some q)) :
    StoredUnderAddress t s e :=
  fun _ q _ _ hq => absurd hq (he q)

variable [DecidableEq ι]

/-! ## What a step does to the record -/

/-- What a step does to the record and to the servers in use. -/
inductive RecordStep (s : State ι) : Event ι → State ι → Prop where
  /-- the keeper reads the servers -/
  | address {s' : State ι} (publicAddr : Option SocketAddrV4) (hrecord : s'.record = s.record)
      (hversion : s'.version = s.version) (hservers : s'.servers = s.discovered) :
      RecordStep s (.address publicAddr) s'
  /-- a publication ends -/
  | published {s' : State ι} (r : Reading) (q : Publication) (hpc : s.pc = .publishing r)
      (hrecord : s'.record = some (r.published q)) (hversion : s'.version = s.version + 1)
      (hservers : s'.servers = s.servers) : RecordStep s (.published (some q)) s'
  /-- anything else -/
  | frame {s' : State ι} {e : Event ι} (hrecord : s'.record = s.record)
      (hversion : s'.version = s.version) (hservers : s'.servers = s.servers) :
      RecordStep s e s'

theorem record_step {e : Event ι} (hen : s.Enabled e) : RecordStep s e (s.step e).1 := by
  by_cases he : e.IsKeeper
  swap
  · have hframe := step_frame s he
    exact .frame hframe.record hframe.version hframe.servers
  cases e with
  | loop => exact .frame rfl rfl rfl
  | activated => exact .frame rfl rfl rfl
  | closed => exact .frame rfl rfl rfl
  | address publicAddr =>
    simp only [State.step, State.afterAddress]
    split <;> exact .address publicAddr rfl rfl rfl
  | published result =>
    obtain ⟨r, hpc⟩ := hen.publishing
    rw [State.step_published hpc]
    cases result with
    | none => exact .frame rfl rfl rfl
    | some q => exact .published r q hpc rfl rfl rfl
  | wake cause => cases cause <;> exact .frame rfl rfl rfl
  | _ => cases he

/-- Time does not go back. -/
theorem clock_step {e : Event ι} (hen : s.Enabled e) : s.clock ≤ (s.step e).1.clock := by
  by_cases he : e.IsKeeper
  swap
  · exact (step_frame s he).clock
  cases e with
  | address publicAddr =>
    simp only [State.step, State.afterAddress]
    split <;> exact le_rfl
  | published result =>
    obtain ⟨r, hpc⟩ := hen.publishing
    rw [State.step_published hpc]
    cases result <;> exact le_rfl
  | wake cause => cases cause <;> exact le_rfl
  | loop | activated | closed => exact le_rfl
  | _ => cases he

/-! ## An announcement that goes ahead -/

/-- In the runs that both assumptions allow, the gate is right about the record. -/
theorem hasHolder_run
    (h : ((machine ι).restrict fun t s e => StoredUnderAddress t s e ∧ KeepsHolder t s e).Run t s) :
    HasHolder t s.record s.servers := by
  refine h.invariant (I := fun t s => HasHolder t s.record s.servers) ?_ ?_
  · rintro s ⟨hrecord, -⟩ x p hx
    rw [hrecord] at hx
    cases hx
  rintro t s e hrun ⟨hen, hstored, hkeeps⟩ ih
  have hpublishing := (schedule_run hrun.of_restrict).publishing
  obtain ⟨publicAddr, hrecord, -, hservers⟩ | ⟨r, q, hpc, hrecord, -, hservers⟩ |
    ⟨hrecord, -, hservers⟩ := record_step hen
  · -- the keeper reads servers that keep a holder
    simp only [Machine.restrict, machine]
    rw [hrecord, hservers]
    exact (hkeeps publicAddr rfl).concat _
  · -- the record is new, and for the servers in use
    obtain ⟨hsame, -, -, hlatest⟩ := hpublishing r hpc
    simp only [Machine.restrict, machine]
    rw [hrecord, hservers, State.step_published hpc]
    intro x p hx hp _
    obtain rfl := Option.some.inj hx
    obtain ⟨server, hserver⟩ := hstored r q p hpc rfl hp
    exact ⟨r, q, ⟨t, s.clock, [], rfl, hlatest⟩, rfl, server,
      hsame ▸ hen.stored hpc hserver, hserver⟩
  · simp only [Machine.restrict, machine]
    rw [hrecord, hservers]
    exact ih.concat _

/-- Announcements that go ahead are resolvable: a server in use holds the record under the
announced socket. -/
def Resolvable (M : Machine (State ι) (Event ι) Output) : Prop :=
  ∀ t s i p now, M.Run t s → s.Enabled (.check i) →
    (s.step (.check i)).2 = .announce (some p) now → ∃ server ∈ s.servers, Holds t server p now

/-- An announcement goes ahead only while the record is live. -/
theorem check_announce {i : ι} {publicAddr : Option SocketAddrV4} {now : Instant}
    (h : (s.step (.check i)).2 = .announce publicAddr now) :
    now = s.clock ∧ s.IsLive publicAddr s.clock := by
  simp only [State.step] at h
  split at h
  · split at h
    · rename_i hlive
      obtain ⟨rfl, rfl⟩ := Output.announce.inj h
      exact ⟨rfl, hlive⟩
    · cases h
  · cases h

/-- **Announcements are resolvable**, if a publication is stored under the address that
Mainline reported, and a change of the servers that keeps the record live keeps a server
that stored it. -/
theorem announced_resolvable :
    Resolvable ((machine ι).restrict fun t s e =>
      StoredUnderAddress t s e ∧ KeepsHolder t s e) := by
  intro t s i p now hrun _ hout
  obtain ⟨rfl, record, hrecord, haddr, hreaches, hage⟩ := check_announce hout
  obtain ⟨r, q, hpublished, rfl, server, hserver, hstored⟩ :=
    hasHolder_run hrun record p hrecord haddr hreaches
  refine ⟨server, hserver, r, q, hpublished, hstored, ?_⟩
  exact lt_add_of_tsub_lt_left hage

namespace Sample

/-- The socket that the server observes is not the one that Mainline reports. -/
def behindNat : List (Event Unit) :=
  [.loop, .address (some home), .published (some ⟨server₂, [(server, server₂)]⟩),
    .announce (), .paced (), .closest () (some (some home))]

/-- The server observes the socket that Mainline reports, and stays when the other one is
replaced; publishing to the new one fails. -/
def kept : List (Event Unit) :=
  [.setServers {server, server₂}, .loop, .address (some home),
    .published (some publication), .setServers {server, home}, .wake .servers,
    .loop, .address (some home), .published none,
    .announce (), .paced (), .closest () (some (some home))]

/-- One of two servers stores the record, and the other one stays. -/
def partly : List (Event Unit) :=
  [.setServers {server, server₂}, .loop, .address (some home),
    .published (some publication), .setServers {server₂, home}, .wake .servers,
    .loop, .address (some home), .published none,
    .announce (), .paced (), .closest () (some (some home))]

/-- What a publication stores. -/
def stored : Event Unit → List (SocketAddrV4 × SocketAddrV4)
  | .published (some q) => q.stored
  | _ => []

/-- An announcement goes ahead although no server in use ever stored its address. -/
theorem not_resolvable {t : List (Event Unit × Output)} {s : State Unit}
    {M : Machine (State Unit) (Event Unit) Output} (p : SocketAddrV4) (now : Instant)
    (hrun : M.Run t s) (hen : s.Enabled (.check ()))
    (hout : (s.step (.check ())).2 = .announce (some p) now)
    (hnone : ∀ x ∈ t, ∀ y ∈ stored x.1, y.1 ∈ s.servers → y.2 ≠ p) : ¬ Resolvable M := by
  intro h
  obtain ⟨server, hserver, r, q, ⟨pre, now', post, rfl, -⟩, hstored, -⟩ :=
    h t s () p now hrun hen hout
  have hmem : (.published (some q), .finished now') ∈
      pre ++ (.published (some q), .finished now') :: post := by simp
  exact hnone _ hmem _ hstored hserver rfl

end Sample

/-- The server that stored the record stays in use when the other one is replaced. -/
theorem announced_resolvable_sample : ∃ t s,
    ((machine Unit).restrict fun t s e => StoredUnderAddress t s e ∧ KeepsHolder t s e).Run t s ∧
      (s.step (.check ())).2 = .announce (some Sample.home) 0 ∧
      s.servers = {Sample.server, Sample.home} ∧
      ∃ server ∈ s.servers, Holds t server Sample.home 0 := by
  have hfollows : ((machine Unit).restrict fun t s e =>
      StoredUnderAddress t s e ∧ KeepsHolder t s e).Follows [] Sample.start Sample.kept := by
    refine ⟨⟨trivial, storedUnderAddress_of_ne nofun, nofun⟩,
      ⟨rfl, storedUnderAddress_of_ne nofun, nofun⟩,
      ⟨rfl, storedUnderAddress_of_ne nofun, ?first⟩, ⟨?result, ?stored, nofun⟩,
      ⟨trivial, storedUnderAddress_of_ne nofun, nofun⟩,
      ⟨rfl, storedUnderAddress_of_ne nofun, nofun⟩, ⟨rfl, storedUnderAddress_of_ne nofun, nofun⟩,
      ⟨rfl, storedUnderAddress_of_ne nofun, ?second⟩,
      ⟨nofun, storedUnderAddress_of_ne nofun, nofun⟩,
      ⟨rfl, storedUnderAddress_of_ne nofun, nofun⟩, ⟨rfl, storedUnderAddress_of_ne nofun, nofun⟩,
      ⟨trivial, storedUnderAddress_of_ne nofun, nofun⟩, trivial⟩
    case first =>
      rintro _ ⟨⟩ x p hx
      cases hx
    case result =>
      rintro _ ⟨⟩
      exact ⟨by decide, by decide⟩
    case stored =>
      rintro r q p ⟨⟩ ⟨⟩ ⟨⟩
      exact ⟨Sample.server, by decide⟩
    case second =>
      rintro _ ⟨⟩ x p ⟨⟩ ⟨⟩ -
      refine ⟨⟨some Sample.home, {Sample.server, Sample.server₂}, none, 0⟩, Sample.publication,
        ⟨[_, _] ++ [_], _, [_, _, _], rfl, .self trivial⟩, rfl, Sample.server, by decide, by decide⟩
  have hrun := (Machine.Run.start Sample.initial_start).follows hfollows
  have hout : (((((machine Unit).restrict fun t s e =>
      StoredUnderAddress t s e ∧ KeepsHolder t s e).exec Sample.start Sample.kept).2).step
        (.check ())).2 = .announce (some Sample.home) 0 := by decide +kernel
  exact ⟨_, _, hrun, hout, by decide +kernel,
    announced_resolvable _ _ () _ _ hrun trivial hout⟩

/-- The gate is wrong where either assumption fails: behind a network that maps the two
sockets differently, and after a publication that one of two servers stored. -/
theorem announced_unresolvable :
    ¬ Resolvable (machine Unit) ∧ ¬ Resolvable ((machine Unit).restrict KeepsHolder) ∧
      ¬ Resolvable ((machine Unit).restrict StoredUnderAddress) := by
  have hnat : ((machine Unit).restrict KeepsHolder).Follows [] Sample.start Sample.behindNat := by
    refine ⟨⟨rfl, nofun⟩, ⟨rfl, ?_⟩, ⟨?_, nofun⟩, ⟨rfl, nofun⟩, ⟨rfl, nofun⟩, ⟨trivial, nofun⟩,
      trivial⟩
    · rintro _ ⟨⟩ x p hx
      cases hx
    · rintro _ ⟨⟩
      exact ⟨by decide, by decide⟩
  have hpartly : ((machine Unit).restrict StoredUnderAddress).Follows [] Sample.start
      Sample.partly := by
    refine ⟨⟨trivial, storedUnderAddress_of_ne nofun⟩, ⟨rfl, storedUnderAddress_of_ne nofun⟩,
      ⟨rfl, storedUnderAddress_of_ne nofun⟩, ⟨?_, ?_⟩, ⟨trivial, storedUnderAddress_of_ne nofun⟩,
      ⟨rfl, storedUnderAddress_of_ne nofun⟩, ⟨rfl, storedUnderAddress_of_ne nofun⟩,
      ⟨rfl, storedUnderAddress_of_ne nofun⟩, ⟨nofun, storedUnderAddress_of_ne nofun⟩,
      ⟨rfl, storedUnderAddress_of_ne nofun⟩, ⟨rfl, storedUnderAddress_of_ne nofun⟩,
      ⟨trivial, storedUnderAddress_of_ne nofun⟩, trivial⟩
    · rintro _ ⟨⟩
      exact ⟨by decide, by decide⟩
    · rintro r q p ⟨⟩ ⟨⟩ ⟨⟩
      exact ⟨Sample.server, by decide⟩
  have hrun₁ := (Machine.Run.start Sample.initial_start).follows hnat
  have hrun₂ := (Machine.Run.start Sample.initial_start).follows hpartly
  have hnot₁ : ¬ Resolvable ((machine Unit).restrict KeepsHolder) :=
    Sample.not_resolvable Sample.home 0 hrun₁ trivial (by decide +kernel) (by decide +kernel)
  have hnot₂ : ¬ Resolvable ((machine Unit).restrict StoredUnderAddress) :=
    Sample.not_resolvable Sample.home 0 hrun₂ trivial (by decide +kernel) (by decide +kernel)
  exact ⟨fun h => hnot₁ fun t s i p now hrun => h t s i p now hrun.of_restrict, hnot₁, hnot₂⟩

end IndexKeeper

end ContentDiscovery
