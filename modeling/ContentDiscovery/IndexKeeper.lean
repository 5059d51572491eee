import ContentDiscovery.Addr
import ContentDiscovery.Collections
import ContentDiscovery.Machine
import Mathlib.Logic.Function.Basic

/-!
# The index keeper and its announcements

`iroh-mainline-endpoint-discovery/src/index_keeper.rs`: one keeper that republishes
the endpoint record, and any number of announcements that wait for it. Both are
asynchronous; a step is what one of them does between two points where it waits, so
every interleaving is a sequence of steps. The clock, the channel of the servers, the
channel of the activity, and the outcomes of `address`, `publish` and `closest` belong
to the environment.

A watch channel is its value, with a flag that says whether its one receiver has a
change to see. The channel of the record has many receivers, so it has a version, and
a receiver the version it saw.

The durations are opaque constants: the arguments only use how they compare.
-/

namespace ContentDiscovery

/-- Age after which the record is republished: 30 minutes. -/
@[irreducible] def INDEX_REFRESH : ℕ := 30 * 60 * 10 ^ 9

/-- Delay before a failed publication is retried: 30 seconds. -/
@[irreducible] def RETRY : ℕ := 30 * 10 ^ 9

/-- How long index servers keep a record: 60 minutes. -/
@[irreducible] def INDEX_TTL : ℕ := 60 * 60 * 10 ^ 9

/-- Longest random delay before an announcement resumes: 60 seconds. -/
def RESTART_JITTER : ℕ := 60 * 10 ^ 9

theorem INDEX_REFRESH_pos : 0 < INDEX_REFRESH := by
  unfold INDEX_REFRESH
  decide

theorem RETRY_pos : 0 < RETRY := by
  unfold RETRY
  decide

/-- `Record`: a record that an index server stored. -/
structure Record where
  /-- our address as Mainline reported it, if it knew it -/
  publicAddr : Option SocketAddrV4
  /-- the socket the server stored the record under -/
  mapping : SocketAddrV4
  /-- when it was published -/
  time : Instant
  /-- the servers in use when it was published -/
  servers : BTreeSet SocketAddrV4
  deriving DecidableEq

namespace Record

/-- Readers that ask `servers` ask a server the record was published to. -/
def Reaches (r : Record) (servers : BTreeSet SocketAddrV4) : Prop :=
  r.servers = servers ∨ ¬ Disjoint r.servers servers

instance (r : Record) (servers : BTreeSet SocketAddrV4) : Decidable (r.Reaches servers) :=
  inferInstanceAs (Decidable (_ ∨ _))

/-- `Record::is_live`. -/
def IsLive (r : Record) (publicAddr : Option SocketAddrV4) (servers : BTreeSet SocketAddrV4)
    (now : Instant) : Prop :=
  r.publicAddr = publicAddr ∧ r.Reaches servers ∧ now - r.time < INDEX_TTL

instance (r : Record) (publicAddr : Option SocketAddrV4) (servers : BTreeSet SocketAddrV4)
    (now : Instant) : Decidable (r.IsLive publicAddr servers now) :=
  inferInstanceAs (Decidable (_ ∧ _))

end Record

namespace IndexKeeper

/-- What an iteration of `IndexKeeper::run` reads before it decides. -/
structure Reading where
  /-- the address Mainline sees us at -/
  publicAddr : Option SocketAddrV4
  /-- the servers discovery names -/
  servers : BTreeSet SocketAddrV4
  /-- the record -/
  record : Option Record
  /-- the time -/
  now : Instant
  deriving DecidableEq

/-- `due`: there is no record, or it is for other servers or another address, or old. -/
def Reading.Due (r : Reading) : Prop :=
  ∀ record ∈ r.record, record.servers ≠ r.servers ∨ record.publicAddr ≠ r.publicAddr ∨
    record.time + INDEX_REFRESH ≤ r.now

instance (r : Reading) : Decidable r.Due := inferInstanceAs (Decidable (∀ record ∈ r.record, _))

/-- Where the loop of `IndexKeeper::run` stands. -/
inductive Pc where
  /-- at its head -/
  | head
  /-- waits for activity -/
  | inactive
  /-- waits for `address` -/
  | address
  /-- waits for `publish` -/
  | publishing (r : Reading)
  /-- at its `select`, with the timer -/
  | select (r : Reading) (next : Option Instant)
  /-- returned -/
  | stopped
  deriving DecidableEq

/-- Where a call of `announce_indexed` stands. -/
inductive Announcement where
  /-- not called, or returned -/
  | idle
  /-- waits for `pace` -/
  | pacing
  /-- waits for `closest`; subscribed to the record at version `seen` -/
  | finding (seen : ℕ)
  /-- has reported its address -/
  | reported (seen : ℕ) (publicAddr : Option SocketAddrV4)
  /-- waits in `published.changed()` -/
  | blocked (seen : ℕ) (publicAddr : Option SocketAddrV4) (waiting : Instant)
  /-- sleeps before it starts over -/
  | restarting (wake : Instant)
  /-- waits for `announce` -/
  | announcing (publicAddr : Option SocketAddrV4)
  deriving DecidableEq

/-- The keeper, its announcements, and what they share. -/
structure State (ι : Type) where
  /-- the clock -/
  clock : Instant
  /-- the current record -/
  record : Option Record
  /-- how often it was published -/
  version : ℕ
  /-- the servers in use, as the keeper last saw them -/
  servers : BTreeSet SocketAddrV4
  /-- an announcement saw an address the record is not for -/
  reported : Bool
  /-- when the last publication failed, if it did -/
  failed : Option Instant
  /-- where the keeper stands -/
  pc : Pc
  /-- whether there is something to announce -/
  active : Bool
  /-- the keeper has not seen the latest change of `active` -/
  activeChanged : Bool
  /-- the servers discovery names -/
  discovered : BTreeSet SocketAddrV4
  /-- the keeper has not seen the latest change of `discovered` -/
  discoveredChanged : Bool
  /-- where the announcements stand -/
  announcements : ι → Announcement

/-- A publication that succeeded: the servers that stored the record, each with the
socket it observed, one of which `publish` returned. -/
structure Publication where
  /-- the socket `publish` returned -/
  mapping : SocketAddrV4
  /-- who stored the record, and under which socket -/
  stored : List (SocketAddrV4 × SocketAddrV4)
  deriving DecidableEq

/-- What can wake the keeper from its `select`. -/
inductive Wake where
  /-- a report -/
  | reported
  /-- a change of the servers -/
  | servers
  /-- a change of the activity -/
  | active
  /-- the timer -/
  | timer
  deriving DecidableEq

/-- A step of the keeper, of an announcement, or of the environment. -/
inductive Event (ι : Type) where
  /-- the keeper reads `active` -/
  | loop
  /-- `active.changed()` returns at the head of the loop -/
  | activated
  /-- `active.changed()` fails there: the sender is gone -/
  | closed
  /-- `address` returns -/
  | address (publicAddr : Option SocketAddrV4)
  /-- `publish` returns -/
  | published (result : Option Publication)
  /-- the `select` of the keeper takes a branch -/
  | wake (cause : Wake)
  /-- `announce_indexed` is called -/
  | announce (i : ι)
  /-- `pace` returns, and the announcement subscribes -/
  | paced (i : ι)
  /-- `closest` returns; its error ends the call -/
  | closest (i : ι) (result : Option (Option SocketAddrV4))
  /-- the announcement asks whether the record is live -/
  | check (i : ι)
  /-- `published.changed()` returns; `jitter` is drawn after a long wait -/
  | changed (i : ι) (jitter : ℕ)
  /-- the delay is over -/
  | restart (i : ι)
  /-- `announce` returns -/
  | announced (i : ι)
  /-- time passes -/
  | tick (d : ℕ)
  /-- the activity is set -/
  | setActive (active : Bool)
  /-- discovery finds servers -/
  | setServers (servers : BTreeSet SocketAddrV4)
  deriving DecidableEq

/-- What a step shows. -/
inductive Output where
  /-- nothing -/
  | quiet
  /-- the activity the keeper read -/
  | active (active : Bool)
  /-- the keeper calls `publish` -/
  | publish (r : Reading)
  /-- a call of `publish` ended -/
  | finished (now : Instant)
  /-- `announce` is called, at this time -/
  | announce (publicAddr : Option SocketAddrV4) (now : Instant)
  deriving DecidableEq

namespace State

variable {ι : Type} (s : State ι)

/-- `IndexKeeper::is_live`: whether a server in use holds our record. -/
def IsLive (publicAddr : Option SocketAddrV4) (now : Instant) : Prop :=
  ∃ record ∈ s.record, record.IsLive publicAddr s.servers now

instance (publicAddr : Option SocketAddrV4) (now : Instant) :
    Decidable (s.IsLive publicAddr now) :=
  inferInstanceAs (Decidable (∃ record ∈ s.record, _))

/-- `IndexKeeper::report`: asks for another record if this one is not for the address. -/
def report (publicAddr : Option SocketAddrV4) : State ι :=
  if ∀ record ∈ s.record, record.publicAddr ≠ publicAddr then { s with reported := true }
  else s

/-- What the iteration reads once `address` returned. -/
def reading (publicAddr : Option SocketAddrV4) : Reading :=
  ⟨publicAddr, s.discovered, s.record, s.clock⟩

/-- `backing_off`: the last attempt failed less than `RETRY` ago. -/
def BackingOff : Prop := ∃ failed ∈ s.failed, s.clock < failed + RETRY

instance : Decidable s.BackingOff := inferInstanceAs (Decidable (∃ failed ∈ s.failed, _))

/-- `next`: the retry after a failure, the refresh otherwise. -/
def next : Option Instant :=
  match s.failed with
  | some failed => some (failed + RETRY)
  | none => s.record.map fun record => record.time + INDEX_REFRESH

/-- The keeper goes to its `select`. -/
def sleep (r : Reading) : State ι := { s with pc := .select r s.next }

/-- The part of an iteration after `address` returned. -/
def afterAddress (publicAddr : Option SocketAddrV4) : State ι × Output :=
  let r := s.reading publicAddr
  let s' := { s with discoveredChanged := false, servers := s.discovered }
  if r.Due ∧ ¬ s.BackingOff then ({ s' with pc := .publishing r }, .publish r)
  else (s'.sleep r, .quiet)

/-- The part of an iteration after `publish` returned. -/
def afterPublish (r : Reading) (result : Option Publication) : State ι × Output :=
  match result with
  | some p =>
    let record : Record := ⟨r.publicAddr, p.mapping, r.now, r.servers⟩
    let s := { s with record := some record, version := s.version + 1, failed := none }
    (s.sleep r, .finished s.clock)
  | none =>
    let s := { s with failed := some s.clock }
    (s.sleep r, .finished s.clock)

/-- A branch of the `select` takes the change it waited for. -/
def woken : Wake → State ι
  | .reported => { s with reported := false, pc := .head }
  | .servers => { s with discoveredChanged := false, pc := .head }
  | .active => { s with activeChanged := false, pc := .head }
  | .timer => { s with pc := .head }

section Announcements

variable [DecidableEq ι]

/-- The announcement `i` moves. -/
def move (i : ι) (a : Announcement) : State ι :=
  { s with announcements := Function.update s.announcements i a }

/-- One step. A step that is not enabled does nothing. -/
def step : Event ι → State ι × Output
  | .loop =>
    ({ s with activeChanged := false, pc := if s.active then .address else .inactive },
      .active s.active)
  | .activated => ({ s with activeChanged := false, pc := .head }, .quiet)
  | .closed => ({ s with pc := .stopped }, .quiet)
  | .address publicAddr => s.afterAddress publicAddr
  | .published result =>
    match s.pc with
    | .publishing r => s.afterPublish r result
    | _ => (s, .quiet)
  | .wake cause => (s.woken cause, .quiet)
  | .announce i => (s.move i .pacing, .quiet)
  | .paced i => (s.move i (.finding s.version), .quiet)
  | .closest i result =>
    match s.announcements i, result with
    | .finding seen, some publicAddr =>
      ((s.report publicAddr).move i (.reported seen publicAddr), .quiet)
    | _, _ => (s.move i .idle, .quiet)
  | .check i =>
    match s.announcements i with
    | .reported seen publicAddr =>
      if s.IsLive publicAddr s.clock then
        (s.move i (.announcing publicAddr), .announce publicAddr s.clock)
      else (s.move i (.blocked seen publicAddr s.clock), .quiet)
    | _ => (s, .quiet)
  | .changed i jitter =>
    match s.announcements i with
    | .blocked _ _ waiting =>
      if RETRY ≤ s.clock - waiting then (s.move i (.restarting (s.clock + jitter)), .quiet)
      else (s.move i .pacing, .quiet)
    | _ => (s, .quiet)
  | .restart i => (s.move i .pacing, .quiet)
  | .announced i => (s.move i .idle, .quiet)
  | .tick d => ({ s with clock := s.clock + d }, .quiet)
  | .setActive active => ({ s with active := active, activeChanged := true }, .quiet)
  | .setServers servers => ({ s with discovered := servers, discoveredChanged := true }, .quiet)

/-- When a step can happen. -/
def Enabled : Event ι → Prop
  | .loop => s.pc = .head
  | .activated => s.pc = .inactive ∧ s.activeChanged = true
  | .closed => s.pc = .inactive
  | .address _ => s.pc = .address
  | .published result =>
    match s.pc with
    | .publishing r => ∀ p, result = some p → p.mapping ∈ p.stored.map Prod.snd ∧
        ∀ x ∈ p.stored, x.1 ∈ r.servers
    | _ => False
  | .wake cause =>
    match s.pc with
    | .select _ next =>
      match cause with
      | .reported => s.reported = true
      | .servers => s.discoveredChanged = true
      | .active => s.activeChanged = true
      | .timer => ∃ deadline ∈ next, deadline ≤ s.clock
    | _ => False
  | .announce i => s.announcements i = .idle
  | .paced i => s.announcements i = .pacing
  | .closest i _ =>
    match s.announcements i with
    | .finding _ => True
    | _ => False
  | .check i =>
    match s.announcements i with
    | .reported _ _ => True
    | _ => False
  | .changed i jitter =>
    match s.announcements i with
    | .blocked seen _ _ => seen ≠ s.version ∧ jitter ≤ RESTART_JITTER
    | _ => False
  | .restart i =>
    match s.announcements i with
    | .restarting wake => wake ≤ s.clock
    | _ => False
  | .announced i =>
    match s.announcements i with
    | .announcing _ => True
    | _ => False
  | .tick _ => True
  | .setActive _ => True
  | .setServers _ => True

/-- The keeper before its first iteration, with nothing announced. -/
def Initial : Prop :=
  s.record = none ∧ s.version = 0 ∧ s.servers = ∅ ∧ s.reported = false ∧ s.failed = none ∧
    s.pc = .head ∧ ∀ i, s.announcements i = .idle

end Announcements

end State

/-- The machine of a keeper and its announcements. -/
def machine (ι : Type) [DecidableEq ι] : Machine (State ι) (Event ι) Output where
  init := State.Initial
  enabled _ s e := s.Enabled e
  step s e := s.step e

end IndexKeeper

end ContentDiscovery
