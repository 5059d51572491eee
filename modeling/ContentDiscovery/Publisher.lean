import ContentDiscovery.IndexKeeper

/-!
# The publisher

`iroh-mainline-endpoint-discovery/src/publisher.rs`: infohashes are registered from anywhere, and a
loop keeps one announcement worker for each of them and runs the index keeper. The loop works with
a snapshot of what is registered; calls, workers and other tasks go on between any two of its steps.
Only while the loop is at its `select`, the keeper goes on.

The workers are tasks of their own. A handle that is dropped aborts its task; the task may go on
for a while, so in the model it is only marked. What a worker reports is queued.
-/

namespace ContentDiscovery

namespace Publisher

open IndexKeeper (Publication)

/-- A task: the infohash it announces, and how many tasks were spawned for it before. -/
abbrev TaskId (Id : Type) : Type := Id × ℕ

/-- Where the loop of `State::run` stands. The snapshot is the one of this iteration. -/
inductive Pc (Id : Type) where
  /-- at its head -/
  | head
  /-- has taken a snapshot -/
  | taken (entries : HashSet Id)
  /-- has updated the activity and the workers -/
  | managed (entries : HashSet Id)
  /-- at its `select` -/
  | select (entries : HashSet Id)
  /-- returned -/
  | returned
  deriving DecidableEq

/-- The publisher, its tasks and the keeper. -/
structure State (Id : Type) where
  /-- the infohashes that are registered -/
  entries : HashSet Id
  /-- how many calls have changed the entries and not notified the loop yet -/
  calls : ℕ
  /-- a notification is pending -/
  permit : Bool
  /-- the socket of the index record once every registered hash is announced -/
  published : Option SocketAddrV4
  /-- the index keeper and the calls of `announce_indexed`, with the channel of the activity -/
  keeper : IndexKeeper.State (TaskId Id)
  /-- where the loop stands -/
  pc : Pc Id
  /-- the worker of an infohash -/
  workers : Id → Option ℕ
  /-- how many tasks were spawned for an infohash -/
  spawned : Id → ℕ
  /-- the tasks whose handles were dropped -/
  aborted : TaskId Id → Bool
  /-- the infohashes that were announced -/
  announced : HashSet Id
  /-- what the workers have sent, the first message first -/
  messages : List Id
  /-- the version of the record that the loop has seen -/
  seen : ℕ

/-- A step of a call, of the loop, of the keeper or a worker, or of the environment. -/
inductive Event (Id : Type) where
  /-- `add_infohash` changes the entries -/
  | add (hash : Id)
  /-- `remove_infohash` changes the entries -/
  | remove (hash : Id)
  /-- a call that has changed the entries notifies the loop -/
  | notify
  /-- the loop reads the entries -/
  | snapshot
  /-- it updates the activity, the workers and what was announced -/
  | manage
  /-- it sets `published`, if everything was announced -/
  | publish
  /-- its `select` takes a notification -/
  | notified
  /-- its `select` takes a change of the record -/
  | changed
  /-- its `select` takes a message -/
  | received
  /-- its `select` ends with the keeper -/
  | stopped
  /-- a step of the keeper, of an announcement, or of what is around them -/
  | keeper (e : IndexKeeper.Event (TaskId Id))
  /-- `announce` returns to the worker of a task, which sends the infohash if it succeeded -/
  | announced (i : TaskId Id) (ok : Bool)
  deriving DecidableEq

/-- What a step shows. -/
inductive Output (Id : Type) where
  /-- nothing -/
  | quiet
  /-- whether the entries changed -/
  | modified (modified : Bool)
  /-- the snapshot -/
  | snapshot (entries : HashSet Id)
  /-- the message -/
  | received (hash : Id)
  /-- `published` is set, with this snapshot -/
  | published (entries : HashSet Id) (mapping : Option SocketAddrV4)
  /-- a step of the keeper's machine -/
  | keeper (e : IndexKeeper.Event (TaskId Id)) (out : IndexKeeper.Output)
  deriving DecidableEq

namespace State

variable {Id : Type} [DecidableEq Id] (s : State Id)

/-- `IndexKeeper::mapping`. -/
def mapping : Option SocketAddrV4 := s.keeper.record.map fun record => record.mapping

/-- The entries change, unless they are the same. -/
def modify (entries : HashSet Id) : State Id × Output Id :=
  if entries = s.entries then (s, .modified false)
  else ({ s with entries := entries, calls := s.calls + 1 }, .modified true)

/-- A step of the keeper's machine. -/
def stepKeeper (e : IndexKeeper.Event (TaskId Id)) : State Id × Output Id :=
  ({ s with keeper := (s.keeper.step e).1 }, .keeper e (s.keeper.step e).2)

/-- Workers are kept for the snapshot, and spawned for what has none. A handle that is not kept is
dropped. -/
def staff (entries : HashSet Id) : State Id :=
  { s with
    workers := fun hash =>
      if hash ∈ entries then some ((s.workers hash).getD (s.spawned hash)) else none
    spawned := fun hash =>
      if hash ∈ entries ∧ s.workers hash = none then s.spawned hash + 1 else s.spawned hash
    aborted := fun i => s.aborted i || decide (i.1 ∉ entries ∧ s.workers i.1 = some i.2)
    announced := s.announced.filter fun hash => hash ∈ entries }

/-- One step. A step that is not enabled does nothing. -/
def step : Event Id → State Id × Output Id
  | .add hash => s.modify (insert hash s.entries)
  | .remove hash => s.modify (s.entries.erase hash)
  | .notify => ({ s with calls := s.calls - 1, permit := true }, .quiet)
  | .snapshot => ({ s with pc := .taken s.entries }, .snapshot s.entries)
  | .manage =>
    match s.pc with
    | .taken entries =>
      let s' := { s.staff entries with pc := .managed entries }
      -- `send_if_modified`
      if s.keeper.active = decide (entries = ∅) then
        s'.stepKeeper (.setActive (decide (entries ≠ ∅)))
      else (s', .quiet)
    | _ => (s, .quiet)
  | .publish =>
    match s.pc with
    | .managed entries =>
      if entries ≠ ∅ ∧ entries ⊆ s.announced then
        ({ s with published := s.mapping, pc := .select entries }, .published entries s.mapping)
      else ({ s with pc := .select entries }, .quiet)
    | _ => (s, .quiet)
  | .notified => ({ s with permit := false, pc := .head }, .quiet)
  | .changed => ({ s with seen := s.keeper.version, pc := .head }, .quiet)
  | .received =>
    match s.messages with
    | [] => (s, .quiet)
    | hash :: messages =>
      ({ s with announced := insert hash s.announced, messages := messages, pc := .head },
        .received hash)
  | .stopped => ({ s.staff ∅ with pc := .returned }, .quiet)
  | .keeper e => s.stepKeeper e
  | .announced i ok =>
    let s' := if ok then { s with messages := s.messages ++ [i.1] } else s
    s'.stepKeeper (.announced i)

/-- The loop is at its `select`. -/
def Selects : Prop := ∃ entries, s.pc = .select entries

/-- The task was spawned. -/
def Spawned (i : TaskId Id) : Prop := i.2 < s.spawned i.1

/-- Who makes a step of the keeper's machine: the keeper at the `select` of the loop, and the
announcements as tasks. The activity is set by the loop, and an announcement ends by `announced`. -/
def Moves : IndexKeeper.Event (TaskId Id) → Prop
  | .loop | .activated | .closed | .address _ | .published _ | .wake _ => s.Selects
  | .announce i | .paced i | .closest i _ | .check i | .changed i _ | .restart i => s.Spawned i
  | .announced _ | .setActive _ => False
  | .tick _ | .setServers _ => True

/-- When a step can happen. -/
def Enabled : Event Id → Prop
  | .add _ => True
  | .remove _ => True
  | .notify => 0 < s.calls
  | .snapshot => s.pc = .head
  | .manage => ∃ entries, s.pc = .taken entries
  | .publish => ∃ entries, s.pc = .managed entries
  | .notified => s.Selects ∧ s.permit = true
  | .changed => s.Selects ∧ s.seen ≠ s.keeper.version
  | .received => s.Selects ∧ s.messages ≠ []
  | .stopped => s.Selects ∧ s.keeper.pc = .stopped
  | .keeper e => s.keeper.Enabled e ∧ s.Moves e
  | .announced i _ => s.keeper.Enabled (.announced i) ∧ s.Spawned i

/-- A publisher that was just made. -/
def Initial : Prop :=
  s.entries = ∅ ∧ s.calls = 0 ∧ s.permit = false ∧ s.published = none ∧ s.keeper.Initial ∧
    s.keeper.active = false ∧ s.pc = .head ∧ (∀ hash, s.workers hash = none) ∧
    (∀ hash, s.spawned hash = 0) ∧ (∀ i, s.aborted i = false) ∧ s.announced = ∅ ∧
    s.messages = [] ∧ s.seen = 0

end State

/-- The machine of a publisher. -/
def machine (Id : Type) [DecidableEq Id] : Machine (State Id) (Event Id) (Output Id) where
  init := State.Initial
  enabled _ s e := s.Enabled e
  step s e := s.step e

end Publisher

end ContentDiscovery
