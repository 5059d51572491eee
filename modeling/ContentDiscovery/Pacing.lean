import ContentDiscovery.PublisherBooks
import ContentDiscovery.Spacing

/-!
# The pace of the announcements

`iroh-mainline-endpoint-discovery/src/publisher.rs`: the closure that `announce_indexed` calls as
`pace`, and `repeat_announcement`. All workers of a publisher share a semaphore and the time of the
next start. A worker that starts an announcement acquires a permit, locks the time, sleeps until
then and sets it a while ahead. It holds the permit until the announcement goes ahead, fails or has
to wait. When it is over, the worker sleeps until its own next one. A task that is aborted drops
what it holds wherever it waits, some time after its handle is dropped.

`run_publisher` says that this is the publisher whose workers announce when they like.
-/

namespace ContentDiscovery

/-- How often Mainline announcements are renewed: 10 minutes. -/
def REFRESH : ℕ := 10 * 60 * 10 ^ 9

/-- Minimum spacing between announcement starts: 250 milliseconds. -/
def ANNOUNCE_SPACING : ℕ := 250 * 10 ^ 6

/-- The longest jitter of a renewal, in seconds. -/
def REFRESH_JITTER : ℕ := 60

theorem ANNOUNCE_SPACING_pos : 0 < ANNOUNCE_SPACING := by decide

theorem RETRY_le_renewal : RETRY ≤ REFRESH - REFRESH_JITTER * 10 ^ 9 := by
  unfold RETRY
  decide

namespace IndexKeeper

/-- What a call of `announce_indexed` has of its guard. -/
inductive Place where
  /-- has none -/
  | outside
  /-- waits for `pace` to return it -/
  | waiting
  /-- has it -/
  | guarded
  deriving DecidableEq

/-- What an announcement has of its guard, where it stands. -/
def Announcement.place : Announcement → Place
  | .idle | .blocked _ _ _ | .restarting _ => .outside
  | .pacing => .waiting
  | .finding _ | .reported _ _ | .announcing _ => .guarded

/-- The announcement that makes a step. -/
def Event.task {ι : Type} : Event ι → Option ι
  | .announce i | .paced i | .closest i _ | .check i | .changed i _ | .restart i | .announced i =>
    some i
  | _ => none

end IndexKeeper

namespace Publisher

/-- The task that makes a step. -/
def Event.task {Id : Type} : Event Id → Option (TaskId Id)
  | .keeper e => e.task
  | .announced i _ => some i
  | _ => none

/-- Whether the step is the success of an announcement. -/
def Event.succeeded {Id : Type} : Event Id → Bool
  | .announced _ ok => ok
  | _ => false

end Publisher

namespace Pacing

open IndexKeeper (Place)
open Publisher (TaskId)

/-- Number of announcements at a time. -/
def PERMITS : ℕ := 3

/-- What a task has of the pace. -/
inductive Guard where
  /-- nothing -/
  | outside
  /-- waits for a permit -/
  | acquiring
  /-- has a permit, and waits for the lock -/
  | locking
  /-- has locked the time, and sleeps until it -/
  | sleeping (deadline : Instant)
  /-- has the permit that `pace` returned -/
  | paced
  /-- the task is gone -/
  | dropped
  deriving DecidableEq

namespace Guard

/-- What it is to the announcement. -/
def place : Guard → Place
  | .outside | .dropped => .outside
  | .acquiring | .locking | .sleeping _ => .waiting
  | .paced => .guarded

/-- A permit is held. -/
def Holds : Guard → Prop
  | .locking | .sleeping _ | .paced => True
  | .outside | .acquiring | .dropped => False

instance : DecidablePred Holds := fun
  | .locking | .sleeping _ | .paced => isTrue trivial
  | .outside | .acquiring | .dropped => isFalse id

/-- The lock is held. -/
def Locks : Guard → Prop
  | .sleeping _ => True
  | _ => False

instance : DecidablePred Locks := fun
  | .sleeping _ => isTrue trivial
  | .outside | .acquiring | .locking | .paced | .dropped => isFalse id

end Guard

/-- A publisher, and what its workers share. -/
structure State (Id : Type) where
  /-- the publisher -/
  publisher : Publisher.State Id
  /-- the permits that are available -/
  available : ℕ
  /-- the task that has locked the time -/
  mutex : Option (TaskId Id)
  /-- the time of the next start -/
  next : Instant
  /-- what each task has of the pace -/
  guard : TaskId Id → Guard
  /-- when each task announces next -/
  timer : TaskId Id → Instant

/-- A step. -/
inductive Event (Id : Type) where
  /-- of the publisher; if an announcement ends, `jitter` is drawn -/
  | publisher (e : Publisher.Event Id) (jitter : ℕ)
  /-- a task acquires a permit -/
  | acquired (i : TaskId Id)
  /-- a task locks the time -/
  | locked (i : TaskId Id)
  /-- a task has slept until then, and `pace` returns -/
  | slept (i : TaskId Id)
  /-- an aborted task is gone -/
  | dropped (i : TaskId Id)
  deriving DecidableEq

/-- What a step shows. -/
inductive Output (Id : Type) where
  /-- nothing -/
  | quiet
  /-- what the publisher shows -/
  | publisher (out : Publisher.Output Id)
  /-- `pace` returns to a task -/
  | started (i : TaskId Id) (now : Instant) (out : Publisher.Output Id)
  /-- the announcement of a task ends, and the next one is after a delay -/
  | ended (i : TaskId Id) (now : Instant) (ok : Bool) (delay : ℕ) (out : Publisher.Output Id)
  deriving DecidableEq

/-- The delay of `repeat_announcement`. -/
def delay (ok : Bool) (jitter : ℕ) : ℕ := if ok then REFRESH - jitter * 10 ^ 9 else RETRY

namespace State

variable {Id : Type} [DecidableEq Id] (s : State Id)

/-- The time. -/
def clock : Instant := s.publisher.keeper.clock

/-- Where the announcement of a task stands. -/
def announcement (i : TaskId Id) : IndexKeeper.Announcement := s.publisher.keeper.announcements i

/-- What a task has changes: permits and the lock go with what had them. -/
def setGuard (i : TaskId Id) (g : Guard) : State Id :=
  { s with
    available :=
      if (s.guard i).Holds ∧ ¬ g.Holds then s.available + 1
      else if ¬ (s.guard i).Holds ∧ g.Holds then s.available - 1
      else s.available
    mutex :=
      if (s.guard i).Locks ∧ ¬ g.Locks then none
      else if ¬ (s.guard i).Locks ∧ g.Locks then some i
      else s.mutex
    guard := Function.update s.guard i g }

/-- After a step of its announcement, a task calls `pace`, keeps its guard or drops it. If the
announcement is over, the task sleeps. -/
def follow (i : TaskId Id) (ok : Bool) (jitter : ℕ) (out : Publisher.Output Id) :
    State Id × Output Id :=
  match s.announcement i with
  | .pacing => (s.setGuard i .acquiring, .publisher out)
  | .finding _ | .reported _ _ | .announcing _ => (s, .publisher out)
  | .blocked _ _ _ | .restarting _ => (s.setGuard i .outside, .publisher out)
  | .idle =>
    ({ s.setGuard i .outside with
        timer := Function.update s.timer i (s.clock + delay ok jitter) },
      .ended i s.clock ok (delay ok jitter) out)

/-- One step. A step that is not enabled does nothing. -/
def step : Event Id → State Id × Output Id
  | .publisher e jitter =>
    let s' := { s with publisher := (s.publisher.step e).1 }
    match e.task with
    | none => (s', .publisher (s.publisher.step e).2)
    | some i => s'.follow i e.succeeded jitter (s.publisher.step e).2
  | .acquired i => (s.setGuard i .locking, .quiet)
  | .locked i => (s.setGuard i (.sleeping s.next), .quiet)
  | .slept i =>
    let out := s.publisher.step (.keeper (.paced i))
    ({ s.setGuard i .paced with publisher := out.1, next := s.clock + ANNOUNCE_SPACING },
      .started i s.clock out.2)
  | .dropped i => (s.setGuard i .dropped, .quiet)

/-- When a step can happen. An announcement begins when its timer is over, and `pace` returns by
`slept` only. A task that is gone makes no step. -/
def Enabled : Event Id → Prop
  | .publisher e jitter => s.publisher.Enabled e ∧ jitter ≤ REFRESH_JITTER ∧
      (∀ i, e.task = some i → s.guard i ≠ .dropped) ∧
      (∀ i, e = .keeper (.announce i) → s.timer i ≤ s.clock) ∧ ∀ i, e ≠ .keeper (.paced i)
  | .acquired i => s.guard i = .acquiring ∧ 0 < s.available
  | .locked i => s.guard i = .locking ∧ s.mutex = none
  | .slept i => ∃ deadline, s.guard i = .sleeping deadline ∧ deadline ≤ s.clock
  | .dropped i => s.publisher.aborted i = true ∧ s.guard i ≠ .dropped

/-- A publisher that was just made. -/
def Initial : Prop :=
  s.publisher.Initial ∧ s.available = PERMITS ∧ s.mutex = none ∧ s.next = s.clock ∧
    (∀ i, s.guard i = .outside) ∧ ∀ i, s.timer i ≤ s.clock

end State

/-- The machine of a publisher whose announcements are paced. -/
def machine (Id : Type) [DecidableEq Id] : Machine (State Id) (Event Id) (Output Id) where
  init := State.Initial
  enabled _ s e := s.Enabled e
  step s e := s.step e

end Pacing

end ContentDiscovery
