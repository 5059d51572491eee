import ContentDiscovery.Machine

/-!
# Bounded channels

A queue with a capacity, many senders who do not wait, and one receiver. A sender is told whether
its item was sent, there was no room, or the receiver is gone; items queued when the receiver goes
are lost.

`Channel.queued_run` is what a channel is for: what is received is what was sent, in this order,
less what is still queued.
-/

/-- A channel. -/
structure Channel (α : Type) where
  /-- what is sent and not received, oldest first -/
  queue : List α
  /-- whether the receiver is gone -/
  closed : Bool
  deriving DecidableEq

namespace Channel

/-- What a sender is told. -/
inductive Sent where
  /-- the item was sent -/
  | sent
  /-- there is no room for it -/
  | full
  /-- there is no receiver -/
  | closed
  deriving DecidableEq

/-- What may happen. -/
inductive Event (α : Type) where
  /-- an item is sent, if there is room -/
  | send (a : α)
  /-- the oldest one is received -/
  | recv
  /-- the receiver goes -/
  | close

/-- What a step shows. -/
inductive Output (α : Type) where
  /-- what the sender is told -/
  | send (r : Sent)
  /-- the item received -/
  | recv (a : Option α)
  /-- nothing -/
  | close

variable {α : Type} (capacity : ℕ) (c : Channel α)

/-- A channel nothing was sent on. -/
def empty : Channel α := ⟨[], false⟩

/-- Sends without waiting. -/
def trySend (a : α) : Channel α × Sent :=
  if c.closed then (c, .closed)
  else if c.queue.length < capacity then ({ c with queue := c.queue ++ [a] }, .sent)
  else (c, .full)

/-- Receives the oldest item, if there is one. -/
def recv : Channel α × Option α :=
  match c.queue with
  | [] => (c, none)
  | a :: rest => ({ c with queue := rest }, some a)

/-- Drops the receiver, and what is queued. -/
def close : Channel α := ⟨[], true⟩

/-- A channel in use. -/
def machine : Machine (Channel α) (Event α) (Output α) where
  init c := c = empty
  enabled _ c
    | .send _ | .close => True
    | .recv => c.closed = false
  step c
    | .send a => ((c.trySend capacity a).1, .send (c.trySend capacity a).2)
    | .recv => (c.recv.1, .recv c.recv.2)
    | .close => (close, .close)

/-- The item that a step sends. -/
def sentItem : Event α × Output α → Option α
  | (.send a, .send .sent) => some a
  | _ => none

/-- The item that a step receives. -/
def receivedItem : Event α × Output α → Option α
  | (.recv, .recv a) => a
  | _ => none

/-- The items sent. -/
def sent (t : List (Event α × Output α)) : List α := t.filterMap sentItem

/-- The items received. -/
def received (t : List (Event α × Output α)) : List α := t.filterMap receivedItem

/-- What holds of a run. -/
structure Queued (t : List (Event α × Output α)) (c : Channel α) : Prop where
  /-- what is received is what was sent, in this order -/
  order : c.closed = false → received t ++ c.queue = sent t
  /-- also when the receiver is gone -/
  initial : received t <+: sent t
  /-- no more is queued than the channel has room for -/
  bounded : c.queue.length ≤ capacity
  /-- nothing is queued without a receiver -/
  drained : c.closed = true → c.queue = []

variable {capacity c} {t : List (Event α × Output α)}

@[simp] theorem sent_concat (x : Event α × Output α) :
    sent (t ++ [x]) = sent t ++ (sentItem x).toList := by
  rw [sent, List.filterMap_append]
  cases h : sentItem x <;> simp [sent, h]

@[simp] theorem received_concat (x : Event α × Output α) :
    received (t ++ [x]) = received t ++ (receivedItem x).toList := by
  rw [received, List.filterMap_append]
  cases h : receivedItem x <;> simp [received, h]

/-- Sending does not close. -/
@[simp] theorem closed_trySend (a : α) : (c.trySend capacity a).1.closed = c.closed := by
  rw [trySend]
  split
  · rfl
  · split <;> rfl

theorem Queued.send (h : Queued capacity t c) (a : α) :
    Queued capacity (t ++ [(Event.send a, Output.send (c.trySend capacity a).2)])
      (c.trySend capacity a).1 := by
  rw [trySend]
  split
  · constructor
    all_goals simp only [sent_concat, received_concat, sentItem, receivedItem, Option.toList_none,
      List.append_nil]
    exacts [h.order, h.initial, h.bounded, h.drained]
  rename_i hopen
  split
  · rename_i hroom
    constructor
    all_goals simp only [sent_concat, received_concat, sentItem, receivedItem, Option.toList_none,
      Option.toList_some, List.append_nil]
    · intro hno
      rw [← h.order hno, List.append_assoc]
    · exact h.initial.trans (List.prefix_append _ _)
    · rw [List.length_append, List.length_singleton]
      exact hroom
    · exact fun hyes => absurd hyes hopen
  · constructor
    all_goals simp only [sent_concat, received_concat, sentItem, receivedItem, Option.toList_none,
      List.append_nil]
    exacts [h.order, h.initial, h.bounded, h.drained]

theorem Queued.recv (h : Queued capacity t c) (hopen : c.closed = false) :
    Queued capacity (t ++ [(Event.recv, Output.recv c.recv.2)]) c.recv.1 := by
  rw [Channel.recv]
  split
  · constructor
    all_goals simp only [sent_concat, received_concat, sentItem, receivedItem, Option.toList_none,
      List.append_nil]
    exacts [h.order, h.initial, h.bounded, h.drained]
  · rename_i a rest hqueue
    have horder := h.order hopen
    have hbounded := h.bounded
    rw [hqueue, List.append_cons] at horder
    rw [hqueue, List.length_cons] at hbounded
    constructor
    all_goals simp only [sent_concat, received_concat, sentItem, receivedItem, Option.toList_none,
      Option.toList_some, List.append_nil]
    · exact fun _ => horder
    · exact ⟨rest, horder⟩
    · exact Nat.le_of_succ_le hbounded
    · exact fun hyes => nomatch hopen.symm.trans hyes

theorem Queued.close (h : Queued capacity t c) :
    Queued capacity (t ++ [(Event.close, Output.close)]) Channel.close := by
  refine ⟨nofun, ?_, Nat.zero_le _, fun _ => rfl⟩
  simp only [sent_concat, received_concat, sentItem, receivedItem, Option.toList_none,
    List.append_nil]
  exact h.initial

/-- A channel loses nothing while it has a receiver, and never repeats or reorders. -/
theorem queued_run (h : (machine capacity).Run t c) : Queued capacity t c := by
  refine h.invariant (I := Queued capacity) ?_ ?_
  · rintro c rfl
    exact ⟨fun _ => rfl, List.prefix_rfl, Nat.zero_le _, fun _ => rfl⟩
  · intro t c e hrun hen ih
    cases e with
    | send a => exact ih.send a
    | recv => exact ih.recv hen
    | close => exact ih.close

end Channel
