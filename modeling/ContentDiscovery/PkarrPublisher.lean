import ContentDiscovery.Collections
import ContentDiscovery.Machine
import ContentDiscovery.PkarrNames

/-!
# The publisher of Pkarr names

`PkarrPublisher` of `iroh-mainline-endpoint-discovery/src/pkarr.rs`: any number of callers
set and remove packets, publish them all, or wait until they are published, while a
background task publishes them in rounds. A call runs in the steps that others can see:
an edit changes the packets, counts itself and wakes the task; a round takes the lock,
reads the count of the edits, signs the packets and puts the items one after the other.

The count of the edits is not bounded here.
-/

namespace ContentDiscovery

/-- The largest `i64`. -/
def i64Max : ℤ := 2 ^ 63 - 1

/-- Who publishes: the background task, or a caller of `publish_all`. -/
inductive Task (κ : Type) where
  | background
  | call (call : κ)
  deriving DecidableEq

/-- How far a `publish_round` is. -/
inductive Round where
  /-- it waits for its turn -/
  | locking
  /-- it is its turn -/
  | locked
  /-- it has read the generation -/
  | read (generation : ℕ)
  /-- it puts the items that are left; whether all went well so far -/
  | putting (generation : ℕ) (items : List MutableItem) (ok : Bool)
  deriving DecidableEq

/-- How far an edit is. -/
inductive Edit where
  /-- the packets are changed -/
  | made
  /-- the edit is counted -/
  | counted
  deriving DecidableEq

/-- `State` of a publisher, and the calls under way. -/
structure PkarrPublisher (κ : Type) where
  /-- the packet of each key -/
  packets : HashMap PkarrKey (List UInt8)
  /-- `changed`: whether the task is to wake -/
  permit : Bool
  /-- counts edits -/
  generation : ℕ
  /-- the newest generation that has been published successfully -/
  published : ℕ
  /-- the sequence of the last round, in `publishing` -/
  previous : ℤ
  /-- who holds `publishing` -/
  publishing : Option (Task κ)
  /-- the rounds; the task waits when it has none -/
  rounds : Task κ → Option Round
  /-- the edits of callers -/
  edits : κ → Option Edit
  /-- the generations that callers wait for -/
  waits : κ → Option ℕ

namespace PkarrPublisher

variable {κ : Type}

/-- What may happen next. -/
inductive Event (κ : Type) where
  /-- `set_raw`, once the packet is encoded -/
  | set (call : κ) (key : PkarrKey) (packet : List UInt8)
  /-- `remove` -/
  | remove (call : κ) (key : PkarrKey)
  /-- `edited` counts the edit -/
  | count (call : κ)
  /-- `edited` wakes the task, and the edit returns -/
  | notify (call : κ)
  /-- `wait_published` reads the generation -/
  | waitPublished (call : κ)
  /-- `wait_published` returns -/
  | waited (call : κ)
  /-- `publish_all` -/
  | publishAll (call : κ)
  /-- a `publish_all` is dropped -/
  | dropped (call : κ)
  /-- a round takes its turn -/
  | lock (task : Task κ)
  /-- a round reads the generation -/
  | readGeneration (task : Task κ)
  /-- `sign_all` at the time of the clock, which may be unusable -/
  | sign (task : Task κ) (clock : Option ℤ) (keys : List PkarrKey)
  /-- an item is put, with the outcome -/
  | put (task : Task κ) (ok : Bool)
  /-- a round ends -/
  | finish (task : Task κ)
  /-- the background task has slept long enough -/
  | timer
  /-- the background task is woken -/
  | woken

/-- What an event comes to. -/
inductive Outcome where
  | none
  /-- whether there was something to remove -/
  | removed (removed : Bool)
  /-- the sequence of a round, and its items -/
  | signed (sequence : ℤ) (items : List MutableItem)
  /-- an item was put, or was not -/
  | put (item : MutableItem) (ok : Bool)
  /-- the result of a round -/
  | finished (ok : Bool)
  deriving DecidableEq

/-- The sequence of a round: it grows, whatever the clock does. -/
def nextSequence (now previous : ℤ) : ℤ := max now ((previous + 1).bmod (2 ^ 64))

/-- The items of `sign_all`. -/
def signAll (packets : HashMap PkarrKey (List UInt8)) (keys : List PkarrKey) (sequence : ℤ) :
    List MutableItem :=
  keys.filterMap fun key => (packets.lookup key).map fun packet => ⟨key, sequence, packet, none⟩

variable [DecidableEq κ]

/-- A round goes on. -/
def setRound (w : PkarrPublisher κ) (task : Task κ) (round : Round) : PkarrPublisher κ :=
  { w with rounds := Function.update w.rounds task (some round) }

/-- A round ends, and releases the lock if it holds it. -/
def endRound (w : PkarrPublisher κ) (task : Task κ) : PkarrPublisher κ :=
  { w with
    rounds := Function.update w.rounds task none
    publishing := if w.publishing = some task then none else w.publishing }

/-- An edit goes on. -/
def setEdit (w : PkarrPublisher κ) (call : κ) (edit : Option Edit) : PkarrPublisher κ :=
  { w with edits := Function.update w.edits call edit }

/-- A wait begins or ends. -/
def setWait (w : PkarrPublisher κ) (call : κ) (wait : Option ℕ) : PkarrPublisher κ :=
  { w with waits := Function.update w.waits call wait }

/-- What an event does. -/
def step (w : PkarrPublisher κ) : Event κ → PkarrPublisher κ × Outcome
  | .set call key packet =>
    (setEdit { w with packets := w.packets.insert key packet } call (some .made), .none)
  | .remove call key =>
    if (w.packets.lookup key).isSome then
      (setEdit { w with packets := w.packets.erase key } call (some .made), .removed true)
    else (w, .removed false)
  | .count call => (setEdit { w with generation := w.generation + 1 } call (some .counted), .none)
  | .notify call => (setEdit { w with permit := true } call none, .none)
  | .waitPublished call => (w.setWait call (some w.generation), .none)
  | .waited call => (w.setWait call none, .none)
  | .publishAll call => (w.setRound (.call call) .locking, .none)
  | .dropped call => (w.endRound (.call call), .none)
  | .lock task => (setRound { w with publishing := some task } task .locked, .none)
  | .readGeneration task => (w.setRound task (.read w.generation), .none)
  | .sign task clock keys =>
    match w.rounds task, clock with
    | some (.read generation), some now =>
      let sequence := nextSequence now w.previous
      let items := signAll w.packets keys sequence
      (setRound { w with previous := sequence } task (.putting generation items true),
        .signed sequence items)
    -- the clock is before the epoch
    | some (.read _), none => (w.endRound task, .finished false)
    | _, _ => (w, .none)
  | .put task ok =>
    match w.rounds task with
    | some (.putting generation (item :: items) allOk) =>
      (w.setRound task (.putting generation items (allOk && ok)), .put item ok)
    | _ => (w, .none)
  | .finish task =>
    match w.rounds task with
    | some (.putting generation [] ok) =>
      (endRound { w with published := if ok then generation else w.published } task, .finished ok)
    | _ => (w, .none)
  | .timer => (w.setRound .background .locking, .none)
  | .woken => (setRound { w with permit := false } .background .locking, .none)

/-- What the environment may do: callers start calls, and each one goes on step by step. The
packets are listed in any order. -/
def Enabled (w : PkarrPublisher κ) : Event κ → Prop
  | .set call _ _ => w.edits call = none
  | .remove call _ => w.edits call = none
  | .count call => w.edits call = some .made
  | .notify call => w.edits call = some .counted
  | .waitPublished call => w.waits call = none
  | .waited call => ∃ generation, w.waits call = some generation ∧ generation ≤ w.published
  | .publishAll call => w.rounds (.call call) = none
  | .dropped call => w.rounds (.call call) ≠ none
  | .lock task => w.rounds task = some .locking ∧ w.publishing = none
  | .readGeneration task => w.rounds task = some .locked
  | .sign task _ keys => (∃ generation, w.rounds task = some (.read generation)) ∧ keys.Nodup ∧
      ∀ key, key ∈ keys ↔ key ∈ w.packets
  | .put task _ => ∃ generation item items ok,
      w.rounds task = some (.putting generation (item :: items) ok)
  | .finish task => ∃ generation ok, w.rounds task = some (.putting generation [] ok)
  | .timer => w.rounds .background = none
  | .woken => w.rounds .background = none ∧ w.permit = true

/-- `PkarrPublisher::new`: the background task begins with a round. -/
def new : PkarrPublisher κ :=
  { packets := ∅, permit := false, generation := 0, published := 0, previous := 0
    publishing := none
    rounds := fun task => if task = .background then some .locking else none
    edits := fun _ => none
    waits := fun _ => none }

/-- A publisher and its callers. -/
def machine : Machine (PkarrPublisher κ) (Event κ) Outcome where
  init w := w = new
  enabled _ w e := w.Enabled e
  step := step

/-! ## What a step does -/

/-- What has happened so far. -/
abbrev History (κ : Type) : Type := List (Event κ × Outcome)

variable {w : PkarrPublisher κ} {e : Event κ} {task : Task κ} {t s : History κ} {key : PkarrKey}
  {value : List UInt8}

/-- What an event makes of a round. -/
inductive RoundStep (w : PkarrPublisher κ) (task : Task κ) : Event κ → Option Round → Prop
  /-- it is not concerned -/
  | idle (e : Event κ) : RoundStep w task e (w.rounds task)
  | begins (e : Event κ) : RoundStep w task e (some .locking)
  | locks : RoundStep w task (.lock task) (some .locked)
  | reads : RoundStep w task (.readGeneration task) (some (.read w.generation))
  | signs {generation : ℕ} {now : ℤ} {keys : List PkarrKey}
      (h : w.rounds task = some (.read generation)) :
      RoundStep w task (.sign task (some now) keys)
        (some (.putting generation (signAll w.packets keys (nextSequence now w.previous)) true))
  | puts {generation : ℕ} {item : MutableItem} {items : List MutableItem} {allOk : Bool}
      (ok : Bool) (h : w.rounds task = some (.putting generation (item :: items) allOk)) :
      RoundStep w task (.put task ok) (some (.putting generation items (allOk && ok)))
  | ends (e : Event κ) : RoundStep w task e none

theorem rounds_setRound (w : PkarrPublisher κ) (task task' : Task κ) (r : Round) :
    (w.setRound task' r).rounds task = if task = task' then some r else w.rounds task :=
  Function.update_apply ..

theorem rounds_endRound (w : PkarrPublisher κ) (task task' : Task κ) :
    (w.endRound task').rounds task = if task = task' then none else w.rounds task :=
  Function.update_apply ..

/-- Every step is one for each round. -/
theorem roundStep (w : PkarrPublisher κ) (task : Task κ) (e : Event κ) :
    RoundStep w task e ((w.step e).1.rounds task) := by
  cases e with
  | set call key packet => exact .idle _
  | remove call key =>
    simp only [step]
    split <;> exact .idle _
  | count call => exact .idle _
  | notify call => exact .idle _
  | waitPublished call => exact .idle _
  | waited call => exact .idle _
  | publishAll call =>
    simp only [step, rounds_setRound]
    split
    · exact .begins _
    · exact .idle _
  | dropped call =>
    simp only [step, rounds_endRound]
    split
    · exact .ends _
    · exact .idle _
  | lock task' =>
    simp only [step, rounds_setRound]
    split
    · rename_i heq
      subst heq
      exact .locks
    · exact .idle _
  | readGeneration task' =>
    simp only [step, rounds_setRound]
    split
    · rename_i heq
      subst heq
      exact .reads
    · exact .idle _
  | sign task' clock keys =>
    simp only [step]
    split
    · rename_i generation now hround
      simp only [rounds_setRound]
      split
      · rename_i heq
        subst heq
        exact .signs hround
      · exact .idle _
    · simp only [rounds_endRound]
      split
      · exact .ends _
      · exact .idle _
    · exact .idle _
  | put task' ok =>
    simp only [step]
    split
    · rename_i generation item items allOk hround
      simp only [rounds_setRound]
      split
      · rename_i heq
        subst heq
        exact .puts ok hround
      · exact .idle _
    · exact .idle _
  | finish task' =>
    simp only [step]
    split
    · simp only [rounds_endRound]
      split
      · exact .ends _
      · exact .idle _
    · exact .idle _
  | timer =>
    simp only [step, rounds_setRound]
    split
    · exact .begins _
    · exact .idle _
  | woken =>
    simp only [step, rounds_setRound]
    split
    · exact .begins _
    · exact .idle _

/-- The packets of an event. -/
def Event.packets (packets : HashMap PkarrKey (List UInt8)) :
    Event κ → HashMap PkarrKey (List UInt8)
  | .set _ key packet => packets.insert key packet
  | .remove _ key => packets.erase key
  | _ => packets

/-- Whether an event counts an edit. -/
def Event.isCount : Event κ → Bool
  | .count _ => true
  | _ => false

theorem step_packets (w : PkarrPublisher κ) (e : Event κ) (key : PkarrKey) :
    (w.step e).1.packets.lookup key = (e.packets w.packets).lookup key := by
  cases e with
  | remove call key' =>
    simp only [step, Event.packets]
    split
    · rfl
    · rename_i hnone
      rw [HashMap.lookup_erase_eq]
      split
      · rename_i heq
        rw [heq]
        simpa using hnone
      · rfl
  | sign task clock keys =>
    simp only [step]
    split <;> rfl
  | put task ok =>
    simp only [step]
    split <;> rfl
  | finish task =>
    simp only [step]
    split <;> rfl
  | _ => rfl

theorem step_generation (w : PkarrPublisher κ) (e : Event κ) :
    (w.step e).1.generation = w.generation + if e.isCount then 1 else 0 := by
  cases e with
  | remove call key =>
    simp only [step]
    split <;> rfl
  | sign task clock keys =>
    simp only [step]
    split <;> rfl
  | put task ok =>
    simp only [step]
    split <;> rfl
  | finish task =>
    simp only [step]
    split <;> rfl
  | _ => rfl

/-- Only a round that ends well publishes a generation. -/
theorem step_published (w : PkarrPublisher κ) (e : Event κ) :
    (w.step e).1.published = w.published ∨
      ∃ task generation, w.rounds task = some (.putting generation [] true) ∧
        (w.step e).1.published = generation := by
  cases e with
  | remove call key =>
    simp only [step]
    split <;> exact .inl rfl
  | sign task clock keys =>
    simp only [step]
    split <;> exact .inl rfl
  | put task ok =>
    simp only [step]
    split <;> exact .inl rfl
  | finish task =>
    simp only [step]
    split
    · rename_i generation ok hround
      cases ok with
      | true => exact .inr ⟨task, generation, hround, rfl⟩
      | false => exact .inl rfl
    · exact .inl rfl
  | _ => exact .inl rfl

/-- An item that is put is the next one of its round. -/
theorem step_put (w : PkarrPublisher κ) (e : Event κ) {item : MutableItem} {ok : Bool}
    (h : (w.step e).2 = .put item ok) :
    ∃ task generation items allOk, e = .put task ok ∧
      w.rounds task = some (.putting generation (item :: items) allOk) := by
  cases e with
  | put task ok' =>
    simp only [step] at h
    split at h
    · rename_i generation item' items allOk hround
      obtain ⟨rfl, rfl⟩ := Outcome.put.inj h
      exact ⟨task, generation, items, allOk, rfl, hround⟩
    · cases h
  | remove call key =>
    simp only [step] at h
    split at h <;> cases h
  | sign task clock keys =>
    simp only [step] at h
    split at h <;> cases h
  | finish task =>
    simp only [step] at h
    split at h <;> cases h
  | _ => cases h

end PkarrPublisher

end ContentDiscovery
