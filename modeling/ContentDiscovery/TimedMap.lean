import Mathlib.Data.Set.Card
import Mathlib.Data.Prod.Lex

/-!
# Timed maps

A finite map whose bindings carry an expiry time, as a plain function. This is
the vocabulary for what a store with expiry is *for*, independent of the indexes
an implementation keeps:

* `expire` drops the bindings whose time has come;
* `bind` and `unbind` change one key;
* `IsNearest` says that a key's binding is the next to expire, ties broken by
  the key.
-/

universe u v w

/-- A map from keys to values with an expiry time. -/
def TimedMap (κ : Type u) (υ : Type v) (τ : Type w) : Type (max u v w) := κ → Option (υ × τ)

namespace TimedMap

variable {κ : Type u} {υ : Type v} {τ : Type w}

/-- The map without bindings. -/
def empty : TimedMap κ υ τ := fun _ => none

/-- The keys that are bound. -/
def bound (m : TimedMap κ υ τ) : Set κ := {k | (m k).isSome}

section Expiry

variable [LinearOrder τ]

/-- Drop every binding with expiry at or before `now`. -/
def expire (m : TimedMap κ υ τ) (now : τ) : TimedMap κ υ τ :=
  fun k => (m k).filter fun b => decide (now < b.2)

@[simp] theorem expire_eq_some {m : TimedMap κ υ τ} {now : τ} {k : κ} {b : υ × τ} :
    m.expire now k = some b ↔ m k = some b ∧ now < b.2 := by
  simp [expire, Option.filter_eq_some_iff]

end Expiry

section Update

variable [DecidableEq κ]

/-- Bind `k` to `v` until `t`. -/
def bind (m : TimedMap κ υ τ) (k : κ) (v : υ) (t : τ) : TimedMap κ υ τ :=
  fun k' => if k' = k then some (v, t) else m k'

/-- Remove the binding of `k`. -/
def unbind (m : TimedMap κ υ τ) (k : κ) : TimedMap κ υ τ :=
  fun k' => if k' = k then none else m k'

theorem bind_apply (m : TimedMap κ υ τ) (k k' : κ) (v : υ) (t : τ) :
    m.bind k v t k' = if k' = k then some (v, t) else m k' := rfl

theorem unbind_apply (m : TimedMap κ υ τ) (k k' : κ) :
    m.unbind k k' = if k' = k then none else m k' := rfl

end Update

section Nearest

variable [LinearOrder κ] [LinearOrder τ]

/-- The binding of `k` has the least (expiry, key) of the whole map. -/
def IsNearest (m : TimedMap κ υ τ) (k : κ) : Prop :=
  ∃ v t, m k = some (v, t) ∧
    ∀ k' v' t', m k' = some (v', t') → toLex (t, k) ≤ toLex (t', k')

end Nearest

end TimedMap
