import Mathlib.Algebra.Group.Nat.Defs
import Mathlib.Data.List.Basic
import Mathlib.Logic.Equiv.Defs

/-!
# Prefix codecs

A `Codec` writes a value as bytes and reads one value off the front of a byte
string, returning what follows. Two laws are part of the structure, so every
codec built from the combinators has them:

* `dec_enc` — what was written is read back, whatever follows it;
* `dec_frame` — a successful read depends on the bytes it consumed only, and
  consumed at least as many as the canonical encoding has.

The second law does not say that a reader accepts only canonical bytes: readers
of padded integers do not. It is what makes a canonical answer no longer than the
request it was read from (`length_enc_le`), and what a reading stays when more bytes
follow (`dec_append`).

Encodings at least as long as `sizeLimit` do not occur on a machine whose sizes
are 64 bits wide; length prefixes are only right below it.
-/

universe u v

/-- No buffer is this long. -/
def sizeLimit : ℕ := 2 ^ 64

/-- A writer and a prefix reader of values. -/
structure Codec (α : Type u) where
  /-- write a value -/
  enc : α → List UInt8
  /-- read a value, and return the bytes after it -/
  dec : List UInt8 → Option (α × List UInt8)
  /-- what was written is read back -/
  dec_enc : ∀ a rest, (enc a).length < sizeLimit → dec (enc a ++ rest) = some (a, rest)
  /-- a read consumes a prefix, no shorter than the canonical encoding, and
  depends on nothing else -/
  dec_frame : ∀ {bs a rest}, dec bs = some (a, rest) →
    ∃ used, bs = used ++ rest ∧ (enc a).length ≤ used.length ∧
      ∀ rest', dec (used ++ rest') = some (a, rest')

namespace Codec

variable {α : Type u} {β : Type v}

/-- The canonical encoding is the shortest one. -/
theorem length_enc_le (c : Codec α) {bs rest : List UInt8} {a : α}
    (h : c.dec bs = some (a, rest)) : (c.enc a).length + rest.length ≤ bs.length := by
  obtain ⟨used, rfl, hlen, -⟩ := c.dec_frame h
  rw [List.length_append]
  omega

/-- More bytes after what was read do not change the reading. -/
theorem dec_append (c : Codec α) {bs rest : List UInt8} {a : α} (h : c.dec bs = some (a, rest))
    (more : List UInt8) : c.dec (bs ++ more) = some (a, rest ++ more) := by
  obtain ⟨used, rfl, -, hany⟩ := c.dec_frame h
  rw [List.append_assoc]
  exact hany _

/-! ## Combinators -/

/-- Two values, one after the other. -/
def pair (c : Codec α) (d : Codec β) : Codec (α × β) where
  enc p := c.enc p.1 ++ d.enc p.2
  dec bs := (c.dec bs).bind fun r => (d.dec r.2).map fun r' => ((r.1, r'.1), r'.2)
  dec_enc p rest h := by
    rw [List.length_append] at h
    rw [List.append_assoc, c.dec_enc p.1 _ (by omega), Option.bind_some,
      d.dec_enc p.2 _ (by omega)]
    rfl
  dec_frame {bs p rest} h := by
    obtain ⟨⟨a, mid⟩, ha, h⟩ := Option.bind_eq_some_iff.mp h
    obtain ⟨⟨b, rest₂⟩, hb, h⟩ := Option.map_eq_some_iff.mp h
    obtain ⟨rfl, rfl⟩ := Prod.mk.inj h
    obtain ⟨used, rfl, hlen, hany⟩ := c.dec_frame ha
    obtain ⟨used₂, hmid, hlen₂, hany₂⟩ := d.dec_frame hb
    refine ⟨used ++ used₂, ?_, ?_, fun rest' => ?_⟩
    · rw [List.append_assoc, ← hmid]
    · rw [List.length_append, List.length_append]
      exact Nat.add_le_add hlen hlen₂
    · rw [List.append_assoc, hany, Option.bind_some, hany₂]
      rfl

/-- The same bytes for another presentation of the value. -/
def imap (c : Codec α) (e : α ≃ β) : Codec β where
  enc b := c.enc (e.symm b)
  dec bs := (c.dec bs).map fun r => (e r.1, r.2)
  dec_enc b rest h := by
    rw [c.dec_enc _ _ h, Option.map_some, e.apply_symm_apply]
  dec_frame {bs b rest} h := by
    obtain ⟨⟨a, rest₁⟩, ha, h⟩ := Option.map_eq_some_iff.mp h
    obtain ⟨rfl, rfl⟩ := Prod.mk.inj h
    obtain ⟨used, hbs, hlen, hany⟩ := c.dec_frame ha
    refine ⟨used, hbs, ?_, fun rest' => ?_⟩
    · rw [e.symm_apply_apply]
      exact hlen
    · rw [hany]
      rfl

/-- The values that are presented by some of the values of another codec. -/
def filterMap (c : Codec β) (e : α → β) (d : β → Option α) (hd : ∀ a, d (e a) = some a)
    (he : ∀ {b a}, d b = some a → e a = b) : Codec α where
  enc a := c.enc (e a)
  dec bs := (c.dec bs).bind fun r => (d r.1).map fun a => (a, r.2)
  dec_enc a rest h := by
    rw [c.dec_enc _ _ h, Option.bind_some, hd, Option.map_some]
  dec_frame {bs a rest} h := by
    obtain ⟨⟨b, rest₁⟩, hb, h⟩ := Option.bind_eq_some_iff.mp h
    obtain ⟨a', ha, h⟩ := Option.map_eq_some_iff.mp h
    obtain ⟨rfl, rfl⟩ := Prod.mk.inj h
    obtain ⟨used, hbs, hlen, hany⟩ := c.dec_frame hb
    obtain rfl := he ha
    refine ⟨used, hbs, hlen, fun rest' => ?_⟩
    rw [hany, Option.bind_some, hd, Option.map_some]

end Codec
