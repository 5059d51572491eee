import ContentDiscovery.Codec
import Mathlib.Data.Vector.Basic
import Mathlib.Tactic.Ring

/-!
# The postcard wire format

The parts of the postcard format that fixed records use, as prefix codecs.

* Unsigned integers wider than a byte are little-endian varints: seven bits per
  byte, the high bit set on every byte but the last. The reader takes at most as
  many bytes as the widest value needs and checks that the last of these does not
  overflow the type. It accepts padded forms of a value.
* A byte array is its bytes, a byte vector is prefixed with its length.
* An option is a tag byte `0` or `1` and the value.
* A variant of an enumeration is its index as a varint and its fields in order.

`from_bytes` ignores the bytes after the value and `to_slice` fails when the
buffer is too short.
-/

universe u

/-! ## Varints -/

/-- Write `v` in at most `n` bytes. -/
def putVarint : ℕ → ℕ → List UInt8
  | 0, _ => []
  | n + 1, v =>
    if v < 128 then [UInt8.ofNat v] else UInt8.ofNat (v % 128 + 128) :: putVarint n (v / 128)

/-- Read at most `n` bytes; a value that takes all of them may not have a last
byte above `last`. -/
def takeVarint (last : ℕ) : ℕ → List UInt8 → Option (ℕ × List UInt8)
  | 0, _ => none
  | _ + 1, [] => none
  | n + 1, b :: bs =>
    if b.toNat < 128 then
      if n = 0 ∧ last < b.toNat then none else some (b.toNat, bs)
    else (takeVarint last n bs).map fun r => (b.toNat % 128 + 128 * r.1, r.2)

/-- `varint_max`: the bytes the widest value of `w` bits needs. -/
def varintMax (w : ℕ) : ℕ := (w + 6) / 7

/-- `max_of_last_byte`: the bits of a `w`-bit value that the last byte holds. -/
def maxOfLastByte (w : ℕ) : ℕ := 2 ^ (w % 7) - 1

theorem toNat_ofNat_lt {n : ℕ} (h : n < 256) : (UInt8.ofNat n).toNat = n := by
  rw [UInt8.toNat_ofNat']
  exact Nat.mod_eq_of_lt h

/-- Reading what was written, for values that fit in `n + 1` bytes. -/
theorem takeVarint_putVarint {last : ℕ} (hlast : last < 128) (rest : List UInt8) :
    ∀ (n v : ℕ), v < 128 ^ n * (last + 1) →
      takeVarint last (n + 1) (putVarint (n + 1) v ++ rest) = some (v, rest) := by
  intro n
  induction n with
  | zero =>
    intro v hv
    have hle : v ≤ last := by omega
    rw [putVarint, if_pos (by omega), List.singleton_append, takeVarint,
      toNat_ofNat_lt (by omega), if_pos (by omega), if_neg (by omega)]
  | succ n ih =>
    intro v hv
    rw [putVarint]
    split
    · rename_i hsmall
      rw [List.singleton_append, takeVarint, toNat_ofNat_lt (by omega), if_pos hsmall,
        if_neg (by omega)]
    · have hdiv : v / 128 < 128 ^ n * (last + 1) := by
        refine Nat.div_lt_of_lt_mul ?_
        calc v < 128 ^ (n + 1) * (last + 1) := hv
          _ = 128 * (128 ^ n * (last + 1)) := by ring
      rw [List.cons_append, takeVarint, toNat_ofNat_lt (by omega), if_neg (by omega), ih _ hdiv,
        Option.map_some]
      congr 2
      omega

/-- A successful reading: its value is in range, it consumed a prefix no shorter
than what would be written for the value, and it depends on that prefix only. -/
theorem takeVarint_frame {last : ℕ} :
    ∀ (n : ℕ) {bs rest : List UInt8} {v : ℕ}, takeVarint last (n + 1) bs = some (v, rest) →
      v < 128 ^ n * (last + 1) ∧ ∃ used, bs = used ++ rest ∧
        (putVarint (n + 1) v).length ≤ used.length ∧
        ∀ rest', takeVarint last (n + 1) (used ++ rest') = some (v, rest') := by
  intro n
  induction n with
  | zero =>
    intro bs rest v h
    cases bs with
    | nil => cases h
    | cons b bs =>
      rw [takeVarint] at h
      split at h
      · rename_i hb
        split at h
        · cases h
        · rename_i hle
          obtain ⟨rfl, rfl⟩ := Prod.mk.inj (Option.some.inj h)
          refine ⟨by omega, [b], rfl, ?_, fun rest' => ?_⟩
          · rw [putVarint, if_pos hb]
            rfl
          · rw [List.singleton_append, takeVarint, if_pos hb, if_neg hle]
      · cases h
  | succ n ih =>
    intro bs rest v h
    cases bs with
    | nil => cases h
    | cons b bs =>
      rw [takeVarint] at h
      split at h
      · rename_i hb
        rw [if_neg (by omega)] at h
        obtain ⟨rfl, rfl⟩ := Prod.mk.inj (Option.some.inj h)
        refine ⟨?_, [b], rfl, ?_, fun rest' => ?_⟩
        · calc b.toNat < 128 := hb
            _ = 128 * 1 := rfl
            _ ≤ 128 * (128 ^ n * (last + 1)) :=
              Nat.mul_le_mul_left _ (Nat.mul_pos (Nat.pow_pos (by decide)) (Nat.succ_pos _))
            _ = 128 ^ (n + 1) * (last + 1) := by ring
        · rw [putVarint, if_pos hb]
          rfl
        · rw [List.singleton_append, takeVarint, if_pos hb, if_neg (by omega)]
      · rename_i hb
        obtain ⟨⟨v', rest₁⟩, hv', h⟩ := Option.map_eq_some_iff.mp h
        obtain ⟨rfl, rfl⟩ := Prod.mk.inj h
        obtain ⟨hlt, used, rfl, hlen, hany⟩ := ih hv'
        refine ⟨?_, b :: used, rfl, ?_, fun rest' => ?_⟩
        · have hmod : b.toNat % 128 < 128 := Nat.mod_lt _ (by decide)
          calc b.toNat % 128 + 128 * v' < 128 * (v' + 1) := by omega
            _ ≤ 128 * (128 ^ n * (last + 1)) := Nat.mul_le_mul_left _ hlt
            _ = 128 ^ (n + 1) * (last + 1) := by ring
        · -- the value's canonical form is no longer than the bytes of its parts
          rw [putVarint]
          split
          · rw [List.length_singleton, List.length_cons]
            omega
          · have hv'' : (b.toNat % 128 + 128 * v') / 128 = v' := by omega
            rw [hv'', List.length_cons, List.length_cons]
            omega
        · rw [List.cons_append, takeVarint, if_neg hb, hany]
          rfl

/-- The bits of a `w`-bit value, split into full bytes and the last one. -/
theorem varint_range {w : ℕ} (hw : w % 7 ≠ 0) :
    varintMax w = w / 7 + 1 ∧ maxOfLastByte w < 128 ∧
      128 ^ (w / 7) * (maxOfLastByte w + 1) = 2 ^ w := by
  have hlast : 2 ^ (w % 7) ≤ 2 ^ 6 := Nat.pow_le_pow_right (by decide) (by omega)
  have hpos : 0 < 2 ^ (w % 7) := Nat.pow_pos (by decide)
  refine ⟨?_, ?_, ?_⟩
  · rw [varintMax]
    omega
  · rw [maxOfLastByte]
    omega
  · rw [maxOfLastByte, Nat.sub_add_cancel hpos, show 128 = 2 ^ 7 from rfl, ← Nat.pow_mul,
      ← Nat.pow_add, Nat.div_add_mod]

namespace Codec

variable {α : Type u}

/-- An unsigned integer of `w` bits. -/
def varint (w : ℕ) (hw : w % 7 ≠ 0) : Codec (Fin (2 ^ w)) where
  enc v := putVarint (varintMax w) v
  dec bs := (takeVarint (maxOfLastByte w) (varintMax w) bs).bind fun r =>
    if h : r.1 < 2 ^ w then some (⟨r.1, h⟩, r.2) else none
  dec_enc v rest _ := by
    obtain ⟨hmax, hlast, hrange⟩ := varint_range hw
    rw [hmax, takeVarint_putVarint hlast rest _ _ (by rw [hrange]; exact v.isLt),
      Option.bind_some, dif_pos v.isLt]
  dec_frame {bs v rest} h := by
    obtain ⟨hmax, hlast, -⟩ := varint_range hw
    obtain ⟨⟨n, rest₁⟩, hn, h⟩ := Option.bind_eq_some_iff.mp h
    rw [hmax] at hn
    split at h
    · rename_i hlt
      obtain ⟨rfl, rfl⟩ := Prod.mk.inj (Option.some.inj h)
      obtain ⟨-, used, hbs, hlen, hany⟩ := takeVarint_frame _ hn
      refine ⟨used, hbs, ?_, fun rest' => ?_⟩
      · rw [hmax]
        exact hlen
      · rw [hmax, hany, Option.bind_some, dif_pos hlt]
    · cases h

/-- A `u16`. -/
def u16 : Codec UInt16 :=
  (varint 16 (by decide)).imap ⟨UInt16.ofFin, UInt16.toFin, fun _ => rfl, fun _ => rfl⟩

/-- A `u64`. -/
def u64 : Codec UInt64 :=
  (varint 64 (by decide)).imap ⟨UInt64.ofFin, UInt64.toFin, fun _ => rfl, fun _ => rfl⟩

/-- A byte array `[u8; n]`. -/
def array (n : ℕ) : Codec (List.Vector UInt8 n) where
  enc v := v.toList
  dec bs := if h : n ≤ bs.length then
      some (⟨bs.take n, by rw [List.length_take, Nat.min_eq_left h]⟩, bs.drop n) else none
  dec_enc v rest _ := by
    obtain ⟨l, rfl⟩ := v
    simp [List.Vector.toList]
  dec_frame {bs v rest} h := by
    split at h
    · rename_i hle
      obtain ⟨rfl, rfl⟩ := Prod.mk.inj (Option.some.inj h)
      have hlen : (bs.take n).length = n := by rw [List.length_take, Nat.min_eq_left hle]
      refine ⟨bs.take n, (List.take_append_drop n bs).symm, le_of_eq rfl, fun rest' => ?_⟩
      rw [dif_pos (by rw [List.length_append, hlen]; omega)]
      congr 2
      · exact Subtype.ext (List.take_left' hlen)
      · exact List.drop_left' hlen
    · cases h

/-- A byte vector `Vec<u8>`, prefixed with its length as a 64-bit `usize`. -/
def bytes : Codec (List UInt8) where
  enc l := putVarint (varintMax 64) l.length ++ l
  dec bs := (takeVarint (maxOfLastByte 64) (varintMax 64) bs).bind fun r =>
    if r.1 ≤ r.2.length then some (r.2.take r.1, r.2.drop r.1) else none
  dec_enc l rest h := by
    rw [List.length_append] at h
    have hlen : l.length < 128 ^ 9 * (maxOfLastByte 64 + 1) := by
      have : (128 ^ 9 * (maxOfLastByte 64 + 1) : ℕ) = sizeLimit := by decide
      omega
    rw [List.append_assoc, show varintMax 64 = 9 + 1 from rfl,
      takeVarint_putVarint (by decide) _ 9 _ hlen, Option.bind_some,
      if_pos (by rw [List.length_append]; omega)]
    simp
  dec_frame {bs l rest} h := by
    obtain ⟨⟨n, mid⟩, hn, h⟩ := Option.bind_eq_some_iff.mp h
    split at h
    · rename_i hle
      dsimp only at hle
      obtain ⟨rfl, rfl⟩ := Prod.mk.inj (Option.some.inj h)
      obtain ⟨-, used, rfl, hlen, hany⟩ := takeVarint_frame 9 hn
      have htake : (mid.take n).length = n := by rw [List.length_take, Nat.min_eq_left hle]
      refine ⟨used ++ mid.take n, ?_, ?_, fun rest' => ?_⟩
      · rw [List.append_assoc, List.take_append_drop]
      · rw [List.length_append, List.length_append, htake]
        exact Nat.add_le_add_right hlen _
      · rw [List.append_assoc, show varintMax 64 = 9 + 1 from rfl, hany, Option.bind_some,
          if_pos (by rw [List.length_append, htake]; omega)]
        congr 2
        · exact List.take_left' htake
        · exact List.drop_left' htake
    · cases h

/-- An optional value behind a tag byte. -/
def option (c : Codec α) : Codec (Option α) where
  enc
    | none => [0]
    | some a => 1 :: c.enc a
  dec
    | [] => none
    | b :: bs =>
      if b = 0 then some (none, bs)
      else if b = 1 then (c.dec bs).map fun r => (some r.1, r.2)
      else none
  dec_enc o rest h := by
    cases o with
    | none => rfl
    | some a =>
      rw [List.length_cons] at h
      rw [List.cons_append]
      simp [c.dec_enc a rest (by omega)]
  dec_frame {bs o rest} h := by
    cases bs with
    | nil => cases h
    | cons b bs =>
      dsimp only at h
      split at h
      · rename_i hb
        obtain ⟨rfl, rfl⟩ := Prod.mk.inj (Option.some.inj h)
        exact ⟨[b], rfl, le_rfl, fun rest' => by rw [List.singleton_append]; exact if_pos hb⟩
      · rename_i hb0
        split at h
        · rename_i hb
          obtain ⟨⟨a, rest₁⟩, ha, h⟩ := Option.map_eq_some_iff.mp h
          obtain ⟨rfl, rfl⟩ := Prod.mk.inj h
          obtain ⟨used, rfl, hlen, hany⟩ := c.dec_frame ha
          refine ⟨b :: used, rfl, Nat.succ_le_succ hlen, fun rest' => ?_⟩
          rw [List.cons_append]
          dsimp only
          rw [if_neg hb0, if_pos hb, hany]
          rfl
        · cases h

/-- A variant of an enumeration: its index, then its fields. -/
def variant {n : ℕ} (hn : n ≤ 2 ^ 32) {φ : Fin n → Type u} (c : ∀ i, Codec (φ i)) :
    Codec (Σ i, φ i) where
  enc v := (varint 32 (by decide)).enc (v.1.castLE hn) ++ (c v.1).enc v.2
  dec bs := ((varint 32 (by decide)).dec bs).bind fun r =>
    if h : r.1.val < n then
      ((c ⟨r.1.val, h⟩).dec r.2).map fun r' => (⟨⟨r.1.val, h⟩, r'.1⟩, r'.2)
    else none
  dec_enc v rest h := by
    obtain ⟨i, a⟩ := v
    rw [List.length_append] at h
    rw [List.append_assoc, (varint 32 _).dec_enc _ _ (by omega), Option.bind_some]
    refine (dif_pos i.isLt).trans ?_
    have hfields : (c i).dec ((c i).enc a ++ rest) = some (a, rest) :=
      (c i).dec_enc _ _ (by dsimp only at h; omega)
    exact congrArg (Option.map _) hfields
  dec_frame {bs v rest} h := by
    obtain ⟨⟨t, mid⟩, ht, h⟩ := Option.bind_eq_some_iff.mp h
    split at h
    · rename_i hlt
      obtain ⟨⟨a, rest₁⟩, ha, h⟩ := Option.map_eq_some_iff.mp h
      obtain ⟨rfl, rfl⟩ := Prod.mk.inj h
      obtain ⟨used, rfl, hlen, hany⟩ := (varint 32 _).dec_frame ht
      obtain ⟨used₂, hmid, hlen₂, hany₂⟩ := (c _).dec_frame ha
      dsimp only at hmid
      refine ⟨used ++ used₂, ?_, ?_, fun rest' => ?_⟩
      · rw [List.append_assoc, ← hmid]
      · rw [List.length_append, List.length_append]
        exact Nat.add_le_add hlen hlen₂
      · rw [List.append_assoc, hany, Option.bind_some, dif_pos hlt, hany₂]
        rfl
    · cases h

/-- Read `n` values, one after the other. -/
def takeSeq (c : Codec α) : ℕ → List UInt8 → Option (List α × List UInt8)
  | 0, bs => some ([], bs)
  | n + 1, bs => (c.dec bs).bind fun r => (takeSeq c n r.2).map fun r' => (r.1 :: r'.1, r'.2)

theorem takeSeq_flatMap (c : Codec α) {l : List α} {rest : List UInt8}
    (h : (l.flatMap c.enc).length < sizeLimit) :
    takeSeq c l.length (l.flatMap c.enc ++ rest) = some (l, rest) := by
  induction l with
  | nil => rfl
  | cons a l ih =>
    rw [List.flatMap_cons, List.length_append] at h
    rw [List.flatMap_cons, List.append_assoc, List.length_cons, takeSeq, c.dec_enc _ _ (by omega),
      Option.bind_some, ih (by omega)]
    rfl

/-- A successful reading of `n` values has as many. -/
theorem takeSeq_frame (c : Codec α) {n : ℕ} {bs rest : List UInt8} {l : List α}
    (h : takeSeq c n bs = some (l, rest)) :
    l.length = n ∧ ∃ used, bs = used ++ rest ∧ (l.flatMap c.enc).length ≤ used.length ∧
      ∀ rest', takeSeq c n (used ++ rest') = some (l, rest') := by
  induction n generalizing bs l with
  | zero =>
    obtain ⟨rfl, rfl⟩ := Prod.mk.inj (Option.some.inj h)
    exact ⟨rfl, [], rfl, le_rfl, fun rest' => rfl⟩
  | succ n ih =>
    obtain ⟨⟨a, mid⟩, ha, h⟩ := Option.bind_eq_some_iff.mp h
    obtain ⟨⟨l', rest₁⟩, hl, h⟩ := Option.map_eq_some_iff.mp h
    obtain ⟨rfl, rfl⟩ := Prod.mk.inj h
    obtain ⟨used, rfl, hlen, hany⟩ := c.dec_frame ha
    obtain ⟨hlength, used₂, hmid, hlen₂, hany₂⟩ := ih hl
    dsimp only at hmid
    refine ⟨congrArg Nat.succ hlength, used ++ used₂, ?_, ?_, fun rest' => ?_⟩
    · rw [List.append_assoc, ← hmid]
    · rw [List.flatMap_cons, List.length_append, List.length_append]
      exact Nat.add_le_add hlen hlen₂
    · rw [List.append_assoc, takeSeq, hany, Option.bind_some, hany₂]
      rfl

/-- No more values than bytes, if none is empty. -/
theorem length_le_flatMap (c : Codec α) (hpos : ∀ a, c.enc a ≠ []) (l : List α) :
    l.length ≤ (l.flatMap c.enc).length := by
  induction l with
  | nil => exact le_rfl
  | cons a l ih =>
    have ha : 0 < (c.enc a).length := List.length_pos_iff.mpr (hpos a)
    rw [List.flatMap_cons, List.length_append, List.length_cons]
    omega

/-- A `Vec` of values that take bytes, prefixed with its length as a 64-bit `usize`. -/
def vec (c : Codec α) (hpos : ∀ a, c.enc a ≠ []) : Codec (List α) where
  enc l := putVarint (varintMax 64) l.length ++ l.flatMap c.enc
  dec bs := (takeVarint (maxOfLastByte 64) (varintMax 64) bs).bind fun r => takeSeq c r.1 r.2
  dec_enc l rest h := by
    have hle := length_le_flatMap c hpos l
    rw [List.length_append] at h
    have hlen : l.length < 128 ^ 9 * (maxOfLastByte 64 + 1) := by
      have : (128 ^ 9 * (maxOfLastByte 64 + 1) : ℕ) = sizeLimit := by decide
      omega
    rw [List.append_assoc, show varintMax 64 = 9 + 1 from rfl,
      takeVarint_putVarint (by decide) _ 9 _ hlen, Option.bind_some, takeSeq_flatMap c (by omega)]
  dec_frame {bs l rest} h := by
    obtain ⟨⟨n, mid⟩, hn, hseq⟩ := Option.bind_eq_some_iff.mp h
    obtain ⟨-, used, rfl, hlen, hany⟩ := takeVarint_frame 9 hn
    obtain ⟨rfl, used₂, hmid, hlen₂, hany₂⟩ := takeSeq_frame c hseq
    dsimp only at hmid
    refine ⟨used ++ used₂, ?_, ?_, fun rest' => ?_⟩
    · rw [List.append_assoc, ← hmid]
    · rw [List.length_append, List.length_append]
      exact Nat.add_le_add hlen hlen₂
    · rw [List.append_assoc, show varintMax 64 = 9 + 1 from rfl, hany, Option.bind_some, hany₂]

/-- A `Vec` begins with its length. -/
theorem dec_u64_of_vec {c : Codec α} {hpos : ∀ a, c.enc a ≠ []} {bs rest : List UInt8}
    {l : List α} (h : (vec c hpos).dec bs = some (l, rest)) :
    ∃ n rest', u64.dec bs = some (n, rest') ∧ n.toNat = l.length := by
  obtain ⟨⟨n, mid⟩, hn, hseq⟩ := Option.bind_eq_some_iff.mp h
  obtain ⟨hlt, -⟩ := takeVarint_frame 9 hn
  obtain ⟨rfl, -⟩ := takeSeq_frame c hseq
  have hlt : l.length < 2 ^ 64 := lt_of_lt_of_eq hlt (by decide)
  refine ⟨.ofFin ⟨l.length, hlt⟩, mid, ?_, rfl⟩
  have hvarint : (varint 64 (by decide)).dec bs = some (⟨l.length, hlt⟩, mid) := by
    show (takeVarint _ _ bs).bind _ = _
    rw [hn, Option.bind_some, dif_pos hlt]
  exact congrArg (Option.map _) hvarint

/-! ## Lengths -/

theorem length_putVarint_le : ∀ n v, (putVarint n v).length ≤ n
  | 0, _ => le_rfl
  | n + 1, v => by
    rw [putVarint]
    split
    · simp
    · rw [List.length_cons]
      exact Nat.succ_le_succ (length_putVarint_le n _)

theorem length_enc_u64_le (v : UInt64) : (u64.enc v).length ≤ 10 := length_putVarint_le 10 _

theorem length_enc_u16_le (v : UInt16) : (u16.enc v).length ≤ 3 := length_putVarint_le 3 _

@[simp] theorem length_enc_array {n : ℕ} (v : List.Vector UInt8 n) :
    ((array n).enc v).length = n := v.toList_length

theorem length_enc_bytes_le (v : List UInt8) : (bytes.enc v).length ≤ 10 + v.length := by
  show (_ ++ v : List UInt8).length ≤ _
  rw [List.length_append]
  exact Nat.add_le_add_right (length_putVarint_le 10 _) _

/-- The index of a small enumeration is one byte. -/
theorem length_enc_variant {n : ℕ} (hn : n ≤ 2 ^ 32) (hsmall : n ≤ 128) {φ : Fin n → Type u}
    (c : ∀ i, Codec (φ i)) (v : Σ i, φ i) :
    ((variant hn c).enc v).length = 1 + ((c v.1).enc v.2).length := by
  have hidx : ((varint 32 (by decide)).enc (v.1.castLE hn)).length = 1 := by
    show (putVarint (4 + 1) v.1.val).length = 1
    rw [putVarint, if_pos (by omega)]
    rfl
  show (_ ++ _ : List UInt8).length = _
  rw [List.length_append, hidx]

end Codec

namespace Postcard

variable {α : Type u}

/-- `postcard::from_bytes`: reads one value and ignores the bytes after it. -/
def fromBytes (c : Codec α) (bs : List UInt8) : Option α := (c.dec bs).map Prod.fst

/-- `postcard::to_slice`: writes a value at the start of a buffer, or fails when
the buffer is too short. Returns the buffer and the number of bytes written. -/
def toSlice (c : Codec α) (a : α) (buf : List UInt8) : Option (List UInt8 × ℕ) :=
  if (c.enc a).length ≤ buf.length then
    some (c.enc a ++ buf.drop (c.enc a).length, (c.enc a).length)
  else none

end Postcard
