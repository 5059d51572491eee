import ContentDiscovery.Str

/-!
# Percent encoding

The `percent-encoding` crate: which bytes are escaped is up to a set of ASCII bytes, other bytes
always are. Whatever the set, what is encoded is decoded again (`decode_encode`), as long as the
percent sign itself is escaped.
-/

namespace ContentDiscovery

/-- `AsciiSet`: the ASCII bytes that are escaped. -/
abbrev AsciiSet : Type := UInt8 → Bool

namespace Percent

/-- `CONTROLS`. -/
def CONTROLS : AsciiSet := fun b => b < 32 || b = 127

/-- A hexadecimal digit, in upper case. -/
def hexDigit (n : ℕ) : Char := n.digitChar.toUpper

/-- The value of a hexadecimal digit. -/
def hexValue (b : UInt8) : Option ℕ :=
  if 48 ≤ b ∧ b ≤ 57 then some (b.toNat - 48)
  else if 65 ≤ b ∧ b ≤ 70 then some (b.toNat - 55)
  else if 97 ≤ b ∧ b ≤ 102 then some (b.toNat - 87)
  else none

/-- One byte, escaped or as it is. -/
def encodeByte (escape : AsciiSet) (b : UInt8) : Str :=
  if 128 ≤ b ∨ escape b then ['%', hexDigit (b.toNat / 16), hexDigit (b.toNat % 16)]
  else [Char.ofNat b.toNat]

/-- `utf8_percent_encode`. -/
def encode (escape : AsciiSet) (s : Str) : Str := (Str.bytes s).flatMap (encodeByte escape)

/-- `percent_decode`: escapes are read, and what is not an escape is kept. -/
def decodeBytes : List UInt8 → List UInt8
  | [] => []
  | b :: h :: l :: rest =>
    if b = 37 then
      match hexValue h, hexValue l with
      | some high, some low => UInt8.ofNat (16 * high + low) :: decodeBytes rest
      | _, _ => b :: decodeBytes (h :: l :: rest)
    else b :: decodeBytes (h :: l :: rest)
  | b :: rest => b :: decodeBytes rest

/-- `percent_decode_str` and `decode_utf8`. -/
def decode (s : Str) : Option Str := Str.fromUtf8 (decodeBytes (Str.bytes s))

variable {escape : AsciiSet} {s a b : Str} {c : Char} {n : ℕ}

/-! ## Bytes -/

theorem bytes_ofNat (h : n < 128) : Str.bytes [Char.ofNat n] = [UInt8.ofNat n] := by
  have hall : ∀ n < 128, Str.bytes [Char.ofNat n] = [UInt8.ofNat n] := by decide
  exact hall n h

theorem bytes_hexDigit (h : n < 16) :
    ∃ d, Str.bytes [hexDigit n] = [d] ∧ hexValue d = some n := by
  have hall : ∀ n < 16, (Str.bytes [hexDigit n]).map hexValue = [some n] := by decide
  obtain ⟨d, hd, hvalue⟩ := List.map_eq_singleton_iff.mp (hall n h)
  exact ⟨d, hd, hvalue⟩

/-- A byte that is not the percent sign is kept. -/
theorem decodeBytes_cons {b : UInt8} (hb : b ≠ 37) (rest : List UInt8) :
    decodeBytes (b :: rest) = b :: decodeBytes rest := by
  match rest with
  | [] => rfl
  | [_] => rfl
  | _ :: _ :: _ => rw [decodeBytes, if_neg hb]

/-- Bytes without a percent sign are kept. -/
theorem decodeBytes_self {bs : List UInt8} (h : 37 ∉ bs) : decodeBytes bs = bs := by
  induction bs with
  | nil => rfl
  | cons b bs ih =>
    rw [List.mem_cons, not_or] at h
    rw [decodeBytes_cons (Ne.symm h.1), ih h.2]

/-- Only the percent sign is written as one. -/
theorem bytes_percent (h : '%' ∉ s) : 37 ∉ Str.bytes s := by
  intro hmem
  obtain ⟨c, hc, hb⟩ := List.mem_flatMap.mp hmem
  have hpercent : c = '%' := Char.toNat_inj.mp (Str.toNat_of_mem_utf8 hb (by decide))
  exact h (hpercent ▸ hc)

/-- A text without a percent sign is kept. -/
theorem decode_self (h : '%' ∉ s) : decode s = some s := by
  rw [decode, decodeBytes_self (bytes_percent h), Str.fromUtf8_bytes]

/-- An encoded byte is decoded. -/
theorem decodeBytes_encodeByte (hpercent : escape 37 = true) (b : UInt8) (rest : List UInt8) :
    decodeBytes (Str.bytes (encodeByte escape b) ++ rest) = b :: decodeBytes rest := by
  have hlt : b.toNat < 256 := b.toNat_lt
  rw [encodeByte]
  split
  · obtain ⟨high, hhigh, hhigh'⟩ := bytes_hexDigit (n := b.toNat / 16) (by omega)
    obtain ⟨low, hlow, hlow'⟩ := bytes_hexDigit (n := b.toNat % 16) (by omega)
    have hbytes : Str.bytes (['%'] ++ ([hexDigit (b.toNat / 16)] ++ [hexDigit (b.toNat % 16)]))
        = [37] ++ ([high] ++ [low]) := by
      rw [Str.bytes_append, Str.bytes_append, hhigh, hlow]
      rfl
    simp only [List.cons_append, List.nil_append] at hbytes
    rw [hbytes]
    simp only [List.cons_append, List.nil_append, decodeBytes, hhigh', hlow', if_true]
    rw [Nat.div_add_mod, UInt8.ofNat_toNat]
  · rename_i hnot
    rw [not_or, UInt8.not_le, UInt8.lt_iff_toNat_lt] at hnot
    rw [bytes_ofNat hnot.1, UInt8.ofNat_toNat]
    refine decodeBytes_cons ?_ rest
    rintro rfl
    exact hnot.2 hpercent

theorem decodeBytes_encode (hpercent : escape 37 = true) (s : Str) :
    decodeBytes (Str.bytes (encode escape s)) = Str.bytes s := by
  rw [encode]
  induction Str.bytes s with
  | nil => rfl
  | cons b bs ih =>
    rw [List.flatMap_cons, Str.bytes_append, decodeBytes_encodeByte hpercent, ih]

/-- What is encoded is decoded. -/
theorem decode_encode (hpercent : escape 37 = true) : decode (encode escape s) = some s := by
  rw [decode, decodeBytes_encode hpercent, Str.fromUtf8_bytes]

/-- Two texts that are encoded the same way are the same. -/
theorem encode_injective (hpercent : escape 37 = true) : Function.Injective (encode escape) := by
  intro a b h
  have hback := decode_encode (s := a) hpercent
  rw [h, decode_encode hpercent] at hback
  exact (Option.some.inj hback).symm

/-! ## Texts -/

theorem encode_append : encode escape (a ++ b) = encode escape a ++ encode escape b := by
  rw [encode, Str.bytes_append, List.flatMap_append]
  rfl

/-- What an encoded text is made of: escapes, and ASCII characters that are not escaped. -/
theorem mem_encode (h : c ∈ encode escape s) :
    c = '%' ∨ (∃ n < 16, c = hexDigit n) ∨
      ∃ b : UInt8, b < 128 ∧ escape b = false ∧ c = Char.ofNat b.toNat := by
  obtain ⟨b, -, hc⟩ := List.mem_flatMap.mp h
  have hlt : b.toNat < 256 := b.toNat_lt
  rw [encodeByte] at hc
  split at hc
  · simp only [List.mem_cons, List.not_mem_nil, or_false] at hc
    rcases hc with rfl | rfl | rfl
    · exact .inl rfl
    · exact .inr (.inl ⟨_, by omega, rfl⟩)
    · exact .inr (.inl ⟨_, by omega, rfl⟩)
  · rename_i hnot
    rw [not_or, UInt8.not_le, Bool.not_eq_true] at hnot
    exact .inr (.inr ⟨b, hnot.1, hnot.2, List.mem_singleton.mp hc⟩)

end Percent

end ContentDiscovery
