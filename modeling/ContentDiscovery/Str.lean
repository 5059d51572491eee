import ContentDiscovery.Addr
import Mathlib.Data.List.DropRight

/-!
# Strings

A string is the list of its characters. These are the operations of Rust's `str` on
it, with the documented behaviour: cutting at a separator, trimming, and reading
decimal numbers. Lengths in bytes are those of the UTF-8 encoding.
-/

namespace ContentDiscovery

/-- `str`. -/
abbrev Str : Type := List Char

namespace Str

/-- What holds of every character of a text is decided along the text: there are finitely many
characters, but too many to go through. -/
instance (priority := 2000) decidableForallMem {p : Char → Prop} [DecidablePred p] (s : Str) :
    Decidable (∀ c ∈ s, p c) := List.decidableBAll p s

/-- The UTF-8 encoding. -/
def bytes (s : Str) : List UInt8 := s.flatMap String.utf8EncodeChar

/-- `str::from_utf8`. -/
def fromUtf8 (bs : List UInt8) : Option Str := bs.toByteArray.utf8Decode?.map Array.toList

/-- `str::split_once`: cuts at the first separator. -/
def splitOnce (c : Char) : Str → Option (Str × Str)
  | [] => none
  | d :: s => if d = c then some ([], s) else (splitOnce c s).map fun p => (d :: p.1, p.2)

/-- `str::rsplit_once`: cuts at the last separator. -/
def rsplitOnce (c : Char) (s : Str) : Option (Str × Str) :=
  (splitOnce c s.reverse).map fun p => (p.2.reverse, p.1.reverse)

/-- `char::is_whitespace`: the characters with the property `White_Space`. -/
def isWhitespace (c : Char) : Bool :=
  (9 ≤ c.toNat ∧ c.toNat ≤ 13) || c.toNat == 0x20 || c.toNat == 0x85 || c.toNat == 0xa0 ||
    c.toNat == 0x1680 || (0x2000 ≤ c.toNat ∧ c.toNat ≤ 0x200a) || c.toNat == 0x2028 ||
    c.toNat == 0x2029 || c.toNat == 0x202f || c.toNat == 0x205f || c.toNat == 0x3000

/-- `str::trim`. -/
def trim (s : Str) : Str := (s.dropWhile isWhitespace).rdropWhile isWhitespace

/-- The value of a string of decimal digits. -/
def decimal (s : Str) : ℕ := s.foldl (fun n c => 10 * n + (c.toNat - '0'.toNat)) 0

/-- `u64::from_str`: decimal digits, after an optional plus sign. -/
def parseU64 (s : Str) : Option UInt64 :=
  let digits := if s.head? = some '+' then s.tail else s
  if digits = [] ∨ ¬ digits.all Char.isDigit then none
  else if decimal digits < 2 ^ 64 then some (.ofNat (decimal digits)) else none

/-- `u64::to_string`. -/
def ofNat (n : ℕ) : Str := Nat.toDigits 10 n

/-- `str::strip_prefix`. -/
def stripPrefix (start s : Str) : Option Str := start.isPrefixOf? s

/-- `str::strip_suffix`. -/
def stripSuffix (suffix s : Str) : Option Str := suffix.isSuffixOf? s

/-- `str::trim_end_matches`. -/
def trimEndMatches (c : Char) (s : Str) : Str := s.rdropWhile fun d => d = c

/-- `str::eq_ignore_ascii_case`. -/
def eqIgnoreAsciiCase (a b : Str) : Prop := a.map Char.toLower = b.map Char.toLower

instance {a b : Str} : Decidable (eqIgnoreAsciiCase a b) :=
  inferInstanceAs (Decidable (a.map Char.toLower = b.map Char.toLower))

/-- `u8::is_ascii_alphanumeric`. -/
def isAsciiAlphanumeric (byte : UInt8) : Bool :=
  (48 ≤ byte ∧ byte ≤ 57) || (65 ≤ byte ∧ byte ≤ 90) || (97 ≤ byte ∧ byte ≤ 122)

variable {c : Char} {s a b : Str}

@[simp] theorem bytes_append : bytes (a ++ b) = bytes a ++ bytes b := List.flatMap_append

theorem fromUtf8_bytes : fromUtf8 (bytes s) = some s := by
  have hdecode : (bytes s).toByteArray.utf8Decode? = some s.toArray := List.utf8Decode?_utf8Encode
  rw [fromUtf8, hdecode, Option.map_some]

/-- There is one encoding of each string. -/
theorem fromUtf8_eq_some {bs : List UInt8} : fromUtf8 bs = some s ↔ bytes s = bs := by
  constructor
  · intro h
    obtain ⟨chars, hchars, rfl⟩ := Option.map_eq_some_iff.mp h
    have hsome : bs.toByteArray.utf8Decode?.isSome := Option.isSome_of_eq_some hchars
    have hback := ByteArray.utf8Encode_get_utf8Decode? (h := hsome)
    rw [Option.get_of_eq_some _ hchars] at hback
    exact List.toByteArray_inj.mp hback
  · rintro rfl
    exact fromUtf8_bytes

theorem bytes_injective : Function.Injective bytes := by
  intro a b h
  have hback := fromUtf8_bytes (s := a)
  rw [h, fromUtf8_bytes] at hback
  exact (Option.some.inj hback).symm

/-- An ASCII character is one byte. -/
theorem utf8EncodeChar_ascii (h : c.toNat < 128) :
    String.utf8EncodeChar c = [UInt8.ofNat c.toNat] := by
  have hsize : c.utf8Size = 1 :=
    Char.utf8Size_eq_one_iff.mpr (UInt32.le_iff_toNat_le.mpr (Nat.le_of_lt_succ h))
  rw [String.utf8EncodeChar_eq_singleton hsize]
  rfl

/-- The bytes of an ASCII text are its characters. -/
theorem bytes_ascii (h : ∀ c ∈ s, c.toNat < 128) :
    bytes s = s.map fun c => UInt8.ofNat c.toNat := by
  induction s with
  | nil => rfl
  | cons c s ih =>
    rw [List.forall_mem_cons] at h
    rw [bytes, List.flatMap_cons, ← bytes, utf8EncodeChar_ascii h.1, ih h.2]
    rfl

/-- An ASCII byte of an encoding is the character itself. -/
theorem toNat_of_mem_utf8 {b : UInt8} (h : b ∈ String.utf8EncodeChar c) (hb : b < 128) :
    c.toNat = b.toNat := by
  have hb : b.toNat < 128 := UInt8.lt_iff_toNat_lt.mp hb
  have hc : c.toNat = c.val.toNat := rfl
  rw [hc]
  simp only [String.utf8EncodeChar] at h
  split at h
  · rw [List.mem_singleton] at h
    rw [h, UInt8.toNat_ofNat', Nat.mod_eq_of_lt (by omega)]
  · -- the other bytes have their highest bit set
    exfalso
    split at h
    · simp only [List.mem_cons, List.not_mem_nil, or_false] at h
      rcases h with rfl | rfl <;> simp only [UInt8.toNat_ofNat'] at hb <;> omega
    · split at h
      · simp only [List.mem_cons, List.not_mem_nil, or_false] at h
        rcases h with rfl | rfl | rfl <;> simp only [UInt8.toNat_ofNat'] at hb <;> omega
      · simp only [List.mem_cons, List.not_mem_nil, or_false] at h
        rcases h with rfl | rfl | rfl | rfl <;> simp only [UInt8.toNat_ofNat'] at hb <;> omega

theorem decimal_ofNat (n : ℕ) : decimal (ofNat n) = n := Nat.ofDigitChars_ten_toDigits

theorem ofNat_injective : Function.Injective ofNat :=
  Function.LeftInverse.injective decimal_ofNat

theorem isDigit_of_mem_ofNat {n : ℕ} (h : c ∈ ofNat n) : c.isDigit :=
  Nat.isDigit_of_mem_toDigits (by decide) (by decide) h

theorem toNat_of_isDigit (h : c.isDigit = true) : 48 ≤ c.toNat ∧ c.toNat ≤ 57 := by
  rw [Char.isDigit, Bool.and_eq_true, decide_eq_true_eq, decide_eq_true_eq] at h
  exact ⟨UInt32.le_iff_toNat_le.mp h.1, UInt32.le_iff_toNat_le.mp h.2⟩

theorem stripPrefix_eq_some {start : Str} : stripPrefix start s = some a ↔ start ++ a = s :=
  List.isPrefixOf?_eq_some_iff_append_eq

theorem stripSuffix_eq_some {suffix : Str} : stripSuffix suffix s = some a ↔ a ++ suffix = s :=
  List.isSuffixOf?_eq_some_iff_append_eq

/-- The parts between separators have none. -/
theorem not_mem_of_mem_splitOn (h : a ∈ s.splitOn c) : c ∉ a := by
  induction s generalizing a with
  | nil =>
    rw [List.splitOn_nil, List.mem_singleton] at h
    rw [h]
    exact List.not_mem_nil
  | cons d s ih =>
    rw [List.splitOn_cons_eq_if_modifyHead] at h
    split at h
    · obtain rfl | h := List.mem_cons.mp h
      · exact List.not_mem_nil
      · exact ih h
    · rename_i hne
      cases hsplit : s.splitOn c with
      | nil => exact absurd hsplit (List.splitOn_ne_nil c s)
      | cons first rest =>
        rw [hsplit, List.modifyHead_cons] at h
        obtain rfl | h := List.mem_cons.mp h
        · have hfirst : c ∉ first := ih (hsplit ▸ List.mem_cons_self)
          rw [List.mem_cons, not_or]
          exact ⟨fun heq => hne (beq_iff_eq.mpr heq.symm), hfirst⟩
        · exact ih (hsplit ▸ List.mem_cons_of_mem _ h)

theorem splitOnce_eq_none : splitOnce c s = none ↔ c ∉ s := by
  induction s with
  | nil => simp [splitOnce]
  | cons d s ih =>
    rw [splitOnce]
    split
    · rename_i heq
      simp [heq]
    · rename_i hne
      simp [ih, Ne.symm hne]

/-- The first part has no separator. -/
theorem splitOnce_eq_some : splitOnce c s = some (a, b) ↔ s = a ++ c :: b ∧ c ∉ a := by
  induction s generalizing a with
  | nil => simp [splitOnce]
  | cons d s ih =>
    rw [splitOnce]
    split
    · rename_i heq
      subst heq
      cases a with
      | nil => simp [eq_comm]
      | cons e a =>
        simp only [Option.some.injEq, Prod.mk.injEq, List.cons_append, List.cons.injEq,
          List.mem_cons, not_or]
        refine ⟨fun h => (nomatch h.1), fun h => absurd h.1.1 h.2.1⟩
    · rename_i hne
      cases a with
      | nil => simp [hne]
      | cons e a =>
        simp only [Option.map_eq_some_iff, Prod.exists, Prod.mk.injEq, List.cons.injEq,
          List.cons_append, List.mem_cons, not_or]
        constructor
        · rintro ⟨a', b', h, ⟨rfl, rfl⟩, rfl⟩
          obtain ⟨rfl, hnot⟩ := ih.mp h
          exact ⟨⟨rfl, rfl⟩, Ne.symm hne, hnot⟩
        · rintro ⟨⟨rfl, rfl⟩, -, hnot⟩
          exact ⟨a, b, ih.mpr ⟨rfl, hnot⟩, ⟨rfl, rfl⟩, rfl⟩

end Str

end ContentDiscovery
