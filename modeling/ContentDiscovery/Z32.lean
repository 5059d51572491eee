import ContentDiscovery.Str
import Mathlib.Data.Nat.Digits.Lemmas

/-!
# z-base-32

Keys and hashes are written in z-base-32, by the `z32` crate: `Z32` collects the functions
that are used of it, and `Z32.Lawful` what is relied on. The encoding of 32 bytes itself,
`Z32.standard`, satisfies it.
-/

namespace ContentDiscovery

/-- What is used of the `z32` crate. -/
structure Z32 where
  /-- `z32::encode` -/
  encode : List UInt8 → Str
  /-- `z32::decode` -/
  decode : List UInt8 → Option (List UInt8)

namespace Z32

/-- The characters of the encoding. -/
def alphabet : Str := "ybndrfg8ejkmcpqxot1uwisza345h769".toList

/-- What is relied on for 32 bytes: they make 52 characters, and are read back. -/
structure Lawful (z : Z32) : Prop where
  length_encode : ∀ bs, bs.length = 32 → (z.encode bs).length = 52
  mem_alphabet : ∀ bs, bs.length = 32 → ∀ c ∈ z.encode bs, c ∈ alphabet
  decode_encode : ∀ bs, bs.length = 32 → z.decode (Str.bytes (z.encode bs)) = some bs

end Z32

/-- `parse_z32_bytes`: 32 bytes from their one encoding. -/
def parseZ32Bytes (z : Z32) (value : Str) : Option (Vector UInt8 32) :=
  if (Str.bytes value).length ≠ 52 then none
  else
    match z.decode (Str.bytes value) with
    | none => none
    | some decoded =>
      if h : decoded.length = 32 then
        let bytes : Vector UInt8 32 := ⟨decoded.toArray, by rw [List.size_toArray, h]⟩
        if z.encode bytes.toList = value then some bytes else none
      else none

namespace Z32

variable {z : Z32} {value : Str} {bytes : Vector UInt8 32}

/-- Whatever is read is written back the same way. -/
theorem encode_of_parse (h : parseZ32Bytes z value = some bytes) :
    z.encode bytes.toList = value := by
  rw [parseZ32Bytes] at h
  split at h
  · cases h
  · split at h
    · cases h
    · split at h
      · simp only [Option.ite_none_right_eq_some, Option.some.injEq] at h
        obtain ⟨hvalue, rfl⟩ := h
        exact hvalue
      · cases h

/-- A character of the encoding is one byte long. -/
theorem length_utf8 : ∀ c ∈ alphabet, (String.utf8EncodeChar c).length = 1 := by
  have hall : alphabet.all fun c => (String.utf8EncodeChar c).length = 1 := by
    decide +kernel
  intro c hc
  exact of_decide_eq_true (List.all_eq_true.mp hall c hc)

theorem length_bytes {s : Str} (h : ∀ c ∈ s, c ∈ alphabet) : (Str.bytes s).length = s.length := by
  rw [Str.bytes, List.length_flatMap, List.map_congr_left fun c hc => length_utf8 c (h c hc)]
  simp

/-- What is written is read back. -/
theorem Lawful.parse_encode (hz : z.Lawful) :
    parseZ32Bytes z (z.encode bytes.toList) = some bytes := by
  have hlength : bytes.toList.length = 32 := bytes.length_toList
  have hbytes := (length_bytes (hz.mem_alphabet _ hlength)).trans (hz.length_encode _ hlength)
  rw [parseZ32Bytes, if_neg (not_not_intro hbytes), hz.decode_encode _ hlength]
  simp [hlength, Vector.toArray_toList]

/-- The number that bytes stand for, the first one is the highest. -/
def number (bs : List UInt8) : ℕ := Nat.ofDigits 256 (bs.reverse.map UInt8.toNat)

/-- A character of the encoding by its value. -/
def char (n : ℕ) : Char := alphabet.getD n 'y'

/-- The value of a character of the encoding. -/
def digit (byte : UInt8) : Option ℕ := (Str.bytes alphabet).idxOf? byte

/-- The encoding of 32 bytes: their 256 bits and four zeros, cut into fives. -/
def standard : Z32 where
  encode bs := (Nat.digitsAppend 32 52 (number bs * 16)).reverse.map char
  decode s := Option.map
    (fun ns => (Nat.digitsAppend 256 32 (Nat.ofDigits 32 ns.reverse / 16)).reverse.map UInt8.ofNat)
    (s.mapM digit)

theorem char_mem (n : ℕ) : char n ∈ alphabet := by
  rw [char, List.getD_eq_getElem?_getD]
  cases h : alphabet[n]? with
  | none => decide
  | some c => exact List.mem_of_getElem? h

theorem digit_char : ∀ n < 32, (String.utf8EncodeChar (char n)).map digit = [some n] := by
  decide +kernel

/-- Characters are read back. -/
theorem mapM_digit {ns : List ℕ} (h : ∀ n ∈ ns, n < 32) :
    (Str.bytes (ns.map char)).mapM digit = some ns := by
  induction ns with
  | nil => rfl
  | cons n ns ih =>
    have hn := digit_char n (h n List.mem_cons_self)
    obtain ⟨b, hb, hdigit⟩ := List.map_eq_singleton_iff.mp hn
    rw [List.map_cons, Str.bytes, List.flatMap_cons, hb, List.singleton_append, List.mapM_cons,
      hdigit, ← Str.bytes, ih fun m hm => h m (List.mem_cons_of_mem _ hm)]
    rfl

theorem bytes_lt (bs : List UInt8) : ∀ n ∈ bs.reverse.map UInt8.toNat, n < 256 := by
  simp only [List.mem_map]
  rintro _ ⟨b, -, rfl⟩
  exact b.toNat_lt

theorem number_lt {bs : List UInt8} (h : bs.length = 32) : number bs < 256 ^ 32 := by
  have hlt := Nat.ofDigits_lt_base_pow_length (b := 256) (l := bs.reverse.map UInt8.toNat)
    (by decide) (bytes_lt bs)
  rwa [List.length_map, List.length_reverse, h] at hlt

theorem standard_lawful : standard.Lawful where
  length_encode bs hbs := by
    have hlt := number_lt hbs
    rw [standard, List.length_map, List.length_reverse]
    exact Nat.length_digitsAppend (by decide) _ (by omega)
  mem_alphabet bs hbs c hc := by
    obtain ⟨n, -, rfl⟩ := List.mem_map.mp hc
    exact char_mem n
  decode_encode bs hbs := by
    have hlt := number_lt hbs
    have hinv := Nat.setInvOn_digitsAppend_ofDigits (b := 256) (by decide) 32
    have hinv' := Nat.setInvOn_digitsAppend_ofDigits (b := 32) (by decide) 52
    have hsmall : ∀ n ∈ (Nat.digitsAppend 32 52 (number bs * 16)).reverse, n < 32 := fun n hn =>
      Nat.lt_of_mem_digitsAppend (by decide) _ _ (List.mem_reverse.mp hn)
    have hdigits : Nat.ofDigits 32 (Nat.digitsAppend 32 52 (number bs * 16)) = number bs * 16 :=
      hinv'.2 (show number bs * 16 < 32 ^ 52 by omega)
    have hbytes : Nat.digitsAppend 256 32 (number bs) = bs.reverse.map UInt8.toNat :=
      hinv.1 ⟨by simp [hbs], bytes_lt bs⟩
    have hid : UInt8.ofNat ∘ UInt8.toNat = id := funext fun _ => UInt8.ofNat_toNat
    simp only [standard]
    rw [mapM_digit hsmall, Option.map_some, List.reverse_reverse, hdigits,
      Nat.mul_div_cancel _ (by decide), hbytes, ← List.map_reverse, List.reverse_reverse,
      List.map_map, hid, List.map_id]

end Z32

end ContentDiscovery
