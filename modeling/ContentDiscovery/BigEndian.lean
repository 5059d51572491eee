import Mathlib.Data.Nat.ModEq

/-!
# Big-endian words

The bytes of a word, most significant first, and the word of some bytes.
-/

namespace ContentDiscovery

/-- The bytes of a word, most significant first, as `to_be_bytes`. -/
def toBeBytes : ℕ → ℕ → List UInt8
  | 0, _ => []
  | n + 1, v => UInt8.ofNat (v / 256 ^ n) :: toBeBytes n v

/-- The word of its bytes, most significant first, as `from_be_bytes`. -/
def fromBeBytes : List UInt8 → ℕ
  | [] => 0
  | b :: bs => b.toNat * 256 ^ bs.length + fromBeBytes bs

theorem length_toBeBytes (n v : ℕ) : (toBeBytes n v).length = n := by
  induction n with
  | zero => rfl
  | succ n ih => rw [toBeBytes, List.length_cons, ih]

/-- The bytes of a word determine it. -/
theorem toBeBytes_inj {n v v' : ℕ} (h : toBeBytes n v = toBeBytes n v') :
    v % 256 ^ n = v' % 256 ^ n := by
  induction n with
  | zero => rw [pow_zero, Nat.mod_one, Nat.mod_one]
  | succ n ih =>
    obtain ⟨hhead, htail⟩ := List.cons.inj h
    have hbyte : v / 256 ^ n % 256 = v' / 256 ^ n % 256 := by
      simpa [← UInt8.toNat_inj] using hhead
    rw [pow_succ, Nat.mod_mul, Nat.mod_mul, hbyte, ih htail]

theorem fromBeBytes_lt (bs : List UInt8) : fromBeBytes bs < 256 ^ bs.length := by
  induction bs with
  | nil => exact Nat.zero_lt_one
  | cons b bs ih =>
    rw [fromBeBytes, List.length_cons, pow_succ]
    have hb : b.toNat < 256 := b.toNat_lt
    calc b.toNat * 256 ^ bs.length + fromBeBytes bs
        < b.toNat * 256 ^ bs.length + 256 ^ bs.length := Nat.add_lt_add_left ih _
      _ = (b.toNat + 1) * 256 ^ bs.length := (Nat.succ_mul _ _).symm
      _ ≤ 256 * 256 ^ bs.length := Nat.mul_le_mul_right _ hb
      _ = 256 ^ bs.length * 256 := Nat.mul_comm _ _

/-- What is written is read back, up to the width. -/
theorem fromBeBytes_toBeBytes (n v : ℕ) : fromBeBytes (toBeBytes n v) = v % 256 ^ n := by
  induction n with
  | zero => rw [pow_zero, Nat.mod_one, toBeBytes, fromBeBytes]
  | succ n ih =>
    rw [toBeBytes, fromBeBytes, ih, length_toBeBytes, pow_succ, Nat.mod_mul, UInt8.toNat_ofNat',
      Nat.add_comm, Nat.mul_comm]

/-- Only the lower bytes of a word are written. -/
theorem toBeBytes_congr {n v v' : ℕ} (h : v % 256 ^ n = v' % 256 ^ n) :
    toBeBytes n v = toBeBytes n v' := by
  induction n with
  | zero => rfl
  | succ n ih =>
    rw [pow_succ] at h
    have hhead : v / 256 ^ n % 256 = v' / 256 ^ n % 256 := by
      rw [← Nat.mod_mul_right_div_self, h, Nat.mod_mul_right_div_self]
    have htail : v % 256 ^ n = v' % 256 ^ n := by
      rw [← Nat.mod_mul_right_mod v _ 256, h, Nat.mod_mul_right_mod]
    rw [toBeBytes, toBeBytes, ih htail, ← UInt8.ofNat_mod_size, hhead, UInt8.ofNat_mod_size]

/-- What is read is written back. -/
theorem toBeBytes_fromBeBytes (bs : List UInt8) : toBeBytes bs.length (fromBeBytes bs) = bs := by
  induction bs with
  | nil => rfl
  | cons b bs ih =>
    have hlt := fromBeBytes_lt bs
    have hpos : 0 < 256 ^ bs.length := Nat.pow_pos (by decide)
    have hhead : (b.toNat * 256 ^ bs.length + fromBeBytes bs) / 256 ^ bs.length = b.toNat := by
      rw [Nat.mul_comm, Nat.mul_add_div hpos, Nat.div_eq_of_lt hlt, Nat.add_zero]
    have htail : (b.toNat * 256 ^ bs.length + fromBeBytes bs) % 256 ^ bs.length
        = fromBeBytes bs % 256 ^ bs.length := Nat.mul_add_mod' _ _ _
    rw [List.length_cons, toBeBytes, fromBeBytes, hhead, toBeBytes_congr htail, ih,
      UInt8.ofNat_toNat]

end ContentDiscovery
