import Mathlib.Data.Prod.Lex
import Mathlib.Data.UInt
import Mathlib.Data.Vector.Basic

/-!
# Machine words, clocks and socket addresses

The word types come with their decidable orders but not with a `LinearOrder`;
the instances here only package what `Init` proves. Addresses order as Rust's
derived orders do: octets first to last, then the port.
-/

namespace ContentDiscovery

instance instLinearOrderUInt8 : LinearOrder UInt8 where
  le_refl a := UInt8.le_refl a
  le_trans _ _ _ := UInt8.le_trans
  lt_iff_le_not_ge a b := by
    rw [UInt8.lt_iff_toNat_lt, UInt8.le_iff_toNat_le, UInt8.le_iff_toNat_le]
    omega
  le_antisymm _ _ := UInt8.le_antisymm
  le_total a b := UInt8.le_total a b
  toDecidableLE := inferInstance
  toDecidableLT := inferInstance
  toDecidableEq := inferInstance

instance instLinearOrderUInt16 : LinearOrder UInt16 where
  le_refl a := UInt16.le_refl a
  le_trans _ _ _ := UInt16.le_trans
  lt_iff_le_not_ge a b := by
    rw [UInt16.lt_iff_toNat_lt, UInt16.le_iff_toNat_le, UInt16.le_iff_toNat_le]
    omega
  le_antisymm _ _ := UInt16.le_antisymm
  le_total a b := UInt16.le_total a b
  toDecidableLE := inferInstance
  toDecidableLT := inferInstance
  toDecidableEq := inferInstance

instance instLinearOrderUInt64 : LinearOrder UInt64 where
  le_refl a := UInt64.le_refl a
  le_trans _ _ _ := UInt64.le_trans
  lt_iff_le_not_ge a b := by
    rw [UInt64.lt_iff_toNat_lt, UInt64.le_iff_toNat_le, UInt64.le_iff_toNat_le]
    omega
  le_antisymm _ _ := UInt64.le_antisymm
  le_total a b := UInt64.le_total a b
  toDecidableLE := inferInstance
  toDecidableLT := inferInstance
  toDecidableEq := inferInstance

/-- The largest `u64`. -/
def u64Max : UInt64 := 0xffffffffffffffff

/-- `u64::saturating_add`. -/
def saturatingAdd (a b : UInt64) : UInt64 :=
  if a.toNat + b.toNat < 2 ^ 64 then a + b else u64Max

/-- The value of a saturating sum: the sum, or the largest word. -/
theorem toNat_saturatingAdd (a b : UInt64) :
    (saturatingAdd a b).toNat = min (a.toNat + b.toNat) (2 ^ 64 - 1) := by
  rw [saturatingAdd]
  split
  · rename_i h
    rw [UInt64.toNat_add, Nat.mod_eq_of_lt h]
    omega
  · have : u64Max.toNat = 2 ^ 64 - 1 := rfl
    omega

/-- `u64::saturating_sub`. -/
def saturatingSub (a b : UInt64) : UInt64 := if b ≤ a then a - b else 0

/-- The value of a saturating difference. -/
theorem toNat_saturatingSub (a b : UInt64) : (saturatingSub a b).toNat = a.toNat - b.toNat := by
  rw [saturatingSub]
  split
  · rename_i h
    exact UInt64.toNat_sub_of_le _ _ h
  · rename_i h
    rw [UInt64.le_iff_toNat_le] at h
    have hzero : (0 : UInt64).toNat = 0 := rfl
    omega

/-- `tokio::time::Instant`, in nanoseconds from an arbitrary start. -/
abbrev Instant : Type := ℕ

/-- `std::net::Ipv4Addr`: four octets. -/
structure Ipv4Addr where
  /-- first octet -/
  a : UInt8
  /-- second octet -/
  b : UInt8
  /-- third octet -/
  c : UInt8
  /-- fourth octet -/
  d : UInt8
  deriving Repr

namespace Ipv4Addr

/-- `Ipv4Addr::octets`. -/
def octets (ip : Ipv4Addr) : List.Vector UInt8 4 := ⟨[ip.a, ip.b, ip.c, ip.d], rfl⟩

/-- An address from its octets. -/
def ofOctets (v : List.Vector UInt8 4) : Ipv4Addr := ⟨v.get 0, v.get 1, v.get 2, v.get 3⟩

/-- Addresses and octets are the same data. -/
def octetsEquiv : Ipv4Addr ≃ List.Vector UInt8 4 where
  toFun := octets
  invFun := ofOctets
  left_inv _ := rfl
  right_inv v := by
    obtain ⟨l, hl⟩ := v
    match l, hl with
    | [_, _, _, _], _ => rfl

/-- The octets as a lexicographic key. -/
def orderKey (ip : Ipv4Addr) : UInt8 ×ₗ UInt8 ×ₗ UInt8 ×ₗ UInt8 :=
  toLex (ip.a, toLex (ip.b, toLex (ip.c, ip.d)))

theorem orderKey_injective : Function.Injective orderKey := by
  rintro ⟨a, b, c, d⟩ ⟨a', b', c', d'⟩ h
  simp only [orderKey, EmbeddingLike.apply_eq_iff_eq, Prod.mk.injEq] at h
  obtain ⟨rfl, rfl, rfl, rfl⟩ := h
  rfl

instance : LinearOrder Ipv4Addr := LinearOrder.lift' orderKey orderKey_injective

end Ipv4Addr

/-- `std::net::SocketAddrV4`. -/
structure SocketAddrV4 where
  /-- the address -/
  ip : Ipv4Addr
  /-- the port -/
  port : UInt16
  deriving Repr

namespace SocketAddrV4

/-- Address and port as a lexicographic key. -/
def orderKey (s : SocketAddrV4) : Ipv4Addr ×ₗ UInt16 := toLex (s.ip, s.port)

theorem orderKey_injective : Function.Injective orderKey := by
  rintro ⟨ip, port⟩ ⟨ip', port'⟩ h
  simp only [orderKey, EmbeddingLike.apply_eq_iff_eq, Prod.mk.injEq] at h
  obtain ⟨rfl, rfl⟩ := h
  rfl

instance : LinearOrder SocketAddrV4 := LinearOrder.lift' orderKey orderKey_injective

/-- A socket is an address and a port. -/
def pairEquiv : SocketAddrV4 ≃ Ipv4Addr × UInt16 where
  toFun s := (s.ip, s.port)
  invFun p := ⟨p.1, p.2⟩
  left_inv _ := rfl
  right_inv _ := rfl

end SocketAddrV4

end ContentDiscovery
