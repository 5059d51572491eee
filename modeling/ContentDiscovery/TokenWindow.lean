import ContentDiscovery.WriteAuthority
import Mathlib.Data.Set.Function

/-!
# How long a token is accepted

The tokens of `udp-addr-index/src/lib.rs`: a token is accepted for its socket in the bucket it
was issued in and in the next one. `token_window` says so for every length of the buckets, and
what it comes to in seconds.
-/

namespace ContentDiscovery

namespace Server

variable {F : Type} (P : Primitives) (s : Server F)

/-- The length of a bucket in seconds. -/
def bucketSecs : ℕ := max s.limits.tokenBucketSecs.toNat 1

/-- `now` is in the bucket of `t`, or in the one after it. -/
def InWindow (t now : UInt64) : Prop :=
  (s.bucket now).toNat = (s.bucket t).toNat ∨ (s.bucket now).toNat = (s.bucket t).toNat + 1

variable {P s} {a b : SocketAddrV4} {t now : UInt64}

theorem toNat_max_one (w : UInt64) : (max w 1).toNat = max w.toNat 1 := by
  rcases le_total w 1 with h | h
  · rw [max_eq_right h]
    exact (max_eq_right (UInt64.le_iff_toNat_le.mp h)).symm
  · rw [max_eq_left h]
    exact (max_eq_left (UInt64.le_iff_toNat_le.mp h)).symm

theorem bucketSecs_pos : 0 < s.bucketSecs := Nat.lt_of_lt_of_le Nat.zero_lt_one (le_max_right _ _)

/-- The length of a bucket is never zero, so there is a bucket for every time. -/
theorem toNat_bucket : (s.bucket now).toNat = now.toNat / s.bucketSecs := by
  rw [bucket, UInt64.toNat_div, toNat_max_one, bucketSecs]

theorem toNat_pred {w : UInt64} (h : w ≠ 0) : (w - 1).toNat = w.toNat - 1 := by
  refine UInt64.toNat_sub_of_le _ _ (UInt64.le_iff_toNat_le.mpr ?_)
  have hne : w.toNat ≠ 0 := fun h0 => h (UInt64.toNat_inj.mp h0)
  exact Nat.one_le_iff_ne_zero.mpr hne

/-- The buckets that are looked at are those of the window. -/
theorem inWindow_iff : s.InWindow t now ↔ s.Current now (s.bucket t) := by
  rw [InWindow, Current, eq_comm, UInt64.toNat_inj]
  refine or_congr_right ⟨fun h => ?_, fun ⟨hne, h⟩ => ?_⟩
  · have hne : s.bucket now ≠ 0 := by
      rintro h0
      rw [h0] at h
      exact Nat.succ_ne_zero _ h.symm
    refine ⟨hne, UInt64.toNat_inj.mp ?_⟩
    rw [toNat_pred hne, h, Nat.add_sub_cancel]
  · rw [h, toNat_pred hne]
    have hpos : (s.bucket now).toNat ≠ 0 := fun h0 => hne (UInt64.toNat_inj.mp h0)
    omega

/-- Less than one length later is within the window. -/
theorem InWindow.of_lt (hle : t ≤ now) (hlt : now.toNat < t.toNat + s.bucketSecs) :
    s.InWindow t now := by
  have hpos : 0 < s.bucketSecs := bucketSecs_pos
  have hlower : t.toNat / s.bucketSecs ≤ now.toNat / s.bucketSecs :=
    Nat.div_le_div_right (UInt64.le_iff_toNat_le.mp hle)
  have hupper : now.toNat / s.bucketSecs ≤ t.toNat / s.bucketSecs + 1 := calc
    now.toNat / s.bucketSecs ≤ (t.toNat + s.bucketSecs) / s.bucketSecs :=
      Nat.div_le_div_right hlt.le
    _ = t.toNat / s.bucketSecs + 1 := Nat.add_div_right _ hpos
  rw [InWindow, toNat_bucket, toNat_bucket]
  omega

/-- Two lengths later is not. -/
theorem InWindow.lt (h : s.InWindow t now) : now.toNat < t.toNat + 2 * s.bucketSecs := by
  have hpos : 0 < s.bucketSecs := bucketSecs_pos
  by_contra hge
  have hbuckets : t.toNat / s.bucketSecs + 2 ≤ now.toNat / s.bucketSecs := calc
    t.toNat / s.bucketSecs + 2 = (t.toNat + 2 * s.bucketSecs) / s.bucketSecs :=
      (Nat.add_mul_div_right _ _ hpos).symm
    _ ≤ now.toNat / s.bucketSecs := Nat.div_le_div_right (Nat.le_of_not_lt hge)
  rw [InWindow, toNat_bucket, toNat_bucket] at h
  omega

/-- The inputs of the keyed hash when a token for `a` is issued at `t` and checked for `b`. -/
def macInputs (s : Server F) (a b : SocketAddrV4) (t now : UInt64) : Set (List UInt8) :=
  {input | input = tokenInput a (s.bucket t) ∨
    ∃ bucket, s.Current now bucket ∧ input = tokenInput b bucket}

/-- A token is accepted for the socket it was issued for, within its window, and for no other
and at no other time. -/
theorem verifyToken_issueToken
    (hmac : Set.InjOn (fun input => (P.keyedHash s.tokenKey input).take 16)
      (macInputs s a b t now)) :
    s.verifyToken P b (s.issueToken P a t) now = true ↔ a = b ∧ s.InWindow t now := by
  have htoken {bucket : UInt64} (hcurrent : s.Current now bucket) :
      s.tokenFor P a (s.bucket t) = s.tokenFor P b bucket ↔ a = b ∧ s.bucket t = bucket := by
    refine ⟨fun h => tokenInput_inj (hmac (.inl rfl) (.inr ⟨bucket, hcurrent, rfl⟩) h), ?_⟩
    rintro ⟨rfl, rfl⟩
    rfl
  rw [verifyToken_iff, inWindow_iff]
  constructor
  · rintro ⟨bucket, h, hcurrent⟩
    obtain ⟨hsocket, rfl⟩ := (htoken hcurrent).mp h
    exact ⟨hsocket, hcurrent⟩
  · rintro ⟨hsocket, hcurrent⟩
    exact ⟨_, (htoken hcurrent).mpr ⟨hsocket, rfl⟩, hcurrent⟩

/-- The window of a token, also in seconds, whatever the configured length. The arithmetic never
wraps or divides by zero, the input of the hash says all about the socket and the bucket, and
tokens are compared for equality. -/
theorem token_window
    (hmac : Set.InjOn (fun input => (P.keyedHash s.tokenKey input).take 16)
      (macInputs s a b t now)) :
    (s.verifyToken P b (s.issueToken P a t) now = true ↔ a = b ∧ s.InWindow t now) ∧
      (a = b → t ≤ now → now.toNat < t.toNat + s.bucketSecs →
        s.verifyToken P b (s.issueToken P a t) now = true) ∧
      (t.toNat + 2 * s.bucketSecs ≤ now.toNat →
        s.verifyToken P b (s.issueToken P a t) now = false) ∧
      (max s.limits.tokenBucketSecs 1 ≠ 0 ∧
        ∀ n, s.bucket n ≠ 0 → (s.bucket n - 1).toNat = (s.bucket n).toNat - 1) ∧
      (∀ a b c d, tokenInput a c = tokenInput b d → a = b ∧ c = d) ∧
      ∀ left right, tokenEq left right = true ↔ left = right := by
  have hiff := verifyToken_issueToken hmac
  refine ⟨hiff, fun hsocket hle hlt => hiff.mpr ⟨hsocket, .of_lt hle hlt⟩, fun hlate => ?_,
    ⟨fun h => ?_, fun _ => toNat_pred⟩, fun _ _ _ _ => tokenInput_inj, fun _ _ => tokenEq_iff⟩
  · rw [← Bool.not_eq_true, hiff]
    exact fun h => absurd h.2.lt (not_lt_of_ge hlate)
  · have hpos : 0 < s.bucketSecs := bucketSecs_pos
    rw [bucketSecs, ← toNat_max_one, h] at hpos
    exact absurd hpos (Nat.lt_irrefl 0)

/-! ## A sample -/

namespace Sample

/-- The socket of a token. -/
def holder : SocketAddrV4 := ⟨⟨192, 0, 2, 1⟩, 4433⟩

/-- A server with a key of zeros. -/
def issuer : Server (Option ℚ) := .new .default (.replicate 32 0) 0

/-- The keyed BLAKE3 hash of the socket in the buckets 56666667 and 56666668. -/
def macs : Primitives where
  keyedHash _ input :=
    if input = tokenInput holder 56666667 then hash
    else if input = tokenInput holder 56666668 then
      ⟨[194, 218, 90, 132, 116, 153, 123, 213, 218, 171, 135, 252, 124, 188, 244, 95, 179, 12, 239,
        175, 184, 68, 244, 167, 226, 172, 233, 132, 91, 58, 120, 161], rfl⟩
    else .replicate 32 0
  hashIp _ := 0

end Sample

/-- A token that is 30 seconds old is accepted. -/
theorem token_window_sample :
    Sample.issuer.verifyToken Sample.macs Sample.holder
      (Sample.issuer.issueToken Sample.macs Sample.holder 1700000010) 1700000040 = true := by
  refine (token_window (P := Sample.macs) (s := Sample.issuer) ?_).1.mpr ⟨rfl, .inr (by decide)⟩
  have hthen : Sample.issuer.bucket 1700000010 = 56666667 := by decide
  have hnow : Sample.issuer.bucket 1700000040 = 56666668 := by decide
  have hbuckets : macInputs Sample.issuer Sample.holder Sample.holder 1700000010 1700000040
      ⊆ {tokenInput Sample.holder 56666667, tokenInput Sample.holder 56666668} := by
    rintro input (rfl | ⟨bucket, rfl | ⟨-, rfl⟩, rfl⟩)
    · exact .inl (by rw [hthen])
    · exact .inr (by rw [hnow]; rfl)
    · exact .inl (by rw [hnow]; rfl)
  refine Set.InjOn.mono hbuckets (Set.injOn_pair.mpr fun h => ?_)
  exact absurd h (by decide +kernel)

end Server

end ContentDiscovery
