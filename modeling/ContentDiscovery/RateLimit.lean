import ContentDiscovery.Store
import Mathlib.Data.Rat.Init

/-!
# The request limiter of an index server

The rate limiter of `udp-addr-index/src/lib.rs`: a fixed table of token buckets
that addresses share by hashing. The source computes in `f64`; here the
arithmetic is a parameter `F`, so that what does not depend on it is proved for
any arithmetic, rounding included.
-/

namespace ContentDiscovery

/-- The floating-point operations the limiter uses. -/
class FloatArith (F : Type) where
  /-- the constant `NAN` -/
  nan : F
  /-- `is_nan` -/
  isNan : F → Bool
  /-- the constant `1.0` -/
  one : F
  /-- addition -/
  add : F → F → F
  /-- subtraction -/
  sub : F → F → F
  /-- multiplication -/
  mul : F → F → F
  /-- `min` -/
  min : F → F → F
  /-- the comparison `<` -/
  lt : F → F → Bool
  /-- `Duration::as_secs_f64` -/
  asSecs : ℕ → F

/-- Exact arithmetic with a `NAN`. It agrees with `f64` as long as every result is
representable. -/
instance exactArith : FloatArith (Option ℚ) where
  nan := none
  isNan := Option.isNone
  one := some 1
  add := Option.map₂ (· + ·)
  sub := Option.map₂ (· - ·)
  mul := Option.map₂ (· * ·)
  min
    | none, y => y
    | x, none => x
    | some x, some y => some (if x ≤ y then x else y)
  lt
    | some x, some y => decide (x < y)
    | _, _ => false
  asSecs n := some (n / 10 ^ 9)

/-- `Limits::default`. -/
def Limits.default : Limits (Option ℚ) where
  maxValueLen := MAX_VALUE_LEN
  maxEntries := 2000000
  maxEntriesPerIp := 16
  valueTtlSecs := 60 * 60
  tokenBucketSecs := 30
  requestsPerIpPerSec := some 50
  requestBurst := some 100

/-- `std::net::IpAddr`. -/
inductive IpAddr where
  /-- an IPv4 address -/
  | v4 (ip : Ipv4Addr)
  /-- an IPv6 address -/
  | v6 (octets : List.Vector UInt8 16)

variable {F : Type} [FloatArith F]

/-- `Bucket`. -/
structure Bucket (F : Type) where
  /-- the tokens left; `NAN` marks a bucket that has never been used -/
  tokens : F
  /-- when the tokens were last counted -/
  last : Instant

/-- `Bucket::take`: refills the bucket for the time that passed and takes one
token, if there is one. -/
def Bucket.take (b : Bucket F) (now : Instant) (rate burst : F) : Bucket F × Bool :=
  let elapsed : F := FloatArith.asSecs (now - b.last)
  let tokens := FloatArith.min (FloatArith.add b.tokens (FloatArith.mul elapsed rate)) burst
  if FloatArith.lt tokens FloatArith.one then (⟨tokens, now⟩, false)
  else (⟨FloatArith.sub tokens FloatArith.one, now⟩, true)

/-- `RATE_LIMIT_BUCKETS`. -/
def RATE_LIMIT_BUCKETS : ℕ := 65536

/-- `RateLimiters`: the buckets, by index. -/
structure RateLimiters (F : Type) where
  /-- the table of `RATE_LIMIT_BUCKETS` buckets -/
  buckets : Fin RATE_LIMIT_BUCKETS → Bucket F

namespace RateLimiters

/-- `RateLimiters::default`. -/
def new (now : Instant) : RateLimiters F := ⟨fun _ => ⟨FloatArith.nan, now⟩⟩

/-- `bucket_index`: maps an address to a bucket, given its hash. -/
def bucketIndex (hash : UInt64) : Fin RATE_LIMIT_BUCKETS :=
  ⟨hash.toNat % RATE_LIMIT_BUCKETS, Nat.mod_lt _ (by decide)⟩

/-- `RateLimiters::allow`. The clock is read twice: once to start a fresh bucket,
once to take a token. -/
def allow (r : RateLimiters F) (limits : Limits F) (hash : UInt64) (started now : Instant) :
    RateLimiters F × Bool :=
  let index := bucketIndex hash
  let bucket := r.buckets index
  let bucket := if FloatArith.isNan bucket.tokens then ⟨limits.requestBurst, started⟩ else bucket
  let taken := bucket.take now limits.requestsPerIpPerSec limits.requestBurst
  (⟨Function.update r.buckets index taken.1⟩, taken.2)

end RateLimiters

end ContentDiscovery
