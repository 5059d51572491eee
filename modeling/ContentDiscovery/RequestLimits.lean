import ContentDiscovery.RateLimit
import ContentDiscovery.TokenBucket
import Mathlib.Algebra.Order.Field.Rat
import Mathlib.Data.Nat.Cast.Order.Ring

/-!
# What the request limiter allows

The limiter of `udp-addr-index/src/lib.rs`, with its arithmetic read as exact: each bucket of the
table is a token bucket that starts full, and the requests of the other buckets do not matter
to it (`limiter_conforms`).
-/

namespace ContentDiscovery

namespace RateLimiters

/-- A request: the hash of its address, and the two readings of the clock. -/
structure Arrival where
  /-- what `bucket_index` computes of the address -/
  hash : UInt64
  /-- the time that a fresh bucket starts at -/
  started : Instant
  /-- the time of the request -/
  now : Instant

/-- The bucket of a request. -/
def Arrival.bucket (a : Arrival) : Fin RATE_LIMIT_BUCKETS := bucketIndex a.hash

/-- A time in seconds. -/
def secs (now : Instant) : ℚ := now / 10 ^ 9

section Serve

variable {F : Type} [FloatArith F] (limits : Limits F)

/-- Requests, one after another, and whether they are allowed. -/
def serve : RateLimiters F → List Arrival → List (Arrival × Bool)
  | _, [] => []
  | r, a :: arrivals =>
    (a, (r.allow limits a.hash a.started a.now).2) ::
      serve (r.allow limits a.hash a.started a.now).1 arrivals

variable {limits} {r r' : RateLimiters F} {i : Fin RATE_LIMIT_BUCKETS} {a : Arrival}

variable (limits) in
/-- The bucket of a request is all that it depends on, and all that it changes. -/
theorem allow_congr (h : r.buckets a.bucket = r'.buckets a.bucket) :
    (r.allow limits a.hash a.started a.now).2 = (r'.allow limits a.hash a.started a.now).2 ∧
      (r.allow limits a.hash a.started a.now).1.buckets a.bucket =
        (r'.allow limits a.hash a.started a.now).1.buckets a.bucket := by
  rw [Arrival.bucket] at h
  simp only [allow, Arrival.bucket, h, Function.update_self, and_self]

theorem buckets_allow_of_ne (h : a.bucket ≠ i) :
    (r.allow limits a.hash a.started a.now).1.buckets i = r.buckets i :=
  Function.update_of_ne (Ne.symm h) _ _

/-- The requests of a bucket are answered as if there were no others. -/
theorem serve_filter (h : r.buckets i = r'.buckets i) (arrivals : List Arrival) :
    (serve limits r arrivals).filter (fun x => x.1.bucket = i) =
      serve limits r' (arrivals.filter fun a => a.bucket = i) := by
  induction arrivals generalizing r r' with
  | nil => rfl
  | cons a arrivals ih =>
    by_cases ha : a.bucket = i
    · subst ha
      obtain ⟨hallow, hbucket⟩ := allow_congr limits h
      rw [serve, List.filter_cons_of_pos (by simp), List.filter_cons_of_pos (by simp), serve,
        ih hbucket, hallow]
    · rw [serve, List.filter_cons_of_neg (by simpa using ha),
        List.filter_cons_of_neg (by simpa using ha)]
      exact ih ((buckets_allow_of_ne ha).trans h)

end Serve

/-! ## Exact arithmetic -/

section Exact

variable {rate burst : ℚ} {limits : Limits (Option ℚ)} {r : RateLimiters (Option ℚ)}
  {i : Fin RATE_LIMIT_BUCKETS} {a : Arrival} {arrivals : List Arrival}

theorem secs_le {n m : Instant} (h : n ≤ m) : secs n ≤ secs m :=
  div_le_div_of_nonneg_right (Nat.cast_le.mpr h) (by norm_num)

/-- The seconds between two times. -/
theorem asSecs_sub {n m : Instant} (h : n ≤ m) :
    (FloatArith.asSecs (m - n) : Option ℚ) = some (secs m - secs n) := by
  rw [secs, secs, ← sub_div, ← Nat.cast_sub h]
  rfl

/-- A bucket of the table, as a token bucket. -/
def IsBucket (b : Bucket (Option ℚ)) (b' : TokenBucket ℚ) : Prop :=
  b.tokens = some b'.tokens ∧ secs b.last = b'.last

variable (rate burst) in
/-- `Bucket::take` is a request to a token bucket. -/
theorem take_isBucket {b : Bucket (Option ℚ)} {b' : TokenBucket ℚ} (h : IsBucket b b')
    {now : Instant} (hnow : b.last ≤ now) :
    (b.take now (some rate) (some burst)).2 = (b'.take rate burst (secs now)).2 ∧
      IsBucket (b.take now (some rate) (some burst)).1 (b'.take rate burst (secs now)).1 := by
  obtain ⟨htokens, hlast⟩ := h
  have hrefill : FloatArith.min (FloatArith.add b.tokens
      (FloatArith.mul (FloatArith.asSecs (now - b.last)) (some rate))) (some burst)
        = some (b'.refill rate burst (secs now)) := by
    rw [asSecs_sub hnow, htokens, hlast]
    rfl
  rw [Bucket.take]
  simp only [hrefill]
  rw [TokenBucket.take]
  by_cases hlt : b'.refill rate burst (secs now) < 1
  · have hlt' : FloatArith.lt (some (b'.refill rate burst (secs now))) FloatArith.one = true :=
      decide_eq_true hlt
    rw [if_pos hlt', if_pos hlt]
    exact ⟨rfl, rfl, rfl⟩
  · have hlt' : ¬ FloatArith.lt (some (b'.refill rate burst (secs now))) FloatArith.one = true :=
      fun h => hlt (of_decide_eq_true h)
    rw [if_neg hlt', if_neg hlt]
    exact ⟨rfl, rfl, rfl⟩

/-- It does not matter when a full bucket was filled. -/
theorem take_full (hrate : 0 ≤ rate) (started now : Instant) :
    Bucket.take ⟨some burst, started⟩ now (some rate) (some burst)
      = Bucket.take ⟨some burst, now⟩ now (some rate) (some burst) := by
  have hrefill : ∀ n : ℕ, FloatArith.min (FloatArith.add (some burst)
      (FloatArith.mul (FloatArith.asSecs n) (some rate))) (some burst) = some burst := by
    intro n
    have hadded : 0 ≤ (n / 10 ^ 9 : ℚ) * rate :=
      mul_nonneg (div_nonneg (Nat.cast_nonneg n) (by norm_num)) hrate
    have hmin : (if burst + (n / 10 ^ 9 : ℚ) * rate ≤ burst
        then burst + (n / 10 ^ 9 : ℚ) * rate else burst) = burst := by
      split
      · linarith
      · rfl
    exact congrArg some hmin
  simp only [Bucket.take, hrefill]

/-- The requests of one bucket, as those of a token bucket. -/
theorem serve_isBucket {b : TokenBucket ℚ} (hrates : limits.requestsPerIpPerSec = some rate)
    (hbursts : limits.requestBurst = some burst) (hb : IsBucket (r.buckets i) b)
    (hin : ∀ a ∈ arrivals, a.bucket = i) (hlast : ∀ a ∈ arrivals, (r.buckets i).last ≤ a.now)
    (hsorted : (arrivals.map Arrival.now).Pairwise (· ≤ ·)) :
    (serve limits r arrivals).map (fun x => (secs x.1.now, x.2))
      = b.serve rate burst (arrivals.map fun a => secs a.now) := by
  induction arrivals generalizing r b with
  | nil => rfl
  | cons a arrivals ih =>
    rw [List.forall_mem_cons] at hin hlast
    rw [List.map_cons, List.pairwise_cons, List.forall_mem_map] at hsorted
    obtain ⟨rfl, hin⟩ := hin
    have hused : ¬ FloatArith.isNan (r.buckets a.bucket).tokens = true := by
      rw [hb.1]
      exact Bool.false_ne_true
    have hallow : (r.allow limits a.hash a.started a.now).1.buckets a.bucket
          = ((r.buckets a.bucket).take a.now (some rate) (some burst)).1 ∧
        (r.allow limits a.hash a.started a.now).2
          = ((r.buckets a.bucket).take a.now (some rate) (some burst)).2 := by
      rw [Arrival.bucket] at hused ⊢
      simp only [allow, if_neg hused, hrates, hbursts, Function.update_self, and_self]
    obtain ⟨hbucket, hallow⟩ := hallow
    obtain ⟨htaken, hnext⟩ := take_isBucket rate burst hb hlast.1
    have hnow : ((r.buckets a.bucket).take a.now (some rate) (some burst)).1.last = a.now := by
      rw [Bucket.take]
      split <;> rfl
    rw [serve, List.map_cons, List.map_cons, TokenBucket.serve, hallow, htaken]
    congr 1
    refine ih ?_ hin ?_ hsorted.2
    · rw [hbucket]
      exact hnext
    · rw [hbucket, hnow]
      exact hsorted.1

/-- So are the requests of a bucket that was never used: it starts full. -/
theorem serve_fresh (hrate : 0 ≤ rate) (hrates : limits.requestsPerIpPerSec = some rate)
    (hbursts : limits.requestBurst = some burst) (hfresh : (r.buckets i).tokens = FloatArith.nan)
    (hin : ∀ a ∈ arrivals, a.bucket = i)
    (hsorted : (arrivals.map Arrival.now).Pairwise (· ≤ ·)) :
    ∃ start, (∀ a ∈ arrivals, start ≤ secs a.now) ∧
      (serve limits r arrivals).map (fun x => (secs x.1.now, x.2))
        = TokenBucket.serve rate burst ⟨burst, start⟩ (arrivals.map fun a => secs a.now) := by
  cases arrivals with
  | nil => exact ⟨0, fun _ ha => absurd ha List.not_mem_nil, rfl⟩
  | cons a arrivals =>
    -- the first request is answered as by a bucket that was filled just now
    let filled : RateLimiters (Option ℚ) :=
      ⟨Function.update r.buckets i ⟨some burst, a.now⟩⟩
    have hfilled : filled.buckets i = ⟨some burst, a.now⟩ := Function.update_self ..
    obtain ⟨hfirst, hrest⟩ := List.forall_mem_cons.mp hin
    rw [List.map_cons, List.pairwise_cons, List.forall_mem_map] at hsorted
    have hle : ∀ a' ∈ a :: arrivals, a.now ≤ a'.now :=
      List.forall_mem_cons.mpr ⟨le_rfl, hsorted.1⟩
    have hallow : r.allow limits a.hash a.started a.now
        = filled.allow limits a.hash a.started a.now := by
      subst hfirst
      have hnan : FloatArith.isNan (r.buckets a.bucket).tokens = true := by
        rw [hfresh]
        rfl
      have hused : ¬ FloatArith.isNan (some burst) = true := Bool.false_ne_true
      rw [Arrival.bucket] at hnan hfilled
      simp only [allow, if_pos hnan, if_neg hused, hfilled, hrates, hbursts,
        take_full hrate a.started]
      simp only [filled, Arrival.bucket, Function.update_idem]
    refine ⟨secs a.now, fun a' ha' => secs_le (hle a' ha'), ?_⟩
    rw [serve, hallow, ← serve]
    refine serve_isBucket hrates hbursts ?_ hin ?_ ?_
    · rw [hfilled]
      exact ⟨rfl, rfl⟩
    · rw [hfilled]
      exact hle
    · rw [List.map_cons, List.pairwise_cons, List.forall_mem_map]
      exact hsorted

/-- The requests of a bucket that are allowed, in seconds. -/
def allowedIn (i : Fin RATE_LIMIT_BUCKETS) (outcomes : List (Arrival × Bool)) : List ℚ :=
  (outcomes.filter fun x => x.1.bucket = i ∧ x.2).map fun x => secs x.1.now

/-- The limiter conforms to its limits: a bucket that was never used allows, in any window of
time, `burst` requests and what the rate adds, and refuses nothing as long as the requests are no
more than that. The requests of other buckets do not matter. -/
theorem limiter_conforms (hrate : 0 ≤ rate) (hburst : 1 ≤ burst)
    (hrates : limits.requestsPerIpPerSec = some rate) (hbursts : limits.requestBurst = some burst)
    (hfresh : (r.buckets i).tokens = FloatArith.nan)
    (hsorted : ((arrivals.filter fun a => a.bucket = i).map Arrival.now).Pairwise (· ≤ ·)) :
    TokenBucket.Conforms rate burst (allowedIn i (serve limits r arrivals)) ∧
      (TokenBucket.Conforms rate burst
          ((arrivals.filter fun a => a.bucket = i).map fun a => secs a.now) →
        ∀ x ∈ serve limits r arrivals, x.1.bucket = i → x.2 = true) ∧
      (serve limits r arrivals).filter (fun x => x.1.bucket = i)
        = serve limits r (arrivals.filter fun a => a.bucket = i) := by
  have hfilter : (serve limits r arrivals).filter (fun x => x.1.bucket = i) =
      serve limits r (arrivals.filter fun a => a.bucket = i) :=
    serve_filter rfl arrivals
  generalize hmine : (arrivals.filter fun a => a.bucket = i) = mine at hsorted hfilter ⊢
  have hin : ∀ a ∈ mine, a.bucket = i := by
    intro a ha
    rw [← hmine, List.mem_filter] at ha
    exact of_decide_eq_true ha.2
  obtain ⟨start, hstart, hserve⟩ := serve_fresh hrate hrates hbursts hfresh hin hsorted
  have hlast : ∀ x ∈ mine.map fun a => secs a.now, start ≤ x := List.forall_mem_map.mpr hstart
  have hordered : (mine.map fun a => secs a.now).Pairwise (· ≤ ·) := by
    rw [List.pairwise_map] at hsorted ⊢
    exact hsorted.imp secs_le
  refine ⟨?_, ?_, hfilter⟩
  · have hconforms := (TokenBucket.spent_full (zero_le_one.trans hburst) hrate start).conforms_serve
      hrate hlast hordered
    have hallowed : allowedIn i (serve limits r arrivals)
        = TokenBucket.allowed ((serve limits r mine).map fun x => (secs x.1.now, x.2)) := by
      rw [← hfilter, allowedIn, TokenBucket.allowed, List.filter_map, List.map_map,
        List.filter_filter]
      congr 2
      funext x
      simp [and_comm]
    rw [hallowed, hserve]
    exact hconforms
  · intro hconforms x hx hbucket
    have hall := (TokenBucket.unspent_full start).serve hlast hordered hconforms
    rw [← hserve] at hall
    have hmem : x ∈ serve limits r mine := by
      rw [← hfilter, List.mem_filter]
      exact ⟨hx, decide_eq_true hbucket⟩
    exact hall _ (List.mem_map_of_mem hmem)

end Exact

namespace Sample

/-- Two tokens, and one more each second. -/
def limits : Limits (Option ℚ) :=
  { Limits.default with requestsPerIpPerSec := some 1, requestBurst := some 2 }

/-- Three requests at once, with another one for another bucket, and one a second later. -/
def arrivals : List Arrival :=
  [⟨0, 0, 0⟩, ⟨1, 9, 9⟩, ⟨0, 0, 0⟩, ⟨0, 0, 0⟩, ⟨0, 0, 10 ^ 9⟩]

end Sample

/-- The third request at once is one too many. -/
theorem limiter_conforms_sample :
    TokenBucket.Conforms 1 2
        (allowedIn (bucketIndex 0) (serve Sample.limits (new 0) Sample.arrivals)) ∧
      (serve Sample.limits (new 0) Sample.arrivals).map Prod.snd
        = [true, true, true, false, true] := by
  refine ⟨(limiter_conforms zero_le_one one_le_two rfl rfl rfl ?_).1, by decide +kernel⟩
  decide +kernel

end RateLimiters

end ContentDiscovery
