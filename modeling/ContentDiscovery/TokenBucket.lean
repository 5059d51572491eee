import Mathlib.Algebra.Order.Field.Basic
import Mathlib.Data.List.Basic
import Mathlib.Tactic.Linarith
import Mathlib.Tactic.Ring

/-!
# Token buckets

A bucket holds at most `burst` tokens and gains `rate` of them in a unit of time. A request takes
a token, or is refused if there is not a whole one. What a bucket is for is that no window of
time has more than `burst` requests and what the rate adds in it (`Conforms`): what a bucket
allows conforms, and of requests that conform it refuses none.
-/

/-- A bucket. -/
structure TokenBucket (𝕜 : Type) where
  /-- the tokens left -/
  tokens : 𝕜
  /-- when they were last counted -/
  last : 𝕜

namespace TokenBucket

section Windows

variable {𝕜 : Type} [LinearOrder 𝕜] {times : List 𝕜} {s t : 𝕜}

/-- How many of the times are from `s` to `t`. -/
def countIn (times : List 𝕜) (s t : 𝕜) : ℕ := times.countP fun x => s ≤ x ∧ x ≤ t

theorem countIn_append (xs ys : List 𝕜) :
    countIn (xs ++ ys) s t = countIn xs s t + countIn ys s t :=
  List.countP_append

theorem countIn_singleton {x : 𝕜} : countIn [x] s t = if s ≤ x ∧ x ≤ t then 1 else 0 := by
  rw [countIn, List.countP_singleton]
  simp

/-- A window up to the last time has all that are not before it. -/
theorem countIn_eq (h : ∀ x ∈ times, x ≤ t) : countIn times s t = times.countP (s ≤ ·) := by
  refine List.countP_congr fun x hx => ?_
  simp [h x hx]

/-- A window after the last time has none. -/
theorem countP_eq_zero (h : ∀ x ∈ times, x < s) : times.countP (s ≤ ·) = 0 :=
  List.countP_eq_zero.mpr fun x hx => by simpa using h x hx

end Windows

variable {𝕜 : Type} [Field 𝕜] [LinearOrder 𝕜]

/-- No window has more of the times than `burst` and what the rate adds. -/
def Conforms (rate burst : 𝕜) (times : List 𝕜) : Prop :=
  ∀ s t, s ≤ t → (countIn times s t : 𝕜) ≤ burst + rate * (t - s)

/-- Fewer times conform, if more do. -/
theorem Conforms.sublist [IsStrictOrderedRing 𝕜] {rate burst : 𝕜} {xs ys : List 𝕜}
    (h : Conforms rate burst ys) (hsub : xs.Sublist ys) : Conforms rate burst xs := by
  intro s t hst
  have hle : countIn xs s t ≤ countIn ys s t := hsub.countP_le
  exact (Nat.cast_le.mpr hle).trans (h s t hst)

variable (rate burst : 𝕜)

/-- The tokens at a time. -/
def refill (b : TokenBucket 𝕜) (now : 𝕜) : 𝕜 := min (b.tokens + (now - b.last) * rate) burst

/-- A request. -/
def take (b : TokenBucket 𝕜) (now : 𝕜) : TokenBucket 𝕜 × Bool :=
  if b.refill rate burst now < 1 then (⟨b.refill rate burst now, now⟩, false)
  else (⟨b.refill rate burst now - 1, now⟩, true)

/-- Requests, one after another: their times, and whether they are allowed. -/
def serve : TokenBucket 𝕜 → List 𝕜 → List (𝕜 × Bool)
  | _, [] => []
  | b, now :: times => (now, (b.take rate burst now).2) :: serve (b.take rate burst now).1 times

/-- The times of the requests that are allowed. -/
def allowed (outcomes : List (𝕜 × Bool)) : List 𝕜 := (outcomes.filter Prod.snd).map Prod.fst

variable {rate burst} {b : TokenBucket 𝕜} {now : 𝕜} {past times : List 𝕜}

theorem last_take : (b.take rate burst now).1.last = now := by
  rw [take]
  split <;> rfl

variable [IsStrictOrderedRing 𝕜]

/-! ## What is allowed -/

/-- What a bucket has left after the requests that it allowed: whatever window they are seen
in, they and the tokens left are no more than is due. -/
structure Spent (rate burst : 𝕜) (b : TokenBucket 𝕜) (past : List 𝕜) : Prop where
  nonneg : 0 ≤ b.tokens
  le_burst : b.tokens ≤ burst
  past_le : ∀ x ∈ past, x ≤ b.last
  left : ∀ s ≤ b.last,
    (past.countP (s ≤ ·) : 𝕜) + b.tokens ≤ burst + rate * (b.last - s)
  conforms : Conforms rate burst past

/-- The tokens that are there when a request comes are no more than is due. -/
theorem Spent.refill_le (h : Spent rate burst b past) (hrate : 0 ≤ rate) {s : 𝕜} (hs : s ≤ now) :
    (past.countP (s ≤ ·) : 𝕜) + b.refill rate burst now ≤ burst + rate * (now - s) := by
  by_cases hlast : s ≤ b.last
  · have hleft := h.left s hlast
    have hmin : b.refill rate burst now ≤ b.tokens + (now - b.last) * rate := min_le_left _ _
    have hsum : rate * (b.last - s) + (now - b.last) * rate = rate * (now - s) := by ring
    linarith
  · -- the window begins after all of them
    have hzero : past.countP (s ≤ ·) = 0 :=
      countP_eq_zero fun x hx => (h.past_le x hx).trans_lt (not_le.mp hlast)
    have hmin : b.refill rate burst now ≤ burst := min_le_right _ _
    have hwindow : 0 ≤ rate * (now - s) := mul_nonneg hrate (sub_nonneg.mpr hs)
    rw [hzero, Nat.cast_zero]
    linarith

theorem Spent.refill_nonneg (h : Spent rate burst b past) (hrate : 0 ≤ rate)
    (hnow : b.last ≤ now) : 0 ≤ b.refill rate burst now :=
  le_min (add_nonneg h.nonneg (mul_nonneg (sub_nonneg.mpr hnow) hrate))
    (h.nonneg.trans h.le_burst)

/-- A request is allowed out of what is due. -/
theorem Spent.take (h : Spent rate burst b past) (hrate : 0 ≤ rate) (hnow : b.last ≤ now) :
    Spent rate burst (b.take rate burst now).1
      (past ++ if (b.take rate burst now).2 then [now] else []) := by
  have hpast : ∀ x ∈ past, x ≤ now := fun x hx => (h.past_le x hx).trans hnow
  rw [TokenBucket.take]
  split
  · -- it is refused
    rw [if_neg Bool.false_ne_true, List.append_nil]
    exact ⟨h.refill_nonneg hrate hnow, min_le_right _ _, hpast,
      fun s hs => h.refill_le hrate hs, h.conforms⟩
  · rename_i hone
    rw [not_lt] at hone
    rw [if_pos rfl]
    have hleft : ∀ s ≤ now, ((past ++ [now]).countP (s ≤ ·) : 𝕜) +
        (b.refill rate burst now - 1) ≤ burst + rate * (now - s) := by
      intro s hs
      have hdue := h.refill_le hrate hs
      rw [List.countP_append, List.countP_singleton, if_pos (by simpa using hs), Nat.cast_add,
        Nat.cast_one]
      linarith
    refine ⟨sub_nonneg.mpr hone, ?_, ?_, hleft, ?_⟩
    · have hmin : b.refill rate burst now ≤ burst := min_le_right _ _
      exact (sub_le_self _ zero_le_one).trans hmin
    · intro x hx
      obtain hx | hx := List.mem_append.mp hx
      · exact hpast x hx
      · exact (List.mem_singleton.mp hx).le
    · intro s t hst
      by_cases hin : s ≤ now ∧ now ≤ t
      · -- a window with the request has nothing after it
        have hall : ∀ x ∈ past ++ [now], x ≤ t := by
          intro x hx
          obtain hx | hx := List.mem_append.mp hx
          · exact (hpast x hx).trans hin.2
          · exact (List.mem_singleton.mp hx).le.trans hin.2
        rw [countIn_eq hall]
        have hdue := hleft s hin.1
        have hlonger : rate * (now - s) ≤ rate * (t - s) :=
          mul_le_mul_of_nonneg_left (sub_le_sub_right hin.2 s) hrate
        linarith
      · rw [countIn_append, countIn_singleton, if_neg hin, Nat.add_zero]
        exact h.conforms s t hst

/-- What a bucket allows conforms. -/
theorem Spent.conforms_serve (h : Spent rate burst b past) (hrate : 0 ≤ rate)
    (hlast : ∀ x ∈ times, b.last ≤ x) (hsorted : times.Pairwise (· ≤ ·)) :
    Conforms rate burst (past ++ allowed (b.serve rate burst times)) := by
  induction times generalizing b past with
  | nil =>
    rw [serve, allowed, List.filter_nil, List.map_nil, List.append_nil]
    exact h.conforms
  | cons now times ih =>
    rw [List.forall_mem_cons] at hlast
    rw [List.pairwise_cons] at hsorted
    have hrest := ih (h.take hrate hlast.1) (by rw [last_take]; exact hsorted.1) hsorted.2
    have hallowed : past ++ allowed (b.serve rate burst (now :: times)) =
        (past ++ if (b.take rate burst now).2 then [now] else []) ++
          allowed ((b.take rate burst now).1.serve rate burst times) := by
      rw [serve, allowed, List.filter_cons]
      cases (b.take rate burst now).2 with
      | true => simp [allowed]
      | false => simp [allowed]
    rw [hallowed]
    exact hrest

/-! ## What is refused -/

/-- What a bucket has left after requests that were all allowed: there is a window in which
they and the tokens left are all that is due. -/
structure Unspent (rate burst : 𝕜) (b : TokenBucket 𝕜) (past : List 𝕜) : Prop where
  past_le : ∀ x ∈ past, x ≤ b.last
  left : ∃ s ≤ b.last, burst + rate * (b.last - s) ≤ past.countP (s ≤ ·) + b.tokens

/-- The tokens that are there when a request comes are all that is due in some window. -/
theorem Unspent.le_refill (h : Unspent rate burst b past) (hnow : b.last ≤ now) :
    ∃ s ≤ now, burst + rate * (now - s) ≤ past.countP (s ≤ ·) + b.refill rate burst now := by
  obtain ⟨s, hs, hleft⟩ := h.left
  rcases min_choice (b.tokens + (now - b.last) * rate) burst with hmin | hmin
  · refine ⟨s, hs.trans hnow, ?_⟩
    have hsum : rate * (b.last - s) + (now - b.last) * rate = rate * (now - s) := by ring
    rw [refill, hmin]
    linarith
  · -- the bucket is full
    refine ⟨now, le_rfl, ?_⟩
    have hcount : (0 : 𝕜) ≤ past.countP (now ≤ ·) := Nat.cast_nonneg _
    rw [refill, hmin, sub_self, mul_zero]
    linarith

/-- A request is allowed if it conforms together with the ones before. -/
theorem Unspent.take (h : Unspent rate burst b past) (hnow : b.last ≤ now)
    (hconforms : Conforms rate burst (past ++ [now])) :
    (b.take rate burst now).2 = true ∧
      Unspent rate burst (b.take rate burst now).1 (past ++ [now]) := by
  obtain ⟨s, hs, hleft⟩ := h.le_refill hnow
  have hall : ∀ x ∈ past ++ [now], x ≤ now := by
    intro x hx
    obtain hx | hx := List.mem_append.mp hx
    · exact (h.past_le x hx).trans hnow
    · exact (List.mem_singleton.mp hx).le
  have hcount : (past ++ [now]).countP (s ≤ ·) = past.countP (s ≤ ·) + 1 := by
    rw [List.countP_append, List.countP_singleton, if_pos (by simpa using hs)]
  have hwindow := hconforms s now hs
  rw [countIn_eq hall, hcount, Nat.cast_add, Nat.cast_one] at hwindow
  have hone : ¬ b.refill rate burst now < 1 := by
    intro hlt
    linarith
  rw [TokenBucket.take, if_neg hone]
  refine ⟨rfl, hall, s, hs, ?_⟩
  rw [hcount, Nat.cast_add, Nat.cast_one]
  linarith

/-- Requests that conform are all allowed. -/
theorem Unspent.serve (h : Unspent rate burst b past) (hlast : ∀ x ∈ times, b.last ≤ x)
    (hsorted : times.Pairwise (· ≤ ·)) (hconforms : Conforms rate burst (past ++ times)) :
    ∀ x ∈ b.serve rate burst times, x.2 = true := by
  induction times generalizing b past with
  | nil => exact fun x hx => absurd hx List.not_mem_nil
  | cons now times ih =>
    rw [List.forall_mem_cons] at hlast
    rw [List.pairwise_cons] at hsorted
    have hfirst : Conforms rate burst (past ++ [now]) :=
      hconforms.sublist ((List.Sublist.refl past).append (List.singleton_sublist.mpr
        List.mem_cons_self))
    obtain ⟨htaken, hrest⟩ := h.take hlast.1 hfirst
    rw [List.append_cons] at hconforms
    have hlater := ih hrest (by rw [last_take]; exact hsorted.1) hsorted.2 hconforms
    rw [TokenBucket.serve]
    exact List.forall_mem_cons.mpr ⟨htaken, hlater⟩

/-! ## A full bucket -/

theorem spent_full (hburst : 0 ≤ burst) (hrate : 0 ≤ rate) (start : 𝕜) :
    Spent rate burst ⟨burst, start⟩ [] where
  nonneg := hburst
  le_burst := le_rfl
  past_le _ hx := absurd hx List.not_mem_nil
  left s hs := by
    have hwindow : 0 ≤ rate * (start - s) := mul_nonneg hrate (sub_nonneg.mpr hs)
    rw [List.countP_nil, Nat.cast_zero]
    linarith
  conforms s t hst := by
    have hwindow : 0 ≤ rate * (t - s) := mul_nonneg hrate (sub_nonneg.mpr hst)
    rw [countIn, List.countP_nil, Nat.cast_zero]
    linarith

omit [IsStrictOrderedRing 𝕜] in
theorem unspent_full (start : 𝕜) : Unspent rate burst ⟨burst, start⟩ [] where
  past_le _ hx := absurd hx List.not_mem_nil
  left := ⟨start, le_rfl, by simp⟩

end TokenBucket
