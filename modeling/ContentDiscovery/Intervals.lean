import Mathlib.Algebra.GroupWithZero.Nat
import Mathlib.Data.List.Induction
import Mathlib.Order.Basic
import Mathlib.Order.MinMax
import Mathlib.Order.Monotone.Basic

/-!
# Merging half-open intervals

Half-open intervals over a linear order, and the sweep that merges overlapping and
adjacent ones in a list ordered by their starts. A strictly monotone map says where
the ends lie: for an interval of machine words it is their value.

`Merged` is what a merged list satisfies: its intervals are nonempty, and ascending
with a gap between neighbours. `sweep_merged` and `covers_sweep` are the laws of the
sweep.
-/

universe u v

/-- `std::ops::Range`: the elements from `start` on, before `stop`. -/
structure HalfOpen (α : Type u) where
  /-- the first element -/
  start : α
  /-- the first element after it -/
  stop : α
  deriving DecidableEq

namespace HalfOpen

variable {α : Type u} {β : Type v} [LinearOrder β] {f : α → β} {l rs : List (HalfOpen α)}
  {r last : HalfOpen α} {x : β}

/-- The position lies in one of the intervals. -/
def Covers (f : α → β) (l : List (HalfOpen α)) (x : β) : Prop :=
  ∃ r ∈ l, f r.start ≤ x ∧ x < f r.stop

theorem covers_append {l' : List (HalfOpen α)} :
    Covers f (l ++ l') x ↔ Covers f l x ∨ Covers f l' x := by
  simp only [Covers, List.mem_append, or_and_right, exists_or]

theorem covers_singleton : Covers f [r] x ↔ f r.start ≤ x ∧ x < f r.stop := by
  simp [Covers]

@[simp] theorem not_covers_nil : ¬ Covers f [] x := by
  simp [Covers]

variable [LinearOrder α]

/-- The intervals are nonempty, and ascending with gaps. -/
structure Merged (l : List (HalfOpen α)) : Prop where
  /-- each has an element -/
  nonempty : ∀ r ∈ l, r.start < r.stop
  /-- neighbours are apart -/
  apart : l.Pairwise fun r r' => r.stop < r'.start

/-- One more interval: it extends the last one if it starts within it or right after it. -/
def extend (l : List (HalfOpen α)) (r : HalfOpen α) : List (HalfOpen α) :=
  match l.getLast? with
  | some last =>
    if r.start ≤ last.stop then l.dropLast ++ [{ last with stop := max last.stop r.stop }]
    else l ++ [r]
  | none => l ++ [r]

@[simp] theorem extend_nil : extend [] r = [r] := rfl

theorem extend_concat :
    extend (l ++ [last]) r =
      if r.start ≤ last.stop then l ++ [{ last with stop := max last.stop r.stop }]
      else l ++ [last] ++ [r] := by
  simp [extend]

/-- The sweep covers what its intervals cover. -/
theorem covers_extend (hf : StrictMono f) (hstart : ∀ r' ∈ l, r'.start ≤ r.start) :
    Covers f (extend l r) x ↔ Covers f l x ∨ f r.start ≤ x ∧ x < f r.stop := by
  rcases List.eq_nil_or_concat l with rfl | ⟨l', last, rfl⟩
  · rw [extend_nil, covers_singleton, or_iff_right not_covers_nil]
  rw [List.concat_eq_append] at hstart ⊢
  rw [extend_concat]
  split
  · rename_i hle
    rw [covers_append, covers_append, covers_singleton, covers_singleton, or_assoc]
    refine or_congr_right ?_
    have hfirst : f last.start ≤ f r.start :=
      hf.monotone (hstart last (List.mem_append_right _ (List.mem_singleton_self _)))
    have hmeet : f r.start ≤ f last.stop := hf.monotone hle
    rw [hf.monotone.map_max, lt_max_iff]
    constructor
    · rintro ⟨hx, hlt | hlt⟩
      · exact .inl ⟨hx, hlt⟩
      · rcases le_or_gt (f r.start) x with hr | hr
        · exact .inr ⟨hr, hlt⟩
        · exact .inl ⟨hx, hr.trans_le hmeet⟩
    · rintro (⟨hx, hlt⟩ | ⟨hx, hlt⟩)
      · exact ⟨hx, .inl hlt⟩
      · exact ⟨hfirst.trans hx, .inr hlt⟩
  · rw [covers_append, covers_singleton]

/-- It stays merged. -/
theorem Merged.extend (h : Merged l) (hr : r.start < r.stop)
    (hstart : ∀ r' ∈ l, r'.start ≤ r.start) : Merged (extend l r) := by
  rcases List.eq_nil_or_concat l with rfl | ⟨l', last, rfl⟩
  · exact ⟨by simpa using hr, List.pairwise_singleton _ _⟩
  rw [List.concat_eq_append] at h hstart ⊢
  obtain ⟨hnonempty, hapart⟩ := h
  rw [List.forall_mem_append, List.forall_mem_singleton] at hnonempty
  rw [List.pairwise_append] at hapart
  obtain ⟨hinit, -, hlast⟩ := hapart
  rw [extend_concat]
  split
  · refine ⟨?_, ?_⟩
    · rw [List.forall_mem_append, List.forall_mem_singleton]
      exact ⟨hnonempty.1, hnonempty.2.trans_le (le_max_left _ _)⟩
    · rw [List.pairwise_append]
      refine ⟨hinit, List.pairwise_singleton _ _, fun a ha b hb => ?_⟩
      rw [List.mem_singleton.mp hb]
      exact hlast a ha last (List.mem_singleton_self _)
  · rename_i hgap
    rw [not_le] at hgap
    refine ⟨?_, ?_⟩
    · rw [List.forall_mem_append, List.forall_mem_append, List.forall_mem_singleton,
        List.forall_mem_singleton]
      exact ⟨hnonempty, hr⟩
    · rw [List.pairwise_append, List.pairwise_append]
      refine ⟨⟨hinit, List.pairwise_singleton _ _, hlast⟩, List.pairwise_singleton _ _,
        fun a ha b hb => ?_⟩
      rw [List.mem_singleton.mp hb]
      rcases List.mem_append.mp ha with ha | ha
      · calc
          a.stop < last.start := hlast a ha last (List.mem_singleton_self _)
          _ < last.stop := hnonempty.2
          _ < r.start := hgap
      · rw [List.mem_singleton.mp ha]
        exact hgap

/-- The starts of a sweep are starts of its intervals. -/
theorem mem_extend {r' : HalfOpen α} (h : r' ∈ extend l r) :
    (r' = r ∨ ∃ r₀ ∈ l, r'.start = r₀.start) ∧
      (r'.stop = r.stop ∨ ∃ r₀ ∈ l, r'.stop = r₀.stop) := by
  have hold {r' : HalfOpen α} (h : r' ∈ l) :
      (r' = r ∨ ∃ r₀ ∈ l, r'.start = r₀.start) ∧
        (r'.stop = r.stop ∨ ∃ r₀ ∈ l, r'.stop = r₀.stop) :=
    ⟨.inr ⟨r', h, rfl⟩, .inr ⟨r', h, rfl⟩⟩
  rcases List.eq_nil_or_concat l with rfl | ⟨l', last, rfl⟩
  · obtain rfl := List.mem_singleton.mp h
    exact ⟨.inl rfl, .inl rfl⟩
  rw [List.concat_eq_append] at h hold ⊢
  have hlast : last ∈ l' ++ [last] := List.mem_append_right _ (List.mem_singleton_self _)
  rw [extend_concat] at h
  split at h
  · rcases List.mem_append.mp h with h | h
    · exact hold (List.mem_append_left _ h)
    · obtain rfl := List.mem_singleton.mp h
      refine ⟨.inr ⟨last, hlast, rfl⟩, ?_⟩
      rcases max_choice last.stop r.stop with heq | heq
      · exact .inr ⟨last, hlast, heq⟩
      · exact .inl heq
  · rcases List.mem_append.mp h with h | h
    · exact hold h
    · obtain rfl := List.mem_singleton.mp h
      exact ⟨.inl rfl, .inl rfl⟩

theorem length_extend_le : (extend l r).length ≤ l.length + 1 := by
  rcases List.eq_nil_or_concat l with rfl | ⟨l', last, rfl⟩
  · rfl
  · rw [List.concat_eq_append, extend_concat]
    split <;> simp

theorem extend_ne_nil : extend l r ≠ [] := by
  rcases List.eq_nil_or_concat l with rfl | ⟨l', last, rfl⟩
  · simp
  · rw [List.concat_eq_append, extend_concat]
    split <;> simp

/-! ## The whole sweep -/

/-- Merges the intervals of a list in its order. -/
def sweep (rs : List (HalfOpen α)) : List (HalfOpen α) := rs.foldl extend []

theorem sweep_concat : sweep (rs ++ [r]) = extend (sweep rs) r := by
  rw [sweep, List.foldl_append]
  rfl

/-- The starts and the ends of a sweep are those of its intervals. -/
theorem mem_sweep {r' : HalfOpen α} (h : r' ∈ sweep rs) :
    (∃ r₀ ∈ rs, r'.start = r₀.start) ∧ ∃ r₀ ∈ rs, r'.stop = r₀.stop := by
  induction rs using List.reverseRecOn generalizing r' with
  | nil => cases h
  | append_singleton rs r ih =>
    rw [sweep_concat] at h
    have hmono {P : HalfOpen α → Prop} (h : ∃ r₀ ∈ rs, P r₀) : ∃ r₀ ∈ rs ++ [r], P r₀ := by
      obtain ⟨r₀, hr₀, hp⟩ := h
      exact ⟨r₀, List.mem_append_left _ hr₀, hp⟩
    have hself : r ∈ rs ++ [r] := List.mem_append_right _ (List.mem_singleton_self _)
    obtain ⟨hstart, hstop⟩ := mem_extend h
    constructor
    · rcases hstart with rfl | ⟨r₁, hr₁, heq⟩
      · exact ⟨r', hself, rfl⟩
      · rw [heq]
        exact hmono (ih hr₁).1
    · rcases hstop with heq | ⟨r₁, hr₁, heq⟩
      · exact ⟨r, hself, heq⟩
      · rw [heq]
        exact hmono (ih hr₁).2

variable (hsorted : rs.Pairwise fun r r' => r.start ≤ r'.start)

include hsorted in
/-- A sweep of a list ordered by the starts covers what the list covers. -/
theorem covers_sweep (hf : StrictMono f) : Covers f (sweep rs) x ↔ Covers f rs x := by
  induction rs using List.reverseRecOn with
  | nil => rfl
  | append_singleton rs r ih =>
    rw [List.pairwise_append] at hsorted
    obtain ⟨hrs, -, hle⟩ := hsorted
    have hstart : ∀ r' ∈ sweep rs, r'.start ≤ r.start := by
      intro r' hr'
      obtain ⟨⟨r₀, hr₀, heq⟩, -⟩ := mem_sweep hr'
      rw [heq]
      exact hle r₀ hr₀ r (List.mem_singleton_self _)
    rw [sweep_concat, covers_extend hf hstart, ih hrs, covers_append, covers_singleton]

include hsorted in
/-- It is merged. -/
theorem sweep_merged (hnonempty : ∀ r ∈ rs, r.start < r.stop) : Merged (sweep rs) := by
  induction rs using List.reverseRecOn with
  | nil => exact ⟨fun _ h => (nomatch h), List.Pairwise.nil⟩
  | append_singleton rs r ih =>
    rw [List.pairwise_append] at hsorted
    obtain ⟨hrs, -, hle⟩ := hsorted
    rw [List.forall_mem_append, List.forall_mem_singleton] at hnonempty
    rw [sweep_concat]
    refine (ih hrs hnonempty.1).extend hnonempty.2 ?_
    intro r' hr'
    obtain ⟨⟨r₀, hr₀, heq⟩, -⟩ := mem_sweep hr'
    rw [heq]
    exact hle r₀ hr₀ r (List.mem_singleton_self _)

theorem length_sweep_le : (sweep rs).length ≤ rs.length := by
  induction rs using List.reverseRecOn with
  | nil => rfl
  | append_singleton rs r ih =>
    rw [sweep_concat, List.length_append, List.length_singleton]
    exact length_extend_le.trans (Nat.add_le_add_right ih 1)

theorem sweep_ne_nil (h : rs ≠ []) : sweep rs ≠ [] := by
  rcases List.eq_nil_or_concat rs with rfl | ⟨rs', r, rfl⟩
  · exact absurd rfl h
  · rw [List.concat_eq_append, sweep_concat]
    exact extend_ne_nil

/-- Merged intervals hold no more positions than the space they lie in. -/
theorem Merged.sum_le {f : α → ℕ} (h : Merged l) (hf : Monotone f) {lo hi : ℕ}
    (hlo : ∀ r ∈ l, lo ≤ f r.start) (hhi : ∀ r ∈ l, f r.stop ≤ hi) :
    (l.map fun r => f r.stop - f r.start).sum ≤ hi - lo := by
  induction l generalizing lo with
  | nil => simp
  | cons r l ih =>
    obtain ⟨hnonempty, hapart⟩ := h
    rw [List.pairwise_cons] at hapart
    rw [List.forall_mem_cons] at hnonempty hlo hhi
    have hrest : (l.map fun r => f r.stop - f r.start).sum ≤ hi - f r.stop :=
      ih ⟨hnonempty.2, hapart.2⟩ (fun r' hr' => hf (hapart.1 r' hr').le) hhi.2
    have hr : f r.start ≤ f r.stop := hf hnonempty.1.le
    simp only [List.map_cons, List.sum_cons]
    omega

end HalfOpen
