import ContentDiscovery.TokenBucket
import Mathlib.Data.Finset.Card
import Mathlib.Data.Finset.Insert
import Mathlib.Logic.Function.Basic

/-!
# Gaps and permits

What keeps tasks from going ahead all at once: a gap between one start and the next, and a number
of permits. Times with a gap between them are few in every window (`Spaced.countIn_le`). The
permits of a semaphore that are not available are with those who hold one (`Permits`), whatever
they do with them.
-/

/-! ## Gaps -/

/-- Each time is at least `gap` before the later ones. -/
def Spaced (gap : ℕ) (times : List ℕ) : Prop := times.Pairwise fun a b => a + gap ≤ b

namespace Spaced

open TokenBucket (countIn)

variable {gap s t x : ℕ} {times : List ℕ}

theorem nil : Spaced gap [] := List.Pairwise.nil

/-- Another time, a gap after all others. -/
theorem concat (h : Spaced gap times) (hx : ∀ a ∈ times, a + gap ≤ x) :
    Spaced gap (times ++ [x]) := by
  refine List.pairwise_append.mpr ⟨h, List.pairwise_singleton _ _, fun a ha b hb => ?_⟩
  rw [List.mem_singleton.mp hb]
  exact hx a ha

theorem sublist {times' : List ℕ} (h : Spaced gap times) (hsub : times'.Sublist times) :
    Spaced gap times' :=
  List.Pairwise.sublist hsub h

/-- Times within a window are no more than there are gaps in it, and one. -/
theorem length_le (hgap : 0 < gap) (h : Spaced gap times) (hin : ∀ x ∈ times, s ≤ x ∧ x ≤ t) :
    times.length ≤ (t - s) / gap + 1 := by
  induction times generalizing s with
  | nil => exact Nat.zero_le _
  | cons a times ih =>
    obtain ⟨hfirst, hrest⟩ := List.pairwise_cons.mp h
    obtain ⟨⟨hsa, hat⟩, htimes⟩ := List.forall_mem_cons.mp hin
    cases times with
    | nil => exact Nat.succ_le_succ (Nat.zero_le _)
    | cons b times =>
      have hlength := ih hrest fun x hx => ⟨hfirst x hx, (htimes x hx).2⟩
      -- the window after the first gap
      have hlt : a + gap ≤ t := (hfirst b List.mem_cons_self).trans (htimes b List.mem_cons_self).2
      have hcut : (t - (a + gap)) / gap + 1 ≤ (t - s) / gap := by
        rw [← Nat.add_div_right _ hgap]
        exact Nat.div_le_div_right (by omega)
      rw [List.length_cons]
      omega

/-- No window has more of the times than there are gaps in it, and one. -/
theorem countIn_le (hgap : 0 < gap) (h : Spaced gap times) (s t : ℕ) :
    countIn times s t ≤ (t - s) / gap + 1 := by
  rw [countIn, List.countP_eq_length_filter]
  refine length_le hgap (h.sublist List.filter_sublist) fun x hx => ?_
  exact of_decide_eq_true (List.mem_filter.mp hx).2

end Spaced

/-! ## Permits -/

/-- Of the permits of a semaphore, those that are not available are with the holders, who have
one each. -/
def Permits {ι : Type} (total available : ℕ) (holds : ι → Prop) : Prop :=
  ∃ holders : Finset ι, (∀ i, i ∈ holders ↔ holds i) ∧ available + holders.card = total

namespace Permits

variable {ι : Type} {total available : ℕ} {holds : ι → Prop}

/-- Nobody has one. -/
theorem all (h : ∀ i, ¬ holds i) : Permits total total holds :=
  ⟨∅, fun i => iff_of_false (Finset.notMem_empty i) (h i), rfl⟩

/-- Whoever has one keeps it. -/
theorem congr {holds' : ι → Prop} (h : Permits total available holds)
    (heq : ∀ i, holds' i ↔ holds i) : Permits total available holds' := by
  obtain ⟨holders, hmem, hcard⟩ := h
  exact ⟨holders, fun i => (hmem i).trans (heq i).symm, hcard⟩

/-- No more have one than there are. -/
theorem card_le (h : Permits total available holds) {group : Finset ι}
    (hgroup : ∀ i ∈ group, holds i) : group.card ≤ total := by
  obtain ⟨holders, hmem, hcard⟩ := h
  have hsub : group.card ≤ holders.card :=
    Finset.card_le_card fun i hi => (hmem i).mpr (hgroup i hi)
  omega

/-- If none is available, as many have one as there are. -/
theorem exhausted (h : Permits total 0 holds) :
    ∃ group : Finset ι, group.card = total ∧ ∀ i ∈ group, holds i := by
  obtain ⟨holders, hmem, hcard⟩ := h
  exact ⟨holders, by rw [← hcard, Nat.zero_add], fun i hi => (hmem i).mp hi⟩

variable [DecidableEq ι] {i : ι} {σ : Type} {state : ι → σ} {P : σ → Prop} {x : σ}

/-- One is acquired. -/
theorem acquire (h : Permits total available fun j => P (state j)) (hpos : 0 < available)
    (hi : ¬ P (state i)) (hx : P x) :
    Permits total (available - 1) fun j => P (Function.update state i x j) := by
  obtain ⟨holders, hmem, hcard⟩ := h
  have hnot : i ∉ holders := fun hin => hi ((hmem i).mp hin)
  refine ⟨insert i holders, fun j => ?_, ?_⟩
  · rw [Finset.mem_insert, hmem]
    by_cases hj : j = i
    · subst hj
      simp only [Function.update_self, hx, true_or]
    · simp only [Function.update_of_ne hj, hj, false_or]
  · rw [Finset.card_insert_of_notMem hnot]
    omega

/-- One is released. -/
theorem release (h : Permits total available fun j => P (state j)) (hi : P (state i))
    (hx : ¬ P x) : Permits total (available + 1) fun j => P (Function.update state i x j) := by
  obtain ⟨holders, hmem, hcard⟩ := h
  have hin : i ∈ holders := (hmem i).mpr hi
  refine ⟨holders.erase i, fun j => ?_, ?_⟩
  · rw [Finset.mem_erase, hmem]
    by_cases hj : j = i
    · subst hj
      simp only [Function.update_self, hx, ne_eq, not_true_eq_false, false_and]
    · simp only [Function.update_of_ne hj, ne_eq, hj, not_false_eq_true, true_and]
  · have hpos := Finset.card_pos.mpr ⟨i, hin⟩
    rw [Finset.card_erase_of_mem hin]
    omega

/-- One who has one goes on with it, or one who has none without. -/
theorem move (h : Permits total available fun j => P (state j)) (hx : P x ↔ P (state i)) :
    Permits total available fun j => P (Function.update state i x j) := by
  refine h.congr fun j => ?_
  by_cases hj : j = i
  · subst hj
    rw [Function.update_self]
    exact hx
  · rw [Function.update_of_ne hj]

end Permits
