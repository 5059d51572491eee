import ContentDiscovery.Discovery
import Mathlib.Data.Finset.Lattice.Fold
import Mathlib.Data.Int.ConditionallyCompleteOrder
import Mathlib.Data.List.Lex
import Mathlib.Data.Prod.Lex
import Mathlib.Order.WithBot

/-!
# Accepting signed lists

`DiscoveryState::accept` of `iroh-mainline-endpoint-discovery/src/addr_index.rs`, over any
sequence of items. Items that count are compared by their sequence and value; what is held
after a sequence is the greatest of them, so neither their order nor repetitions matter.
-/

namespace ContentDiscovery

/-- What signed lists are compared by: the sequence, then the value. -/
abbrev Version : Type := ℤ ×ₗ List UInt8

/-- The version of an item. -/
def MutableItem.version (item : MutableItem) : Version := toLex (item.seq, item.value)

/-- The version of the held list, if there is one. -/
def DiscoveryState.held (state : DiscoveryState) : WithBot Version :=
  match state.signed with
  | none => ⊥
  | some item => item.version

namespace Discovery

variable {Name : Type} [BEq Name] {dns : Dns Name} {z : Z32} {state : DiscoveryState}
  {item : MutableItem} {items items' : List MutableItem}

theorem newer_iff {new old : MutableItem} : Newer new old ↔ old.version < new.version := by
  rw [Newer, MutableItem.version, MutableItem.version, Prod.Lex.toLex_lt_toLex]

/-- An item that counts is held if it is greater than the one before. -/
theorem held_accept (h : Acceptable dns z item) :
    (accept dns z state item).held = max state.held item.version := by
  rw [accept_of h]
  cases hsigned : state.signed with
  | none =>
    rw [if_pos (by simp), DiscoveryState.held, DiscoveryState.held, hsigned]
    exact (max_eq_right bot_le).symm
  | some old =>
    have hheld : state.held = old.version := by rw [DiscoveryState.held, hsigned]
    rw [hheld]
    by_cases hnewer : Newer item old
    · rw [if_pos (by simpa using hnewer)]
      have hlt := newer_iff.mp hnewer
      exact (max_eq_right (WithBot.coe_le_coe.mpr hlt.le)).symm
    · rw [if_neg (by simpa using hnewer), hheld]
      have hle := not_lt.mp fun hlt => hnewer (newer_iff.mpr hlt)
      exact (max_eq_left (WithBot.coe_le_coe.mpr hle)).symm

/-- A step never goes back. -/
theorem held_le_accept : state.held ≤ (accept dns z state item).held := by
  by_cases h : Acceptable dns z item
  · rw [held_accept h]
    exact le_max_left _ _
  · rw [accept_of_not h]

variable (dns z) in
/-- What is held, or counts among the items. -/
def versions (state : DiscoveryState) (items : List MutableItem) : Set (WithBot Version) :=
  insert state.held {v | ∃ item ∈ items, Acceptable dns z item ∧ v = item.version}

/-- The versions after one more item, whatever comes of it. -/
theorem isGreatest_versions_cons {v : WithBot Version}
    (h : IsGreatest (versions dns z (accept dns z state item) items) v) :
    IsGreatest (versions dns z state (item :: items)) v := by
  obtain ⟨hmem, hupper⟩ := h
  by_cases haccept : Acceptable dns z item
  · rw [versions, held_accept haccept] at hmem hupper
    refine ⟨?_, ?_⟩
    · obtain rfl | ⟨other, hother, hcounts, rfl⟩ := hmem
      · obtain hmax | hmax := max_choice state.held (item.version : WithBot Version)
        · exact .inl hmax
        · exact .inr ⟨item, List.mem_cons_self, haccept, hmax⟩
      · exact .inr ⟨other, List.mem_cons_of_mem _ hother, hcounts, rfl⟩
    · have hfirst := max_le_iff.mp (hupper (Set.mem_insert _ _))
      rintro w (rfl | ⟨other, hother, hcounts, rfl⟩)
      · exact hfirst.1
      · obtain rfl | hother := List.mem_cons.mp hother
        · exact hfirst.2
        · exact hupper (.inr ⟨other, hother, hcounts, rfl⟩)
  · rw [accept_of_not haccept] at hmem hupper
    refine ⟨?_, ?_⟩
    · obtain rfl | ⟨other, hother, hcounts, rfl⟩ := hmem
      · exact .inl rfl
      · exact .inr ⟨other, List.mem_cons_of_mem _ hother, hcounts, rfl⟩
    · rintro w (rfl | ⟨other, hother, hcounts, rfl⟩)
      · exact hupper (Set.mem_insert _ _)
      · obtain rfl | hother := List.mem_cons.mp hother
        · exact absurd hcounts haccept
        · exact hupper (.inr ⟨other, hother, hcounts, rfl⟩)

/-- What is held in the end is the greatest of all. -/
theorem isGreatest_held :
    IsGreatest (versions dns z state items) (items.foldl (accept dns z) state).held := by
  induction items generalizing state with
  | nil =>
    refine ⟨.inl rfl, ?_⟩
    rintro w (rfl | ⟨other, hother, -⟩)
    · exact le_rfl
    · cases hother
  | cons item items ih => exact isGreatest_versions_cons ih

/-- Accepting signed lists, in any order and with repetitions, leaves the greatest one held. No
step goes back, and items that do not count change nothing. -/
theorem accept_maximum (dns : Dns Name) (z : Z32) :
    (∀ (state : DiscoveryState) (items : List MutableItem),
      IsGreatest (versions dns z state items) (items.foldl (accept dns z) state).held) ∧
    (∀ (state : DiscoveryState) (items items' : List MutableItem),
      (∀ item, item ∈ items ↔ item ∈ items') →
      (items.foldl (accept dns z) state).held = (items'.foldl (accept dns z) state).held) ∧
    (∀ (state : DiscoveryState) item, state.held ≤ (accept dns z state item).held) ∧
    ∀ state item, ¬ Acceptable dns z item → accept dns z state item = state := by
  refine ⟨fun _ _ => isGreatest_held, fun state items items' hsame => ?_,
    fun _ _ => held_le_accept, fun _ _ => accept_of_not⟩
  have hversions : versions dns z state items = versions dns z state items' := by
    simp only [versions, hsame]
  have hgreatest : IsGreatest (versions dns z state items)
      (items'.foldl (accept dns z) state).held := hversions ▸ isGreatest_held
  exact isGreatest_held.unique hgreatest

end Discovery

end ContentDiscovery
