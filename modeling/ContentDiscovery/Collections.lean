import Mathlib.Data.Finmap
import Mathlib.Data.Finset.Max

/-!
# Hash maps, hash sets and ordered sets

Hash maps are finite maps, sets are finite sets, ordered ones with a least element.
They come from Mathlib; this file adds the lookups and key sets after an update
in the form the developments rewrite with.
-/

/-- A hash map. -/
abbrev HashMap (κ υ : Type) : Type := Finmap fun _ : κ => υ

namespace HashMap

variable {κ υ : Type} [DecidableEq κ]

/-- The keys after an insertion. -/
theorem keys_insert (k : κ) (v : υ) (m : HashMap κ υ) :
    (Finmap.insert k v m).keys = insert k m.keys := by
  ext k'
  simp [Finmap.mem_keys, Finmap.mem_insert]

/-- A lookup after an insertion. -/
theorem lookup_insert_eq (k k' : κ) (v : υ) (m : HashMap κ υ) :
    (Finmap.insert k v m).lookup k' = if k' = k then some v else m.lookup k' := by
  split
  · rename_i h
    rw [h, Finmap.lookup_insert]
  · rename_i h
    rw [Finmap.lookup_insert_of_ne _ h]

/-- A lookup after a removal. -/
theorem lookup_erase_eq (k k' : κ) (m : HashMap κ υ) :
    (Finmap.erase k m).lookup k' = if k' = k then none else m.lookup k' := by
  split
  · rename_i h
    rw [h, Finmap.lookup_erase]
  · rename_i h
    rw [Finmap.lookup_erase_ne h]

/-- The keys whose value satisfies a test. -/
theorem mem_keys_filter {q : υ → Bool} {k : κ} {m : HashMap κ υ} :
    k ∈ m.keys.filter (fun k => (m.lookup k).any q) ↔ ∃ v, m.lookup k = some v ∧ q v = true := by
  rw [Finset.mem_filter, Option.any_eq_true, and_iff_right_of_imp]
  rintro ⟨v, hv, -⟩
  exact Finmap.mem_keys.mpr (Finmap.mem_of_lookup_eq_some hv)

/-- `HashMap::retain`: the entries that satisfy a test. -/
def retain (p : κ → υ → Bool) (m : HashMap κ υ) : HashMap κ υ where
  entries := m.entries.filter fun x => p x.1 x.2
  nodupKeys := Multiset.nodup_keys.mp <|
    Multiset.nodup_of_le (Multiset.map_le_map (Multiset.filter_le _ _)) m.nodupKeys.nodup_keys

/-- An entry is retained if it satisfies the test. -/
theorem lookup_retain {p : κ → υ → Bool} {m : HashMap κ υ} {k : κ} {v : υ} :
    (m.retain p).lookup k = some v ↔ m.lookup k = some v ∧ p k v := by
  rw [← Option.mem_def, ← Option.mem_def, Finmap.mem_lookup_iff, Finmap.mem_lookup_iff]
  exact Multiset.mem_filter

end HashMap

/-- A hash set. -/
abbrev HashSet (α : Type) : Type := Finset α

/-- An ordered set. -/
abbrev BTreeSet (α : Type) : Type := Finset α

namespace BTreeSet

variable {α : Type} [LinearOrder α] {s : BTreeSet α}

/-- The least element. -/
def first (s : BTreeSet α) : Option α := if h : s.Nonempty then some (s.min' h) else none

theorem first_eq_none : s.first = none ↔ s = ∅ := by
  simp [first, Finset.not_nonempty_iff_eq_empty]

theorem first_eq_some {a : α} : s.first = some a ↔ a ∈ s ∧ ∀ b ∈ s, a ≤ b := by
  rw [first]
  split
  · rename_i h
    rw [Option.some_inj]
    refine ⟨?_, fun ⟨ha, hle⟩ => le_antisymm (s.min'_le a ha) (hle _ (s.min'_mem h))⟩
    rintro rfl
    exact ⟨s.min'_mem h, fun b hb => s.min'_le b hb⟩
  · rename_i h
    simp only [reduceCtorEq, false_iff, not_and]
    exact fun ha => absurd ⟨a, ha⟩ h

end BTreeSet

namespace List

variable {α β : Type} {f : α → Option β} {l : List α}

/-- A list is mapped if each of its elements is. -/
theorem mapM_eq_some {r : List β} : l.mapM f = some r ↔ l.map f = r.map some := by
  induction l generalizing r with
  | nil =>
    rw [mapM_nil, map_nil, eq_comm (a := []), map_eq_nil_iff, eq_comm (a := r)]
    exact Option.some_inj
  | cons a l ih =>
    rw [mapM_cons]
    cases ha : f a with
    | none => cases r <;> simp [ha]
    | some b =>
      cases r with
      | nil => cases h : l.mapM f <;> simp
      | cons c r =>
        have hrest : l.mapM f = some r ↔ l.map f = r.map some := ih
        cases h : l.mapM f with
        | none =>
          rw [h] at hrest
          simp [ha, ← hrest]
        | some r' =>
          rw [h] at hrest
          simp [ha, ← hrest]

theorem map_eq_map_filterMap (h : ∀ a ∈ l, (f a).isSome) : l.map f = (l.filterMap f).map some := by
  induction l with
  | nil => rfl
  | cons a l ih =>
    obtain ⟨ha, hl⟩ := forall_mem_cons.mp h
    obtain ⟨b, hb⟩ := Option.isSome_iff_exists.mp ha
    rw [map_cons, filterMap_cons_some hb, map_cons, hb, ih hl]

/-- A list is cut into the parts of a classification. -/
theorem perm_flatMap_filter [DecidableEq β] {classes : List β} (h : classes.Nodup) :
    (classes.flatMap fun b => l.filter fun a => f a = some b).Perm
      (l.filter fun a => ∃ b ∈ classes, f a = some b) := by
  induction classes with
  | nil => simp
  | cons b classes ih =>
    obtain ⟨hb, hclasses⟩ := nodup_cons.mp h
    have hfirst : (l.filter fun a => ∃ c ∈ b :: classes, f a = some c).filter
        (fun a => f a = some b) = l.filter fun a => f a = some b := by
      rw [filter_filter]
      apply filter_congr
      intro a _
      simp +contextual
    have hrest : (l.filter fun a => ∃ c ∈ b :: classes, f a = some c).filter
        (fun a => ! decide (f a = some b)) = l.filter fun a => ∃ c ∈ classes, f a = some c := by
      rw [filter_filter]
      apply filter_congr
      intro a _
      by_cases ha : f a = some b
      · simp [ha, hb]
      · simp [ha]
    have hcut := filter_append_perm (fun a => f a = some b)
      (l.filter fun a => ∃ c ∈ b :: classes, f a = some c)
    rw [hfirst, hrest] at hcut
    rw [flatMap_cons]
    exact ((ih hclasses).append_left _).trans hcut

theorem perm_flatten_filterMap {f : α → Option (List β)} {g : α → List β}
    (h : ∀ a ∈ l, ∃ r, f a = some r ∧ r.Perm (g a)) :
    (l.filterMap f).flatten.Perm (l.flatMap g) := by
  induction l with
  | nil => exact Perm.nil
  | cons a l ih =>
    obtain ⟨ha, hl⟩ := forall_mem_cons.mp h
    obtain ⟨r, hr, hperm⟩ := ha
    rw [filterMap_cons_some hr, flatten_cons, flatMap_cons]
    exact hperm.append (ih hl)

end List
