import ContentDiscovery.Collections

/-!
# Locks behind weak references

A map from keys to weak references of locks. Whoever needs the lock of a key upgrades the
reference, or makes a new lock if nobody holds the old one any more; then the map is rid of the
dead references too, though not of all of them if locks are dropped meanwhile. A lock outlives
neither its holders nor, while it has one, its place in the map (`Held.named`).
-/

/-- A mutex, with the strong references to it. -/
structure Mutex (C : Type) where
  /-- those who have a strong reference -/
  arcs : Finset C
  /-- the one who has locked it -/
  holder : Option C

/-- Locks of keys, and the weak references to them. -/
structure WeakLocks (K C : Type) where
  /-- the weak reference of each key -/
  weak : HashMap K ℕ
  /-- the locks -/
  locks : ℕ → Mutex C
  /-- the number of those made so far -/
  made : ℕ

namespace WeakLocks

variable {K C : Type} [DecidableEq K]

/-- No lock was made. -/
def empty : WeakLocks K C := ⟨∅, fun _ => ⟨∅, none⟩, 0⟩

variable (w : WeakLocks K C)

/-- `Weak::strong_count`. -/
def strongCount (l : ℕ) : ℕ := (w.locks l).arcs.card

/-- `Weak::upgrade`, of the reference of a key. -/
def upgrade (k : K) : Option ℕ := (w.weak.lookup k).filter fun l => 0 < w.strongCount l

/-- A lock changes. -/
def modify (l : ℕ) (f : Mutex C → Mutex C) : WeakLocks K C :=
  { w with locks := Function.update w.locks l (f (w.locks l)) }

/-- Another strong reference. -/
def clone [DecidableEq C] (l : ℕ) (c : C) : WeakLocks K C :=
  w.modify l fun m => { m with arcs := insert c m.arcs }

/-- A strong reference is dropped. -/
def drop [DecidableEq C] (l : ℕ) (c : C) : WeakLocks K C :=
  w.modify l fun m => { m with arcs := m.arcs.erase c }

/-- `Mutex::lock`, of a free lock. -/
def lock (l : ℕ) (c : C) : WeakLocks K C := w.modify l fun m => { m with holder := some c }

/-- The guard of a lock is dropped. -/
def unlock (l : ℕ) : WeakLocks K C := w.modify l fun m => { m with holder := none }

/-- The references that are dead are forgotten, except those that died meanwhile. -/
def retain (meanwhile : Finset K) : WeakLocks K C :=
  { w with weak := w.weak.retain fun k l => 0 < w.strongCount l ∨ k ∈ meanwhile }

/-- A new lock, with its first reference. -/
def make (k : K) (c : C) : WeakLocks K C where
  weak := Finmap.insert k w.made w.weak
  locks := Function.update w.locks w.made ⟨{c}, none⟩
  made := w.made + 1

/-- The lock of a key, shared with those who have it. -/
def share [DecidableEq C] (k : K) (c : C) (meanwhile : Finset K) : WeakLocks K C × ℕ :=
  match w.upgrade k with
  | some l => (w.clone l c, l)
  | none => ((w.retain meanwhile).make k c, w.made)

/-! ## Who has what -/

/-- The references and the guards are those that the holders know of: the lock a holder has for
a key is the one that others get. -/
structure Held (arc : C → Option (K × ℕ)) (guard : C → Option ℕ) : Prop where
  arcs : ∀ c l, c ∈ (w.locks l).arcs ↔ ∃ k, arc c = some (k, l)
  named : ∀ {c k l}, arc c = some (k, l) → w.weak.lookup k = some l
  injective : ∀ {k k' l}, w.weak.lookup k = some l → w.weak.lookup k' = some l → k = k'
  made : ∀ {k l}, w.weak.lookup k = some l → l < w.made
  holder : ∀ c l, (w.locks l).holder = some c ↔ guard c = some l
  guarded : ∀ {c l}, guard c = some l → ∃ k, arc c = some (k, l)

variable {w} {arc : C → Option (K × ℕ)} {guard : C → Option ℕ} {c : C} {k : K} {l : ℕ}

theorem held_empty : (empty : WeakLocks K C).Held (fun _ => none) fun _ => none where
  arcs c l := iff_of_false (Finset.notMem_empty c) nofun
  named := nofun
  injective := by
    intro k k' l h
    rw [empty, Finmap.lookup_empty] at h
    cases h
  made := by
    intro k l h
    rw [empty, Finmap.lookup_empty] at h
    cases h
  holder c l := iff_of_false nofun nofun
  guarded := nofun

/-- A lock is upgraded to as long as someone has it. -/
theorem upgrade_eq_some : w.upgrade k = some l ↔
    w.weak.lookup k = some l ∧ (w.locks l).arcs.Nonempty := by
  rw [upgrade, Option.filter_eq_some_iff, decide_eq_true_iff, strongCount, Finset.card_pos]

/-- One lock a key: whoever has a lock for it has the same. -/
theorem Held.unique (h : w.Held arc guard) {c' : C} {l' : ℕ} (hc : arc c = some (k, l))
    (hc' : arc c' = some (k, l')) : l = l' :=
  Option.some.inj ((h.named hc).symm.trans (h.named hc'))

/-- A lock is locked by one of those who have it, for the same key. -/
theorem Held.holder_arc (h : w.Held arc guard) {c' : C} (hc : arc c = some (k, l))
    (hlock : (w.locks l).holder = some c') : arc c' = some (k, l) ∧ guard c' = some l := by
  have hguard := (h.holder c' l).mp hlock
  obtain ⟨k', hc'⟩ := h.guarded hguard
  rw [h.injective (h.named hc) (h.named hc')]
  exact ⟨hc', hguard⟩

/-- Two guards for one key are one. -/
theorem Held.exclusive (h : w.Held arc guard) {c' : C} {l' : ℕ} (hc : arc c = some (k, l))
    (hc' : arc c' = some (k, l')) (hguard : guard c = some l) (hguard' : guard c' = some l') :
    c = c' := by
  obtain rfl := h.unique hc hc'
  have hholder := (h.holder c l).mpr hguard
  rw [(h.holder c' l).mpr hguard'] at hholder
  exact (Option.some.inj hholder).symm

/-! ## What holders do -/

omit [DecidableEq K] in
theorem locks_modify (f : Mutex C → Mutex C) (l' : ℕ) :
    (w.modify l f).locks l' = if l' = l then f (w.locks l) else w.locks l' :=
  Function.update_apply ..

omit [DecidableEq K] in
/-- References are kept if the lock that changes keeps its own. -/
theorem arcs_modify {f : Mutex C → Mutex C} (hf : (f (w.locks l)).arcs = (w.locks l).arcs)
    (l' : ℕ) : ((w.modify l f).locks l').arcs = (w.locks l').arcs := by
  rw [locks_modify]
  split
  · rename_i hl'
    rw [hf, hl']
  · rfl

omit [DecidableEq K] in
/-- Locks are held by the same if the one that changes is. -/
theorem holder_modify {f : Mutex C → Mutex C} (hf : (f (w.locks l)).holder = (w.locks l).holder)
    (l' : ℕ) : ((w.modify l f).locks l').holder = (w.locks l').holder := by
  rw [locks_modify]
  split
  · rename_i hl'
    rw [hf, hl']
  · rfl

theorem locks_make (meanwhile : Finset K) (l' : ℕ) :
    ((w.retain meanwhile).make k c).locks l' = if l' = w.made then ⟨{c}, none⟩ else w.locks l' :=
  Function.update_apply ..

/-- A lock that is not made is nobody's. -/
theorem Held.ne_made (h : w.Held arc guard) (hc : arc c = some (k, l)) : l ≠ w.made :=
  (h.made (h.named hc)).ne

/-- One who has no lock holds none. -/
theorem Held.guard_eq_none (h : w.Held arc guard) (harc : arc c = none) : guard c = none := by
  rw [Option.eq_none_iff_forall_ne_some]
  intro l hguard
  obtain ⟨k, hc⟩ := h.guarded hguard
  rw [harc] at hc
  cases hc

variable [DecidableEq C]

/-- Only the references of one holder change. -/
theorem Held.arcs_update (h : w.Held arc guard) {w' : WeakLocks K C} {new : Option (K × ℕ)}
    (hself : ∀ l', c ∈ (w'.locks l').arcs ↔ ∃ k, new = some (k, l'))
    (hother : ∀ c' ≠ c, ∀ l', c' ∈ (w'.locks l').arcs ↔ c' ∈ (w.locks l').arcs) (c' : C) (l' : ℕ) :
    c' ∈ (w'.locks l').arcs ↔ ∃ k, Function.update arc c new c' = some (k, l') := by
  by_cases hc : c' = c
  · rw [hc, Function.update_self]
    exact hself l'
  · rw [Function.update_of_ne hc, hother c' hc]
    exact h.arcs c' l'

/-- Only the place of one holder's lock is new. -/
theorem named_update {w' : WeakLocks K C} {new : Option (K × ℕ)}
    (hself : ∀ k l, new = some (k, l) → w'.weak.lookup k = some l)
    (hother : ∀ c' ≠ c, ∀ k l, arc c' = some (k, l) → w'.weak.lookup k = some l)
    {c' : C} {k' : K} {l' : ℕ} (hc' : Function.update arc c new c' = some (k', l')) :
    w'.weak.lookup k' = some l' := by
  by_cases hc : c' = c
  · rw [hc, Function.update_self] at hc'
    exact hself k' l' hc'
  · rw [Function.update_of_ne hc] at hc'
    exact hother c' hc k' l' hc'

/-- Only the guard of one holder changes, or is the lock's. -/
theorem Held.holder_update (h : w.Held arc guard) {w' : WeakLocks K C} {new : Option ℕ}
    (hself : ∀ l', (w'.locks l').holder = some c ↔ new = some l')
    (hother : ∀ c' ≠ c, ∀ l', (w'.locks l').holder = some c' ↔ (w.locks l').holder = some c')
    (c' : C) (l' : ℕ) :
    (w'.locks l').holder = some c' ↔ Function.update guard c new c' = some l' := by
  by_cases hc : c' = c
  · rw [hc, Function.update_self]
    exact hself l'
  · rw [Function.update_of_ne hc, hother c' hc]
    exact h.holder c' l'

/-- One who has no guard may drop a reference, or get one. -/
theorem Held.guarded_update (h : w.Held arc guard) (hguard : guard c = none)
    {new : Option (K × ℕ)} {c' : C} {l' : ℕ} (hc' : guard c' = some l') :
    ∃ k, Function.update arc c new c' = some (k, l') := by
  have hc : c' ≠ c := by
    rintro rfl
    rw [hguard] at hc'
    cases hc'
  rw [Function.update_of_ne hc]
  exact h.guarded hc'

/-- A new holder gets the lock that the others have. -/
theorem Held.clone (h : w.Held arc guard) (harc : arc c = none) (hl : w.upgrade k = some l) :
    (w.clone l c).Held (Function.update arc c (some (k, l))) guard where
  arcs := by
    refine h.arcs_update ?_ ?_
    · intro l'
      rw [WeakLocks.clone, locks_modify]
      by_cases hl' : l' = l
      · subst hl'
        simp
      · rw [if_neg hl', h.arcs, harc]
        simp [Ne.symm hl']
    · intro c' hc l'
      rw [WeakLocks.clone, locks_modify]
      split
      · rename_i hl'
        rw [Finset.mem_insert, or_iff_right hc, hl']
      · rfl
  named := by
    refine named_update ?_ fun c' _ k' l' hc' => h.named hc'
    intro k' l' hnew
    obtain ⟨rfl, rfl⟩ := Prod.mk.inj (Option.some.inj hnew)
    exact (upgrade_eq_some.mp hl).1
  injective := h.injective
  made := h.made
  holder c' l' := by
    rw [WeakLocks.clone, holder_modify rfl, h.holder]
  guarded hguard := h.guarded_update (h.guard_eq_none harc) hguard

/-- If nobody has a lock for a key, a new one does not take the place of any. -/
theorem Held.make (h : w.Held arc guard) (harc : arc c = none) (hk : w.upgrade k = none)
    (meanwhile : Finset K) : ((w.retain meanwhile).make k c).Held
      (Function.update arc c (some (k, w.made))) guard := by
  have hlookup : ∀ {k' l'}, ((w.retain meanwhile).make k c).weak.lookup k' = some l' →
      k' = k ∧ l' = w.made ∨ w.weak.lookup k' = some l' := by
    intro k' l' hl'
    rw [WeakLocks.make, HashMap.lookup_insert_eq] at hl'
    split at hl'
    · rename_i hk'
      exact .inl ⟨hk', (Option.some.inj hl').symm⟩
    · exact .inr (HashMap.lookup_retain.mp hl').1
  constructor
  case arcs =>
    refine h.arcs_update ?_ ?_
    · intro l'
      rw [locks_make]
      by_cases hl' : l' = w.made
      · subst hl'
        simp
      · rw [if_neg hl', h.arcs, harc]
        simp [Ne.symm hl']
    · intro c' hc l'
      rw [locks_make]
      split
      · rename_i hl'
        rw [Finset.mem_singleton, iff_false_left hc, h.arcs]
        rintro ⟨k', hc'⟩
        exact h.ne_made hc' hl'
      · rfl
  case named =>
    refine named_update ?_ ?_
    · intro k' l' hnew
      obtain ⟨rfl, rfl⟩ := Prod.mk.inj (Option.some.inj hnew)
      rw [WeakLocks.make, HashMap.lookup_insert_eq, if_pos rfl]
      rfl
    · intro c' _ k' l' hc'
      have hnamed := h.named hc'
      -- the lock of another holder is alive, so it is retained, and is not that of `k`
      have halive : (w.locks l').arcs.Nonempty := ⟨c', (h.arcs c' l').mpr ⟨k', hc'⟩⟩
      have hne : k' ≠ k := by
        rintro rfl
        rw [upgrade_eq_some.mpr ⟨hnamed, halive⟩] at hk
        cases hk
      rw [WeakLocks.make, HashMap.lookup_insert_eq, if_neg hne, WeakLocks.retain,
        HashMap.lookup_retain]
      refine ⟨hnamed, decide_eq_true (.inl ?_)⟩
      rwa [strongCount, Finset.card_pos]
  case injective =>
    intro k₁ k₂ l' h₁ h₂
    rcases hlookup h₁ with ⟨rfl, rfl⟩ | hold₁
    · rcases hlookup h₂ with ⟨rfl, -⟩ | hold₂
      · rfl
      · exact absurd (h.made hold₂) (Nat.lt_irrefl _)
    · rcases hlookup h₂ with ⟨rfl, rfl⟩ | hold₂
      · exact absurd (h.made hold₁) (Nat.lt_irrefl _)
      · exact h.injective hold₁ hold₂
  case made =>
    intro k' l' hl'
    rcases hlookup hl' with ⟨-, rfl⟩ | hl'
    · exact Nat.lt_succ_self _
    · exact Nat.lt_succ_of_lt (h.made hl')
  case holder =>
    intro c' l'
    rw [locks_make, ← h.holder]
    split
    · rename_i hl'
      refine iff_of_false nofun fun hholder => ?_
      obtain ⟨k', hc'⟩ := h.guarded ((h.holder c' l').mp hholder)
      exact h.ne_made hc' hl'
    · rfl
  case guarded =>
    intro c' l' hguard
    exact h.guarded_update (h.guard_eq_none harc) hguard

/-- Whoever shares the lock of a key has it. -/
theorem Held.share (h : w.Held arc guard) (harc : arc c = none) (k : K) (meanwhile : Finset K) :
    (w.share k c meanwhile).1.Held
      (Function.update arc c (some (k, (w.share k c meanwhile).2))) guard := by
  rw [WeakLocks.share]
  split
  · rename_i l hl
    exact h.clone harc hl
  · rename_i hk
    exact h.make harc hk meanwhile

/-- A free lock is locked by one who has it. -/
theorem Held.lock (h : w.Held arc guard) (harc : arc c = some (k, l)) (hguard : guard c = none)
    (hfree : (w.locks l).holder = none) :
    (w.lock l c).Held arc (Function.update guard c (some l)) where
  arcs c' l' := by
    rw [WeakLocks.lock, arcs_modify rfl, h.arcs]
  named := h.named
  injective := h.injective
  made := h.made
  holder := by
    refine h.holder_update ?_ ?_
    · intro l'
      rw [WeakLocks.lock, locks_modify]
      by_cases hl' : l' = l
      · subst hl'
        simp
      · rw [if_neg hl', h.holder, hguard]
        simp [Ne.symm hl']
    · intro c' hc l'
      rw [WeakLocks.lock, locks_modify]
      split
      · rename_i hl'
        rw [hl', hfree]
        simp [Ne.symm hc]
      · rfl
  guarded {c' l'} hguard' := by
    by_cases hc : c' = c
    · subst hc
      rw [Function.update_self, Option.some.injEq] at hguard'
      exact ⟨k, hguard' ▸ harc⟩
    · rw [Function.update_of_ne hc] at hguard'
      exact h.guarded hguard'

/-- The guard is dropped before the reference. -/
theorem Held.unlock (h : w.Held arc guard) (hguard : guard c = some l) :
    (w.unlock l).Held arc (Function.update guard c none) where
  arcs c' l' := by
    rw [WeakLocks.unlock, arcs_modify rfl, h.arcs]
  named := h.named
  injective := h.injective
  made := h.made
  holder := by
    have hholder := (h.holder c l).mpr hguard
    refine h.holder_update ?_ ?_
    · intro l'
      rw [WeakLocks.unlock, locks_modify]
      by_cases hl' : l' = l
      · subst hl'
        simp
      · rw [if_neg hl', h.holder, hguard]
        simp [Ne.symm hl']
    · intro c' hc l'
      rw [WeakLocks.unlock, locks_modify]
      split
      · rename_i hl'
        rw [hl', hholder]
        simp [Ne.symm hc]
      · rfl
  guarded {c' l'} hguard' := by
    by_cases hc : c' = c
    · subst hc
      rw [Function.update_self] at hguard'
      cases hguard'
    · rw [Function.update_of_ne hc] at hguard'
      exact h.guarded hguard'

/-- A reference without a guard is dropped. -/
theorem Held.drop (h : w.Held arc guard) (harc : arc c = some (k, l)) (hguard : guard c = none) :
    (w.drop l c).Held (Function.update arc c none) guard where
  arcs := by
    refine h.arcs_update ?_ ?_
    · intro l'
      rw [WeakLocks.drop, locks_modify]
      by_cases hl' : l' = l
      · subst hl'
        simp
      · rw [if_neg hl', h.arcs, harc]
        simp [Ne.symm hl']
    · intro c' hc l'
      rw [WeakLocks.drop, locks_modify]
      split
      · rename_i hl'
        rw [Finset.mem_erase, and_iff_right hc, hl']
      · rfl
  named := named_update nofun fun c' _ k' l' hc' => h.named hc'
  injective := h.injective
  made := h.made
  holder c' l' := by
    rw [WeakLocks.drop, holder_modify rfl, h.holder]
  guarded hguard' := h.guarded_update hguard hguard'

end WeakLocks
