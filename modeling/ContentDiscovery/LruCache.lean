import Mathlib.Algebra.Order.Group.Nat
import Mathlib.Data.Finset.Card
import Mathlib.Data.List.Basic

/-!
# LRU caches

A map with a fixed capacity that forgets the key that was not used for the longest time:
the list of its entries, the most recently used one first. A read uses the key too,
unless it is a `peek`.
-/

/-- A cache with a fixed capacity: its entries, the most recently used one first. -/
structure LruCache (κ υ : Type) where
  /-- how many entries it holds -/
  capacity : ℕ
  /-- the entries -/
  entries : List (κ × υ)
  /-- a key has one entry -/
  nodup : (entries.map Prod.fst).Nodup
  /-- there are no more of them -/
  bounded : entries.length ≤ capacity

namespace LruCache

variable {κ υ : Type} [DecidableEq κ]

/-- The entries of the other keys. -/
def others (k : κ) (entries : List (κ × υ)) : List (κ × υ) := entries.filter fun x => x.1 ≠ k

theorem nodup_others {k : κ} {entries : List (κ × υ)} (h : (entries.map Prod.fst).Nodup) :
    ((others k entries).map Prod.fst).Nodup :=
  h.sublist (List.filter_sublist.map _)

theorem nodup_cons_others {k : κ} {entries : List (κ × υ)} (h : (entries.map Prod.fst).Nodup)
    (v : υ) : (((k, v) :: others k entries).map Prod.fst).Nodup := by
  rw [List.map_cons, List.nodup_cons]
  refine ⟨fun hmem => ?_, nodup_others h⟩
  obtain ⟨x, hx, heq⟩ := List.mem_map.mp hmem
  exact absurd heq (of_decide_eq_true (List.mem_filter.mp hx).2)

theorem length_others_lt {k : κ} {v : υ} {entries : List (κ × υ)} (h : (k, v) ∈ entries) :
    (others k entries).length < entries.length :=
  List.length_filter_lt_length_iff_exists.mpr ⟨(k, v), h, by simp⟩

/-- `LruCache::new`. -/
def new (capacity : ℕ) : LruCache κ υ := ⟨capacity, [], List.nodup_nil, Nat.zero_le _⟩

variable (m : LruCache κ υ)

/-- `LruCache::peek`: the value of a key, without using it. -/
def peek (k : κ) : Option υ := m.entries.lookup k

/-- `LruCache::pop`: removes a key. -/
def pop (k : κ) : LruCache κ υ where
  capacity := m.capacity
  entries := others k m.entries
  nodup := nodup_others m.nodup
  bounded := (List.length_filter_le _ _).trans m.bounded

theorem mem_of_peek {m : LruCache κ υ} {k : κ} {v : υ} (h : m.peek k = some v) :
    (k, v) ∈ m.entries := by
  obtain ⟨l₁, l₂, heq, -⟩ := List.lookup_eq_some_iff.mp h
  rw [heq]
  simp

/-- `LruCache::get`: the value of a key, which is used last now. -/
def get (k : κ) : LruCache κ υ × Option υ :=
  match h : m.peek k with
  | none => (m, none)
  | some v =>
    ({ capacity := m.capacity
       entries := (k, v) :: others k m.entries
       nodup := nodup_cons_others m.nodup v
       bounded := (length_others_lt (mem_of_peek h)).trans_le m.bounded }, some v)

/-- `LruCache::put`: sets the value of a key, which is used last now. A full cache forgets
the key that was not used for the longest time. -/
def put (k : κ) (v : υ) : LruCache κ υ where
  capacity := m.capacity
  entries := ((k, v) :: others k m.entries).take m.capacity
  nodup := (nodup_cons_others m.nodup v).sublist ((List.take_sublist _ _).map _)
  bounded := List.length_take_le _ _

theorem mem_pop {m : LruCache κ υ} {k : κ} {x : κ × υ} (h : x ∈ (m.pop k).entries) :
    x ∈ m.entries := List.mem_of_mem_filter h

/-- A look-up finds an entry, and adds none. -/
theorem mem_get {m : LruCache κ υ} {k : κ} {x : κ × υ} (h : x ∈ (m.get k).1.entries) :
    x ∈ m.entries := by
  rw [get] at h
  split at h
  · exact h
  · rename_i v hpeek
    rcases List.mem_cons.mp h with rfl | h
    · exact mem_of_peek hpeek
    · exact List.mem_of_mem_filter h

theorem snd_get (k : κ) : (m.get k).2 = m.peek k := by
  rw [get]
  split
  · rename_i hpeek
    exact hpeek.symm
  · rename_i v hpeek
    exact hpeek.symm

/-- The entries after an insertion are the new one and old ones of other keys. -/
theorem mem_put {m : LruCache κ υ} {k : κ} {v : υ} {x : κ × υ} (h : x ∈ (m.put k v).entries) :
    x = (k, v) ∨ x ∈ m.entries := by
  rcases List.mem_cons.mp (List.mem_of_mem_take h) with rfl | h
  · exact .inl rfl
  · exact .inr (List.mem_of_mem_filter h)

/-- `LruCache::get_mut`: changes the value of a key, if it has one. -/
def modify (k : κ) (f : υ → υ) : LruCache κ υ :=
  match m.peek k with
  | none => m
  | some v => m.put k (f v)

/-- `LruCache::get_or_insert_mut`: changes the value of a key, which has one then. -/
def modifyOr (k : κ) (default : υ) (f : υ → υ) : LruCache κ υ :=
  m.put k (f ((m.peek k).getD default))

theorem lookup_others_ne {k k' : κ} (h : k' ≠ k) (entries : List (κ × υ)) :
    (others k entries).lookup k' = entries.lookup k' := by
  induction entries with
  | nil => rfl
  | cons x entries ih =>
    obtain ⟨k₀, v⟩ := x
    rw [others, List.filter_cons]
    by_cases hx : k₀ = k
    · have hk' : (k' == k₀) = false := beq_eq_false_iff_ne.mpr (hx ▸ h)
      rw [if_neg (by simpa using hx), List.lookup_cons, hk']
      exact ih
    · rw [if_pos (by simpa using hx), List.lookup_cons, List.lookup_cons]
      split
      · rfl
      · exact ih

theorem lookup_others_self (k : κ) (entries : List (κ × υ)) :
    (others k entries).lookup k = none := by
  refine List.lookup_eq_none_iff.mpr fun x hx => ?_
  have hne := of_decide_eq_true (List.mem_filter.mp hx).2
  exact bne_iff_ne.mpr (Ne.symm hne)

theorem peek_pop_self {m : LruCache κ υ} (k : κ) : (m.pop k).peek k = none :=
  lookup_others_self k m.entries

theorem peek_pop_of_ne {m : LruCache κ υ} {k k' : κ} (h : k' ≠ k) :
    (m.pop k).peek k' = m.peek k' :=
  lookup_others_ne h m.entries

/-- A look-up changes no value. -/
theorem peek_get (m : LruCache κ υ) (k k' : κ) : (m.get k).1.peek k' = m.peek k' := by
  rw [get]
  split
  · rfl
  · rename_i v hpeek
    by_cases h : k' = k
    · subst h
      exact List.lookup_cons_self.trans hpeek.symm
    · rw [peek, List.lookup_cons, beq_eq_false_iff_ne.mpr h]
      exact lookup_others_ne h m.entries

/-- What a key is set to is found, unless there is no room at all. -/
theorem peek_put_self {m : LruCache κ υ} (k : κ) (v : υ) (h : 0 < m.capacity) :
    (m.put k v).peek k = some v := by
  obtain ⟨n, hn⟩ := Nat.exists_eq_succ_of_ne_zero h.ne'
  simp only [peek, put, hn, List.take_succ_cons, List.lookup_cons_self]

/-- A cache with an entry has room. -/
theorem capacity_pos {m : LruCache κ υ} {k : κ} {v : υ} (h : m.peek k = some v) :
    0 < m.capacity :=
  (List.length_pos_of_mem (mem_of_peek h)).trans_le m.bounded

/-- Another key keeps its value, or is forgotten. -/
theorem peek_of_put {m : LruCache κ υ} {k k' : κ} {v w : υ} (hne : k' ≠ k)
    (h : (m.put k v).peek k' = some w) : m.peek k' = some w := by
  obtain ⟨l₁, l₂, heq, hnot⟩ := List.lookup_eq_some_iff.mp h
  rw [peek, ← lookup_others_ne hne]
  have hall : ((k, v) :: others k m.entries).lookup k' = some w := by
    refine List.lookup_eq_some_iff.mpr ⟨l₁, l₂ ++ ((k, v) :: others k m.entries).drop m.capacity,
      ?_, hnot⟩
    have heq : ((k, v) :: others k m.entries).take m.capacity = l₁ ++ (k', w) :: l₂ := heq
    calc
      (k, v) :: others k m.entries = ((k, v) :: others k m.entries).take m.capacity ++
          ((k, v) :: others k m.entries).drop m.capacity := (List.take_append_drop _ _).symm
      _ = _ := by
        rw [heq, List.append_assoc]
        rfl
  rwa [List.lookup_cons, beq_eq_false_iff_ne.mpr hne] at hall

@[simp] theorem capacity_put {m : LruCache κ υ} (k : κ) (v : υ) :
    (m.put k v).capacity = m.capacity := rfl

/-! ## Room for all keys -/

/-- The keys that have a value. -/
def keys (m : LruCache κ υ) : Finset κ := (m.entries.map Prod.fst).toFinset

theorem keys_pop_subset (m : LruCache κ υ) (k : κ) : (m.pop k).keys ⊆ m.keys := by
  intro k' hk'
  rw [keys, List.mem_toFinset] at hk' ⊢
  exact (List.filter_sublist.map Prod.fst).mem hk'

theorem keys_put_subset (m : LruCache κ υ) (k : κ) (v : υ) :
    (m.put k v).keys ⊆ insert k m.keys := by
  intro k' hk'
  rw [keys, List.mem_toFinset] at hk'
  obtain ⟨x, hx, rfl⟩ := List.mem_map.mp hk'
  rcases mem_put hx with rfl | hx
  · exact Finset.mem_insert_self _ _
  · refine Finset.mem_insert_of_mem ?_
    rw [keys, List.mem_toFinset]
    exact List.mem_map_of_mem hx

/-- No value is forgotten as long as there is room for all keys. -/
theorem peek_put_of_room {m : LruCache κ υ} {k k' : κ} {v : υ}
    (hroom : (insert k m.keys).card ≤ m.capacity) :
    (m.put k v).peek k' = if k' = k then some v else m.peek k' := by
  have hsub : (((k, v) :: others k m.entries).map Prod.fst).toFinset ⊆ insert k m.keys := by
    intro k' hk'
    rw [List.mem_toFinset, List.map_cons, List.mem_cons] at hk'
    rw [Finset.mem_insert, keys, List.mem_toFinset]
    exact hk'.imp_right fun hk' => (List.filter_sublist.map Prod.fst).mem hk'
  have hlength : ((k, v) :: others k m.entries).length ≤ m.capacity := by
    refine le_trans ?_ ((Finset.card_le_card hsub).trans hroom)
    rw [List.toFinset_card_of_nodup (nodup_cons_others m.nodup v), List.length_map]
  rw [peek, put]
  simp only [List.take_of_length_le hlength, List.lookup_cons]
  split
  · rename_i heq
    rw [if_pos (beq_iff_eq.mp heq)]
  · rename_i hne
    rw [if_neg (beq_eq_false_iff_ne.mp hne)]
    exact lookup_others_ne (beq_eq_false_iff_ne.mp hne) m.entries

/-- A change of a value forgets nothing. -/
theorem peek_modify (m : LruCache κ υ) (k : κ) (f : υ → υ) (k' : κ) :
    (m.modify k f).peek k' = if k' = k then (m.peek k).map f else m.peek k' := by
  rw [modify]
  split
  · rename_i hpeek
    split
    · rename_i heq
      rw [heq, hpeek]
      rfl
    · rfl
  · rename_i v hpeek
    have hmem : k ∈ m.keys := List.mem_toFinset.mpr (List.mem_map_of_mem (mem_of_peek hpeek))
    have hroom : (insert k m.keys).card ≤ m.capacity := by
      rw [Finset.insert_eq_of_mem hmem]
      exact (List.toFinset_card_le _).trans ((List.length_map _).trans_le m.bounded)
    rw [peek_put_of_room hroom, hpeek]
    rfl

end LruCache
