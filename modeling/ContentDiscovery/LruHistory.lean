import ContentDiscovery.LruCache
import ContentDiscovery.Machine
import Mathlib.Data.List.Nodup

/-!
# What a least recently used cache holds

The entries of a cache told by its uses: the keys that are found, and the values that are put. A key
is there while fewer other keys than the cache has places were used since its last use
(`Uses.peek_iff`), with the value that was put last. A look-up that finds nothing is no use.
-/

namespace LruCache

variable {κ υ : Type} [DecidableEq κ]

/-- A use of a cache. -/
inductive Use (κ υ : Type) where
  /-- `put` -/
  | put (k : κ) (v : υ)
  /-- a `get` that finds a value -/
  | hit (k : κ)

/-- The key that is used. -/
def Use.key : Use κ υ → κ
  | .put k _ => k
  | .hit k => k

/-- A cache after its uses. -/
inductive Uses (capacity : ℕ) : List (Use κ υ) → LruCache κ υ → Prop where
  | new : Uses capacity [] (new capacity)
  | put {uses : List (Use κ υ)} {m : LruCache κ υ} (h : Uses capacity uses m) (k : κ) (v : υ) :
    Uses capacity (uses ++ [.put k v]) (m.put k v)
  | hit {uses : List (Use κ υ)} {m : LruCache κ υ} (h : Uses capacity uses m) {k : κ} {v : υ}
    (hv : m.peek k = some v) : Uses capacity (uses ++ [.hit k]) (m.get k).1

/-- One step of something that has a cache: it uses the cache at most once. -/
inductive Touch (m : LruCache κ υ) : Option (Use κ υ) → LruCache κ υ → Prop where
  | none : Touch m none m
  | put (k : κ) (v : υ) : Touch m (some (.put k v)) (m.put k v)
  | hit {k : κ} {v : υ} (hv : m.peek k = some v) : Touch m (some (.hit k)) (m.get k).1

theorem Uses.touch {capacity : ℕ} {uses : List (Use κ υ)} {m m' : LruCache κ υ}
    {use : Option (Use κ υ)} (h : Uses capacity uses m) (htouch : Touch m use m') :
    Uses capacity (uses ++ use.toList) m' := by
  cases htouch with
  | none => exact (List.append_nil uses).symm ▸ h
  | put k v => exact h.put k v
  | hit hv => exact h.hit hv

/-- The value was put last under its key. -/
def LastPut (uses : List (Use κ υ)) (k : κ) (v : υ) : Prop :=
  ∃ before after, uses = before ++ .put k v :: after ∧ ∀ w, .put k w ∉ after

/-- Fewer than `n` other keys were used since the last use of a key. -/
def Recent (n : ℕ) (uses : List (Use κ υ)) (k : κ) : Prop :=
  ∃ before x after, uses = before ++ x :: after ∧ x.key = k ∧ (∀ y ∈ after, y.key ≠ k) ∧
    (after.map Use.key).toFinset.card < n

/-- The keys, the last used one first. -/
def recency (uses : List (Use κ υ)) : List κ :=
  uses.foldl (fun keys x => x.key :: keys.filter fun k => k ≠ x.key) []

theorem recency_concat (uses : List (Use κ υ)) (x : Use κ υ) :
    recency (uses ++ [x]) = x.key :: (recency uses).filter fun k => k ≠ x.key := by
  rw [recency, List.foldl_concat, recency]

theorem mem_recency {uses : List (Use κ υ)} {k : κ} :
    k ∈ recency uses ↔ ∃ x ∈ uses, x.key = k := by
  induction uses using List.reverseRecOn with
  | nil => simp [recency]
  | append_singleton uses x ih =>
    rw [recency_concat, List.mem_cons, List.mem_filter, ih, decide_eq_true_eq]
    constructor
    · rintro (rfl | ⟨⟨y, hy, hk⟩, -⟩)
      · exact ⟨x, by simp, rfl⟩
      · exact ⟨y, List.mem_append_left _ hy, hk⟩
    · rintro ⟨y, hy, rfl⟩
      by_cases hxy : y.key = x.key
      · exact .inl hxy
      · rcases List.mem_append.mp hy with hy | hy
        · exact .inr ⟨⟨y, hy, rfl⟩, hxy⟩
        · exact absurd (congrArg Use.key (List.mem_singleton.mp hy)) hxy

theorem nodup_recency (uses : List (Use κ υ)) : (recency uses).Nodup := by
  induction uses using List.reverseRecOn with
  | nil => exact List.nodup_nil
  | append_singleton uses x ih =>
    rw [recency_concat, List.nodup_cons]
    exact ⟨fun hmem => of_decide_eq_true (List.mem_filter.mp hmem).2 rfl, ih.filter _⟩

/-- Before a key are those that were used after it. -/
theorem recency_append (before : List (Use κ υ)) {after : List (Use κ υ)} {x : Use κ υ}
    (hafter : ∀ y ∈ after, y.key ≠ x.key) :
    ∃ newer older, recency (before ++ x :: after) = newer ++ x.key :: older ∧
      newer.toFinset = (after.map Use.key).toFinset := by
  induction after using List.reverseRecOn with
  | nil => exact ⟨[], _, recency_concat before x, rfl⟩
  | append_singleton after y ih =>
    obtain ⟨hafter, hy⟩ := List.forall_mem_append.mp hafter
    obtain ⟨newer, older, heq, hnewer⟩ := ih hafter
    have hxy : x.key ≠ y.key := (hy y List.mem_cons_self).symm
    refine ⟨y.key :: newer.filter fun k => k ≠ y.key, older.filter fun k => k ≠ y.key, ?_, ?_⟩
    · rw [← List.cons_append, ← List.append_assoc, recency_concat, heq, List.filter_append,
        List.filter_cons_of_pos (by simpa using hxy), List.cons_append]
    · ext k
      have hmem := Finset.ext_iff.mp hnewer k
      simp only [List.mem_toFinset, List.mem_map] at hmem
      simp only [List.mem_toFinset, List.mem_cons, List.mem_filter, hmem, List.mem_map,
        List.mem_append, List.not_mem_nil, or_false, decide_eq_true_eq]
      constructor
      · rintro (rfl | ⟨⟨z, hz, rfl⟩, -⟩)
        · exact ⟨y, .inr rfl, rfl⟩
        · exact ⟨z, .inl hz, rfl⟩
      · rintro ⟨z, hz | rfl, rfl⟩
        · by_cases hzy : z.key = y.key
          · exact .inl hzy
          · exact .inr ⟨⟨z, hz, rfl⟩, hzy⟩
        · exact .inl rfl

theorem mem_take_recency {n : ℕ} {uses : List (Use κ υ)} {k : κ} :
    k ∈ (recency uses).take n ↔ Recent n uses k := by
  have hplace {before after : List (Use κ υ)} {x : Use κ υ} (hafter : ∀ y ∈ after, y.key ≠ x.key) :
      x.key ∈ (recency (before ++ x :: after)).take n ↔
        (after.map Use.key).toFinset.card < n := by
    obtain ⟨newer, older, heq, hnewer⟩ := recency_append before hafter
    have hnodup := nodup_recency (before ++ x :: after)
    rw [heq] at hnodup ⊢
    have hnot : x.key ∉ newer := fun hmem =>
      (List.nodup_append.mp hnodup).2.2 _ hmem _ List.mem_cons_self rfl
    rw [← hnewer, List.toFinset_card_of_nodup (List.nodup_append.mp hnodup).1, List.take_append]
    constructor
    · intro hmem
      rcases List.mem_append.mp hmem with hmem | hmem
      · exact absurd (List.mem_of_mem_take hmem) hnot
      · by_contra hle
        rw [Nat.sub_eq_zero_of_le (not_lt.mp hle)] at hmem
        cases hmem
    · intro hlt
      obtain ⟨m, hm⟩ := Nat.exists_eq_succ_of_ne_zero (Nat.sub_pos_of_lt hlt).ne'
      rw [hm, List.take_succ_cons]
      exact List.mem_append_right _ List.mem_cons_self
  constructor
  · intro hmem
    obtain ⟨before, x, after, rfl, rfl, hafter⟩ :=
      exists_last (mem_recency.mp (List.mem_of_mem_take hmem))
    exact ⟨before, x, after, rfl, rfl, hafter, (hplace hafter).mp hmem⟩
  · rintro ⟨before, x, after, rfl, rfl, hafter, hlt⟩
    exact (hplace hafter).mpr hlt

/-! ## Entries -/

/-- Taking a key out of the first ones leaves as many of the others. -/
theorem take_filter_take {keys : List κ} (h : keys.Nodup) (k : κ) (n : ℕ) :
    ((keys.take (n + 1)).filter fun k' => k' ≠ k).take n =
      (keys.filter fun k' => k' ≠ k).take n := by
  induction keys generalizing n with
  | nil => rfl
  | cons a keys ih =>
    obtain ⟨ha, hkeys⟩ := List.nodup_cons.mp h
    rw [List.take_succ_cons]
    by_cases hak : a = k
    · subst hak
      have hall {l : List κ} (hl : a ∉ l) : (l.filter fun k' => k' ≠ a) = l :=
        List.filter_eq_self.mpr fun b hb => by
          rw [decide_eq_true_eq]
          rintro rfl
          exact hl hb
      rw [List.filter_cons_of_neg (by simp), List.filter_cons_of_neg (by simp), hall ha,
        hall fun hmem => ha (List.mem_of_mem_take hmem), List.take_take, min_self]
    · rw [List.filter_cons_of_pos (by simpa using hak),
        List.filter_cons_of_pos (by simpa using hak)]
      cases n with
      | zero => rfl
      | succ n => rw [List.take_succ_cons, List.take_succ_cons, ih hkeys]

omit [DecidableEq κ] in
theorem LastPut.concat {uses : List (Use κ υ)} {k : κ} {v : υ} (h : LastPut uses k v)
    {x : Use κ υ} (hx : ∀ w, x ≠ .put k w) : LastPut (uses ++ [x]) k v := by
  obtain ⟨before, after, rfl, hafter⟩ := h
  refine ⟨before, after ++ [x], by simp, fun w hw => ?_⟩
  rcases List.mem_append.mp hw with hw | hw
  · exact hafter w hw
  · exact hx w (List.mem_singleton.mp hw).symm

omit [DecidableEq κ] in
theorem LastPut.unique {uses : List (Use κ υ)} {k : κ} {v w : υ} (hv : LastPut uses k v)
    (hw : LastPut uses k w) : v = w := by
  obtain ⟨before, after, rfl, hafter⟩ := hv
  obtain ⟨before', after', heq, hafter'⟩ := hw
  rcases List.append_eq_append_iff.mp heq with ⟨l, rfl, hl⟩ | ⟨l, rfl, hl⟩
  · cases l with
    | nil => exact (Use.put.inj (List.cons.inj hl).1).2
    | cons x l =>
      obtain ⟨-, rfl⟩ := List.cons.inj hl
      exact absurd (List.mem_append_right l List.mem_cons_self) (hafter w)
  · cases l with
    | nil => exact (Use.put.inj (List.cons.inj hl).1).2.symm
    | cons x l =>
      obtain ⟨-, rfl⟩ := List.cons.inj hl
      exact absurd (List.mem_append_right l List.mem_cons_self) (hafter' v)

/-- The entries of a cache: the keys that were used last, and what was put under them. -/
theorem Uses.entries {capacity : ℕ} {uses : List (Use κ υ)} {m : LruCache κ υ}
    (h : Uses capacity uses m) :
    m.capacity = capacity ∧ m.entries.map Prod.fst = (recency uses).take capacity ∧
      ∀ x ∈ m.entries, LastPut uses x.1 x.2 := by
  have hothers (k : κ) (l : List (κ × υ)) :
      (others k l).map Prod.fst = (l.map Prod.fst).filter fun k' => k' ≠ k := by
    rw [others, List.filter_map]
    rfl
  induction h with
  | new => exact ⟨rfl, (List.take_nil).symm, by simp [LruCache.new]⟩
  | @put uses m h k v ih =>
    obtain ⟨hcapacity, hkeys, hlast⟩ := ih
    refine ⟨hcapacity, ?_, fun x hx => ?_⟩
    · change (((k, v) :: others k m.entries).take m.capacity).map Prod.fst = _
      rw [List.map_take, List.map_cons, hothers, hkeys, hcapacity, recency_concat]
      cases capacity with
      | zero => rfl
      | succ n =>
        rw [List.take_succ_cons, List.take_succ_cons, take_filter_take (nodup_recency uses)]
        rfl
    · change x ∈ ((k, v) :: others k m.entries).take m.capacity at hx
      rcases List.mem_cons.mp (List.mem_of_mem_take hx) with rfl | hx
      · exact ⟨uses, [], rfl, by simp⟩
      · obtain ⟨hx, hne⟩ := List.mem_filter.mp hx
        rw [decide_eq_true_eq] at hne
        exact (hlast x hx).concat fun w heq => hne (Use.put.inj heq).1.symm
  | @hit uses m h k v hv ih =>
    obtain ⟨hcapacity, hkeys, hlast⟩ := ih
    have hmem := mem_of_peek hv
    have hget : (m.get k).1.entries = (k, v) :: others k m.entries := by
      rw [get]
      split
      · rename_i hnone
        cases hnone.symm.trans hv
      · rename_i w hw
        obtain rfl := Option.some.inj (hv.symm.trans hw)
        rfl
    have hcap : (m.get k).1.capacity = m.capacity := by
      rw [get]
      split
      · rfl
      · rfl
    refine ⟨hcap.trans hcapacity, ?_, fun x hx => ?_⟩
    · have hlength := length_others_lt hmem
      have hbounded := m.bounded
      rw [hcapacity] at hbounded
      obtain ⟨n, hn⟩ := Nat.exists_eq_succ_of_ne_zero
        (Nat.zero_lt_of_lt (hlength.trans_le hbounded)).ne'
      have hle : (others k m.entries).length ≤ n := by omega
      rw [hget, recency_concat, List.map_cons, hothers, hkeys, hn, List.take_succ_cons,
        Nat.succ_eq_add_one, ← take_filter_take (nodup_recency uses)]
      refine congrArg _ (List.take_of_length_le ?_).symm
      rw [← Nat.succ_eq_add_one, ← hn, ← hkeys, ← hothers, List.length_map]
      exact hle
    · have hhit (w : υ) : (Use.hit k : Use κ υ) ≠ .put x.1 w := by simp
      rw [hget] at hx
      rcases List.mem_cons.mp hx with rfl | hx
      · exact (hlast _ hmem).concat hhit
      · exact (hlast x (List.mem_of_mem_filter hx)).concat hhit

/-- What a cache holds, exactly. -/
theorem Uses.peek_iff {capacity : ℕ} {uses : List (Use κ υ)} {m : LruCache κ υ}
    (h : Uses capacity uses m) {k : κ} {v : υ} :
    m.peek k = some v ↔ LastPut uses k v ∧ Recent capacity uses k := by
  obtain ⟨-, hkeys, hlast⟩ := h.entries
  constructor
  · intro hv
    have hmem := mem_of_peek hv
    refine ⟨hlast _ hmem, mem_take_recency.mp ?_⟩
    rw [← hkeys]
    exact List.mem_map_of_mem hmem
  · rintro ⟨hput, hrecent⟩
    rw [← mem_take_recency, ← hkeys] at hrecent
    obtain ⟨x, hx, rfl⟩ := List.mem_map.mp hrecent
    obtain ⟨w, hw⟩ := Option.isSome_iff_exists.mp
      (List.lookup_isSome_iff.mpr ⟨x, hx, beq_self_eq_true x.1⟩)
    have hput' := hlast _ (mem_of_peek hw)
    rw [peek, hw, hput.unique hput']

end LruCache
