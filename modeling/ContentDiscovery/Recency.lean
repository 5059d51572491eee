import Mathlib.Data.Finset.Card
import Mathlib.Data.List.Nodup

/-!
# Lists by recency

A bounded list whose entries have keys, the most recent ones first. Entries that come replace
the ones with their keys and are put in front; what is too much is forgotten (`front`). Entries
may also go, or change without moving.

* `Ahead` — an entry is in the list, and what is before it has keys of a set. As long as the set
  is small, the entry is not forgotten (`Ahead.front`).
* `Ordered` — the entries stand in the order in which a list names their keys.
* `push` — distinct names, in the order in which they came.
* `filter_front` — entries at the end that do not count any more do not decide what is forgotten.
* `Since` — an event of a history, and what came after it.
-/

universe u v

namespace Recency

variable {α : Type u} {κ : Type v} [DecidableEq κ] {key : α → κ} {n : ℕ}
  {new old l : List α} {x : α} {s s' : Finset κ} {p : α → Bool}

/-- New entries come to the front of the old ones and replace those with the same keys; of all
of them, the first ones are kept. -/
def front (key : α → κ) (n : ℕ) (new old : List α) : List α :=
  (new ++ old.filter fun x => key x ∉ new.map key).take n

theorem length_front_le : (front key n new old).length ≤ n := List.length_take_le _ _

theorem mem_of_mem_front (h : x ∈ front key n new old) :
    x ∈ new ∨ x ∈ old ∧ key x ∉ new.map key := by
  rcases List.mem_append.mp (List.mem_of_mem_take h) with h | h
  · exact .inl h
  · rw [List.mem_filter, decide_eq_true_eq] at h
    exact .inr h

/-- Before some are forgotten, all keys are different. -/
theorem nodup_append_filter (hnew : (new.map key).Nodup) (hold : (old.map key).Nodup) :
    ((new ++ old.filter fun x => key x ∉ new.map key).map key).Nodup := by
  rw [List.map_append, List.nodup_append]
  refine ⟨hnew, hold.sublist (List.filter_sublist.map key), fun a ha b hb heq => ?_⟩
  obtain ⟨y, hy, rfl⟩ := List.mem_map.mp hb
  rw [List.mem_filter, decide_eq_true_eq] at hy
  exact hy.2 (heq ▸ ha)

theorem nodup_front (hnew : (new.map key).Nodup) (hold : (old.map key).Nodup) :
    ((front key n new old).map key).Nodup :=
  (nodup_append_filter hnew hold).sublist ((List.take_sublist _ _).map key)

/-! ## What is kept -/

/-- The entry is in the list, and the entries before it have keys of the set. -/
def Ahead (key : α → κ) (x : α) (s : Finset κ) (l : List α) : Prop :=
  ∃ l₁ l₂, l = l₁ ++ x :: l₂ ∧ ∀ y ∈ l₁, key y ∈ s

omit [DecidableEq κ] in
theorem Ahead.mem (h : Ahead key x s l) : x ∈ l := by
  obtain ⟨l₁, l₂, rfl, -⟩ := h
  exact List.mem_append_right l₁ List.mem_cons_self

omit [DecidableEq κ] in
theorem Ahead.mono (h : Ahead key x s l) (hle : s ⊆ s') : Ahead key x s' l := by
  obtain ⟨l₁, l₂, heq, hs⟩ := h
  exact ⟨l₁, l₂, heq, fun y hy => hle (hs y hy)⟩

omit [DecidableEq κ] in
/-- Other entries go. -/
theorem Ahead.filter (h : Ahead key x s l) (hx : p x = true) : Ahead key x s (l.filter p) := by
  obtain ⟨l₁, l₂, rfl, hs⟩ := h
  refine ⟨l₁.filter p, l₂.filter p, ?_, fun y hy => hs y (List.mem_of_mem_filter hy)⟩
  rw [List.filter_append, List.filter_cons_of_pos hx]

omit [DecidableEq κ] in
/-- Entries change, but not their keys. -/
theorem Ahead.map {f : α → α} (h : Ahead key x s l) (hf : ∀ y, key (f y) = key y) :
    Ahead key (f x) s (l.map f) := by
  obtain ⟨l₁, l₂, rfl, hs⟩ := h
  refine ⟨l₁.map f, l₂.map f, ?_, fun y hy => ?_⟩
  · rw [List.map_append, List.map_cons]
  · obtain ⟨z, hz, rfl⟩ := List.mem_map.mp hy
    rw [hf]
    exact hs z hz

omit [DecidableEq κ] in
/-- What is not too far behind is kept. -/
theorem ahead_take {l₁ l₂ : List α} (hlt : l₁.length < n) (hs : ∀ y ∈ l₁, key y ∈ s) :
    Ahead key x s ((l₁ ++ x :: l₂).take n) := by
  obtain ⟨m, hm⟩ := Nat.exists_eq_add_of_lt hlt
  refine ⟨l₁, l₂.take m, ?_, hs⟩
  rw [hm, Nat.add_assoc, List.take_length_add_append, List.take_succ_cons]

/-- An entry with a few keys before it is kept when new ones come, as long as these and the new
keys are not too many. -/
theorem Ahead.front (h : Ahead key x s old) (hnew : (new.map key).Nodup)
    (hold : (old.map key).Nodup) (hx : key x ∉ new.map key)
    (hcard : (((new.map key).toFinset ∪ s).erase (key x)).card < n) :
    Ahead key x ((new.map key).toFinset ∪ s) (Recency.front key n new old) := by
  obtain ⟨l₁, l₂, rfl, hs⟩ := h
  have hall := nodup_append_filter hnew hold
  have hsplit : new ++ (l₁ ++ x :: l₂).filter (fun x => key x ∉ new.map key) =
      (new ++ l₁.filter fun x => key x ∉ new.map key) ++
        x :: l₂.filter fun x => key x ∉ new.map key := by
    have hkept : decide (key x ∉ new.map key) = true := decide_eq_true hx
    rw [List.filter_append, List.filter_cons, if_pos hkept, List.append_assoc]
  rw [Recency.front, hsplit]
  rw [hsplit, List.map_append, List.map_cons, List.nodup_append] at hall
  generalize hfirst : new ++ l₁.filter (fun x => key x ∉ new.map key) = first at hall ⊢
  have hkeys : ∀ y ∈ first, key y ∈ (new.map key).toFinset ∪ s := by
    intro y hy
    rw [← hfirst, List.mem_append, List.mem_filter] at hy
    rw [Finset.mem_union, List.mem_toFinset]
    rcases hy with hy | ⟨hy, -⟩
    · exact .inl (List.mem_map_of_mem hy)
    · exact .inr (hs y hy)
  refine ahead_take ?_ hkeys
  -- the keys before the entry are different ones of the set, and none of them is its own
  have hsub : (first.map key).toFinset ⊆ ((new.map key).toFinset ∪ s).erase (key x) := by
    intro k hk
    rw [List.mem_toFinset] at hk
    refine Finset.mem_erase.mpr ⟨hall.2.2 k hk (key x) List.mem_cons_self, ?_⟩
    obtain ⟨y, hy, rfl⟩ := List.mem_map.mp hk
    exact hkeys y hy
  calc
    first.length = (first.map key).length := (List.length_map key).symm
    _ = (first.map key).toFinset.card := (List.toFinset_card_of_nodup hall.1).symm
    _ ≤ _ := Finset.card_le_card hsub
    _ < n := hcard

/-- So is a new entry, unless too many come with it. -/
theorem ahead_front_new {l₁ l₂ : List α} (hnew : new = l₁ ++ x :: l₂) (hlt : l₁.length < n) :
    Ahead key x (l₁.map key).toFinset (front key n new old) := by
  rw [front, hnew, List.append_assoc, List.cons_append]
  refine ahead_take hlt fun y hy => ?_
  rw [List.mem_toFinset]
  exact List.mem_map_of_mem hy

/-! ## The order -/

/-- The entries stand in the order of their keys in a list, by where these are named first. -/
def Ordered (key : α → κ) (names : List κ) (l : List α) : Prop :=
  (l.map key).Pairwise fun a b => names.idxOf a < names.idxOf b

theorem Ordered.sublist {names : List κ} {l' : List α} (h : Ordered key names l)
    (hsub : l'.Sublist l) : Ordered key names l' :=
  List.Pairwise.sublist (hsub.map key) h

/-- New entries are in front, in their own order. -/
theorem Ordered.front {names names' : List κ} (h : Ordered key names old)
    (hnew : Ordered key names' new) (hmem : ∀ k, k ∈ names' ↔ k ∈ new.map key) :
    Ordered key (names' ++ names) (Recency.front key n new old) := by
  suffices hall : Ordered key (names' ++ names)
      (new ++ old.filter fun x => key x ∉ new.map key) from
    hall.sublist (List.take_sublist _ _)
  rw [Ordered, List.map_append, List.pairwise_append]
  have hbehind : ∀ b ∈ (old.filter fun x => key x ∉ new.map key).map key,
      (names' ++ names).idxOf b = names'.length + names.idxOf b := by
    intro b hb
    obtain ⟨y, hy, rfl⟩ := List.mem_map.mp hb
    rw [List.mem_filter, decide_eq_true_eq, ← hmem] at hy
    exact List.idxOf_append_of_notMem hy.2
  have hahead : ∀ a ∈ new.map key, (names' ++ names).idxOf a = names'.idxOf a :=
    fun a ha => List.idxOf_append_of_mem ((hmem a).mpr ha)
  refine ⟨?_, ?_, fun a ha b hb => ?_⟩
  · refine List.Pairwise.imp_of_mem (fun {a b} ha hb hlt => ?_) hnew
    rw [hahead a ha, hahead b hb]
    exact hlt
  · have hkept : Ordered key names (old.filter fun x => key x ∉ new.map key) :=
      h.sublist List.filter_sublist
    refine List.Pairwise.imp_of_mem (fun {a b} ha hb hlt => ?_) hkept
    rw [hbehind a ha, hbehind b hb]
    exact Nat.add_lt_add_left hlt _
  · rw [hahead a ha, hbehind b hb]
    exact (List.idxOf_lt_length_iff.mpr ((hmem a).mpr ha)).trans_le (Nat.le_add_right _ _)

/-! ## Distinct names -/

/-- A name is added at the end, unless it is there. -/
def push (names : List κ) (k : κ) : List κ := if k ∈ names then names else names ++ [k]

theorem mem_push {names : List κ} {k k' : κ} : k' ∈ push names k ↔ k' ∈ names ∨ k' = k := by
  rw [push]
  split
  · rename_i hk
    refine ⟨.inl, ?_⟩
    rintro (h | rfl)
    · exact h
    · exact hk
  · rw [List.mem_append, List.mem_singleton]

theorem mem_foldl_push {names acc : List κ} {k : κ} :
    k ∈ names.foldl push acc ↔ k ∈ acc ∨ k ∈ names := by
  induction names generalizing acc with
  | nil => simp
  | cons k' names ih => rw [List.foldl_cons, ih, mem_push, List.mem_cons, or_assoc]

theorem nodup_foldl_push (names : List κ) : (names.foldl push []).Nodup := by
  induction names using List.reverseRecOn with
  | nil => exact List.nodup_nil
  | append_singleton names k ih =>
    rw [List.foldl_concat, push]
    split
    · exact ih
    · rename_i hk
      refine List.nodup_append.mpr ⟨ih, List.nodup_singleton _, fun a ha b hb => ?_⟩
      rw [List.mem_singleton.mp hb]
      exact ne_of_mem_of_not_mem ha hk

/-- The distinct names stand in the order in which they were named first. -/
theorem pairwise_foldl_push (names : List κ) :
    (names.foldl push []).Pairwise fun a b => names.idxOf a < names.idxOf b := by
  induction names using List.reverseRecOn with
  | nil => exact List.Pairwise.nil
  | append_singleton names k ih =>
    have hold : ∀ a ∈ names.foldl push [], a ∈ names := by
      intro a ha
      exact (mem_foldl_push.mp ha).resolve_left List.not_mem_nil
    have hkept : (names.foldl push []).Pairwise
        fun a b => (names ++ [k]).idxOf a < (names ++ [k]).idxOf b := by
      refine List.Pairwise.imp_of_mem (fun {a b} ha hb hlt => ?_) ih
      rw [List.idxOf_append_of_mem (hold a ha), List.idxOf_append_of_mem (hold b hb)]
      exact hlt
    rw [List.foldl_concat, push]
    split
    · exact hkept
    · rename_i hk
      have hnew : k ∉ names := fun h => hk (mem_foldl_push.mpr (.inr h))
      refine List.pairwise_append.mpr ⟨hkept, List.pairwise_singleton _ _, fun a ha b hb => ?_⟩
      rw [List.mem_singleton.mp hb, List.idxOf_append_of_mem (hold a ha),
        List.idxOf_append_of_notMem hnew]
      exact (List.idxOf_lt_length_iff.mpr (hold a ha)).trans_le (Nat.le_add_right _ _)

/-! ## What does not count -/

/-- If what does not count comes last, it is all the same whether it is dropped before or after
some are taken. -/
theorem filter_take (h : l.Pairwise fun a b => p b = true → p a = true) (n : ℕ) :
    (l.take n).filter p = (l.filter p).take n := by
  induction l generalizing n with
  | nil => rw [List.take_nil, List.filter_nil, List.take_nil]
  | cons a l ih =>
    rw [List.pairwise_cons] at h
    cases n with
    | zero => rfl
    | succ n =>
      cases ha : p a with
      | true =>
        rw [List.take_succ_cons, List.filter_cons_of_pos ha, List.filter_cons_of_pos ha,
          List.take_succ_cons, ih h.2]
      | false =>
        have hnone : l.filter p = [] := by
          refine List.filter_eq_nil_iff.mpr fun b hb hp => ?_
          exact Bool.false_ne_true (ha.symm.trans (h.1 b hb hp))
        have hnot : ¬ p a = true := by
          rw [ha]
          exact Bool.false_ne_true
        rw [List.take_succ_cons, List.filter_cons_of_neg hnot, List.filter_cons_of_neg hnot, hnone,
          ih h.2, hnone, List.take_nil, List.take_nil]

/-- New entries that count come to the front of old ones, of which those that count are first. -/
theorem filter_front (hnew : ∀ x ∈ new, p x = true)
    (hold : old.Pairwise fun a b => p b = true → p a = true) :
    (front key n new old).filter p = front key n new (old.filter p) := by
  have hall : (new ++ old.filter fun x => key x ∉ new.map key).Pairwise
      fun a b => p b = true → p a = true := by
    refine List.pairwise_append.mpr ⟨?_, hold.sublist List.filter_sublist, ?_⟩
    · exact List.pairwise_of_forall_mem_list fun a ha b _ _ => hnew a ha
    · exact fun a ha b _ _ => hnew a ha
  rw [front, filter_take hall, front, List.filter_append, List.filter_eq_self.mpr hnew,
    List.filter_filter, List.filter_filter]
  congr 3
  funext x
  exact Bool.and_comm _ _

/-! ## Histories -/

/-- The event is in the history, and what came after it meets a condition. -/
def Since (C : α → Prop) (x : α) (l : List α) : Prop :=
  ∃ before later, l = before ++ x :: later ∧ ∀ y ∈ later, C y

omit [DecidableEq κ] in
theorem not_since_nil {C : α → Prop} : ¬ Since C x [] := by
  rintro ⟨before, later, heq, -⟩
  cases before <;> cases heq

omit [DecidableEq κ] in
theorem since_concat {C : α → Prop} {y : α} : Since C x (l ++ [y]) ↔ x = y ∨ Since C x l ∧ C y := by
  constructor
  · rintro ⟨before, later, heq, hlater⟩
    rcases List.eq_nil_or_concat later with rfl | ⟨later, z, rfl⟩
    · exact .inl (List.singleton_inj.mp (List.append_inj' heq rfl).2).symm
    · rw [List.concat_eq_append, ← List.cons_append, ← List.append_assoc] at heq
      obtain ⟨rfl, hlast⟩ := List.append_inj' heq rfl
      obtain rfl := List.singleton_inj.mp hlast
      rw [List.concat_eq_append] at hlater
      exact .inr ⟨⟨before, later, rfl, fun w hw => hlater w (List.mem_append_left _ hw)⟩,
        hlater y (List.mem_append_right _ List.mem_cons_self)⟩
  · rintro (rfl | ⟨⟨before, later, rfl, hlater⟩, hy⟩)
    · exact ⟨l, [], rfl, fun _ h => nomatch h⟩
    · refine ⟨before, later ++ [y], by simp, fun w hw => ?_⟩
      rcases List.mem_append.mp hw with hw | hw
      · exact hlater w hw
      · rw [List.mem_singleton.mp hw]
        exact hy

end Recency
