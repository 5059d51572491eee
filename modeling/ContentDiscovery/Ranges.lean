import ContentDiscovery.Intervals
import ContentDiscovery.Str

/-!
# Byte ranges

`iroh-link-gateway/src/ranges.rs`: which bytes of a blob a `Range` header asks for.
`Malformed` and `Selects` say what a part of the header means, in terms of positions
that are natural numbers; `select_spec` compares `select` with them.
-/

namespace ContentDiscovery

namespace Ranges

/-- `Selection`. -/
inductive Selection where
  /-- the whole blob -/
  | full
  /-- `Partial`: these ranges of it -/
  | part (ranges : List (HalfOpen UInt64))
  /-- no byte of it -/
  | unsatisfiable
  deriving DecidableEq

/-- The closure `number`: a `u64` of digits only. -/
def number (s : Str) : Option UInt64 :=
  if s = [] ∨ ¬ s.all Char.isDigit then none else Str.parseU64 s

/-- The end of a range that has a start: the last byte, if there is one, is included. -/
def stopOf (start : UInt64) (last : Str) (size : UInt64) : Option UInt64 :=
  if last = [] then some size
  else
    match number last with
    | none => none
    | some last => if last < start then none else some (min (saturatingAdd last 1) size)

/-- `single`: one part of the header. -/
def single (value : Str) (size : UInt64) : Selection :=
  match Str.splitOnce '-' value with
  | none => .full
  | some (start, last) =>
    if start = [] then
      match number last with
      | none => .full
      | some suffix =>
        if suffix = 0 ∨ size = 0 then .unsatisfiable
        else .part [⟨saturatingSub size suffix, size⟩]
    else
      match number start with
      | none => .full
      | some start =>
        match stopOf start last size with
        | none => .full
        | some stop => if size ≤ start then .unsatisfiable else .part [⟨start, stop⟩]

/-- The key by which `merge` sorts. -/
def ordered (a b : HalfOpen UInt64) : Bool :=
  a.start < b.start ∨ a.start = b.start ∧ a.stop ≤ b.stop

/-- `merge`: merges overlapping and adjacent ranges, keeping ascending order. -/
def merge (ranges : List (HalfOpen UInt64)) : List (HalfOpen UInt64) :=
  HalfOpen.sweep (ranges.mergeSort ordered)

/-- The loop of `select` over the parts, from the part `index` on. -/
def selectParts (size : UInt64) :
    (index : ℕ) → (ranges : List (HalfOpen UInt64)) → List Str → Selection
  | _, ranges, [] => if ranges = [] then .unsatisfiable else .part (merge ranges)
  | index, ranges, value :: parts =>
    if 16 ≤ index then .full
    else
      match single value.trim size with
      | .full => .full
      | .part rs => selectParts size (index + 1) (ranges ++ rs) parts
      | .unsatisfiable => selectParts size (index + 1) ranges parts

/-- The unit of a header that is not ignored. -/
def UNIT : Str := ['b', 'y', 't', 'e', 's', '=']

/-- `select`: the byte ranges to serve for a `Range` header. -/
def select (value : Option Str) (size : UInt64) : Selection :=
  match value.bind fun s => UNIT.isPrefixOf? s with
  | none => .full
  | some value => selectParts size 0 [] (value.splitOn ',')

/-! ## What a header means -/

/-- A decimal number below `2 ^ 64`. -/
def IsNumber (s : Str) (n : ℕ) : Prop :=
  s ≠ [] ∧ (∀ c ∈ s, c.isDigit) ∧ s.decimal = n ∧ n < 2 ^ 64

/-- The part has no dash, or a number in it is not one, or both are missing, or the
last byte comes before the first. -/
def Malformed (value : Str) : Prop :=
  '-' ∉ value ∨ ∃ a b, value = a ++ '-' :: b ∧ '-' ∉ a ∧
    (a = [] ∧ b = [] ∨ (a ≠ [] ∧ ∀ n, ¬ IsNumber a n) ∨ (b ≠ [] ∧ ∀ n, ¬ IsNumber b n) ∨
      ∃ first last, IsNumber a first ∧ IsNumber b last ∧ last < first)

/-- The part selects position `i` of a blob: it lies between two positions, or from one
on, or among the last so many. -/
def Selects (size : ℕ) (value : Str) (i : ℕ) : Prop :=
  i < size ∧ ∃ a b, value = a ++ '-' :: b ∧ '-' ∉ a ∧
    ((∃ first last, IsNumber a first ∧ IsNumber b last ∧ first ≤ i ∧ i ≤ last) ∨
      (∃ first, IsNumber a first ∧ b = [] ∧ first ≤ i) ∨
      ∃ suffix, a = [] ∧ IsNumber b suffix ∧ size - suffix ≤ i)

/-- The parts of a header. -/
def HeaderParts (value : Option Str) (parts : List Str) : Prop :=
  ∃ rest, value = some (UNIT ++ rest) ∧ parts = (rest.splitOn ',').map Str.trim

theorem number_eq_some {s : Str} {n : UInt64} : number s = some n ↔ IsNumber s n.toNat := by
  have hplus (h : s.all Char.isDigit) : s.head? ≠ some '+' := by
    intro heq
    have hmem := List.mem_of_mem_head? (Option.mem_def.mpr heq)
    have hdigit := List.all_eq_true.mp h _ hmem
    simp at hdigit
  rw [number, IsNumber]
  split
  · rename_i h
    refine ⟨fun h' => (nomatch h'), ?_⟩
    rintro ⟨hne, hdigits, -⟩
    rcases h with h | h
    · exact absurd h hne
    · exact absurd (List.all_eq_true.mpr hdigits) h
  · rename_i h
    simp only [not_or, not_not] at h
    obtain ⟨hne, hdigits⟩ := h
    have hcond : ¬ (s = [] ∨ ¬ s.all Char.isDigit) := by
      rw [not_or, not_not]
      exact ⟨hne, hdigits⟩
    simp only [Str.parseU64, if_neg (hplus hdigits), if_neg hcond]
    split
    · rename_i hlt
      rw [Option.some_inj]
      refine ⟨?_, ?_⟩
      · rintro rfl
        rw [UInt64.toNat_ofNat_of_lt' hlt]
        exact ⟨hne, List.all_eq_true.mp hdigits, rfl, hlt⟩
      · rintro ⟨-, -, heq, -⟩
        rw [heq, UInt64.ofNat_toNat]
    · rename_i hge
      refine ⟨fun h => (nomatch h), ?_⟩
      rintro ⟨-, -, heq, hlt⟩
      exact absurd (heq ▸ hlt) hge

theorem number_eq_none {s : Str} : number s = none ↔ ∀ n, ¬ IsNumber s n := by
  refine ⟨fun h n hn => ?_, fun h => ?_⟩
  · have hlt := hn.2.2.2
    have hsome : number s = some (.ofNat n) := by
      rw [number_eq_some, UInt64.toNat_ofNat_of_lt' hlt]
      exact hn
    rw [h] at hsome
    cases hsome
  · cases hnumber : number s with
    | none => rfl
    | some n => exact absurd (number_eq_some.mp hnumber) (h _)

theorem IsNumber.unique {s : Str} {m n : ℕ} (h : IsNumber s m) (h' : IsNumber s n) : m = n :=
  h.2.2.1.symm.trans h'.2.2.1

theorem strictMono_toNat : StrictMono UInt64.toNat := fun _ _ => UInt64.lt_iff_toNat_lt.mp

/-! ## One part -/

variable {value a b : Str} {size : UInt64}

/-- Where a part is cut. -/
theorem cut_iff (h : Str.splitOnce '-' value = some (a, b)) {P : Str → Str → Prop} :
    (∃ a b, value = a ++ '-' :: b ∧ '-' ∉ a ∧ P a b) ↔ P a b := by
  constructor
  · rintro ⟨a', b', heq, hnot, hp⟩
    have h' := Str.splitOnce_eq_some.mpr ⟨heq, hnot⟩
    rw [h] at h'
    cases h'
    exact hp
  · intro hp
    obtain ⟨heq, hnot⟩ := Str.splitOnce_eq_some.mp h
    exact ⟨a, b, heq, hnot, hp⟩

theorem malformed_iff (h : Str.splitOnce '-' value = some (a, b)) :
    Malformed value ↔
      a = [] ∧ b = [] ∨ (a ≠ [] ∧ number a = none) ∨ (b ≠ [] ∧ number b = none) ∨
        ∃ first last, number a = some first ∧ number b = some last ∧ last < first := by
  have hdash : ¬ '-' ∉ value := by
    rw [← Str.splitOnce_eq_none, h]
    exact fun h => (nomatch h)
  have hlast : (∃ first last, IsNumber a first ∧ IsNumber b last ∧ last < first) ↔
      ∃ first last, number a = some first ∧ number b = some last ∧ last < first := by
    constructor
    · rintro ⟨first, last, ha, hb, hlt⟩
      refine ⟨.ofNat first, .ofNat last, ?_, ?_, ?_⟩
      · rwa [number_eq_some, UInt64.toNat_ofNat_of_lt' ha.2.2.2]
      · rwa [number_eq_some, UInt64.toNat_ofNat_of_lt' hb.2.2.2]
      · rwa [UInt64.lt_iff_toNat_lt, UInt64.toNat_ofNat_of_lt' ha.2.2.2,
          UInt64.toNat_ofNat_of_lt' hb.2.2.2]
    · rintro ⟨first, last, ha, hb, hlt⟩
      exact ⟨_, _, number_eq_some.mp ha, number_eq_some.mp hb, UInt64.lt_iff_toNat_lt.mp hlt⟩
  rw [Malformed, or_iff_right hdash, cut_iff h, hlast, number_eq_none, number_eq_none]

theorem selects_iff (h : Str.splitOnce '-' value = some (a, b)) {n i : ℕ} :
    Selects n value i ↔
      i < n ∧ ((∃ first last, IsNumber a first ∧ IsNumber b last ∧ first ≤ i ∧ i ≤ last) ∨
        (∃ first, IsNumber a first ∧ b = [] ∧ first ≤ i) ∨
          ∃ suffix, a = [] ∧ IsNumber b suffix ∧ n - suffix ≤ i) := by
  rw [Selects, cut_iff h]

/-- What `single` returns for a part. -/
def Means (value : Str) (size : UInt64) : Selection → Prop
  | .full => Malformed value
  | .unsatisfiable => ¬ Malformed value ∧ ∀ i, ¬ Selects size.toNat value i
  | .part rs => ¬ Malformed value ∧ ∃ r : HalfOpen UInt64, rs = [r] ∧ r.start < r.stop ∧
      r.stop ≤ size ∧ ∀ i, Selects size.toNat value i ↔ r.start.toNat ≤ i ∧ i < r.stop.toNat

/-- The last so many bytes. -/
theorem suffix_spec (h : Str.splitOnce '-' value = some ([], b)) {suffix : UInt64}
    (hb : number b = some suffix) :
    Means value size
      (if suffix = 0 ∨ size = 0 then .unsatisfiable
        else .part [⟨saturatingSub size suffix, size⟩]) := by
  have hne : b ≠ [] := (number_eq_some.mp hb).1
  have hempty (n : ℕ) : ¬ IsNumber [] n := fun h => h.1 rfl
  have hempty' (n : UInt64) : number [] ≠ some n := fun h => hempty _ (number_eq_some.mp h)
  have hwell : ¬ Malformed value := by
    rw [malformed_iff h, hb]
    simp [hne, hempty']
  have hselects (i : ℕ) :
      Selects size.toNat value i ↔ i < size.toNat ∧ size.toNat - suffix.toNat ≤ i := by
    rw [selects_iff h]
    refine and_congr_right fun _ => ⟨?_, fun h => ?_⟩
    · rintro (⟨_, _, h, -⟩ | ⟨_, h, -⟩ | ⟨n, -, hn, hle⟩)
      · exact absurd h (hempty _)
      · exact absurd h (hempty _)
      · rwa [(number_eq_some.mp hb).unique hn]
    · exact .inr (.inr ⟨_, rfl, number_eq_some.mp hb, h⟩)
  split
  · rename_i hzero
    refine ⟨hwell, fun i => ?_⟩
    rw [hselects i]
    rcases hzero with rfl | rfl
    · simp
    · simp
  · rename_i hpos
    rw [not_or, ← UInt64.toNat_inj, ← UInt64.toNat_inj, UInt64.toNat_zero] at hpos
    refine ⟨hwell, _, rfl, ?_, UInt64.le_refl _, fun i => ?_⟩
    · change saturatingSub size suffix < size
      rw [UInt64.lt_iff_toNat_lt, toNat_saturatingSub]
      omega
    · rw [hselects i, toNat_saturatingSub, and_comm]

/-- From one position on, up to another one if there is one. -/
theorem bounded_spec (h : Str.splitOnce '-' value = some (a, b)) {start : UInt64}
    (ha : number a = some start) :
    Means value size
      (match stopOf start b size with
      | none => .full
      | some stop => if size ≤ start then .unsatisfiable else .part [⟨start, stop⟩]) := by
  have hne : a ≠ [] := (number_eq_some.mp ha).1
  have hstart := number_eq_some.mp ha
  -- with a stop, the part selects what lies between
  have hmeans (stop : UInt64) (hwell : ¬ Malformed value) (hle : stop ≤ size)
      (hlt : start < size → start < stop)
      (hselects : ∀ i, Selects size.toNat value i ↔ start.toNat ≤ i ∧ i < stop.toNat) :
      Means value size (if size ≤ start then .unsatisfiable else .part [⟨start, stop⟩]) := by
    split
    · rename_i hge
      refine ⟨hwell, fun i hi => ?_⟩
      obtain ⟨h₁, h₂⟩ := (hselects i).mp hi
      rw [UInt64.le_iff_toNat_le] at hge hle
      omega
    · rename_i hge
      exact ⟨hwell, _, rfl, hlt (not_le.mp hge), hle, hselects⟩
  rw [stopOf]
  by_cases hb : b = []
  · rw [if_pos hb]
    subst hb
    refine hmeans size ?_ (UInt64.le_refl _) id fun i => ?_
    · rw [malformed_iff h, ha]
      simp [hne, number]
    · rw [selects_iff h, and_comm]
      refine and_congr_left fun _ => ⟨?_, fun h => .inr (.inl ⟨_, hstart, rfl, h⟩)⟩
      rintro (⟨_, _, -, h, -⟩ | ⟨n, hn, -, hle⟩ | ⟨_, h, -⟩)
      · exact absurd rfl h.1
      · rwa [hstart.unique hn]
      · exact absurd h hne
  · rw [if_neg hb]
    cases hlast : number b with
    | none => exact (malformed_iff h).mpr (.inr (.inr (.inl ⟨hb, hlast⟩)))
    | some last =>
      simp only
      by_cases hlt : last < start
      · rw [if_pos hlt]
        exact (malformed_iff h).mpr (.inr (.inr (.inr ⟨start, last, ha, hlast, hlt⟩)))
      · rw [if_neg hlt]
        have hge := hlt
        rw [not_lt, UInt64.le_iff_toNat_le] at hge
        have hmin : (min (saturatingAdd last 1) size).toNat =
            min (last.toNat + 1) size.toNat := by
          have hmax := UInt64.toNat_lt size
          rw [strictMono_toNat.monotone.map_min, toNat_saturatingAdd, UInt64.toNat_one]
          omega
        refine hmeans _ ?_ (min_le_right _ _) ?_ fun i => ?_
        · rw [malformed_iff h, ha, hlast]
          simp [hb, hne, UInt64.le_iff_toNat_le, hge]
        · intro hlt
          rw [UInt64.lt_iff_toNat_lt] at hlt ⊢
          omega
        · rw [selects_iff h, hmin]
          constructor
          · rintro ⟨hi, ⟨m, n, hm, hn, hmi, hin⟩ | ⟨_, -, h, -⟩ | ⟨_, h, -⟩⟩
            · rw [hm.unique hstart] at hmi
              rw [hn.unique (number_eq_some.mp hlast)] at hin
              omega
            · exact absurd h hb
            · exact absurd h hne
          · rintro ⟨hi, hlt⟩
            exact ⟨by omega, .inl ⟨_, _, hstart, number_eq_some.mp hlast, hi, by omega⟩⟩

/-- One part of a header means what `single` makes of it. -/
theorem single_spec (value : Str) (size : UInt64) : Means value size (single value size) := by
  rw [single]
  cases h : Str.splitOnce '-' value with
  | none => exact .inl (Str.splitOnce_eq_none.mp h)
  | some p =>
    obtain ⟨a, b⟩ := p
    simp only
    split
    · rename_i hnil
      subst hnil
      cases hb : number b with
      | none =>
        rw [Means, malformed_iff h, hb]
        by_cases hnil : b = []
        · exact .inl ⟨rfl, hnil⟩
        · exact .inr (.inr (.inl ⟨hnil, rfl⟩))
      | some suffix => exact suffix_spec h hb
    · rename_i hne
      cases ha : number a with
      | none => exact (malformed_iff h).mpr (.inr (.inl ⟨hne, ha⟩))
      | some start => exact bounded_spec h ha

/-! ## All parts -/

variable {index : ℕ} {ranges : List (HalfOpen UInt64)} {parts : List Str}

theorem selectParts_eq_full (hindex : index ≤ 16) :
    selectParts size index ranges parts = .full ↔
      16 < index + parts.length ∨ ∃ p ∈ parts, Malformed p.trim := by
  induction parts generalizing index ranges with
  | nil =>
    rw [selectParts]
    split <;> simp [hindex]
  | cons value parts ih =>
    rw [selectParts, List.length_cons]
    by_cases hge : 16 ≤ index
    · rw [if_pos hge]
      exact iff_of_true rfl (.inl (by omega))
    have hspec := single_spec value.trim size
    have hrest (hwell : ¬ Malformed value.trim) (ranges : List (HalfOpen UInt64)) :
        selectParts size (index + 1) ranges parts = .full ↔
          16 < index + (parts.length + 1) ∨ ∃ p ∈ value :: parts, Malformed p.trim := by
      rw [ih (by omega), List.exists_mem_cons_iff, or_iff_right hwell, Nat.add_assoc,
        Nat.add_comm 1]
    rw [if_neg hge]
    cases h : single value.trim size with
    | full =>
      rw [h] at hspec
      exact iff_of_true rfl (.inr ⟨value, List.mem_cons_self, hspec⟩)
    | part rs =>
      rw [h] at hspec
      exact hrest hspec.1 _
    | unsatisfiable =>
      rw [h] at hspec
      exact hrest hspec.1 _

/-- The loop collects ranges that cover what the parts select. -/
theorem selectParts_collects (h : selectParts size index ranges parts ≠ .full) :
    ∃ rs, selectParts size index ranges parts =
        (if ranges ++ rs = [] then .unsatisfiable else .part (merge (ranges ++ rs))) ∧
      rs.length ≤ parts.length ∧ (∀ r ∈ rs, r.start < r.stop ∧ r.stop ≤ size) ∧
        ∀ i, HalfOpen.Covers UInt64.toNat rs i ↔ ∃ p ∈ parts, Selects size.toNat p.trim i := by
  induction parts generalizing index ranges with
  | nil =>
    refine ⟨[], ?_, le_rfl, fun _ h => (nomatch h), fun i => by simp⟩
    rw [List.append_nil, selectParts]
  | cons value parts ih =>
    have hspec := single_spec value.trim size
    rw [selectParts] at h ⊢
    split at h
    · exact absurd rfl h
    rename_i hlt
    rw [if_neg hlt]
    cases hsingle : single value.trim size with
    | full =>
      rw [hsingle] at h
      exact absurd rfl h
    | unsatisfiable =>
      rw [hsingle] at h hspec
      obtain ⟨rs, heq, hlen, hin, hcovers⟩ := ih h
      refine ⟨rs, heq, hlen.trans (Nat.le_succ _), hin, fun i => ?_⟩
      rw [hcovers, List.exists_mem_cons_iff, or_iff_right (hspec.2 i)]
    | part rs₁ =>
      rw [hsingle] at h hspec
      obtain ⟨-, r, rfl, hlt, hle, hselects⟩ := hspec
      obtain ⟨rs, heq, hlen, hin, hcovers⟩ := ih h
      refine ⟨r :: rs, ?_, Nat.succ_le_succ hlen, ?_, fun i => ?_⟩
      · rw [List.append_cons]
        exact heq
      · rw [List.forall_mem_cons]
        exact ⟨⟨hlt, hle⟩, hin⟩
      · rw [List.exists_mem_cons_iff, hselects, ← hcovers, HalfOpen.Covers,
          List.exists_mem_cons_iff]
        rfl

/-- What a merged list of collected ranges keeps. -/
theorem merge_spec (hin : ∀ r ∈ ranges, r.start < r.stop ∧ r.stop ≤ size) :
    HalfOpen.Merged (merge ranges) ∧ (∀ r ∈ merge ranges, r.stop ≤ size) ∧
      (merge ranges).length ≤ ranges.length ∧
        ∀ i, HalfOpen.Covers UInt64.toNat (merge ranges) i ↔
          HalfOpen.Covers UInt64.toNat ranges i := by
  have hperm := List.mergeSort_perm ranges ordered
  have hmem {r : HalfOpen UInt64} (h : r ∈ ranges.mergeSort ordered) : r ∈ ranges :=
    hperm.mem_iff.mp h
  have hsorted : (ranges.mergeSort ordered).Pairwise fun r r' => r.start ≤ r'.start := by
    refine (List.pairwise_mergeSort ?_ ?_ _).imp fun {a b} h => ?_
    · intro a b c hab hbc
      simp only [ordered, decide_eq_true_eq] at hab hbc ⊢
      rcases hab with hab | ⟨hab, hab'⟩ <;> rcases hbc with hbc | ⟨hbc, hbc'⟩
      · exact .inl (hab.trans hbc)
      · exact .inl (hbc ▸ hab)
      · exact .inl (hab ▸ hbc)
      · exact .inr ⟨hab.trans hbc, hab'.trans hbc'⟩
    · intro a b
      simp only [ordered, Bool.or_eq_true, decide_eq_true_eq]
      rcases lt_trichotomy a.start b.start with h | h | h
      · exact .inl (.inl h)
      · rcases le_total a.stop b.stop with h' | h'
        · exact .inl (.inr ⟨h, h'⟩)
        · exact .inr (.inr ⟨h.symm, h'⟩)
      · exact .inr (.inl h)
    · simp only [ordered, decide_eq_true_eq] at h
      rcases h with h | ⟨h, -⟩
      · exact h.le
      · exact h.le
  refine ⟨?_, ?_, ?_, fun i => ?_⟩
  · exact HalfOpen.sweep_merged hsorted fun r hr => (hin r (hmem hr)).1
  · intro r hr
    obtain ⟨-, r₀, hr₀, heq⟩ := HalfOpen.mem_sweep hr
    rw [heq]
    exact (hin r₀ (hmem hr₀)).2
  · exact HalfOpen.length_sweep_le.trans_eq hperm.length_eq
  · rw [merge, HalfOpen.covers_sweep hsorted strictMono_toNat]
    simp only [HalfOpen.Covers, hperm.mem_iff]

/-- A header that is ignored: there is none, it has another unit, or too many parts, or a
malformed one. -/
def Ignored (value : Option Str) : Prop :=
  value = none ∨ (∃ s, value = some s ∧ ¬ UNIT <+: s) ∨
    ∃ parts, HeaderParts value parts ∧ (16 < parts.length ∨ ∃ p ∈ parts, Malformed p)

/-- A header asks for position `i`: one of its parts selects it. -/
def Asks (value : Option Str) (size i : ℕ) : Prop :=
  ∃ parts, HeaderParts value parts ∧ ∃ p ∈ parts, Selects size p i

/-- The ranges to serve for a header. -/
structure Serves (value : Option Str) (size : UInt64) (rs : List (HalfOpen UInt64)) : Prop where
  /-- there is one -/
  some : rs ≠ []
  /-- nonempty, ascending, with gaps -/
  merged : HalfOpen.Merged rs
  /-- in the blob -/
  within : ∀ r ∈ rs, r.stop ≤ size
  /-- no more than parts are read -/
  few : rs.length ≤ 16
  /-- no more bytes than the blob has -/
  total : (rs.map fun r => r.stop.toNat - r.start.toNat).sum ≤ size.toNat
  /-- exactly the bytes the header asks for -/
  covers : ∀ i, HalfOpen.Covers UInt64.toNat rs i ↔ Asks value size.toNat i

theorem headerParts_iff {rest : Str} :
    HeaderParts (some (UNIT ++ rest)) parts ↔ parts = (rest.splitOn ',').map Str.trim := by
  constructor
  · rintro ⟨rest', h, heq⟩
    rw [Option.some_inj, List.append_cancel_left_eq] at h
    rw [h, heq]
  · intro heq
    exact ⟨rest, rfl, heq⟩

/-- The parts of a header with the unit of bytes are read in turn. -/
theorem select_parts (rest : Str) (size : UInt64) :
    select (some (UNIT ++ rest)) size = selectParts size 0 [] (rest.splitOn ',') := by
  have h : UNIT.isPrefixOf? (UNIT ++ rest) = some rest :=
    List.isPrefixOf?_eq_some_iff_append_eq.mpr rfl
  rw [select, Option.bind_some, h]

theorem ignored_iff {rest : Str} :
    Ignored (some (UNIT ++ rest)) ↔
      16 < (rest.splitOn ',').length ∨ ∃ p ∈ rest.splitOn ',', Malformed (Str.trim p) := by
  have hunit : ¬ ∃ s, some (UNIT ++ rest) = some s ∧ ¬ UNIT <+: s := by
    rintro ⟨s, h, hnot⟩
    rw [Option.some_inj] at h
    exact hnot (h ▸ List.prefix_append _ _)
  rw [Ignored, or_iff_right (by simp), or_iff_right hunit]
  simp only [headerParts_iff, exists_eq_left, List.length_map, List.mem_map,
    exists_exists_and_eq_and]

theorem asks_iff {rest : Str} {n i : ℕ} :
    Asks (some (UNIT ++ rest)) n i ↔ ∃ p ∈ rest.splitOn ',', Selects n (Str.trim p) i := by
  simp only [Asks, headerParts_iff, exists_eq_left, List.mem_map, exists_exists_and_eq_and]

/-- A header without the unit is ignored. -/
theorem select_ignored {value : Option Str} (h : ∀ rest, value ≠ some (UNIT ++ rest))
    (size : UInt64) : select value size = .full ∧ Ignored value := by
  cases value with
  | none => exact ⟨rfl, .inl rfl⟩
  | some s =>
    have hnot : ¬ UNIT <+: s := by
      rintro ⟨rest, rfl⟩
      exact h rest rfl
    have hnone : UNIT.isPrefixOf? s = none := by
      refine Option.eq_none_iff_forall_ne_some.mpr fun rest heq => ?_
      exact hnot ⟨rest, List.isPrefixOf?_eq_some_iff_append_eq.mp heq⟩
    refine ⟨?_, .inr (.inl ⟨s, rfl, hnot⟩)⟩
    rw [select, Option.bind_some, hnone]

theorem select_eq_full (value : Option Str) (size : UInt64) :
    select value size = .full ↔ Ignored value := by
  by_cases hunit : ∃ rest, value = some (UNIT ++ rest)
  · obtain ⟨rest, rfl⟩ := hunit
    rw [select_parts, selectParts_eq_full (Nat.zero_le _), Nat.zero_add, ignored_iff]
  · rw [not_exists] at hunit
    obtain ⟨hselect, hignored⟩ := select_ignored hunit size
    exact iff_of_true hselect hignored

/-- A header that is not ignored selects no byte, or gets its ranges. -/
theorem select_cases {value : Option Str} (h : ¬ Ignored value) (size : UInt64) :
    (select value size = .unsatisfiable ∧ ∀ i, ¬ Asks value size.toNat i) ∨
      ∃ rs, select value size = .part rs ∧ Serves value size rs := by
  by_cases hunit : ∃ rest, value = some (UNIT ++ rest)
  swap
  · rw [not_exists] at hunit
    exact absurd (select_ignored hunit size).2 h
  obtain ⟨rest, rfl⟩ := hunit
  have hparts := mt (select_eq_full _ size).mp h
  rw [select_parts] at hparts ⊢
  obtain ⟨rs, heq, hlen, hin, hcovers⟩ := selectParts_collects hparts
  rw [List.nil_append] at heq
  have hasks (i : ℕ) :
      HalfOpen.Covers UInt64.toNat rs i ↔ Asks (some (UNIT ++ rest)) size.toNat i :=
    (hcovers i).trans asks_iff.symm
  rw [heq]
  by_cases hnil : rs = []
  · subst hnil
    exact .inl ⟨rfl, fun i hi => HalfOpen.not_covers_nil ((hasks i).mpr hi)⟩
  · rw [if_neg hnil]
    refine .inr ⟨_, rfl, ?_⟩
    obtain ⟨hmerged, hwithin, hlength, hsame⟩ := merge_spec hin
    have hperm := List.mergeSort_perm rs ordered
    have hfew : (rest.splitOn ',').length ≤ 16 :=
      not_lt.mp fun hmany => h (ignored_iff.mpr (.inl hmany))
    refine ⟨?_, hmerged, hwithin, hlength.trans (hlen.trans hfew), ?_, fun i => ?_⟩
    · refine HalfOpen.sweep_ne_nil fun hsort => hnil ?_
      rwa [hsort, List.nil_perm] at hperm
    · exact hmerged.sum_le strictMono_toNat.monotone (fun _ _ => Nat.zero_le _)
        fun r hr => UInt64.le_iff_toNat_le.mp (hwithin r hr)
    · exact (hsame i).trans (hasks i)

/-- Ranges to serve have a byte. -/
theorem Serves.exists_asks {value : Option Str} (h : Serves value size ranges) :
    ∃ i, Asks value size.toNat i := by
  obtain ⟨r, hr⟩ := List.exists_mem_of_ne_nil ranges h.some
  have hlt := UInt64.lt_iff_toNat_lt.mp (h.merged.nonempty r hr)
  exact ⟨_, (h.covers r.start.toNat).mp ⟨r, hr, le_rfl, hlt⟩⟩

/-- What `select` returns for every header and size. -/
theorem select_spec (value : Option Str) (size : UInt64) :
    (select value size = .full ↔ Ignored value) ∧
      (select value size = .unsatisfiable ↔
        ¬ Ignored value ∧ ∀ i, ¬ Asks value size.toNat i) ∧
      (¬ Ignored value ∧ (∃ i, Asks value size.toNat i) →
        ∃ rs, select value size = .part rs ∧ Serves value size rs) := by
  have hfull := select_eq_full value size
  refine ⟨hfull, ⟨fun h => ?_, ?_⟩, ?_⟩
  · have hread : ¬ Ignored value := by
      rw [← hfull, h]
      exact fun h => (nomatch h)
    rcases select_cases hread size with ⟨-, hnothing⟩ | ⟨rs, hpart, -⟩
    · exact ⟨hread, hnothing⟩
    · rw [hpart] at h
      cases h
  · rintro ⟨hread, hnothing⟩
    rcases select_cases hread size with ⟨heq, -⟩ | ⟨rs, -, hserves⟩
    · exact heq
    · obtain ⟨i, hi⟩ := hserves.exists_asks
      exact absurd hi (hnothing i)
  · rintro ⟨hread, i, hi⟩
    rcases select_cases hread size with ⟨-, hnothing⟩ | hpart
    · exact absurd hi (hnothing i)
    · exact hpart

end Ranges

end ContentDiscovery
