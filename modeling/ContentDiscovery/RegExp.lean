import Mathlib.Data.List.Basic
import Mathlib.Data.Nat.Notation

/-!
# Regular expressions

Patterns of characters, classes, groups and the greedy quantifiers `?`, `*` and `+`, as they are
written in scripts, and what they match. `run` tries the ways to match in the order in which a
backtracking matcher does; `search` takes the first one, at the first place that has any.

The rules `mem_run_seq`, `mem_run_lits`, `Reads.mem_seq` and so on tell what the matches are, in
whatever order; a pattern that begins with `^` is matched at the start only
(`search_seq_start`).
-/

/-- A regular expression. -/
inductive RegExp where
  /-- nothing -/
  | empty
  /-- a character -/
  | char (c : Char)
  /-- `.`, a character that ends no line -/
  | any
  /-- `[..]` or `[^..]`, with ranges of characters -/
  | cls (negated : Bool) (ranges : List (Char × Char))
  /-- `^`, the start of the text -/
  | start
  /-- `$`, its end -/
  | stop
  /-- one after the other -/
  | seq (a b : RegExp)
  /-- `(..)`, a group that is captured -/
  | group (i : ℕ) (a : RegExp)
  /-- `?` -/
  | opt (a : RegExp)
  /-- `*` -/
  | star (a : RegExp)
  deriving DecidableEq

namespace RegExp

/-- How far a text is matched. -/
structure Cursor where
  /-- the text before -/
  before : List Char
  /-- the text that is left -/
  rest : List Char
  /-- what groups have captured, the last capture first -/
  groups : List (ℕ × List Char)

namespace Cursor

/-- Reads some of the text that is left. -/
def read (s : Cursor) (w rest : List Char) : Cursor := ⟨s.before ++ w, rest, s.groups⟩

/-- Captures the text that was read since. -/
def capture (s : Cursor) (i : ℕ) (t : Cursor) : Cursor :=
  { t with groups := (i, t.before.drop s.before.length) :: t.groups }

/-- What a group has captured, if anything. -/
def captured (s : Cursor) (i : ℕ) : List Char := (s.groups.lookup i).getD []

end Cursor

/-- A character that ends a line. -/
def isLineTerminator (c : Char) : Bool :=
  c.toNat == 0x0a || c.toNat == 0x0d || c.toNat == 0x2028 || c.toNat == 0x2029

/-- A character of some range. -/
def inRanges (ranges : List (Char × Char)) (c : Char) : Bool :=
  ranges.any fun r => r.1 ≤ c && c ≤ r.2

/-! ## What is matched -/

section Run

/-- The characters that are the same where case does not count. -/
def sameCase (caseSensitive : Bool) (c : Char) : List Char :=
  if caseSensitive then [c] else [c, c.toLower, c.toUpper]

/-- Reads a character. -/
def step (p : Char → Bool) (s : Cursor) : List Cursor :=
  match s.rest with
  | [] => []
  | c :: rest => if p c then [s.read [c] rest] else []

/-- Repeats a match, at most so often, as long as it reads something. The longest ways are first. -/
def greedy (match' : Cursor → List Cursor) : ℕ → Cursor → List Cursor
  | 0, s => [s]
  | n + 1, s =>
    ((match' s).filter fun t => t.rest.length < s.rest.length).flatMap (greedy match' n) ++ [s]

variable (caseSensitive : Bool)

/-- The ways to match, in the order in which they are tried. -/
def run : RegExp → Cursor → List Cursor
  | empty, s => [s]
  | char c, s => step (fun d => (sameCase caseSensitive d).contains c) s
  | any, s => step (fun d => !isLineTerminator d) s
  | cls negated ranges, s =>
    step (fun d => (sameCase caseSensitive d).any (inRanges ranges) != negated) s
  | start, s => if s.before = [] then [s] else []
  | stop, s => if s.rest = [] then [s] else []
  | seq a b, s => (run a s).flatMap (run b)
  | group i a, s => (run a s).map (s.capture i)
  | opt a, s => greedy (run a) 1 s
  | star a, s => greedy (run a) s.rest.length s

variable (r : RegExp)

/-- The first match after a text: where it begins, and how far it goes. -/
def searchFrom (before : List Char) : List Char → Option (List Char × Cursor)
  | [] => (run caseSensitive r ⟨before, [], []⟩).head?.map fun t => (before, t)
  | c :: rest =>
    match (run caseSensitive r ⟨before, c :: rest, []⟩).head? with
    | some t => some (before, t)
    | none => searchFrom (before ++ [c]) rest

/-- The first match in a text. -/
def search (text : List Char) : Option (List Char × Cursor) := searchFrom caseSensitive r [] text

/-- Some of the text matches. -/
def test (text : List Char) : Bool := (search caseSensitive r text).isSome

/-- A digit after a backslash stands for what its group has captured. -/
def expand (captured : ℕ → List Char) : List Char → List Char
  | [] => []
  | '\\' :: c :: s =>
    if c.isDigit then captured (c.toNat - '0'.toNat) ++ expand captured s
    else '\\' :: c :: expand captured s
  | c :: s => c :: expand captured s

/-- Replaces the first match. -/
def replace (substitution text : List Char) : Option (List Char) :=
  (search caseSensitive r text).map fun found =>
    let captured := fun i =>
      if i = 0 then found.2.before.drop found.1.length else found.2.captured i
    found.1 ++ expand captured substitution ++ found.2.rest

end Run

/-! ## What the matches are -/

section Matches

variable {caseSensitive : Bool} {a b : RegExp} {p : Char → Bool} {s t : Cursor} {i n : ℕ}
  {w w' rest rest' text before : List Char} {L M : List Char → Prop}

@[simp] theorem Cursor.read_read :
    (s.read w rest).read w' rest' = s.read (w ++ w') rest' := by
  rw [read, read, read, List.append_assoc]

theorem Cursor.read_cons {c : Char} :
    (s.read [c] rest).read w rest' = s.read (c :: w) rest' := Cursor.read_read

theorem Cursor.read_nil (h : s.rest = rest) : s.read [] rest = s := by
  rw [read, List.append_nil, ← h]

theorem Cursor.capture_read (s : Cursor) (i : ℕ) (w rest : List Char) :
    s.capture i (s.read w rest) = ⟨s.before ++ w, rest, (i, w) :: s.groups⟩ := by
  rw [capture, read, List.drop_left]

theorem mem_step :
    t ∈ step p s ↔ ∃ c rest, s.rest = c :: rest ∧ p c = true ∧ t = s.read [c] rest := by
  rw [step]
  cases s.rest with
  | nil => simp
  | cons c rest =>
    by_cases hc : p c = true
    · simp [hc]
    · simp [hc]

theorem mem_run_seq : t ∈ run caseSensitive (seq a b) s ↔
    ∃ u ∈ run caseSensitive a s, t ∈ run caseSensitive b u := List.mem_flatMap

theorem mem_run_group : t ∈ run caseSensitive (group i a) s ↔
    ∃ u ∈ run caseSensitive a s, s.capture i u = t := List.mem_map

theorem mem_run_stop : t ∈ run caseSensitive stop s ↔ s.rest = [] ∧ t = s := by
  rw [run]
  split
  · rename_i hrest
    rw [List.mem_singleton, and_iff_right hrest]
  · rename_i hrest
    simp [hrest]

/-- Characters of a kind, as many as one likes. -/
theorem mem_greedy_step : t ∈ greedy (step p) n s ↔
    ∃ w rest, s.rest = w ++ rest ∧ w.length ≤ n ∧ (∀ c ∈ w, p c = true) ∧ t = s.read w rest := by
  induction n generalizing s with
  | zero =>
    rw [greedy, List.mem_singleton]
    constructor
    · rintro rfl
      exact ⟨[], t.rest, rfl, Nat.le_refl _, List.forall_mem_nil _, (Cursor.read_nil rfl).symm⟩
    · rintro ⟨w, rest, hrest, hlength, -, rfl⟩
      obtain rfl := List.length_eq_zero_iff.mp (Nat.le_zero.mp hlength)
      exact Cursor.read_nil hrest
  | succ n ih =>
    rw [greedy, List.mem_append, List.mem_singleton, List.mem_flatMap]
    constructor
    -- one more character and what comes after it, or the end
    · rintro (⟨u, hu, ht⟩ | rfl)
      · obtain ⟨c, rest, hrest, hc, rfl⟩ := mem_step.mp (List.mem_of_mem_filter hu)
        obtain ⟨w, rest', rfl, hlength, hw, rfl⟩ := ih.mp ht
        refine ⟨c :: w, rest', hrest, Nat.succ_le_succ hlength, ?_, Cursor.read_cons⟩
        exact List.forall_mem_cons.mpr ⟨hc, hw⟩
      · exact ⟨[], t.rest, rfl, Nat.zero_le _, List.forall_mem_nil _, (Cursor.read_nil rfl).symm⟩
    · rintro ⟨w, rest, hrest, hlength, hw, rfl⟩
      cases w with
      | nil => exact .inr (Cursor.read_nil hrest)
      | cons c w =>
        obtain ⟨hc, hw⟩ := List.forall_mem_cons.mp hw
        refine .inl ⟨s.read [c] (w ++ rest), List.mem_filter.mpr ⟨?_, ?_⟩, ?_⟩
        · exact mem_step.mpr ⟨c, w ++ rest, hrest, hc, rfl⟩
        · rw [hrest]
          exact decide_eq_true (Nat.lt_succ_self _)
        · exact ih.mpr ⟨w, rest, rfl, Nat.le_of_succ_le_succ hlength, hw, Cursor.read_cons.symm⟩

/-! ## The words that are read -/

/-- An expression reads the words of a language, and captures nothing. -/
def Reads (caseSensitive : Bool) (a : RegExp) (L : List Char → Prop) : Prop :=
  ∀ s t, t ∈ run caseSensitive a s ↔ ∃ w rest, s.rest = w ++ rest ∧ L w ∧ t = s.read w rest

theorem Reads.congr (h : Reads caseSensitive a L) (hwords : ∀ w, L w ↔ M w) :
    Reads caseSensitive a M := by
  intro s t
  rw [h s t]
  simp only [hwords]

theorem reads_char (c : Char) : Reads true (char c) (· = [c]) := by
  intro s t
  rw [run, mem_step]
  simp [sameCase]

theorem reads_star (h : run caseSensitive a = step p) :
    Reads caseSensitive (star a) fun w => ∀ c ∈ w, p c = true := by
  intro s t
  rw [run, h, mem_greedy_step]
  constructor
  · rintro ⟨w, rest, hrest, -, hw, ht⟩
    exact ⟨w, rest, hrest, hw, ht⟩
  · rintro ⟨w, rest, hrest, hw, ht⟩
    refine ⟨w, rest, hrest, ?_, hw, ht⟩
    rw [hrest, List.length_append]
    exact Nat.le_add_right _ _

theorem reads_plus (h : run caseSensitive a = step p) :
    Reads caseSensitive (seq a (star a)) fun w => w ≠ [] ∧ ∀ c ∈ w, p c = true := by
  intro s t
  rw [mem_run_seq, h]
  constructor
  · rintro ⟨u, hu, ht⟩
    obtain ⟨c, rest, hrest, hc, rfl⟩ := mem_step.mp hu
    obtain ⟨w, rest', rfl, hw, rfl⟩ := (reads_star h _ _).mp ht
    exact ⟨c :: w, rest', hrest, ⟨List.cons_ne_nil _ _, List.forall_mem_cons.mpr ⟨hc, hw⟩⟩,
      Cursor.read_cons⟩
  · rintro ⟨w, rest, hrest, ⟨hne, hw⟩, rfl⟩
    obtain ⟨c, w, rfl⟩ := List.exists_cons_of_ne_nil hne
    obtain ⟨hc, hw⟩ := List.forall_mem_cons.mp hw
    refine ⟨s.read [c] (w ++ rest), mem_step.mpr ⟨c, w ++ rest, hrest, hc, rfl⟩, ?_⟩
    exact (reads_star h _ _).mpr ⟨w, rest, rfl, hw, Cursor.read_cons.symm⟩

/-- A word may be left out. -/
theorem Reads.opt (h : Reads caseSensitive a L) (hnil : ¬ L []) :
    Reads caseSensitive (opt a) fun w => w = [] ∨ L w := by
  intro s t
  have hshorter : ∀ u ∈ run caseSensitive a s, u.rest.length < s.rest.length := by
    intro u hu
    obtain ⟨w, rest, hrest, hw, rfl⟩ := (h s u).mp hu
    have hne : w ≠ [] := fun heq => hnil (heq ▸ hw)
    rw [hrest, List.length_append]
    exact Nat.lt_add_of_pos_left (List.length_pos_iff.mpr hne)
  have hall : (run caseSensitive a s).filter (fun u => u.rest.length < s.rest.length) =
      run caseSensitive a s := List.filter_eq_self.mpr fun u hu => decide_eq_true (hshorter u hu)
  have hopt : t ∈ run caseSensitive (RegExp.opt a) s ↔ t ∈ run caseSensitive a s ∨ t = s := by
    rw [run, greedy, hall, List.mem_append, List.mem_singleton]
    simp [greedy]
  rw [hopt, h s t]
  constructor
  -- the empty word is the one that is left out
  · rintro (⟨w, rest, hrest, hw, ht⟩ | rfl)
    · exact ⟨w, rest, hrest, .inr hw, ht⟩
    · exact ⟨[], t.rest, rfl, .inl rfl, (Cursor.read_nil rfl).symm⟩
  · rintro ⟨w, rest, hrest, rfl | hw, rfl⟩
    · exact .inr (Cursor.read_nil hrest)
    · exact .inl ⟨w, rest, hrest, hw, rfl⟩

/-- What comes next reads on. -/
theorem Reads.mem_seq (h : Reads caseSensitive a L) : t ∈ run caseSensitive (seq a b) s ↔
    ∃ w rest, s.rest = w ++ rest ∧ L w ∧ t ∈ run caseSensitive b (s.read w rest) := by
  rw [mem_run_seq]
  constructor
  · rintro ⟨u, hu, ht⟩
    obtain ⟨w, rest, hrest, hw, rfl⟩ := (h s u).mp hu
    exact ⟨w, rest, hrest, hw, ht⟩
  · rintro ⟨w, rest, hrest, hw, ht⟩
    exact ⟨s.read w rest, (h s _).mpr ⟨w, rest, hrest, hw, rfl⟩, ht⟩

/-- What comes after a group reads on, with the word captured. -/
theorem Reads.mem_group_seq (h : Reads caseSensitive a L) :
    t ∈ run caseSensitive (seq (group i a) b) s ↔ ∃ w rest, s.rest = w ++ rest ∧ L w ∧
      t ∈ run caseSensitive b ⟨s.before ++ w, rest, (i, w) :: s.groups⟩ := by
  rw [mem_run_seq]
  constructor
  · rintro ⟨u, hu, ht⟩
    obtain ⟨v, hv, rfl⟩ := mem_run_group.mp hu
    obtain ⟨w, rest, hrest, hw, rfl⟩ := (h s v).mp hv
    rw [Cursor.capture_read] at ht
    exact ⟨w, rest, hrest, hw, ht⟩
  · rintro ⟨w, rest, hrest, hw, ht⟩
    refine ⟨s.capture i (s.read w rest), mem_run_group.mpr ⟨_, (h s _).mpr
      ⟨w, rest, hrest, hw, rfl⟩, rfl⟩, ?_⟩
    rw [Cursor.capture_read]
    exact ht

theorem Reads.seq (h : Reads caseSensitive a L) (h' : Reads caseSensitive b M) :
    Reads caseSensitive (seq a b) fun w => ∃ u v, w = u ++ v ∧ L u ∧ M v := by
  intro s t
  rw [h.mem_seq]
  constructor
  · rintro ⟨u, rest, hrest, hu, ht⟩
    obtain ⟨v, rest, rfl, hv, rfl⟩ := (h' _ t).mp ht
    refine ⟨u ++ v, rest, ?_, ⟨u, v, rfl, hu, hv⟩, Cursor.read_read⟩
    rw [hrest, List.append_assoc]
  · rintro ⟨w, rest, hrest, ⟨u, v, rfl, hu, hv⟩, rfl⟩
    rw [List.append_assoc] at hrest
    exact ⟨u, v ++ rest, hrest, hu, (h' _ _).mpr ⟨v, rest, rfl, hv, Cursor.read_read.symm⟩⟩

/-- Characters one after the other. -/
def lits (w : List Char) (a : RegExp) : RegExp := w.foldr (fun c a => .seq (char c) a) a

theorem mem_run_lits : t ∈ run true (lits w a) s ↔
    ∃ rest, s.rest = w ++ rest ∧ t ∈ run true a (s.read w rest) := by
  induction w generalizing s with
  | nil => simp [lits, Cursor.read]
  | cons c w ih =>
    rw [lits, List.foldr_cons, ← lits, (reads_char c).mem_seq]
    constructor
    · rintro ⟨_, rest, hrest, rfl, ht⟩
      obtain ⟨rest', rfl, ht⟩ := ih.mp ht
      rw [Cursor.read_read] at ht
      exact ⟨rest', hrest, ht⟩
    · rintro ⟨rest, hrest, ht⟩
      refine ⟨[c], w ++ rest, hrest, rfl, ih.mpr ⟨rest, rfl, ?_⟩⟩
      rw [Cursor.read_read]
      exact ht

/-! ## Patterns that begin at the start -/

theorem searchFrom_seq_start (hbefore : before ≠ []) (text : List Char) :
    searchFrom caseSensitive (seq start a) before text = none := by
  induction text generalizing before with
  | nil => simp [searchFrom, run, hbefore]
  | cons c text ih =>
    have hnext : before ++ [c] ≠ [] := List.append_ne_nil_of_right_ne_nil _ (List.cons_ne_nil _ _)
    simp [searchFrom, run, hbefore, ih hnext]

/-- Only the start of the text is tried. -/
theorem search_seq_start : search caseSensitive (seq start a) text =
    (run caseSensitive a ⟨[], text, []⟩).head?.map fun t => ([], t) := by
  cases text with
  | nil => simp [search, searchFrom, run]
  | cons c text =>
    have hnext : searchFrom caseSensitive (seq start a) [c] text = none :=
      searchFrom_seq_start (List.cons_ne_nil c []) text
    simp only [search, searchFrom, List.nil_append, hnext]
    simp only [run, if_true, List.flatMap_singleton]
    cases (run caseSensitive a ⟨[], c :: text, []⟩).head? <;> rfl

/-- There is a match if there is a way to match. -/
theorem test_seq_start : test caseSensitive (seq start a) text = true ↔
    ∃ t, t ∈ run caseSensitive a ⟨[], text, []⟩ := by
  rw [test, search_seq_start, Option.isSome_map, List.isSome_head?]
  exact ⟨List.exists_mem_of_ne_nil _, fun ⟨t, ht⟩ => List.ne_nil_of_mem ht⟩

/-- What is replaced is one of the ways to match. -/
theorem replace_seq_start {substitution result : List Char}
    (h : replace caseSensitive (seq start a) substitution text = some result) :
    ∃ t ∈ run caseSensitive a ⟨[], text, []⟩, result =
      expand (fun i => if i = 0 then t.before else t.captured i) substitution ++ t.rest := by
  rw [replace, search_seq_start, Option.map_map, Option.map_eq_some_iff] at h
  obtain ⟨t, ht, rfl⟩ := h
  exact ⟨t, List.mem_of_mem_head? ht, rfl⟩

/-- There is something to replace if there is a match. -/
theorem isSome_replace {substitution : List Char} :
    (replace caseSensitive a substitution text).isSome = test caseSensitive a text :=
  Option.isSome_map

/-- What has no backslash stands for itself. -/
theorem expand_plain {captured : ℕ → List Char} (hw : ∀ c ∈ w, c ≠ '\\') (rest : List Char) :
    expand captured (w ++ rest) = w ++ expand captured rest := by
  induction w with
  | nil => rfl
  | cons c w ih =>
    obtain ⟨hc, hw⟩ := List.forall_mem_cons.mp hw
    rw [List.cons_append, expand, ih hw, List.cons_append]
    intro d s heq
    exact fun h => absurd heq hc

end Matches

/-! ## How they are written -/

/-- The ranges of a class, up to its bracket. -/
def parseRanges : List Char → Option (List (Char × Char) × List Char)
  | [] => none
  | ']' :: s => some ([], s)
  | '\\' :: _ => none
  | c :: '-' :: d :: s =>
    if d = ']' ∨ d = '\\' then none else (parseRanges s).map fun x => ((c, d) :: x.1, x.2)
  | c :: s => (parseRanges s).map fun x => ((c, c) :: x.1, x.2)

/-- One after the other. -/
def seqs : List RegExp → RegExp
  | [] => empty
  | [a] => a
  | a :: as => seq a (seqs as)

/-- The characters that do not stand for themselves. -/
def special : List Char := "^$.|?*+(){}[]\\".toList

/-- A part of a pattern, without its quantifier. The groups are numbered by where they open. -/
def parseAtom (inner : ℕ → List Char → Option (List RegExp × ℕ × List Char)) (i : ℕ) :
    List Char → Option (RegExp × ℕ × List Char)
  | '^' :: s => some (start, i, s)
  | '$' :: s => some (stop, i, s)
  | '.' :: s => some (any, i, s)
  | '[' :: '^' :: s => (parseRanges s).map fun x => (cls true x.1, i, x.2)
  | '[' :: s => (parseRanges s).map fun x => (cls false x.1, i, x.2)
  | '(' :: '?' :: ':' :: s =>
    match inner i s with
    | some (as, j, ')' :: s) => some (seqs as, j, s)
    | _ => none
  | '(' :: s =>
    match inner (i + 1) s with
    | some (as, j, ')' :: s) => some (group i (seqs as), j, s)
    | _ => none
  | '\\' :: c :: s => if c ∈ special then some (char c, i, s) else none
  | c :: s => if c ∈ special then none else some (char c, i, s)
  | [] => none

/-- A part with the quantifier after it. -/
def quantified (a : RegExp) : List Char → RegExp × List Char
  | '?' :: s => (opt a, s)
  | '*' :: s => (star a, s)
  | '+' :: s => (seq a (star a), s)
  | s => (a, s)

/-- The parts of a pattern, up to a parenthesis that closes. -/
def parseParts : ℕ → ℕ → List Char → Option (List RegExp × ℕ × List Char)
  | 0, _, _ => none
  | _ + 1, i, [] => some ([], i, [])
  | _ + 1, i, ')' :: s => some ([], i, ')' :: s)
  | n + 1, i, s =>
    match parseAtom (parseParts n) i s with
    | none => none
    | some (a, j, s) =>
      match parseParts n j (quantified a s).2 with
      | none => none
      | some (as, k, s') => some ((quantified a s).1 :: as, k, s')

/-- Reads a pattern. -/
def parse (pattern : List Char) : Option RegExp :=
  match parseParts (pattern.length + 1) 1 pattern with
  | some (as, _, []) => some (seqs as)
  | _ => none

end RegExp
