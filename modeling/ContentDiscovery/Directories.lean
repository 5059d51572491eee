import ContentDiscovery.Collections
import ContentDiscovery.Str
import Mathlib.Data.Char
import Mathlib.Data.Finset.Sort
import Mathlib.Data.List.Lex

/-!
# Directories of a collection

`Entries` of `iroh-link-gateway/src/lib.rs`. The names of a collection are arbitrary
strings, which slashes cut into directories; a walk down from the top finds each entry once.
-/

namespace ContentDiscovery

/-- `Hash`: 32 bytes. -/
abbrev Hash : Type := Vector UInt8 32

/-- `Collection`: names with their hashes, in order. -/
abbrev Collection : Type := List (Str × Hash)

/-- `Entries`: what is directly inside a directory. -/
structure Entries where
  /-- the subdirectories -/
  dirs : BTreeSet Str
  /-- the files, in the order of the collection -/
  files : List (Str × Hash)
  deriving DecidableEq

namespace Entries

/-- The subdirectories in order. -/
def subs (entries : Entries) : List Str := entries.dirs.sort

/-- The loop of `Entries::new`. -/
def collect (dir : Str) (entries : Entries) : Collection → Entries
  | [] => entries
  | (name, hash) :: collection =>
    match Str.stripPrefix dir name with
    | none => collect dir entries collection
    | some rest =>
      match Str.splitOnce '/' rest with
      | some (sub, _) => collect dir ⟨insert sub entries.dirs, entries.files⟩ collection
      | none => collect dir ⟨entries.dirs, entries.files ++ [(rest, hash)]⟩ collection

/-- `Entries::new`. -/
def new (dir : Str) (collection : Collection) : Option Entries :=
  let entries := collect dir ⟨∅, []⟩ collection
  if dir ≠ [] ∧ entries.dirs = ∅ ∧ entries.files = [] then none else some entries

/-- The subdirectory of `dir` that a name is in. -/
def subOf (dir name : Str) : Option Str :=
  (Str.stripPrefix dir name).bind fun rest => (Str.splitOnce '/' rest).map Prod.fst

/-- The name of a file directly inside `dir`. -/
def fileOf (dir name : Str) : Option Str :=
  (Str.stripPrefix dir name).filter fun rest => '/' ∉ rest

variable {dir name sub file : Str} {collection : Collection} {entries : Entries} {hash : Hash}

theorem subOf_eq_some : subOf dir name = some sub ↔ '/' ∉ sub ∧ dir ++ sub ++ ['/'] <+: name := by
  rw [subOf, Option.bind_eq_some_iff]
  simp only [Option.map_eq_some_iff, Prod.exists, Str.splitOnce_eq_some, Str.stripPrefix_eq_some]
  constructor
  · rintro ⟨rest, rfl, first, tail, ⟨rfl, hslash⟩, rfl⟩
    exact ⟨hslash, tail, by simp⟩
  · rintro ⟨hslash, tail, rfl⟩
    exact ⟨sub ++ '/' :: tail, by simp, sub, tail, ⟨rfl, hslash⟩, rfl⟩

theorem fileOf_eq_some : fileOf dir name = some file ↔ dir ++ file = name ∧ '/' ∉ file := by
  rw [fileOf, Option.filter_eq_some_iff, Str.stripPrefix_eq_some, decide_eq_true_eq]

/-- A name below a directory is in a subdirectory or the name of a file, not both. -/
theorem fileOf_isSome (h : dir <+: name) : (fileOf dir name).isSome ↔ subOf dir name = none := by
  obtain ⟨rest, hrest⟩ := h
  rw [fileOf, subOf, Str.stripPrefix_eq_some.mpr hrest, Option.filter_some, Option.bind_some,
    Option.map_eq_none_iff, Str.splitOnce_eq_none]
  split
  · rename_i hslash
    simpa using hslash
  · rename_i hslash
    simpa using hslash

theorem collect_dirs : sub ∈ (collect dir entries collection).dirs ↔
    sub ∈ entries.dirs ∨ ∃ entry ∈ collection, subOf dir entry.1 = some sub := by
  induction collection generalizing entries with
  | nil => simp [collect]
  | cons entry collection ih =>
    rw [collect]
    simp only [List.mem_cons, exists_eq_or_imp]
    cases hrest : Str.stripPrefix dir entry.1 with
    | none => simp [ih, subOf, hrest]
    | some rest =>
      cases hsplit : Str.splitOnce '/' rest with
      | none => simp [ih, subOf, hrest, hsplit]
      | some parts =>
        simp only [ih, subOf, hrest, Option.bind_some, hsplit, Option.map_some, Finset.mem_insert,
          Option.some_inj]
        rw [or_assoc, or_left_comm, eq_comm]

theorem collect_files : (collect dir entries collection).files = entries.files ++
    collection.filterMap fun entry => (fileOf dir entry.1).map fun file => (file, entry.2) := by
  induction collection generalizing entries with
  | nil => simp [collect]
  | cons entry collection ih =>
    rw [collect]
    cases hrest : Str.stripPrefix dir entry.1 with
    | none => simp [ih, fileOf, hrest]
    | some rest =>
      cases hsplit : Str.splitOnce '/' rest with
      | none =>
        have hslash := Str.splitOnce_eq_none.mp hsplit
        simp [ih, fileOf, hrest, hsplit, hslash]
      | some parts =>
        have hslash : '/' ∈ rest := by
          by_contra h
          rw [Str.splitOnce_eq_none.mpr h] at hsplit
          cases hsplit
        simp [ih, fileOf, hrest, hsplit, hslash]

theorem prefix_of_subOf (h : subOf dir name = some sub) : dir <+: name := by
  obtain ⟨-, tail, rfl⟩ := subOf_eq_some.mp h
  exact ⟨sub ++ ['/'] ++ tail, by simp⟩

theorem prefix_of_fileOf (h : fileOf dir name = some file) : dir <+: name :=
  ⟨file, (fileOf_eq_some.mp h).1⟩

/-- Nothing is in a directory that no name starts with. -/
theorem collect_eq_empty :
    (collect dir ⟨∅, []⟩ collection).dirs = ∅ ∧ (collect dir ⟨∅, []⟩ collection).files = [] ↔
      ∀ entry ∈ collection, ¬ dir <+: entry.1 := by
  rw [collect_files, List.nil_append, List.filterMap_eq_nil_iff, Finset.eq_empty_iff_forall_notMem]
  simp only [collect_dirs, Finset.notMem_empty, false_or, Option.map_eq_none_iff]
  constructor
  · rintro ⟨hdirs, hfiles⟩ entry hentry hbelow
    have hsub : subOf dir entry.1 ≠ none := by
      rw [Ne, ← fileOf_isSome hbelow, hfiles entry hentry]
      decide
    obtain ⟨sub, hsub⟩ := Option.ne_none_iff_exists'.mp hsub
    exact hdirs sub ⟨entry, hentry, hsub⟩
  · intro h
    constructor
    · rintro sub ⟨entry, hentry, hsub⟩
      exact h entry hentry (prefix_of_subOf hsub)
    · intro entry hentry
      by_contra hfile
      obtain ⟨file, hfile⟩ := Option.ne_none_iff_exists'.mp hfile
      exact h entry hentry (prefix_of_fileOf hfile)

/-- Only a directory below the top that no name starts with is not found. -/
theorem new_eq_none :
    new dir collection = none ↔ dir ≠ [] ∧ ∀ entry ∈ collection, ¬ dir <+: entry.1 := by
  rw [new, ← collect_eq_empty]
  simp only [ite_eq_left_iff, reduceCtorEq, imp_false, not_not]

theorem new_eq_some (h : new dir collection = some entries) :
    entries = collect dir ⟨∅, []⟩ collection := by
  rw [new] at h
  exact (Option.some.inj (Option.ite_none_left_eq_some.mp h).2).symm

theorem mem_dirs (h : new dir collection = some entries) :
    sub ∈ entries.dirs ↔ ∃ entry ∈ collection, subOf dir entry.1 = some sub := by
  rw [new_eq_some h, collect_dirs]
  simp

theorem mem_subs (h : new dir collection = some entries) :
    sub ∈ entries.subs ↔ ∃ entry ∈ collection, subOf dir entry.1 = some sub := by
  rw [subs, Finset.mem_sort, mem_dirs h]

theorem not_mem_of_mem_subs (h : new dir collection = some entries) (hsub : sub ∈ entries.subs) :
    '/' ∉ sub := by
  obtain ⟨entry, -, hsub⟩ := (mem_subs h).mp hsub
  exact (subOf_eq_some.mp hsub).1

theorem files_eq (h : new dir collection = some entries) : entries.files =
    collection.filterMap fun entry => (fileOf dir entry.1).map fun file => (file, entry.2) := by
  rw [new_eq_some h, collect_files, List.nil_append]

/-- The entries of the files directly inside a directory. -/
theorem map_files (h : new dir collection = some entries) :
    entries.files.map (fun file => (dir ++ file.1, file.2))
      = collection.filter fun entry => (fileOf dir entry.1).isSome := by
  rw [files_eq h, List.map_filterMap, ← List.filterMap_eq_filter]
  apply List.filterMap_congr
  intro entry _
  cases hfile : fileOf dir entry.1 with
  | none => simp [Option.guard, hfile]
  | some file =>
    have hname := (fileOf_eq_some.mp hfile).1
    simp [Option.guard, hfile, hname]

end Entries

/-- The entries whose names start with a directory. -/
def below (dir : Str) (collection : Collection) : Collection :=
  collection.filter fun entry => dir <+: entry.1

/-- What a walk down from `dir` finds: the files directly inside it, and what is found in
each of its subdirectories. The fuel bounds how deep it goes. -/
def walk (collection : Collection) : ℕ → Str → Option Collection
  | 0, _ => none
  | fuel + 1, dir =>
    match Entries.new dir collection with
    | none => none
    | some entries =>
      (entries.subs.mapM fun sub => walk collection fuel (dir ++ sub ++ ['/'])).map fun found =>
        entries.files.map (fun file => (dir ++ file.1, file.2)) ++ found.flatten

section Walk

variable {dir sub : Str} {collection : Collection} {entries : Entries}

theorem mem_below {entry : Str × Hash} :
    entry ∈ below dir collection ↔ entry ∈ collection ∧ dir <+: entry.1 := by
  simp [below]

/-- A subdirectory is a part of the classification by subdirectories. -/
theorem below_sub (h : '/' ∉ sub) : below (dir ++ sub ++ ['/']) collection
    = collection.filter fun entry => Entries.subOf dir entry.1 = some sub := by
  apply List.filter_congr
  intro entry _
  simp [Entries.subOf_eq_some, h]

/-- The names below a directory that are not files in it are in its subdirectories. -/
theorem filter_dirs (h : Entries.new dir collection = some entries) :
    (collection.filter fun entry =>
      decide (∃ sub ∈ entries.subs, Entries.subOf dir entry.1 = some sub))
      = (below dir collection).filter fun entry => ! decide (Entries.subOf dir entry.1 = none) := by
  rw [below, List.filter_filter]
  apply List.filter_congr
  intro entry hentry
  rw [Bool.eq_iff_iff, Bool.and_eq_true, decide_eq_true_eq, Bool.not_eq_true',
    decide_eq_false_iff_not, decide_eq_true_eq]
  constructor
  · rintro ⟨sub, -, hsub⟩
    exact ⟨by rw [hsub]; exact Option.some_ne_none sub, Entries.prefix_of_subOf hsub⟩
  · rintro ⟨hsub, -⟩
    obtain ⟨sub, hsub⟩ := Option.ne_none_iff_exists'.mp hsub
    exact ⟨sub, (Entries.mem_subs h).mpr ⟨entry, hentry, hsub⟩, hsub⟩

/-- What is below a directory is a file in it or below one of its subdirectories. -/
theorem below_perm (h : Entries.new dir collection = some entries) :
    (entries.files.map (fun file => (dir ++ file.1, file.2)) ++
      entries.subs.flatMap fun sub => below (dir ++ sub ++ ['/']) collection).Perm
        (below dir collection) := by
  have hfiles : entries.files.map (fun file => (dir ++ file.1, file.2))
      = (below dir collection).filter fun entry => Entries.subOf dir entry.1 = none := by
    rw [Entries.map_files h, below, List.filter_filter]
    apply List.filter_congr
    intro entry _
    rw [Bool.eq_iff_iff, Bool.and_eq_true, decide_eq_true_eq, decide_eq_true_eq]
    constructor
    · intro hfile
      obtain ⟨file, hfile'⟩ := Option.isSome_iff_exists.mp hfile
      have hbelow := Entries.prefix_of_fileOf hfile'
      exact ⟨(Entries.fileOf_isSome hbelow).mp hfile, hbelow⟩
    · rintro ⟨hsub, hbelow⟩
      exact (Entries.fileOf_isSome hbelow).mpr hsub
  have hdirs : (entries.subs.flatMap fun sub => below (dir ++ sub ++ ['/']) collection).Perm
      ((below dir collection).filter fun entry => ! decide (Entries.subOf dir entry.1 = none)) := by
    have hsub : ∀ sub ∈ entries.subs, '/' ∉ sub := fun sub => Entries.not_mem_of_mem_subs h
    rw [← filter_dirs h, List.flatMap_congr fun sub hmem => below_sub (hsub sub hmem)]
    exact List.perm_flatMap_filter (Finset.sort_nodup entries.dirs (· ≤ ·))
  rw [hfiles]
  exact (hdirs.append_left _).trans (List.filter_append_perm _ _)

theorem exists_new (hdir : dir = [] ∨ ∃ entry ∈ collection, dir <+: entry.1) :
    ∃ entries, Entries.new dir collection = some entries := by
  rw [← Option.ne_none_iff_exists', Ne, Entries.new_eq_none]
  rintro ⟨hne, hnone⟩
  obtain rfl | ⟨entry, hentry, hbelow⟩ := hdir
  · exact hne rfl
  · exact hnone entry hentry hbelow

/-- A walk that finds what is below each subdirectory finds what is below the directory. -/
theorem walk_succ {fuel : ℕ} (h : Entries.new dir collection = some entries)
    (hsub : ∀ sub ∈ entries.subs, ∃ found,
      walk collection fuel (dir ++ sub ++ ['/']) = some found ∧
        found.Perm (below (dir ++ sub ++ ['/']) collection)) :
    ∃ found, walk collection (fuel + 1) dir = some found ∧ found.Perm (below dir collection) := by
  have hmap := List.map_eq_map_filterMap fun sub hmem =>
    Option.isSome_of_eq_some (hsub sub hmem).choose_spec.1
  rw [walk, h]
  simp only [List.mapM_eq_some.mpr hmap, Option.map_some]
  have hfound := List.perm_flatten_filterMap hsub
  exact ⟨_, rfl, (hfound.append_left _).trans (below_perm h)⟩

/-- With enough fuel a walk finds what is below its directory. -/
theorem walk_perm {fuel : ℕ} (hdir : dir = [] ∨ ∃ entry ∈ collection, dir <+: entry.1)
    (hfuel : ∀ entry ∈ below dir collection, entry.1.length ≤ fuel + dir.length) :
    ∃ found, walk collection (fuel + 1) dir = some found ∧ found.Perm (below dir collection) := by
  induction fuel generalizing dir with
  | zero =>
    obtain ⟨entries, h⟩ := exists_new hdir
    apply walk_succ h
    intro sub hsub
    obtain ⟨entry, hentry, hsub⟩ := (Entries.mem_subs h).mp hsub
    -- a name in a subdirectory is longer than its directory
    have hlength := (Entries.subOf_eq_some.mp hsub).2.length_le
    have hle := hfuel entry (mem_below.mpr ⟨hentry, Entries.prefix_of_subOf hsub⟩)
    simp only [List.length_append, List.length_singleton] at hlength
    omega
  | succ fuel ih =>
    obtain ⟨entries, h⟩ := exists_new hdir
    apply walk_succ h
    intro sub hsub
    obtain ⟨entry, hentry, hsub⟩ := (Entries.mem_subs h).mp hsub
    apply ih (.inr ⟨entry, hentry, (Entries.subOf_eq_some.mp hsub).2⟩)
    intro entry' hentry'
    obtain ⟨hmem, hbelow⟩ := mem_below.mp hentry'
    have hdir : dir <+: dir ++ sub ++ ['/'] := ⟨sub ++ ['/'], by simp⟩
    have hle := hfuel entry' (mem_below.mpr ⟨hmem, hdir.trans hbelow⟩)
    simp only [List.length_append, List.length_singleton]
    omega

/-- A walk down from the top, with fuel for the longest name, finds each entry of the
collection as often as it is there, and a directory below the top is not found if and only if
no name starts with it. -/
theorem listings_complete (collection : Collection) :
    (∀ fuel, (∀ entry ∈ collection, entry.1.length < fuel) → 0 < fuel →
      ∃ found, walk collection fuel [] = some found ∧ found.Perm collection) ∧
    ∀ dir, dir ≠ [] →
      (Entries.new dir collection = none ↔ ∀ entry ∈ collection, ¬ dir <+: entry.1) := by
  constructor
  · intro fuel hlength hfuel
    obtain ⟨fuel, rfl⟩ := Nat.exists_eq_add_one.mpr hfuel
    have htop : below [] collection = collection := by
      simp [below]
    have hle : ∀ entry ∈ below [] collection, entry.1.length ≤ fuel + ([] : Str).length := by
      intro entry hentry
      exact Nat.le_of_lt_succ (hlength entry (htop ▸ hentry))
    have hwalk := walk_perm (.inl rfl) hle
    rwa [htop] at hwalk
  · intro dir hdir
    rw [Entries.new_eq_none, and_iff_right hdir]

end Walk

/-- A name that is a file and a directory, one that ends with a slash, and an empty one. -/
theorem listings_complete_sample :
    let collection : Collection := [("a".toList, .replicate 32 1), ("a/".toList, .replicate 32 2),
      ([], .replicate 32 3)]
    ∃ found, walk collection 3 [] = some found ∧ found.Perm collection :=
  (listings_complete _).1 3 (by decide) (by decide)

end ContentDiscovery
