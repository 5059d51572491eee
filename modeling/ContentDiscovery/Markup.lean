import ContentDiscovery.Str
import Mathlib.Data.List.Infix

/-!
# Marks and references of a page

What a browser reads as markup in a page are its angle brackets and quotes, and ampersands
begin character references. A page is a concatenation of parts, so what it has of either is
what its parts have: an escaped text has no marks, and only complete references.
-/

namespace ContentDiscovery

/-- `html_escape` of a character. -/
def htmlEscapeChar (c : Char) : Str :=
  if c = '&' then "&amp;".toList
  else if c = '<' then "&lt;".toList
  else if c = '>' then "&gt;".toList
  else if c = '"' then "&quot;".toList
  else if c = '\'' then "&#39;".toList
  else [c]

/-- `html_escape`. -/
def htmlEscape (value : Str) : Str := value.flatMap htmlEscapeChar

/-- The characters that begin and end tags and attributes. -/
def MARKS : Str := "<>\"'".toList

/-- The marks of a text, in order. -/
def marks (s : Str) : Str := s.filter fun c => c ∈ MARKS

/-- The character references that are used, without their ampersand. -/
def REFERENCES : List Str :=
  ["amp;".toList, "lt;".toList, "gt;".toList, "quot;".toList, "#39;".toList, "nbsp;".toList]

/-- Each ampersand begins a complete reference. -/
def Referenced (s : Str) : Prop :=
  ∀ rest ∈ s.tails, rest.head? = some '&' → ∃ r ∈ REFERENCES, r <+: rest.tail

instance : DecidablePred Referenced := fun _ => inferInstanceAs (Decidable (∀ _ ∈ _, _))

section

variable {s t : Str} {c : Char}

/-! ## Marks -/

@[simp] theorem marks_append (s t : Str) : marks (s ++ t) = marks s ++ marks t :=
  List.filter_append ..

@[simp] theorem marks_nil : marks [] = [] := rfl

theorem marks_cons (c : Char) (s : Str) : marks (c :: s) = marks [c] ++ marks s :=
  marks_append [c] s

theorem marks_eq_nil : marks s = [] ↔ ∀ c ∈ s, c ∉ MARKS := by
  simp [marks, List.filter_eq_nil_iff]

/-- Parts with the same marks make as many of them as there are parts. -/
theorem marks_flatMap {α : Type} {f : α → Str} {m : Str} {l : List α}
    (h : ∀ a ∈ l, marks (f a) = m) : marks (l.flatMap f) = (List.replicate l.length m).flatten := by
  induction l with
  | nil => rfl
  | cons a l ih =>
    obtain ⟨ha, hl⟩ := List.forall_mem_cons.mp h
    rw [List.flatMap_cons, marks_append, ha, ih hl, List.length_cons, List.replicate_succ,
      List.flatten_cons]

/-! ## References -/

theorem referenced_cons :
    Referenced (c :: s) ↔ (c = '&' → ∃ r ∈ REFERENCES, r <+: s) ∧ Referenced s := by
  simp only [Referenced, List.tails_cons, List.forall_mem_cons, List.head?_cons, Option.some_inj,
    List.tail_cons]

theorem Referenced.append (hs : Referenced s) (ht : Referenced t) : Referenced (s ++ t) := by
  induction s with
  | nil => exact ht
  | cons c s ih =>
    obtain ⟨hc, hs⟩ := referenced_cons.mp hs
    rw [List.cons_append, referenced_cons]
    refine ⟨fun hamp => ?_, ih hs⟩
    obtain ⟨r, hr, hbegin⟩ := hc hamp
    exact ⟨r, hr, hbegin.trans (List.prefix_append s t)⟩

/-- A text without ampersands has no references. -/
theorem referenced_of_not_mem (h : '&' ∉ s) : Referenced s := by
  intro rest hrest hhead
  rw [List.mem_tails] at hrest
  exact absurd (hrest.subset (List.mem_of_head? hhead)) h

theorem referenced_flatMap {α : Type} {f : α → Str} {l : List α}
    (h : ∀ a ∈ l, Referenced (f a)) : Referenced (l.flatMap f) := by
  induction l with
  | nil => exact referenced_of_not_mem List.not_mem_nil
  | cons a l ih =>
    obtain ⟨ha, hl⟩ := List.forall_mem_cons.mp h
    exact ha.append (ih hl)

/-! ## Escapes -/

theorem htmlEscapeChar_spec (c : Char) :
    marks (htmlEscapeChar c) = [] ∧ Referenced (htmlEscapeChar c) := by
  have hother : c ≠ '&' → c ∉ MARKS → marks [c] = [] ∧ Referenced [c] := by
    intro hamp hmark
    exact ⟨marks_eq_nil.mpr (by simpa using hmark),
      referenced_of_not_mem (by simpa using hamp.symm)⟩
  rw [htmlEscapeChar]
  split
  · decide
  · split
    · decide
    · split
      · decide
      · split
        · decide
        · split
          · decide
          · apply hother
            · assumption
            · simp [MARKS, *]

/-- An escaped text has no marks. -/
@[simp] theorem marks_htmlEscape (s : Str) : marks (htmlEscape s) = [] := by
  rw [htmlEscape, marks_flatMap fun c _ => (htmlEscapeChar_spec c).1]
  simp

/-- An escaped text has only complete references. -/
theorem referenced_htmlEscape (s : Str) : Referenced (htmlEscape s) :=
  referenced_flatMap fun c _ => (htmlEscapeChar_spec c).2

end

end ContentDiscovery
