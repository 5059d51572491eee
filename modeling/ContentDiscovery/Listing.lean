import ContentDiscovery.Directories
import ContentDiscovery.Links
import ContentDiscovery.Markup

/-!
# Listings

`listing` of `iroh-link-gateway/src/lib.rs`: the page of a directory, with the names of a
collection in its title, its heading and its rows. Whatever they are, the page has the marks
that its numbers of rows and of ancestors give it.
-/

namespace ContentDiscovery

/-- `SEPARATOR`: between the segments of a heading. -/
def SEPARATOR : Str := "&nbsp;/&nbsp;<wbr>".toList

namespace Listing

/-! ## Sizes -/

/-- `n / d`, rounded to the nearest number, halves to an even one. -/
def roundHalfEven (n d : ℕ) : ℕ :=
  if 2 * (n % d) < d ∨ 2 * (n % d) = d ∧ n / d % 2 = 0 then n / d else n / d + 1

/-- `as f64`: the nearest number of 53 significant bits. -/
def asF64 (n : ℕ) : ℕ :=
  if n < 2 ^ 53 then n else roundHalfEven n (2 ^ (n.log2 - 52)) * 2 ^ (n.log2 - 52)

/-- The units after bytes, each 1024 of the one before. -/
def UNITS : List Str :=
  ["KiB".toList, "MiB".toList, "GiB".toList, "TiB".toList, "PiB".toList]

/-- The loop of `format_size`: how much a unit is, and the unit. -/
def unitOf (value scale : ℕ) (unit : Str) : List Str → ℕ × Str
  | [] => (scale, unit)
  | next :: units =>
    if 1024 * scale ≤ value then unitOf value (1024 * scale) next units else (scale, unit)

/-- `format_size`: with one decimal, unless the unit is a byte. -/
def formatSize (size : UInt64) : Str :=
  let value := asF64 size.toNat
  let unit := unitOf value 1 "B".toList UNITS
  if unit.1 = 1 then Str.ofNat size.toNat ++ " B".toList
  else
    let tenths := roundHalfEven (10 * value) unit.1
    Str.ofNat (tenths / 10) ++ '.' :: Str.ofNat (tenths % 10) ++ ' ' :: unit.2

/-! ## Pages -/

section

variable (root : Root)

/-- The link of a path, as an attribute. -/
def escapedLink (path : Str) : Str := htmlEscape (root.link path)

/-- The query that links to directories keep. -/
def linkQuery (withSizes listingFlag : Bool) : Str :=
  match withSizes, listingFlag with
  | false, false => []
  | true, false => "?sizes".toList
  | false, true => "?listing".toList
  | true, true => "?sizes&amp;listing".toList

/-- The segments of a directory. -/
def segments (dir : Str) : List Str := (dir.splitOn '/').filter fun segment => segment ≠ []

/-- The loop over the segments: every ancestor is linked, the directory itself is not. -/
def breadcrumbs (query path : Str) : List Str → Str
  | [] => []
  | segment :: rest =>
    let path := path ++ segment ++ ['/']
    SEPARATOR ++
      ((if rest = [] then htmlEscape segment
        else "<a href=\"".toList ++ escapedLink root path ++ query ++ "\">".toList ++
          htmlEscape segment ++ "</a>".toList) ++
      breadcrumbs query path rest)

/-- The heading. -/
def heading (query dir : Str) : Str :=
  (if segments dir = [] then root.encoded
    else "<a href=\"".toList ++ escapedLink root [] ++ query ++ "\">".toList ++ root.encoded ++
      "</a>".toList) ++
    breadcrumbs root query [] (segments dir) ++ SEPARATOR

/-- The page up to the stylesheet. -/
def pageHead (dir : Str) : Str :=
  "<!DOCTYPE html>\n<html lang=\"en\">\n<meta charset=\"utf-8\">\n".toList ++
    "<meta name=\"color-scheme\" content=\"light dark\">\n".toList ++
    "<meta name=\"viewport\" content=\"width=device-width, initial-scale=1\">\n".toList ++
    "<title>".toList ++ htmlEscape (root.encoded ++ '/' :: dir) ++ "</title>\n<style>".toList

/-- The link that fetches sizes, if there are none. -/
def fetchSizes (withSizes listingFlag : Bool) : Str :=
  if withSizes then []
  else
    "<p class=\"meta\"><a href=\"".toList ++
      (if listingFlag then "?sizes&amp;listing".toList else "?sizes".toList) ++
      "\">Fetch sizes</a></p>\n".toList

/-- A row of a directory. -/
def dirRow (query path name : Str) : Str :=
  "<tr><td><a href=\"".toList ++ escapedLink root path ++ query ++ "\">".toList ++ name ++
    "/</a></td><td class=\"size\"></td><td class=\"hash\"></td>".toList ++
    "<td class=\"download\"></td></tr>\n".toList

/-- The directory above, with its slash. -/
def parentOf (trimmed : Str) : Str :=
  match Str.rsplitOnce '/' trimmed with
  | none => []
  | some (parent, _) => if parent = [] then [] else parent ++ ['/']

/-- The row of the directory above, below the top. -/
def parentRow (query dir : Str) : Str :=
  match Str.stripSuffix ['/'] dir with
  | none => []
  | some trimmed => dirRow root query (parentOf trimmed) "..".toList

/-- The size in a row. -/
def sizeCell (sizes : Option (HashMap Hash UInt64)) (hash : Hash) : Str :=
  match sizes with
  | none => []
  | some sizes =>
    match sizes.lookup hash with
    | none => "?".toList
    | some size => formatSize size

/-- A row of a file. -/
def fileRow (z : Z32) (sizes : Option (HashMap Hash UInt64)) (dir : Str) (file : Str × Hash) :
    Str :=
  "<tr><td><a href=\"".toList ++ escapedLink root (dir ++ file.1) ++ "\">".toList ++
    htmlEscape file.1 ++ "</a></td><td class=\"size\">".toList ++ sizeCell sizes file.2 ++
    "</td><td class=\"hash\"><span title=\"".toList ++ z.encode file.2.toList ++ "\">".toList ++
    z.encode file.2.toList ++ "</span></td><td class=\"download\"><a href=\"".toList ++
    escapedLink root (dir ++ file.1) ++ "?download\">Download</a></td></tr>\n".toList

/-- The page after the stylesheet. -/
def pageTail (z : Z32) (dir : Str) (entries : Entries) (sizes : Option (HashMap Hash UInt64))
    (listingFlag : Bool) : Str :=
  let query := linkQuery sizes.isSome listingFlag
  "</style>\n<h1>".toList ++ heading root query dir ++ "</h1>\n".toList ++
    fetchSizes sizes.isSome listingFlag ++ "<table>\n".toList ++ parentRow root query dir ++
    entries.subs.flatMap (fun sub => dirRow root query (dir ++ sub ++ ['/']) (htmlEscape sub)) ++
    entries.files.flatMap (fileRow root z sizes dir) ++ "</table>\n".toList

/-- `listing`, around the stylesheet `css`. -/
def listing (z : Z32) (css : Str) (dir : Str) (entries : Entries)
    (sizes : Option (HashMap Hash UInt64)) (listingFlag : Bool) : Str :=
  pageHead root dir ++ css ++ pageTail root z dir entries sizes listingFlag

end

section

variable {root root' : Root} {z : Z32} {query query' dir dir' path path' name name' : Str}
  {entries entries' : Entries} {sizes sizes' : Option (HashMap Hash UInt64)} {listingFlag : Bool}

/-! ## Parts without marks -/

theorem marks_alphabet {s : Str} (h : ∀ c ∈ s, c ∈ Z32.alphabet) : marks s = [] := by
  have hall : Z32.alphabet.all fun c => c ∉ MARKS := by decide
  rw [marks_eq_nil]
  intro c hc
  exact of_decide_eq_true (List.all_eq_true.mp hall c (h c hc))

theorem amp_not_mem_alphabet {s : Str} (h : ∀ c ∈ s, c ∈ Z32.alphabet) : '&' ∉ s :=
  fun hmem => absurd (h _ hmem) (by decide)

/-- A number is made of digits. -/
theorem ofNat_plain (n : ℕ) : marks (Str.ofNat n) = [] ∧ '&' ∉ Str.ofNat n := by
  constructor
  · rw [marks_eq_nil]
    intro c hc hmark
    have hdigit := Str.isDigit_of_mem_ofNat hc
    have hall : MARKS.all fun c => ! c.isDigit := by decide
    have hnot := List.all_eq_true.mp hall c hmark
    rw [hdigit] at hnot
    cases hnot
  · intro hmem
    exact absurd (Str.isDigit_of_mem_ofNat hmem) (by decide)

theorem unitOf_plain {value scale : ℕ} {unit : Str} {units : List Str}
    (hunit : marks unit = [] ∧ '&' ∉ unit) (hunits : ∀ u ∈ units, marks u = [] ∧ '&' ∉ u) :
    marks (unitOf value scale unit units).2 = [] ∧ '&' ∉ (unitOf value scale unit units).2 := by
  induction units generalizing scale unit with
  | nil => exact hunit
  | cons next units ih =>
    obtain ⟨hnext, hunits⟩ := List.forall_mem_cons.mp hunits
    rw [unitOf]
    split
    · exact ih hnext hunits
    · exact hunit

/-- A size is made of digits, a dot and a unit. -/
theorem formatSize_plain (size : UInt64) :
    marks (formatSize size) = [] ∧ '&' ∉ formatSize size := by
  have hunit : marks (unitOf (asF64 size.toNat) 1 "B".toList UNITS).2 = [] ∧
      '&' ∉ (unitOf (asF64 size.toNat) 1 "B".toList UNITS).2 :=
    unitOf_plain (by decide) (by decide)
  have hsize := ofNat_plain size.toNat
  rw [formatSize]
  generalize unitOf (asF64 size.toNat) 1 "B".toList UNITS = unit at hunit
  simp only
  split
  · constructor
    · rw [marks_append, hsize.1]
      rfl
    · simp [hsize.2]
  · constructor
    · rw [marks_append, marks_cons, hunit.1, marks_append, marks_cons, (ofNat_plain _).1,
        (ofNat_plain _).1]
      rfl
    · simp [hunit.2, (ofNat_plain _).2]

theorem sizeCell_plain (sizes : Option (HashMap Hash UInt64)) (hash : Hash) :
    marks (sizeCell sizes hash) = [] ∧ '&' ∉ sizeCell sizes hash := by
  rw [sizeCell.eq_def]
  split
  · decide
  · split
    · decide
    · exact formatSize_plain _

theorem linkQuery_plain (withSizes listingFlag : Bool) :
    marks (linkQuery withSizes listingFlag) = [] ∧
      Referenced (linkQuery withSizes listingFlag) := by
  cases withSizes <;> cases listingFlag <;> decide +kernel

/-! ## Marks -/

/-- A link, a name and a query have no marks, so a row has its own. -/
theorem marks_dirRow (hquery : marks query = []) (hname : marks name = []) :
    marks (dirRow root query path name) = marks (dirRow root' [] [] []) := by
  unfold dirRow escapedLink
  simp only [marks_append, marks_htmlEscape, hquery, hname, marks_nil]

theorem marks_fileRow (hz : z.Lawful) (file : Str × Hash) :
    marks (fileRow root z sizes dir file)
      = marks (fileRow root' z none [] ([], .replicate 32 0)) := by
  have hhash : ∀ hash : Hash, marks (z.encode hash.toList) = [] :=
    fun hash => marks_alphabet (hz.mem_alphabet _ hash.length_toList)
  unfold fileRow escapedLink
  simp only [marks_append, marks_htmlEscape, hhash, (sizeCell_plain _ _).1]

/-- Ancestors are linked, whatever they are. -/
theorem marks_breadcrumbs {names names' : List Str} (hquery : marks query = [])
    (hquery' : marks query' = []) (h : names.length = names'.length) :
    marks (breadcrumbs root query path names) = marks (breadcrumbs root' query' path' names') := by
  induction names generalizing names' path path' with
  | nil =>
    obtain rfl := List.length_eq_zero_iff.mp h.symm
    rfl
  | cons name names ih =>
    cases names' with
    | nil => cases h
    | cons name' names' =>
      have hlength : names.length = names'.length := Nat.succ.inj h
      have hlast : names = [] ↔ names' = [] := by
        rw [← List.length_eq_zero_iff, ← List.length_eq_zero_iff, hlength]
      have hrest : marks (breadcrumbs root query (path ++ name ++ ['/']) names)
          = marks (breadcrumbs root' query' (path' ++ name' ++ ['/']) names') := ih hlength
      unfold breadcrumbs
      simp only [marks_append, hrest]
      by_cases hnames : names = []
      · rw [if_pos hnames, if_pos (hlast.mp hnames), marks_htmlEscape, marks_htmlEscape]
      · rw [if_neg hnames, if_neg (hlast.not.mp hnames)]
        unfold escapedLink
        simp only [marks_append, marks_htmlEscape, hquery, hquery']

theorem marks_heading (hz : z.Lawful) (hroot : (parseZ32Bytes z root.encoded).isSome)
    (hroot' : (parseZ32Bytes z root'.encoded).isSome) (hquery : marks query = [])
    (hquery' : marks query' = []) (h : (segments dir).length = (segments dir').length) :
    marks (heading root query dir) = marks (heading root' query' dir') := by
  have hempty : segments dir = [] ↔ segments dir' = [] := by
    rw [← List.length_eq_zero_iff, ← List.length_eq_zero_iff, h]
  have hencoded := marks_alphabet (mem_alphabet_of_parse hz hroot)
  have hencoded' := marks_alphabet (mem_alphabet_of_parse hz hroot')
  have hbreadcrumbs : marks (breadcrumbs root query [] (segments dir))
      = marks (breadcrumbs root' query' [] (segments dir')) := marks_breadcrumbs hquery hquery' h
  unfold heading
  simp only [marks_append, hbreadcrumbs]
  by_cases hsegments : segments dir = []
  · rw [if_pos hsegments, if_pos (hempty.mp hsegments), hencoded, hencoded']
  · rw [if_neg hsegments, if_neg (hempty.not.mp hsegments)]
    unfold escapedLink
    simp only [marks_append, marks_htmlEscape, hquery, hquery', hencoded, hencoded']

/-- The row of the directory above is there below the top. -/
theorem marks_parentRow (hquery : marks query = []) (hquery' : marks query' = [])
    (hdir : dir = [] ∨ dir.getLast? = some '/') (hdir' : dir' = [] ∨ dir'.getLast? = some '/')
    (h : dir = [] ↔ dir' = []) :
    marks (parentRow root query dir) = marks (parentRow root' query' dir') := by
  have hdots : marks "..".toList = [] := by decide
  obtain rfl | hlast := hdir
  · obtain rfl := h.mp rfl
    rfl
  · obtain rfl | hlast' := hdir'
    · rw [h.mpr rfl] at hlast
      cases hlast
    · obtain ⟨trimmed, rfl⟩ := List.getLast?_eq_some_iff.mp hlast
      obtain ⟨trimmed', rfl⟩ := List.getLast?_eq_some_iff.mp hlast'
      rw [parentRow, parentRow, Str.stripSuffix_eq_some.mpr rfl, Str.stripSuffix_eq_some.mpr rfl]
      calc marks (dirRow root query (parentOf trimmed) "..".toList)
          = marks (dirRow root [] [] []) := marks_dirRow hquery hdots
        _ = marks (dirRow root' query' (parentOf trimmed') "..".toList) :=
          (marks_dirRow hquery' hdots).symm

/-! ## References -/

theorem referenced_dirRow (hquery : Referenced query) (hname : Referenced name) :
    Referenced (dirRow root query path name) := by
  have hlink : Referenced (escapedLink root path) := referenced_htmlEscape _
  unfold dirRow
  refine .append (.append (.append (.append (.append (.append ?_ hlink) hquery) ?_) hname) ?_) ?_
  all_goals exact referenced_of_not_mem (by decide +kernel)

theorem referenced_fileRow (hz : z.Lawful) (file : Str × Hash) :
    Referenced (fileRow root z sizes dir file) := by
  have hlink : Referenced (escapedLink root (dir ++ file.1)) := referenced_htmlEscape _
  have hname : Referenced (htmlEscape file.1) := referenced_htmlEscape _
  have hsize : Referenced (sizeCell sizes file.2) := referenced_of_not_mem (sizeCell_plain _ _).2
  have hhash : Referenced (z.encode file.2.toList) :=
    referenced_of_not_mem (amp_not_mem_alphabet (hz.mem_alphabet _ file.2.length_toList))
  unfold fileRow
  refine .append (.append (.append (.append (.append (.append (.append (.append (.append (.append
    (.append (.append ?_ hlink) ?_) hname) ?_) hsize) ?_) hhash) ?_) hhash) ?_) hlink) ?_
  all_goals exact referenced_of_not_mem (by decide +kernel)

theorem referenced_breadcrumbs {names : List Str} (hquery : Referenced query) :
    Referenced (breadcrumbs root query path names) := by
  induction names generalizing path with
  | nil => exact referenced_of_not_mem List.not_mem_nil
  | cons name names ih =>
    have hname : Referenced (htmlEscape name) := referenced_htmlEscape _
    unfold breadcrumbs
    refine .append (by decide) (.append ?_ ih)
    split
    · exact hname
    · have hlink : Referenced (escapedLink root (path ++ name ++ ['/'])) := referenced_htmlEscape _
      refine .append (.append (.append (.append (.append ?_ hlink) hquery) ?_) hname) ?_
      all_goals exact referenced_of_not_mem (by decide +kernel)

theorem referenced_heading (hz : z.Lawful) (hroot : (parseZ32Bytes z root.encoded).isSome)
    (hquery : Referenced query) : Referenced (heading root query dir) := by
  have hencoded : Referenced root.encoded :=
    referenced_of_not_mem (amp_not_mem_alphabet (mem_alphabet_of_parse hz hroot))
  have hlink : Referenced (escapedLink root []) := referenced_htmlEscape _
  unfold heading
  refine .append (.append ?_ (referenced_breadcrumbs hquery)) (by decide)
  split
  · exact hencoded
  · refine .append (.append (.append (.append (.append ?_ hlink) hquery) ?_) hencoded) ?_
    all_goals exact referenced_of_not_mem (by decide +kernel)

theorem referenced_parentRow (hquery : Referenced query) :
    Referenced (parentRow root query dir) := by
  rw [parentRow.eq_def]
  split
  · decide
  · exact referenced_dirRow hquery (by decide)

/-! ## Pages -/

/-- A directory: the top of a collection, or a path with its last slash. -/
def IsDirectory (dir : Str) : Prop := dir = [] ∨ dir.getLast? = some '/'

instance : DecidablePred IsDirectory := fun _ => inferInstanceAs (Decidable (_ ∨ _))

/-- Two listings with as many ancestors, subdirectories and files. -/
structure SameShape (dir dir' : Str) (entries entries' : Entries)
    (sizes sizes' : Option (HashMap Hash UInt64)) : Prop where
  top : dir = [] ↔ dir' = []
  segments : (segments dir).length = (segments dir').length
  dirs : entries.dirs.card = entries'.dirs.card
  files : entries.files.length = entries'.files.length
  sizes : sizes.isSome = sizes'.isSome

theorem marks_pageHead : marks (pageHead root dir) = marks (pageHead root' dir') := by
  unfold pageHead
  simp only [marks_append, marks_htmlEscape]

theorem referenced_pageHead : Referenced (pageHead root dir) := by
  have htitle : Referenced (htmlEscape (root.encoded ++ '/' :: dir)) := referenced_htmlEscape _
  unfold pageHead
  refine .append (.append (.append (.append (.append ?_ ?_) ?_) ?_) htitle) ?_
  all_goals exact referenced_of_not_mem (by decide +kernel)

theorem marks_pageTail (hz : z.Lawful) (hroot : (parseZ32Bytes z root.encoded).isSome)
    (hroot' : (parseZ32Bytes z root'.encoded).isSome) (hdir : IsDirectory dir)
    (hdir' : IsDirectory dir') (h : SameShape dir dir' entries entries' sizes sizes') :
    marks (pageTail root z dir entries sizes listingFlag)
      = marks (pageTail root' z dir' entries' sizes' listingFlag) := by
  have hquery := (linkQuery_plain sizes.isSome listingFlag).1
  have hsubs : entries.subs.length = entries'.subs.length := by
    rw [Entries.subs, Entries.subs, Finset.length_sort, Finset.length_sort, h.dirs]
  have hrow : ∀ (root : Root) (path sub : Str),
      marks (dirRow root (linkQuery sizes.isSome listingFlag) path (htmlEscape sub))
        = marks (dirRow root' [] [] []) :=
    fun root path sub => marks_dirRow hquery (marks_htmlEscape sub)
  have hdirs : marks (entries.subs.flatMap fun sub =>
        dirRow root (linkQuery sizes.isSome listingFlag) (dir ++ sub ++ ['/']) (htmlEscape sub))
      = marks (entries'.subs.flatMap fun sub =>
        dirRow root' (linkQuery sizes.isSome listingFlag) (dir' ++ sub ++ ['/'])
          (htmlEscape sub)) := by
    rw [marks_flatMap fun sub _ => hrow root (dir ++ sub ++ ['/']) sub,
      marks_flatMap fun sub _ => hrow root' (dir' ++ sub ++ ['/']) sub, hsubs]
  have hfile : ∀ file, marks (fileRow root z sizes dir file)
      = marks (fileRow root' z none [] ([], .replicate 32 0)) := marks_fileRow hz
  have hfile' : ∀ file, marks (fileRow root' z sizes' dir' file)
      = marks (fileRow root' z none [] ([], .replicate 32 0)) := marks_fileRow hz
  have hfiles : marks (entries.files.flatMap (fileRow root z sizes dir))
      = marks (entries'.files.flatMap (fileRow root' z sizes' dir')) := by
    rw [marks_flatMap fun file _ => hfile file, marks_flatMap fun file _ => hfile' file, h.files]
  have hheading : marks (heading root (linkQuery sizes.isSome listingFlag) dir)
      = marks (heading root' (linkQuery sizes.isSome listingFlag) dir') :=
    marks_heading hz hroot hroot' hquery hquery h.segments
  have hparent : marks (parentRow root (linkQuery sizes.isSome listingFlag) dir)
      = marks (parentRow root' (linkQuery sizes.isSome listingFlag) dir') :=
    marks_parentRow hquery hquery hdir hdir' h.top
  unfold pageTail
  rw [← h.sizes]
  simp only [marks_append, hheading, hparent, hdirs, hfiles]

theorem referenced_pageTail (hz : z.Lawful) (hroot : (parseZ32Bytes z root.encoded).isSome) :
    Referenced (pageTail root z dir entries sizes listingFlag) := by
  have hquery := (linkQuery_plain sizes.isSome listingFlag).2
  have hheading : Referenced (heading root (linkQuery sizes.isSome listingFlag) dir) :=
    referenced_heading hz hroot hquery
  have hparent : Referenced (parentRow root (linkQuery sizes.isSome listingFlag) dir) :=
    referenced_parentRow hquery
  have hfetch : Referenced (fetchSizes sizes.isSome listingFlag) := by
    cases sizes.isSome <;> cases listingFlag <;> decide +kernel
  have hdirs : Referenced (entries.subs.flatMap fun sub =>
      dirRow root (linkQuery sizes.isSome listingFlag) (dir ++ sub ++ ['/']) (htmlEscape sub)) :=
    referenced_flatMap fun sub _ => referenced_dirRow hquery (referenced_htmlEscape sub)
  have hfiles : Referenced (entries.files.flatMap (fileRow root z sizes dir)) :=
    referenced_flatMap fun file _ => referenced_fileRow hz file
  unfold pageTail
  refine .append (.append (.append (.append (.append (.append (.append (.append ?_ hheading) ?_)
    hfetch) ?_) hparent) hdirs) hfiles) ?_
  all_goals exact referenced_of_not_mem (by decide +kernel)

/-- What stands for itself in a path, between quotes and in a query. -/
theorem isLinkChar_spec {c : Char} (h : IsLinkChar c) :
    32 < c.toNat ∧ c.toNat < 127 ∧ c ∉ "\"'#?\\".toList := by
  have hall : ∀ n < 128, IsLinkChar (.ofNat n) →
      32 < (Char.ofNat n).toNat ∧ (Char.ofNat n).toNat < 127 ∧
        Char.ofNat n ∉ "\"'#?\\".toList := by
    decide +kernel
  rw [← Char.ofNat_toNat c] at h ⊢
  exact hall _ (by simpa using h.1) h

/-- Names make no markup, and lead nowhere else: the marks of a listing are those of any other of
its shape, its ampersands begin complete references, and its links stay on their host. -/
theorem listing_safe (hz : z.Lawful) :
    (∀ {root root' : Root} {dir dir' : Str} {entries entries' : Entries}
      {sizes sizes' : Option (HashMap Hash UInt64)} {listingFlag : Bool},
      (parseZ32Bytes z root.encoded).isSome → (parseZ32Bytes z root'.encoded).isSome →
      IsDirectory dir → IsDirectory dir' → SameShape dir dir' entries entries' sizes sizes' →
      marks (pageHead root dir) = marks (pageHead root' dir') ∧
        marks (pageTail root z dir entries sizes listingFlag)
          = marks (pageTail root' z dir' entries' sizes' listingFlag) ∧
        ∀ css, marks (listing root z css dir entries sizes listingFlag)
          = marks (listing root' z css dir' entries' sizes' listingFlag)) ∧
    (∀ {root : Root} {dir : Str} {entries : Entries} {sizes : Option (HashMap Hash UInt64)}
      {listingFlag : Bool}, (parseZ32Bytes z root.encoded).isSome →
      Referenced (pageHead root dir) ∧
        Referenced (pageTail root z dir entries sizes listingFlag)) ∧
    (∀ {root : Root} {path : Str}, root.Named z →
      (∃ rest, root.link path = '/' :: rest ∧ rest.head? ≠ some '/' ∧ rest.head? ≠ some '\\') ∧
        ∀ c ∈ root.link path, 32 < c.toNat ∧ c.toNat < 127 ∧ c ∉ "\"'#?\\".toList) := by
  refine ⟨?_, ?_, ?_⟩
  · intro root root' dir dir' entries entries' sizes sizes' listingFlag hroot hroot' hdir hdir' h
    have hhead : marks (pageHead root dir) = marks (pageHead root' dir') := marks_pageHead
    have htail : marks (pageTail root z dir entries sizes listingFlag)
        = marks (pageTail root' z dir' entries' sizes' listingFlag) :=
      marks_pageTail hz hroot hroot' hdir hdir' h
    refine ⟨hhead, htail, fun css => ?_⟩
    unfold listing
    rw [marks_append, marks_append, marks_append, marks_append, hhead, htail]
  · intro root dir entries sizes listingFlag hroot
    exact ⟨referenced_pageHead, referenced_pageTail hz hroot⟩
  · intro root path hnamed
    obtain ⟨hslash, hchars⟩ := link_stays hz hnamed path
    exact ⟨hslash, fun c hc => isLinkChar_spec (hchars c hc)⟩

end

namespace Sample

def hash : Hash := .replicate 32 7

/-- By path, of the hash. -/
def root : Root := .new (Z32.standard.encode hash.toList) false

/-- A name that would be markup, and one that would name a host. -/
def entries : Entries := ⟨{"\"><a>".toList}, [("//&lt\\".toList, hash)]⟩

/-- Two plain names. -/
def entries' : Entries := ⟨{"a".toList}, [("b".toList, hash)]⟩

theorem root_named : root.Named Z32.standard where
  encoded := by
    rw [root, Root.new, Z32.standard_lawful.parse_encode]
    rfl
  base := .inr ⟨"blake3".toList, .inl rfl, rfl⟩

end Sample

open Sample in
/-- Hostile names, and where they lead. -/
theorem listing_safe_sample :
    (∀ css, marks (listing root Z32.standard css "'/".toList entries none true)
      = marks (listing root Z32.standard css "c/".toList entries' none true)) ∧
    Referenced (pageTail root Z32.standard "'/".toList entries none true) ∧
    (root.link "//&lt\\".toList).head? = some '/' := by
  have hsafe := listing_safe Z32.standard_lawful
  have hshape : SameShape "'/".toList "c/".toList entries entries' none none :=
    ⟨by decide, by decide, rfl, rfl, rfl⟩
  refine ⟨(hsafe.1 root_named.encoded root_named.encoded (.inr rfl) (.inr rfl) hshape).2.2,
    (hsafe.2.1 root_named.encoded).2, ?_⟩
  obtain ⟨⟨rest, hlink, -⟩, -⟩ := hsafe.2.2 root_named
  rw [hlink]
  rfl

end Listing

end ContentDiscovery
