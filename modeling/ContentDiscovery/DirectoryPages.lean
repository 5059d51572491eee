import ContentDiscovery.LinkTargets

/-!
# Directories before files

A name can be a file and a directory. `collection_entry` serves the directory then: its
`index.html`, a redirect to its URL with a slash, or its listing.
-/

namespace ContentDiscovery

open Http Origins Pages

/-- The answer is one for a directory: its `index.html`, or from an URL without a slash at its
end the redirect to the one with it; or its listing, if there is no `index.html` or the listing
is asked for. -/
def OfDirectory (root : Root) (collection : Collection) (query : Option Str) (dir : Str)
    (slash : Bool) : Answer → Prop
  | .file name hash _ => slash = true ∧ name = dir ++ INDEX_FILE ∧
      findName name collection = some hash
  | .redirect _ location _ => slash = false ∧ location = withQuery (root.link dir) query ∧
      (findName (dir ++ INDEX_FILE) collection).isSome
  | .listing listed entries _ _ => listed = dir ∧ Entries.new dir collection = some entries ∧
      (findName (dir ++ INDEX_FILE) collection = none ∨ hasFlag query "listing".toList = true)
  | .error _ => False

/-- A directory that a name lies below. -/
structure IsDir (collection : Collection) (dir : Str) : Prop where
  slash : dir = [] ∨ dir.getLast? = some '/'
  below : ∃ entry ∈ collection, dir <+: entry.1 ∧ dir.length < entry.1.length

section

variable {root : Root} {collection : Collection} {query : Option Str} {dir path name : Str}
  {slash : Bool} {entries : Entries} {hash : Hash}

/-- The first file with a name in a directory is the first entry with its whole name. -/
theorem findName_files (hslash : '/' ∉ name) (h : Entries.new dir collection = some entries) :
    findName name entries.files = findName (dir ++ name) collection := by
  have hfile : ∀ entry : Str × Hash,
      Entries.fileOf dir entry.1 = some name ↔ entry.1 = dir ++ name := by
    intro entry
    rw [Entries.fileOf_eq_some, and_iff_left hslash, eq_comm]
  rw [findName, findName, Entries.files_eq h]
  clear h
  induction collection with
  | nil => rfl
  | cons entry collection ih =>
    by_cases hname : entry.1 = dir ++ name
    · rw [List.filterMap_cons_some (by rw [(hfile entry).mpr hname]; rfl)]
      simp [hname]
    · rw [List.find?_cons_of_neg (by simpa using hname), ← ih]
      cases hentry : Entries.fileOf dir entry.1 with
      | none => rw [List.filterMap_cons_none (by rw [hentry]; rfl)]
      | some file =>
        have hne : file ≠ name := fun heq => hname ((hfile entry).mp (heq ▸ hentry))
        rw [List.filterMap_cons_some (by rw [hentry]; rfl),
          List.find?_cons_of_neg (by simpa using hne)]

/-- A directory that names are below is found. -/
theorem serveDir_ofDirectory (hdir : IsDir collection dir) (root : Root) (slash : Bool)
    (query : Option Str) :
    OfDirectory root collection query dir slash (serveDir root collection slash dir query) := by
  obtain ⟨entry, hentry, hbelow, -⟩ := hdir.below
  obtain ⟨entries, hentries⟩ := exists_new (.inr ⟨entry, hentry, hbelow⟩)
  have hfind : findName INDEX_FILE entries.files = findName (dir ++ INDEX_FILE) collection :=
    findName_files (by decide) hentries
  rw [serveDir.eq_def, hentries]
  simp only
  split
  · rename_i hash hindex
    rw [Option.ite_none_left_eq_some, hfind] at hindex
    cases slash with
    | true => exact ⟨rfl, rfl, hindex.2⟩
    | false =>
      refine ⟨rfl, ?_, Option.isSome_of_eq_some hindex.2⟩
      cases query <;> rfl
  · rename_i hindex
    refine ⟨rfl, hentries, ?_⟩
    by_cases hlisting : hasFlag query "listing".toList = true
    · exact .inr hlisting
    · rw [if_neg hlisting, hfind] at hindex
      exact .inl hindex

/-- With a slash there is nothing to redirect to. -/
theorem serveDir_index (hindex : findName (dir ++ INDEX_FILE) collection = some hash)
    (hlisting : hasFlag query "listing".toList = false) :
    serveDir root collection true dir query = .file (dir ++ INDEX_FILE) hash
      (if hasFlag query "download".toList then some INDEX_FILE else none) := by
  obtain ⟨entry, hentry, -⟩ := Option.map_eq_some_iff.mp hindex
  have hname : entry.1 = dir ++ INDEX_FILE := by simpa using List.find?_some hentry
  obtain ⟨entries, hentries⟩ :=
    exists_new (.inr ⟨entry, List.mem_of_find?_eq_some hentry, _, hname.symm⟩)
  have hfind : findName INDEX_FILE entries.files = some hash :=
    (findName_files (by decide) hentries).trans hindex
  rw [serveDir.eq_def, hentries]
  simp only [hlisting, Bool.false_eq_true, if_false, hfind, if_true]

/-- A redirect is for an `index.html`, unless the listing is asked for. -/
theorem serveDir_redirect_index {location cacheControl : Str} {status : StatusCode}
    (h : serveDir root collection slash dir query = .redirect status location cacheControl) :
    hasFlag query "listing".toList = false ∧
      ∃ found, findName (dir ++ INDEX_FILE) collection = some found := by
  rw [serveDir.eq_def] at h
  split at h
  · cases h
  · rename_i entries hentries
    simp only at h
    split at h
    · rename_i found hindex
      rw [Option.ite_none_left_eq_some, findName_files (by decide) hentries] at hindex
      exact ⟨by simpa using hindex.1, found, hindex.2⟩
    · cases h

/-- Only an URL without a slash at its end is redirected. -/
theorem serveDir_redirect_slash {location cacheControl : Str} {status : StatusCode}
    (h : serveDir root collection slash dir query = .redirect status location cacheControl) :
    slash = false := by
  rw [serveDir.eq_def] at h
  split at h
  · cases h
  · simp only at h
    split at h
    · cases slash with
      | true => cases h
      | false => rfl
    · cases h

/-! ## Requests -/

/-- The path is served as a file if it is one and no name is below it. -/
theorem collectionEntry_dir {urlPath : Str}
    (h : isDirectory collection (pathOf urlPath) ∨
      ∀ entry ∈ collection, entry.1 ≠ pathOf urlPath) :
    collectionEntry root collection urlPath query
      = serveDir root collection (urlPath.getLast? = some '/') (dirOf (pathOf urlPath)) query := by
  have hnone : (if isDirectory collection (pathOf urlPath) then none
      else findName (pathOf urlPath) collection) = none := by
    obtain h | h := h
    · rw [if_pos h]
    · rw [ite_eq_left_iff, findName, Option.map_eq_none_iff, List.find?_eq_none]
      intro _ entry hentry
      simpa using h entry hentry
  rw [collectionEntry]
  simp only [hnone]

theorem dirOf_self (h : dir = [] ∨ dir.getLast? = some '/') : dirOf dir = dir := if_pos h

theorem dirOf_concat (hne : path ≠ []) (h : path.getLast? ≠ some '/') :
    dirOf path = path ++ ['/'] :=
  if_neg (not_or.mpr ⟨hne, h⟩)

theorem dirOf_slash (path : Str) : dirOf path = [] ∨ (dirOf path).getLast? = some '/' := by
  by_cases h : path = [] ∨ path.getLast? = some '/'
  · rwa [dirOf_self h]
  · rw [not_or] at h
    rw [dirOf_concat h.1 h.2, List.getLast?_concat]
    exact .inr rfl

theorem IsDir.isDirectory (hdir : IsDir collection (path ++ ['/'])) :
    isDirectory collection path := by
  obtain ⟨entry, hentry, hbelow, -⟩ := hdir.below
  rw [Pages.isDirectory, List.any_eq_true]
  exact ⟨entry, hentry, by simpa using hbelow⟩

/-- What a directory ends with when its last slash is taken away is a directory again, or the
directory is what it was for. -/
theorem isDir_dirOf (hdir : IsDir collection (path ++ ['/'])) : IsDir collection (dirOf path) := by
  obtain ⟨entry, hentry, hbelow, hlength⟩ := hdir.below
  by_cases h : path = [] ∨ path.getLast? = some '/'
  · rw [dirOf_self h]
    rw [List.length_append] at hlength
    exact ⟨h, entry, hentry, (List.prefix_append _ _).trans hbelow, by omega⟩
  · rw [not_or] at h
    rw [dirOf_concat h.1 h.2]
    exact hdir

/-- The URL of a directory ends in a slash. -/
theorem getLast?_cons_dir (h : dir = [] ∨ dir.getLast? = some '/') :
    decide (('/' :: dir).getLast? = some '/') = true := by
  obtain rfl | hlast := h
  · rfl
  · rw [List.getLast?_cons, hlast]
    rfl

/-- A request for a directory. -/
theorem entry_ofDirectory (hdir : IsDir collection dir)
    (h : isDirectory collection dir ∨ ∀ entry ∈ collection, entry.1 ≠ dir) :
    OfDirectory root collection query dir true
        (collectionEntry root collection ('/' :: dir) query) ∧
      (dir = [] → OfDirectory root collection query dir false
        (collectionEntry root collection [] query)) := by
  constructor
  · rw [collectionEntry_dir (by rwa [pathOf_cons]), pathOf_cons, dirOf_self hdir.slash,
      getLast?_cons_dir hdir.slash]
    exact serveDir_ofDirectory hdir root _ query
  · rintro rfl
    have hpath : pathOf [] = [] := rfl
    rw [collectionEntry_dir (by rwa [hpath]), hpath, dirOf_self hdir.slash]
    exact serveDir_ofDirectory hdir root _ query

/-- A request for a directory without its last slash. -/
theorem entry_ofDirectory_concat (hdir : IsDir collection (path ++ ['/'])) :
    OfDirectory root collection query (dirOf path) (('/' :: path).getLast? = some '/')
      (collectionEntry root collection ('/' :: path) query) := by
  rw [collectionEntry_dir (.inl (by rw [pathOf_cons]; exact hdir.isDirectory)), pathOf_cons]
  exact serveDir_ofDirectory (isDir_dirOf hdir) root _ query

/-- What is served for a directory is not the file of its name. -/
theorem ofDirectory_file {answer : Answer} {download : Option Str}
    (h : OfDirectory root collection query dir slash answer)
    (hfile : answer = .file name hash download) :
    name ≠ dir ∧ name ≠ dir ++ ['/'] ∧ name ++ ['/'] ≠ dir := by
  subst hfile
  obtain ⟨-, rfl, -⟩ := h
  have hlength : INDEX_FILE.length = 10 := rfl
  refine ⟨?_, ?_, ?_⟩ <;>
  · intro heq
    have heq := congrArg List.length heq
    simp only [List.length_append, List.length_singleton, hlength] at heq
    omega

/-- A redirect leads to the `index.html` it is for. -/
theorem redirect_leads {Name : Type} {z : Z32} {gateway : Pages.Gateway Name}
    {parseUri : Str → Option Uri} {form : Form} {encoded urlPath location cacheControl : Str}
    {status : StatusCode} {request : Incoming} (hz : z.Lawful) (hparse : ParsesPaths parseUri)
    (hnames : Names z gateway form encoded hash collection)
    (hplain : Plain gateway hash dir query) (hdir : dirOf (pathOf urlPath) = dir)
    (hredirect : collectionEntry (form.root encoded) collection urlPath query
      = .redirect status location cacheControl)
    (hasks : Asks z form encoded location request)
    (hrewritten : form.subdomain → (parseUri (rewritten form.route encoded location)).isSome)
    (hhead : dir.head? ≠ some '/')
    (h : isDirectory collection dir ∨ ∀ entry ∈ collection, entry.1 ≠ dir) :
    page z gateway parseUri request = .entry (form.root encoded) collection ('/' :: dir) query ∧
      ∃ found download, collectionEntry (form.root encoded) collection ('/' :: dir) query
        = .file (dir ++ INDEX_FILE) found download ∧
          findName (dir ++ INDEX_FILE) collection = some found := by
  have hlocation := collectionEntry_redirect hredirect
  have hnamed : (form.root encoded).Named z := Form.root_named hnames.isSome
  have hraw : (form.root encoded).link dir = (form.root encoded).raw dir := by
    obtain ⟨hlink, -⟩ | ⟨-, hslash, -⟩ := link_cases (p := dir) hnamed
    · exact hlink
    · exact absurd hslash hhead
  rw [hdir, hraw] at hlocation
  constructor
  · rw [page_link hnames hplain hz hparse hlocation hasks hrewritten, stripped_eq_self.mpr hhead]
  · rw [collectionEntry] at hredirect
    split at hredirect
    · cases hredirect
    · obtain ⟨hlisting, found, hfound⟩ := serveDir_redirect_index hredirect
      rw [hdir] at hfound
      have hslash := getLast?_cons_dir (hdir ▸ dirOf_slash (pathOf urlPath))
      refine ⟨found, if hasFlag query "download".toList then some INDEX_FILE else none, ?_, hfound⟩
      rw [collectionEntry_dir (by rwa [pathOf_cons]), pathOf_cons,
        dirOf_self (hdir ▸ dirOf_slash _), hslash]
      exact serveDir_index hfound hlisting

/-- **Directories win** over files of the same name: a request for a directory that a name lies
below is answered for the directory, unless an entry has the very name of the directory, with
its slash, and no name continues it with another slash. So is a request without the last slash,
unless what is left is the path of a directory itself, which is answered for then. An URL that
ends in a slash is not redirected. A redirect leads to the `index.html` it is for, if the
directory does not begin with a slash. -/
theorem directories_win {Name : Type} {z : Z32} {gateway : Pages.Gateway Name}
    {parseUri : Str → Option Uri} {form : Form} {encoded : Str} (hz : z.Lawful)
    (hparse : ParsesPaths parseUri) (hnames : Names z gateway form encoded hash collection)
    (hdir : IsDir collection dir) (query : Option Str) :
    ((isDirectory collection dir ∨ ∀ entry ∈ collection, entry.1 ≠ dir) →
      ∀ urlPath slash, urlPath = '/' :: dir ∧ slash = true ∨
          dir = [] ∧ urlPath = [] ∧ slash = false →
        OfDirectory (form.root encoded) collection query dir slash
          (collectionEntry (form.root encoded) collection urlPath query) ∧
        ∀ name hash download, collectionEntry (form.root encoded) collection urlPath query
          = .file name hash download → name ≠ dir ∧ name ++ ['/'] ≠ dir) ∧
    (∀ path, path ++ ['/'] = dir →
      (path ≠ [] → path.getLast? ≠ some '/' →
        OfDirectory (form.root encoded) collection query dir false
          (collectionEntry (form.root encoded) collection ('/' :: path) query)) ∧
      (path = [] ∨ path.getLast? = some '/' →
        OfDirectory (form.root encoded) collection query path true
          (collectionEntry (form.root encoded) collection ('/' :: path) query)) ∧
      ∀ name hash download, collectionEntry (form.root encoded) collection ('/' :: path) query
        = .file name hash download → name ≠ dir ∧ name ≠ path) ∧
    (∀ urlPath status location cacheControl, urlPath.getLast? = some '/' →
      collectionEntry (form.root encoded) collection urlPath query
        ≠ .redirect status location cacheControl) ∧
    ((isDirectory collection dir ∨ ∀ entry ∈ collection, entry.1 ≠ dir) →
      dir.head? ≠ some '/' → Plain gateway hash dir query →
        ∀ urlPath status location cacheControl request, dirOf (pathOf urlPath) = dir →
          collectionEntry (form.root encoded) collection urlPath query
            = .redirect status location cacheControl →
          Asks z form encoded location request →
          (form.subdomain → (parseUri (rewritten form.route encoded location)).isSome) →
            page z gateway parseUri request
              = .entry (form.root encoded) collection ('/' :: dir) query ∧
            ∃ found download, collectionEntry (form.root encoded) collection ('/' :: dir) query
              = .file (dir ++ INDEX_FILE) found download ∧
                findName (dir ++ INDEX_FILE) collection = some found) := by
  refine ⟨?_, ?_, ?_, ?_⟩
  · intro h urlPath slash hurl
    have hanswer : OfDirectory (form.root encoded) collection query dir slash
        (collectionEntry (form.root encoded) collection urlPath query) := by
      obtain ⟨rfl, rfl⟩ | ⟨hempty, rfl, rfl⟩ := hurl
      · exact (entry_ofDirectory hdir h).1
      · exact (entry_ofDirectory hdir h).2 hempty
    refine ⟨hanswer, fun name hash download hfile => ?_⟩
    obtain ⟨hne, -, hslash⟩ := ofDirectory_file hanswer hfile
    exact ⟨hne, hslash⟩
  · rintro path rfl
    have hanswer : OfDirectory (form.root encoded) collection query (dirOf path)
        (('/' :: path).getLast? = some '/')
        (collectionEntry (form.root encoded) collection ('/' :: path) query) :=
      entry_ofDirectory_concat hdir
    refine ⟨?_, ?_, ?_⟩
    · intro hne hlast
      have hslash : decide (('/' :: path).getLast? = some '/') = false := by
        obtain ⟨c, hc⟩ := Option.ne_none_iff_exists'.mp (mt List.getLast?_eq_none_iff.mp hne)
        rw [decide_eq_false_iff_not, List.getLast?_cons, hc]
        rw [hc] at hlast
        exact hlast
      rwa [dirOf_concat hne hlast, hslash] at hanswer
    · intro h
      rwa [dirOf_self h, getLast?_cons_dir h] at hanswer
    · intro name hash download hfile
      obtain ⟨hne, hslash, hconcat⟩ := ofDirectory_file hanswer hfile
      by_cases h : path = [] ∨ path.getLast? = some '/'
      · rw [dirOf_self h] at hne hslash
        exact ⟨hslash, hne⟩
      · rw [not_or] at h
        rw [dirOf_concat h.1 h.2] at hne hconcat
        exact ⟨hne, fun heq => hconcat (by rw [heq])⟩
  · intro urlPath status location cacheControl hslash hredirect
    rw [collectionEntry] at hredirect
    split at hredirect
    · cases hredirect
    · exact absurd hslash (by simpa using serveDir_redirect_slash hredirect)
  · intro h hhead hplain urlPath status location cacheControl request hpath hredirect hasks
      hrewritten
    exact redirect_leads hz hparse hnames hplain hpath hredirect hasks hrewritten hhead h

end

namespace DirectoryPages.Sample

open LinkTargets.Sample (form encoded hash)

/-- A name that is a file and a directory. -/
def collection : Collection :=
  [("x".toList, hash), ("x/index.html".toList, hash), ("x/y".toList, hash)]

/-- The collection is available. -/
def gateway : Pages.Gateway Str :=
  { LinkTargets.Sample.gateway with
    collection := fun _ => .ok collection
    collectionOnConnection := fun _ => some collection }

theorem names : Names Z32.standard gateway form encoded hash collection where
  named := Z32.standard_lawful.parse_encode
  reads := rfl
  source := ⟨96, rfl, by decide⟩
  probe := rfl

theorem plain : Plain gateway hash "x/".toList none where
  fragment _ h := by cases h
  hints := rfl
  debug := by decide
  download _ := by decide

theorem isDir : IsDir collection "x/".toList :=
  ⟨.inr rfl, ("x/y".toList, hash), by decide, by decide, by decide⟩

end DirectoryPages.Sample

open LinkTargets.Sample (form encoded hash)

/-- Below `a//` there is a name, but a request for it without its last slash is one for `a/`,
and lists that. -/
theorem directories_win_fails :
    IsDir [("a//b".toList, hash)] "a//".toList ∧
      (∃ entries sizes asked, collectionEntry (form.root encoded) [("a//b".toList, hash)]
        "/a/".toList none = .listing "a/".toList entries sizes asked) ∧
      ∀ slash, ¬ OfDirectory (form.root encoded) [("a//b".toList, hash)] none "a//".toList slash
        (collectionEntry (form.root encoded) [("a//b".toList, hash)] "/a/".toList none) := by
  refine ⟨⟨.inr rfl, _, List.mem_singleton_self _, by decide, by decide⟩, ⟨_, _, _, rfl⟩, ?_⟩
  intro slash h
  exact absurd h.1 (by decide)

open DirectoryPages.Sample in
/-- The file `x` is not served for `/x`: the request is redirected to the directory, and that
leads to its `index.html`. -/
theorem directories_win_sample :
    OfDirectory (form.root encoded) collection none "x/".toList false
        (collectionEntry (form.root encoded) collection "/x".toList none) ∧
      OfDirectory (form.root encoded) collection none "x/".toList true
        (collectionEntry (form.root encoded) collection "/x/".toList none) ∧
      ∃ found download, collectionEntry (form.root encoded) collection "/x/".toList none
        = .file "x/index.html".toList found download := by
  obtain ⟨hwith, hwithout, -, hleads⟩ :=
    directories_win Z32.standard_lawful Origins.Sample.parsesPaths names isDir none
  refine ⟨(hwithout "x".toList rfl).1 (by decide) (by decide),
    (hwith (.inr (by decide)) _ _ (.inl ⟨rfl, rfl⟩)).1, ?_⟩
  obtain ⟨-, found, download, hfile, -⟩ := hleads (.inr (by decide)) (by decide) plain "/x".toList
    _ (linkText form encoded "x/".toList none) _
    (LinkTargets.Sample.request "x/".toList) (by decide) rfl
    (LinkTargets.Sample.asks "x/".toList) (fun h => absurd h (by decide))
  exact ⟨found, download, hfile⟩

end ContentDiscovery
