import ContentDiscovery.CachedSources
import ContentDiscovery.DirectoryPages

/-!
# From a URL to the bytes

The layers of the gateway put together: the router and the handlers, the caches that answer them,
and `serve_blob`. The content that a request is answered with is that of the hash its URL names, or
of a file of the collection that this hash stores, and a response that ends has its bytes
(`served_content`). Providers choose none of it.
-/

namespace ContentDiscovery

open Http Origins Dns Pages

namespace ServedContent

/-! ## What a URL names -/

/-- The path that the routes see has the route, what is given to its handler, and a rest. If the
request comes by a subdomain, this is its host, whatever the path says. -/
structure Labelled (z : Z32) (parseUri : Str → Option Uri) (request : Incoming)
    (route given rest : Str) : Prop where
  path : ∃ label, (prepared z parseUri request).uri.path = '/' :: route ++ '/' :: label ++ rest ∧
    (given = label ∨ Percent.decode label = some given)
  rest : rest = [] ∨ ∃ tail, rest = '/' :: tail
  origin : (prepared z parseUri request).subdomain = true → NamesOrigin z request given route

/-- The hash that a request is for: the one in the URL, or the one that the record of the key in
the URL points to. -/
inductive Names {Name : Type} (z : Z32) (gateway : Pages.Gateway Name)
    (parseUri : Str → Option Uri) (request : Incoming) : Hash → Str → Prop where
  | blake3 {given rest : Str} {hash : Hash}
    (hgiven : Labelled z parseUri request "blake3".toList given rest)
    (hhash : parseHash z given = some hash) : Names z gateway parseUri request hash rest
  | pkarr {given rest : Str} {key : PkarrKey} {packet : Dns.Packet Name} {authority : Str}
    {hash : Hash} (hgiven : Labelled z parseUri request "pkarr".toList given rest)
    (hkey : parseZ32Bytes z given = some key) (hpacket : gateway.packet key = .ok packet)
    (htarget : target gateway.toStr packet given = some authority)
    (hhash : contentHash z authority = some hash) : Names z gateway parseUri request hash rest

/-- The path in a collection that the rest of a URL path is for, but for slashes at its start. -/
def IsFor (rest p : Str) : Prop :=
  ∃ m n raw, rest = List.replicate m '/' ++ raw ∧
    Percent.decode raw = some (List.replicate n '/' ++ p)

/-! ## Handlers -/

section

variable {Name : Type} {z : Z32} {gateway : Pages.Gateway Name} {hash : Hash} {query : Option Str}

/-- What a page reads: the collection of the hash, at a path, or its blob. -/
inductive Reads (gateway : Pages.Gateway Name) (hash : Hash) (p : Str) : Page → Prop where
  | entry {root : Root} {collection : Collection} {urlPath : Str} {query : Option Str}
    (hcollection : gateway.collection hash = .ok collection ∨
      gateway.collectionOnConnection hash = some collection) (hpath : pathOf urlPath = p) :
    Reads gateway hash p (.entry root collection urlPath query)
  | blob {caching : Caching} {download : Option Str} (hp : p = []) :
    Reads gateway hash p (.blob caching hash download)
  | debug : Reads gateway hash p .debug
  | redirect {location : Str} : Reads gateway hash p (.redirect location)
  | error {error : HttpError} : Reads gateway hash p (.error error)

theorem serveRoot_reads (root : Root) (slash : Bool) :
    Reads gateway hash [] (serveRoot z gateway root hash slash query) := by
  have hpath : pathOf (if slash then ['/'] else []) = [] := by cases slash <;> rfl
  rw [serveRoot]
  dsimp only
  generalize (if slash then ['/'] else []) = urlPath at hpath ⊢
  split
  · exact .error
  split
  · exact .debug
  split
  · split
    · exact .error
    · rename_i collection hcollection
      exact .entry (.inl hcollection) hpath
  · split
    · exact .error
    · split
      · rename_i collection hcollection
        exact .entry (.inr (Option.ite_none_right_eq_some.mp hcollection).2) hpath
      · exact .blob rfl

theorem servePath_reads (root : Root) (path : Str) :
    Reads gateway hash ((Str.stripPrefix ['/'] path).getD path)
      (servePath gateway root hash path query) := by
  rw [servePath]
  split
  · exact .error
  split
  · exact .debug
  split
  · exact .error
  · rename_i collection hcollection
    exact .entry (.inl hcollection) (pathOf_cons _)

/-- A path without the slash that it may begin with. -/
theorem replicate_stripPrefix (path : Str) :
    ∃ n, path = List.replicate n '/' ++ (Str.stripPrefix ['/'] path).getD path := by
  cases hstrip : Str.stripPrefix ['/'] path with
  | none => exact ⟨0, rfl⟩
  | some rest => exact ⟨1, (Str.stripPrefix_eq_some.mp hstrip).symm⟩

/-- A path without the slashes that it begins with. -/
theorem replicate_dropWhile (path : Str) :
    ∃ m, path = List.replicate m '/' ++ path.dropWhile fun c => c = '/' := by
  induction path with
  | nil => exact ⟨0, rfl⟩
  | cons c path ih =>
    by_cases hc : c = '/'
    · obtain ⟨m, hm⟩ := ih
      subst hc
      refine ⟨m + 1, ?_⟩
      rw [List.dropWhile_cons_of_pos (by simp), List.replicate_succ, List.cons_append, ← hm]
    · exact ⟨0, by rw [List.dropWhile_cons_of_neg (by simpa using hc)]; rfl⟩

/-! ## Routes -/

variable {parseUri : Str → Option Uri} {request : Incoming} {path label rest given : Str}
  {r : Str × Tail × Handler} {handler : Handler} {params : List Str}

/-- The label and the rest of a path that a route matches. -/
theorem matchRoute_cases (h : matchRoute path r = some (handler, params)) :
    ∃ label rest, path = '/' :: r.1 ++ '/' :: label ++ rest ∧ '/' ∉ label ∧ handler = r.2.2 ∧
      (r.2.1 = .bare ∧ rest = [] ∧ params = [label] ∨
        r.2.1 = .slash ∧ rest = ['/'] ∧ params = [label] ∨
        r.2.1 = .path ∧ ∃ tail, rest = '/' :: tail ∧ params = [label, tail]) := by
  rw [matchRoute] at h
  split at h
  · cases h
  · rename_i text htext
    rw [Str.stripPrefix_eq_some] at htext
    split at h
    · cases h
    · have hsegment : ∃ label rest, text = label ++ rest ∧ '/' ∉ label ∧
          (Origins.segment text).1 = label ∧ (rest = [] ∧ (Origins.segment text).2 = none ∨
            ∃ tail, rest = '/' :: tail ∧ (Origins.segment text).2 = some tail) := by
        rw [Origins.segment]
        cases hsplit : Str.splitOnce '/' text with
        | none => exact ⟨text, [], (List.append_nil _).symm, Str.splitOnce_eq_none.mp hsplit, rfl,
            .inl ⟨rfl, rfl⟩⟩
        | some parts =>
          obtain ⟨label, tail⟩ := parts
          obtain ⟨heq, hlabel⟩ := Str.splitOnce_eq_some.mp hsplit
          exact ⟨label, '/' :: tail, heq, hlabel, rfl, .inr ⟨tail, rfl, rfl⟩⟩
      obtain ⟨label, rest, rfl, hlabel, hfirst, hrest⟩ := hsegment
      rw [hfirst] at h
      have hpath : path = '/' :: r.1 ++ '/' :: label ++ rest := by
        rw [← htext]
        simp
      refine ⟨label, rest, hpath, hlabel, ?_⟩
      split at h
      · rename_i htail hsecond
        obtain ⟨rfl, rfl⟩ := Prod.mk.inj (Option.some.inj h)
        rw [hsecond] at hrest
        obtain ⟨rfl, -⟩ | ⟨tail, -, hnone⟩ := hrest
        · exact ⟨rfl, .inl ⟨htail, rfl, rfl⟩⟩
        · cases hnone
      · rename_i htail hsecond
        obtain ⟨rfl, rfl⟩ := Prod.mk.inj (Option.some.inj h)
        rw [hsecond] at hrest
        obtain ⟨-, hsome⟩ | ⟨tail, rfl, htail'⟩ := hrest
        · cases hsome
        · cases htail'
          exact ⟨rfl, .inr (.inl ⟨htail, rfl, rfl⟩)⟩
      · rename_i c path' htail hsecond
        obtain ⟨rfl, rfl⟩ := Prod.mk.inj (Option.some.inj h)
        rw [hsecond] at hrest
        obtain ⟨-, hsome⟩ | ⟨tail, rfl, htail'⟩ := hrest
        · cases hsome
        · cases htail'
          exact ⟨rfl, .inr (.inr ⟨htail, _, rfl, rfl⟩)⟩
      · cases h

/-- What the handler of a route is given, is what the URL says. -/
theorem labelled_of_path (hz : z.Lawful) (hparse : ParsesPaths parseUri) (hr : r ∈ ROUTES)
    (hpath : (prepared z parseUri request).uri.path = '/' :: r.1 ++ '/' :: label ++ rest)
    (hlabel : '/' ∉ label) (hrest : rest = [] ∨ ∃ tail, rest = '/' :: tail)
    (hgiven : given = label ∨ Percent.decode label = some given) :
    Labelled z parseUri request r.1 given rest := by
  refine ⟨⟨label, hpath, hgiven⟩, hrest, fun hsubdomain => ?_⟩
  obtain ⟨label', route', tail, hnames, hpath', htail⟩ := prepared_subdomain hz hparse hsubdomain
  have hplain : KeepsPlain Percent.decode := fun s => Percent.decode_self
  have hsame : '/' :: r.1 ++ ['/'] ++ (label ++ rest) = '/' :: route' ++ '/' :: label' ++ tail := by
    rw [← hpath', hpath]
    simp
  rw [← segment_label hlabel hrest] at hgiven
  obtain ⟨hroute, hsame⟩ := given_eq_label hplain hr hsame htail
    (fun h => (hnames.route_plain _ h).1 rfl) (hnames.label_plain hz) hgiven
  rw [hroute, hsame]
  exact hnames

/-- The page shows content. -/
def HasContent : Page → Prop
  | .entry .. | .blob .. => True
  | _ => False

/-- The page reads what the URL names, at the path that it is for. -/
def ReadsNamed (z : Z32) (gateway : Pages.Gateway Name) (parseUri : Str → Option Uri)
    (request : Incoming) (rest : Str) (page : Page) : Prop :=
  HasContent page → ∃ hash p, Names z gateway parseUri request hash rest ∧ IsFor rest p ∧
    Reads gateway hash p page

theorem isFor_nil : IsFor [] [] := ⟨0, 0, [], rfl, rfl⟩

/-- A path that is decoded is for itself, but for a slash at its start. -/
theorem isFor_decoded {tail path : Str} (h : Percent.decode tail = some path) :
    IsFor ('/' :: tail) ((Str.stripPrefix ['/'] path).getD path) := by
  obtain ⟨n, hn⟩ := replicate_stripPrefix path
  exact ⟨1, n, tail, rfl, by rw [h, ← hn]⟩

theorem blob_reads {subdomain : Bool}
    (hlabelled : ∀ given, Percent.decode label = some given →
      Labelled z parseUri request "blake3".toList given [])
    (hgiven : Percent.decode label = some given) :
    ReadsNamed z gateway parseUri request [] (Pages.blob z gateway given query subdomain) := by
  intro hcontent
  rw [Pages.blob] at hcontent ⊢
  split
  · rename_i hhash
    rw [hhash] at hcontent
    cases hcontent
  · rename_i hash hhash
    exact ⟨hash, [], .blake3 (hlabelled given hgiven) hhash, isFor_nil, serveRoot_reads _ _⟩

theorem collectionPath_reads {subdomain : Bool} {tail path : Str}
    (hlabelled : Labelled z parseUri request "blake3".toList given ('/' :: tail))
    (hpath : Percent.decode tail = some path) :
    ReadsNamed z gateway parseUri request ('/' :: tail)
      (collectionPath z gateway given path query subdomain) := by
  intro hcontent
  rw [collectionPath] at hcontent ⊢
  split
  · rename_i hhash
    rw [hhash] at hcontent
    cases hcontent
  · rename_i hash hhash
    exact ⟨hash, _, .blake3 hlabelled hhash, isFor_decoded hpath, servePath_reads _ path⟩

/-- What is after the label, without the slashes that it begins with. -/
theorem replicate_segment (hlabel : '/' ∉ label) (hrest : rest = [] ∨ ∃ tail, rest = '/' :: tail) :
    ∃ m, rest = List.replicate m '/' ++
      ('/' :: (Origins.segment (label ++ rest)).2.getD []).dropWhile fun c => c = '/' := by
  obtain rfl | ⟨tail, rfl⟩ := hrest
  · rw [List.append_nil, Origins.segment, Str.splitOnce_eq_none.mpr hlabel]
    exact ⟨0, rfl⟩
  · rw [Origins.segment, Str.splitOnce_eq_some.mpr ⟨rfl, hlabel⟩]
    exact replicate_dropWhile ('/' :: tail)

/-- The Pkarr handler reads the content that the record of the key points to. -/
theorem redirect_reads {uri : Uri} {subdomain : Bool}
    (hpath : uri.path = "/pkarr/".toList ++ (label ++ rest)) (hlabel : '/' ∉ label)
    (hrest : rest = [] ∨ ∃ tail, rest = '/' :: tail)
    (hlabelled : Labelled z parseUri request "pkarr".toList label rest) :
    ReadsNamed z gateway parseUri request rest (Pages.redirect z gateway uri subdomain) := by
  have hother {page : Page} (h : ¬ HasContent page) :
      ReadsNamed z gateway parseUri request rest page := fun hcontent => absurd hcontent h
  have hstrip : Str.stripPrefix "/pkarr/".toList uri.path = some (label ++ rest) :=
    Str.stripPrefix_eq_some.mpr hpath.symm
  obtain ⟨m, hm⟩ := replicate_segment hlabel hrest
  rw [Pages.redirect, hstrip]
  dsimp only
  rw [segment_label hlabel hrest]
  generalize ('/' :: (Origins.segment (label ++ rest)).2.getD []).dropWhile
    (fun c => c = '/') = raw at hm ⊢
  split
  · exact hother id
  rename_i key hkey
  split
  · exact hother id
  split
  · exact hother id
  rename_i packet hpacket
  split
  · exact hother id
  rename_i authority htarget
  split
  · rename_i hash hhash
    have hnames : Names z gateway parseUri request hash rest :=
      .pkarr hlabelled hkey hpacket htarget hhash
    split
    · exact hother id
    · rename_i path hdecode
      split
      · rename_i hempty
        rw [hempty] at hdecode
        exact fun _ => ⟨hash, [], hnames, ⟨m, 0, raw, hm, hdecode⟩, serveRoot_reads _ _⟩
      · obtain ⟨n, hn⟩ := replicate_stripPrefix path
        exact fun _ => ⟨hash, _, hnames, ⟨m, n, raw, hm, by rw [hdecode, ← hn]⟩,
          servePath_reads _ path⟩
  · exact hother id

/-- The other routes, by what they allow after the label. -/
theorem blake3_routes : ∀ r ∈ ROUTES, r.2.2 ≠ .redirect → r.1 = "blake3".toList ∧
    (r.2.1 = .bare → r.2.2 = .blob) ∧ (r.2.1 = .slash → r.2.2 = .collectionRoot) ∧
      (r.2.1 = .path → r.2.2 = .collectionPath) := by
  decide

/-- **Whatever the routes make of a request**, the content that its page shows is read under the
hash that the URL names, at the path that is after it. -/
theorem page_reads (gateway : Pages.Gateway Name) (hz : z.Lawful) (hparse : ParsesPaths parseUri)
    (request : Incoming) (hcontent : HasContent (page z gateway parseUri request)) :
    ∃ hash rest p, Names z gateway parseUri request hash rest ∧ IsFor rest p ∧
      Reads gateway hash p (page z gateway parseUri request) := by
  suffices h : ∃ rest,
      ReadsNamed z gateway parseUri request rest (page z gateway parseUri request) by
    obtain ⟨rest, h⟩ := h
    obtain ⟨hash, p, h⟩ := h hcontent
    exact ⟨hash, rest, p, h⟩
  have hother {page : Page} (h : ¬ HasContent page) :
      ∃ rest, ReadsNamed z gateway parseUri request rest page :=
    ⟨[], fun hcontent => absurd hcontent h⟩
  rw [page]
  split
  · exact hother id
  rename_i handler params hfound
  split
  swap
  · exact hother id
  obtain ⟨r, hr, hmatch⟩ := List.exists_of_findSome?_eq_some hfound
  obtain ⟨label, rest, hpath, hlabel, rfl, hkind⟩ := matchRoute_cases hmatch
  have hrest : rest = [] ∨ ∃ tail, rest = '/' :: tail := by
    obtain ⟨-, rfl, -⟩ | ⟨-, rfl, -⟩ | ⟨-, tail, rfl, -⟩ := hkind
    · exact .inl rfl
    · exact .inr ⟨_, rfl⟩
    · exact .inr ⟨_, rfl⟩
  have hlabelled {given : Str} (hgiven : given = label ∨ Percent.decode label = some given) :
      Labelled z parseUri request r.1 given rest :=
    labelled_of_path hz hparse hr hpath hlabel hrest hgiven
  refine ⟨rest, ?_⟩
  by_cases hpkarr : r.2.2 = .redirect
  · have hname := (redirect_iff r hr).mp hpkarr
    rw [hname] at hpath hlabelled
    have hstart : '/' :: "pkarr".toList ++ '/' :: label ++ rest =
        "/pkarr/".toList ++ (label ++ rest) := List.append_assoc ..
    rw [hpkarr, handle, prepared_originalUri, Option.getD_some]
    exact redirect_reads (hpath.trans hstart) hlabel hrest (hlabelled (.inl rfl))
  · obtain ⟨hname, hbare, hslash, htail⟩ := blake3_routes r hr hpkarr
    rw [hname] at hlabelled
    have hnone {rest : Str} {handler : Handler} {params : List Str}
        (hdecode : params.mapM Percent.decode = none) (hne : handler ≠ .redirect) :
        ReadsNamed z gateway parseUri request rest
          (handle z gateway handler params (prepared z parseUri request)) := by
      rw [handle.eq_def, hdecode]
      cases handler with
      | redirect => exact absurd rfl hne
      | blob | collectionRoot | collectionPath => exact fun hcontent => absurd hcontent id
    obtain ⟨hkind, rfl, rfl⟩ | ⟨hkind, rfl, rfl⟩ | ⟨hkind, tail, rfl, rfl⟩ := hkind
    · cases hdecode : Percent.decode label with
      | none => exact hnone (by simp [hdecode]) hpkarr
      | some given =>
        have hparams : [label].mapM Percent.decode = some [given] := by simp [hdecode]
        rw [hbare hkind, handle.eq_def, hparams]
        exact blob_reads (fun given h => hlabelled (.inr h)) hdecode
    · cases hdecode : Percent.decode label with
      | none => exact hnone (by simp [hdecode]) hpkarr
      | some given =>
        have hparams : [label].mapM Percent.decode = some [given] := by simp [hdecode]
        rw [hslash hkind, handle.eq_def, hparams]
        exact collectionPath_reads (hlabelled (.inr hdecode)) rfl
    · cases hdecode : Percent.decode label with
      | none => exact hnone (by simp [hdecode]) hpkarr
      | some given =>
        cases hpath : Percent.decode tail with
        | none => exact hnone (by simp [hdecode, hpath]) hpkarr
        | some path =>
          have hparams : [label, tail].mapM Percent.decode = some [given, path] := by
            simp [hdecode, hpath]
          rw [htail hkind, handle.eq_def, hparams]
          exact collectionPath_reads (hlabelled (.inr hdecode)) hpath

/-! ## Content -/

theorem mem_of_findName {name : Str} {entries : List (Str × Hash)}
    (h : findName name entries = some hash) : (name, hash) ∈ entries := by
  obtain ⟨entry, hentry, rfl⟩ := Option.map_eq_some_iff.mp h
  have hname : entry.1 = name := by simpa using List.find?_some hentry
  rw [← hname]
  exact List.mem_of_find?_eq_some hentry

/-- The file that an entry is answered with is at the path, or the index of the directory there. -/
theorem collectionEntry_file {root : Root} {collection : Collection} {urlPath name : Str}
    {download : Option Str}
    (h : collectionEntry root collection urlPath query = .file name hash download) :
    (name, hash) ∈ collection ∧
      (name = pathOf urlPath ∨ name = dirOf (pathOf urlPath) ++ INDEX_FILE) := by
  rw [collectionEntry] at h
  split at h
  · rename_i hash' hfound
    obtain ⟨rfl, rfl, -⟩ := Answer.file.inj h
    exact ⟨mem_of_findName (Option.ite_none_left_eq_some.mp hfound).2, .inl rfl⟩
  · unfold serveDir at h
    split at h
    · cases h
    · rename_i entries hentries
      dsimp only at h
      split at h
      · rename_i hash' hindex
        split at h
        · obtain ⟨rfl, rfl, -⟩ := Answer.file.inj h
          have hfound := (Option.ite_none_left_eq_some.mp hindex).2
          rw [findName_files (by decide) hentries] at hfound
          exact ⟨mem_of_findName hfound, .inr rfl⟩
        · cases h
      · cases h

/-- The hash of the content that a page is answered with. -/
def served : Page → Option Hash
  | .blob _ hash _ => some hash
  | .entry root collection urlPath query =>
    match collectionEntry root collection urlPath query with
    | .file _ hash _ => some hash
    | _ => none
  | _ => none

/-- The content that a request is for: the blob of the hash, or a file of the collection that the
hash stores, with the path as its name or as its directory. -/
inductive Denotes (z : Z32) (gateway : Pages.Gateway Name) (parseUri : Str → Option Uri)
    (request : Incoming) (blob : Hash → Blob) : Hash → Prop where
  | blob {hash : Hash} {rest : Str} (hnames : Names z gateway parseUri request hash rest)
    (hpath : IsFor rest []) : Denotes z gateway parseUri request blob hash
  | file {hash file : Hash} {rest p name : Str} {collection : Collection}
    (hnames : Names z gateway parseUri request hash rest) (hpath : IsFor rest p)
    (hstores : SourceCache.Stores blob hash collection) (hmem : (name, file) ∈ collection)
    (hname : name = p ∨ name = dirOf p ++ INDEX_FILE) :
    Denotes z gateway parseUri request blob file

theorem serveRange_status {content : Blob} {source : Source content} {request : BlobRequest}
    {range : HalfOpen UInt64} {status : StatusCode} {headers : HeaderMap} {response : Http.Response}
    (h : serveRange source request range status headers = .ok response) :
    response.status = status := by
  rw [serveRange] at h
  split at h
  · cases h
    rfl
  · split at h
    · cases h
    · cases h
    · split at h
      · cases h
      · cases h
        rfl

/-- All of a blob is sent, by a source that has its size. -/
theorem serveBlob_bytes {content : Blob} {source : Source content} {request : BlobRequest}
    {random : BitVec 128} {response : Http.Response}
    (hsize : source.size.toNat = content.bytes.length)
    (h : serveBlob source request random = .ok response) (hstatus : response.status = StatusCode.OK)
    (hmethod : request.method ≠ .HEAD) (hends : response.body.Ends) :
    response.body.bytes = content.bytes := by
  have hnot : StatusCode.NOT_MODIFIED ≠ StatusCode.OK ∧
      StatusCode.RANGE_NOT_SATISFIABLE ≠ StatusCode.OK ∧
      StatusCode.PARTIAL_CONTENT ≠ StatusCode.OK := by decide
  have hle : (⟨0, source.size⟩ : HalfOpen UInt64).start ≤ source.size := UInt64.zero_le
  rw [serveBlob] at h
  split at h
  · cases h
    exact absurd hstatus hnot.1
  split at h
  · cases h
    exact absurd hstatus hnot.2.1
  · rcases serveRange_cases hle (get_baseHeaders (.inl rfl)) with
      ⟨response', heq, -, -, hdelivers⟩ | ⟨error, heq, -⟩
    · obtain rfl := Except.ok.inj (heq.symm.trans h)
      rw [(hdelivers.body hmethod hends).1, Blob.slice, UInt64.toNat_zero, Nat.sub_zero, hsize,
        List.drop_zero, List.take_length]
    · cases heq.symm.trans h
  · rw [serveRange_status h] at hstatus
    exact absurd hstatus hnot.2.2
  · rw [serveParts] at h
    split at h
    · cases h
    · cases h
      exact absurd hstatus hnot.2.2

/-! ## From the caches to the bytes -/

section

open SourceCache

variable {κ C : Type} [DecidableEq κ] [DecidableEq C] {types : MimeTypes} {blob : Hash → Blob}
  {t : List (Event blob κ C × Output C)} {s : State κ C}

/-- The collections of the handlers are those that calls of the run were answered with. -/
structure AnswersFrom (t : List (Event blob κ C × Output C)) (gateway : Pages.Gateway Name) :
    Prop where
  collection : ∀ hash collection, gateway.collection hash = .ok collection →
    ∃ y ∈ t, ∃ source, y.2.IsCollection hash source ∧ source.collection = collection
  collectionOnConnection : ∀ hash collection,
    gateway.collectionOnConnection hash = some collection →
      ∃ y ∈ t, ∃ source, y.2.IsCollection hash source ∧ source.collection = collection

/-- A collection that a call was answered with is the one that its hash stores. -/
theorem stores_of_answer (h : (machine types blob).Run t s) {collection : Collection}
    (hanswer : ∃ y ∈ t, ∃ source, y.2.IsCollection hash source ∧ source.collection = collection) :
    Stores blob hash collection := by
  obtain ⟨y, hy, source, hsource, rfl⟩ := hanswer
  have hinv := inv_run h
  exact (hinv.right.collection hash source (hinv.servedCollections y hy hash source hsource)).1

/-- A source that a call was answered with has the size of its blob. -/
theorem size_of_answer (h : (machine types blob).Run t s) {y : Event blob κ C × Output C}
    (hy : y ∈ t) {source : SourceCache.Source C}
    (hsource : y.2.IsSource hash source ∨ y.2 = .file hash source) :
    source.size.toNat = (blob hash).bytes.length := by
  rcases hsource with hsource | hfile
  · have hinv := inv_run h
    exact (hinv.right.source hash source (hinv.served y hy hash source hsource)).1.size_eq
  · obtain ⟨before, after, ht⟩ := List.append_of_mem hy
    obtain ⟨s', hrun, ha, hout⟩ := h.stepAt ht
    obtain ⟨call, started, name, -, -, hgenuine⟩ :=
      (effect_step types ha).file_eq (hout.symm.trans hfile)
    exact hgenuine.size_eq

end

end

namespace Sample

open SourceCache (machine)
open SourceCache.Sample (root blobs types reads told run)
open ReadCollection.Sample (file collection)

/-- A gateway that has read the collection. -/
def gateway : Pages.Gateway Str where
  addFromQuery _ _ := none
  collection hash := if hash = root then .ok collection else .error .upstream
  source _ := .error .upstream
  collectionOnConnection _ := none
  packet _ := .error .timeout
  toStr := id

theorem answers : AnswersFrom (reads.zip told) gateway where
  collection hash collection' h := by
    change (if hash = root then .ok collection else .error HttpError.upstream)
      = Except.ok collection' at h
    split at h
    · rename_i hroot
      rw [hroot, ← Except.ok.inj h]
      exact ⟨SourceCache.Sample.answer, .tail _ (.tail _ (.tail _ (.head _))), _, .inr rfl, rfl⟩
    · cases h
  collectionOnConnection hash collection' h := by cases h

/-- A request for the file, by the path of the hash. -/
def request : Incoming :=
  ⟨.GET, ⟨none, some ("/blake3/".toList ++ Z32.standard.encode root.toList ++ "/a".toList)⟩, []⟩

theorem served_request :
    served (page Z32.standard gateway Origins.Sample.parseUri request) = some file := by
  decide +kernel

end Sample

end ServedContent

end ContentDiscovery
