import ContentDiscovery.Pages

/-!
# What links lead to

A link is requested by path or by subdomain, with a hash or a key that names the collection.
Whichever it is, `collection_entry` is asked for the path of the link, but without slashes that
it begins with (`page_link`): one of them is taken for the slash before the path, and of a key
all are.
-/

namespace ContentDiscovery

open Http Origins Dns Pages

/-- A path with a query. -/
def withQuery (path : Str) : Option Str → Str
  | none => path
  | some query => path ++ '?' :: query

/-- The four forms of URLs. -/
structure Form where
  /-- a key names the collection, not its hash -/
  pkarr : Bool
  /-- the name is a subdomain, not in the path -/
  subdomain : Bool
  deriving DecidableEq

namespace Form

/-- The route that serves this form. -/
def route (form : Form) : Str := if form.pkarr then "pkarr".toList else "blake3".toList

/-- The root that the handlers make. -/
def root (form : Form) (encoded : Str) : Root :=
  if form.pkarr then
    Root.under encoded (if form.subdomain then [] else "/pkarr/".toList ++ encoded) .Revalidate
  else Root.new encoded form.subdomain

/-- What is left of a path when the handlers have taken slashes away. -/
def stripped (form : Form) (p : Str) : Str :=
  if form.pkarr then p.dropWhile fun c => c = '/' else (Str.stripPrefix ['/'] p).getD p

/-- What the path of a link has after the name of the collection, when it is routed. -/
def linkTail (form : Form) (p : Str) : Str :=
  if form.subdomain ∧ p = [] then [] else '/' :: Root.encodePath p

/-- The handler of a path, and its parameters. -/
def handlerFor (form : Form) (encoded : Str) : Option Str → Handler × List Str
  | none => (if form.pkarr then .redirect else .blob, [encoded])
  | some [] => (if form.pkarr then .redirect else .collectionRoot, [encoded])
  | some (c :: path) => (if form.pkarr then .redirect else .collectionPath, [encoded, c :: path])

end Form

/-- A request for an URL of a form. -/
structure Asks (z : Z32) (form : Form) (encoded text : Str) (request : Incoming) : Prop where
  method : request.method = .GET ∨ request.method = .HEAD
  text : request.uri.pathAndQuery = some text
  host : ((hostOf request).map (List.map Char.toLower)).bind (labelOf z)
    = if form.subdomain then some (encoded, form.route) else none

/-- The hash or key is that of a collection, and the collection is available. -/
structure Names {Name : Type} (z : Z32) (gateway : Pages.Gateway Name) (form : Form) (encoded : Str)
    (hash : Hash) (collection : Collection) : Prop where
  named : if form.pkarr then ∃ key packet authority, parseZ32Bytes z encoded = some key ∧
      gateway.packet key = .ok packet ∧ target gateway.toStr packet encoded = some authority ∧
        contentHash z authority = some hash
    else parseZ32Bytes z encoded = some hash
  reads : gateway.collection hash = .ok collection
  source : ∃ size, gateway.source hash = .ok size ∧ 32 ≤ size ∧ size % 32 = 0 ∧
    size ≤ MAX_COLLECTION_ROOT_BYTES
  probe : gateway.collectionOnConnection hash = some collection

/-- The query asks for nothing but the entry. -/
structure Plain {Name : Type} (gateway : Pages.Gateway Name) (hash : Hash) (p : Str)
    (query : Option Str) : Prop where
  fragment : ∀ text ∈ query, '#' ∉ text
  hints : gateway.addFromQuery hash query = none
  debug : ¬ hasFlag query "debug".toList
  /-- the root is served as it is with `?download` -/
  download : (∀ c ∈ p, c = '/') → ¬ hasFlag query "download".toList

section

variable {Name : Type} {z : Z32} {gateway : Pages.Gateway Name} {parseUri : Str → Option Uri}
  {form : Form} {encoded p path tail text : Str} {query : Option Str} {request : Incoming}
  {hash : Hash} {collection : Collection} {root : Root}

/-! ## URLs -/

theorem Form.root_named (h : (parseZ32Bytes z encoded).isSome) : (form.root encoded).Named z := by
  rw [Form.root]
  split
  · refine ⟨h, ?_⟩
    cases form.subdomain
    · exact .inr ⟨_, .inr rfl, rfl⟩
    · exact .inl rfl
  · refine ⟨h, ?_⟩
    rw [Root.new]
    cases form.subdomain
    · exact .inr ⟨_, .inl rfl, rfl⟩
    · exact .inl rfl

theorem Names.isSome (h : Names z gateway form encoded hash collection) :
    (parseZ32Bytes z encoded).isSome := by
  have hhash := h.named
  split at hhash
  · obtain ⟨key, -, -, hkey, -⟩ := hhash
    exact Option.isSome_of_eq_some hkey
  · exact Option.isSome_of_eq_some hhash

/-- A path without a question mark is kept apart from the query. -/
theorem path_withQuery {uri : Uri} (huri : uri.pathAndQuery = some (withQuery path query))
    (hne : path ≠ []) (h : '?' ∉ path) : uri.path = path ∧ uri.query = query := by
  have hkeep : ∀ c ∈ path, (decide (c ≠ '?')) = true := by
    intro c hc
    rw [decide_eq_true_eq]
    rintro rfl
    exact h hc
  rw [Uri.path, Uri.query, huri]
  cases query with
  | none =>
    constructor
    · simp only [withQuery, List.takeWhile_eq_self_iff.mpr hkeep]
      exact if_neg hne
    · rw [withQuery, Option.bind_some, Str.splitOnce_eq_none.mpr h, Option.map_none]
  | some text =>
    constructor
    · have hcut : (path ++ '?' :: text).takeWhile (fun c => c ≠ '?') = path := by
        rw [List.takeWhile_append_of_pos hkeep]
        simp
      simp only [withQuery, hcut]
      exact if_neg hne
    · rw [withQuery, Option.bind_some, Str.splitOnce_eq_some.mpr ⟨rfl, h⟩, Option.map_some]

/-- All of a path is left if and only if it does not begin with a slash. -/
theorem stripped_eq_self : form.stripped p = p ↔ p.head? ≠ some '/' := by
  rw [Form.stripped]
  cases p with
  | nil =>
    refine iff_of_true ?_ (by decide)
    split
    · rfl
    · rfl
  | cons c p =>
    rw [List.head?_cons, Ne, Option.some_inj]
    split
    · rw [List.dropWhile_eq_self_iff]
      simp
    · by_cases hc : c = '/'
      · subst hc
        have hstrip : Str.stripPrefix ['/'] ('/' :: p) = some p := Str.stripPrefix_eq_some.mpr rfl
        rw [hstrip, Option.getD_some]
        exact iff_of_false ((List.cons_ne_self '/' p).symm) (not_not_intro rfl)
      · have hstrip : Str.stripPrefix ['/'] (c :: p) = none := by
          rw [← Option.not_isSome_iff_eq_none, Option.isSome_iff_exists]
          rintro ⟨a, ha⟩
          exact hc (List.cons.inj (Str.stripPrefix_eq_some.mp ha)).1.symm
        rw [hstrip, Option.getD_none]
        exact iff_of_true rfl hc

theorem dropWhile_encodePath : (Root.encodePath p).dropWhile (fun c => c = '/')
    = Root.encodePath (p.dropWhile fun c => c = '/') := by
  induction p with
  | nil => rfl
  | cons c p ih =>
    by_cases hc : c = '/'
    · subst hc
      rw [encodePath_cons_slash, List.dropWhile_cons_of_pos (by simp), ih,
        List.dropWhile_cons_of_pos (by simp)]
    · rw [List.dropWhile_cons_of_neg (by simpa using hc)]
      have hhead : (Root.encodePath (c :: p)).head? ≠ some '/' := by
        rw [Ne, head?_encodePath]
        simpa using hc
      cases hencoded : Root.encodePath (c :: p) with
      | nil => rfl
      | cons d rest =>
        rw [hencoded, List.head?_cons, Ne, Option.some_inj] at hhead
        rw [List.dropWhile_cons_of_neg (by simpa using hhead)]

/-- The path after the name of the collection: `tail` is the rest of it. -/
def formPath (form : Form) (encoded tail : Str) : Str := '/' :: form.route ++ '/' :: encoded ++ tail

/-! ## Routes -/

section Routes

/-- A path is one of its own route, and of no other. -/
theorem stripPrefix_formPath (form : Form) (encoded tail : Str) (pkarr : Bool) :
    Str.stripPrefix ('/' :: (if pkarr then "pkarr".toList else "blake3".toList) ++ ['/'])
      (formPath form encoded tail)
        = if pkarr = form.pkarr then some (encoded ++ tail) else none := by
  rcases form with ⟨_ | _, subdomain⟩ <;> cases pkarr
  · exact Str.stripPrefix_eq_some.mpr (by simp [formPath, Form.route])
  · rfl
  · rfl
  · exact Str.stripPrefix_eq_some.mpr (by simp [formPath, Form.route])

/-- What a route makes of the part of a path after its name. -/
def matchTail (encoded : Str) (handler : Handler) (tail : Tail) :
    Option Str → Option (Handler × List Str)
  | none => if tail = .bare then some (handler, [encoded]) else none
  | some [] => if tail = .slash then some (handler, [encoded]) else none
  | some (c :: path) => if tail = .path then some (handler, [encoded, c :: path]) else none

theorem matchRoute_formPath {rest : Option Str} (hne : encoded ≠ [])
    (hsegment : segment (encoded ++ tail) = (encoded, rest)) (form : Form) (pkarr : Bool) (t : Tail)
    (handler : Handler) :
    matchRoute (formPath form encoded tail)
      (if pkarr then "pkarr".toList else "blake3".toList, t, handler)
        = if pkarr = form.pkarr then matchTail encoded handler t rest else none := by
  rw [matchRoute, stripPrefix_formPath]
  by_cases hpkarr : pkarr = form.pkarr
  · rw [if_pos hpkarr, if_pos hpkarr]
    simp only [hsegment, if_neg hne]
    cases t <;> rcases rest with _ | _ | ⟨c, path⟩ <;> rfl
  · rw [if_neg hpkarr, if_neg hpkarr]

/-- A path is served by the handler of its form. -/
theorem findSome_formPath {rest : Option Str} (hne : encoded ≠ [])
    (hsegment : segment (encoded ++ tail) = (encoded, rest)) (form : Form) :
    ROUTES.findSome? (matchRoute (formPath form encoded tail))
      = some (form.handlerFor encoded rest) := by
  have hpkarr := fun t handler => matchRoute_formPath hne hsegment form true t handler
  have hblake3 := fun t handler => matchRoute_formPath hne hsegment form false t handler
  simp only [if_true, Bool.false_eq_true, if_false] at hpkarr hblake3
  simp only [ROUTES, List.findSome?_cons, hpkarr, hblake3]
  rcases form with ⟨_ | _, subdomain⟩ <;> rcases rest with _ | _ | ⟨c, path⟩ <;> rfl

end Routes

/-! ## Requests -/

section Requests

theorem prepared_method : (prepared z parseUri request).method = request.method := by
  rw [prepared, rewriteSubdomain]
  split
  · rfl
  · split <;> rfl

theorem encodePath_nil : Root.encodePath [] = [] := rfl

theorem encodePath_ne_nil (h : p ≠ []) : Root.encodePath p ≠ [] :=
  fun hnil => h (encodePath_injective (hnil.trans encodePath_nil.symm))

theorem linkChar_ne (h : ∀ c ∈ text, IsLinkChar c) : '?' ∉ text ∧ '#' ∉ text :=
  ⟨fun hmem => absurd (h _ hmem) (by decide), fun hmem => absurd (h _ hmem) (by decide)⟩

/-- A link by path begins with the route and the name. -/
theorem base_of_path (h : form.subdomain = false) :
    (form.root encoded).base = '/' :: form.route ++ '/' :: encoded := by
  rw [Form.root, Form.route, h]
  split
  · rfl
  · rfl

theorem base_of_subdomain (h : form.subdomain = true) : (form.root encoded).base = [] := by
  rw [Form.root, h]
  split
  · rfl
  · rfl

/-- The characters of a path as it is routed. -/
theorem linkChar_formPath (hz : z.Lawful) (hencoded : (parseZ32Bytes z encoded).isSome)
    (form : Form) (p : Str) :
    ∀ c ∈ formPath form encoded (form.linkTail p), IsLinkChar c := by
  have hroute : ('/' :: form.route).all fun c => IsLinkChar c := by
    rw [Form.route]
    cases form.pkarr <;> decide
  have htail : ∀ c ∈ form.linkTail p, IsLinkChar c := by
    rw [Form.linkTail]
    split
    · exact fun c hc => absurd hc List.not_mem_nil
    · intro c hc
      obtain rfl | hc := List.mem_cons.mp hc
      · decide
      · exact mem_encodePath hc
  intro c hc
  rw [formPath, List.append_assoc] at hc
  obtain hc | hc := List.mem_append.mp hc
  · exact isLinkChar_of_all hroute c hc
  · rw [List.cons_append] at hc
    obtain rfl | hc := List.mem_cons.mp hc
    · decide
    · obtain hc | hc := List.mem_append.mp hc
      · exact isLinkChar_alphabet (mem_alphabet_of_parse hz hencoded c hc)
      · exact htail c hc

/-- The rewritten text of a request by subdomain. -/
theorem rewritten_link (h : form.subdomain = true) :
    rewritten form.route encoded (withQuery ('/' :: Root.encodePath p) query)
      = withQuery (formPath form encoded (form.linkTail p)) query := by
  have hstrip : Str.stripPrefix ['/'] (withQuery ('/' :: Root.encodePath p) query)
      = some (withQuery (Root.encodePath p) query) := by
    rw [Str.stripPrefix_eq_some]
    cases query <;> rfl
  rw [rewritten, hstrip, Option.getD_some, Form.linkTail, h]
  by_cases hp : p = []
  · have hquery : withQuery [] query = [] ∨ (withQuery [] query).head? = some '?' := by
      cases query with
      | none => exact .inl rfl
      | some text => exact .inr rfl
    rw [hp, encodePath_nil]
    simp only [if_pos hquery, formPath, and_self, if_true]
    cases query <;> simp [withQuery]
  · have hquery : ¬ (withQuery (Root.encodePath p) query = [] ∨
        (withQuery (Root.encodePath p) query).head? = some '?') := by
      cases hencoded : Root.encodePath p with
      | nil => exact absurd hencoded (encodePath_ne_nil hp)
      | cons c rest =>
        have hc := mem_encodePath (hencoded ▸ List.mem_cons_self : c ∈ Root.encodePath p)
        have hne : c ≠ '?' := fun h => absurd (h ▸ hc) (by decide)
        cases query <;> simpa [withQuery] using hne
    simp only [if_neg hquery, formPath, hp, and_false, if_false]
    cases query <;> simp [withQuery]

/-- A text without a fragment is kept by the parser. -/
theorem parsed_withQuery {uri : Uri} (hparse : ParsesPaths parseUri)
    (hquery : ∀ text ∈ query, '#' ∉ text) (hhash : '#' ∉ formPath form encoded tail)
    (huri : parseUri (withQuery (formPath form encoded tail) query) = some uri) :
    uri.pathAndQuery = some (withQuery (formPath form encoded tail) query) := by
  obtain ⟨rest, hrest⟩ : ∃ rest, withQuery (formPath form encoded tail) query = '/' :: rest := by
    cases query with
    | none => exact ⟨_, rfl⟩
    | some text => exact ⟨_, rfl⟩
  have hkeep : ∀ c ∈ withQuery (formPath form encoded tail) query, decide (c ≠ '#') = true := by
    intro c hc
    rw [decide_eq_true_eq]
    rintro rfl
    cases query with
    | none => exact hhash hc
    | some text =>
      obtain hc | hc := List.mem_append.mp hc
      · exact hhash hc
      · obtain heq | hc := List.mem_cons.mp hc
        · exact absurd heq (by decide)
        · exact hquery text rfl hc
  rw [hrest] at huri hkeep ⊢
  rw [(hparse _ _ huri).2, List.takeWhile_eq_self_iff.mpr hkeep]

/-- The text of a request for a link. -/
def linkText (form : Form) (encoded p : Str) (query : Option Str) : Str :=
  withQuery (urlPath ((form.root encoded).link p)) query

variable (hz : z.Lawful) (hencoded : (parseZ32Bytes z encoded).isSome)
include hz hencoded

/-- A link is requested as it is, but for the dot that kept it on its host. -/
theorem linkText_eq (hp : Dotless p) (form : Form) (query : Option Str) :
    linkText form encoded p query = withQuery ((form.root encoded).raw p) query := by
  rw [linkText, urlPath_link hz (Form.root_named hencoded) hp]

/-- The routes see a link under its route, with its query. -/
theorem prepared_link (hparse : ParsesPaths parseUri) (hquery : ∀ text ∈ query, '#' ∉ text)
    (hlink : text = withQuery ((form.root encoded).raw p) query)
    (hasks : Asks z form encoded text request)
    (hrewritten : form.subdomain → (parseUri (rewritten form.route encoded text)).isSome) :
    (prepared z parseUri request).uri.path = formPath form encoded (form.linkTail p) ∧
      (prepared z parseUri request).uri.query = query ∧
        (prepared z parseUri request).subdomain = form.subdomain := by
  obtain ⟨hquestion, hhash⟩ := linkChar_ne (linkChar_formPath hz hencoded form p)
  have hne : formPath form encoded (form.linkTail p) ≠ [] := by
    rw [formPath]
    exact List.cons_ne_nil _ _
  have htext := hasks.text
  have hhost := hasks.host
  rw [prepared, rewriteSubdomain]
  cases hsubdomain : form.subdomain with
  | false =>
    rw [hsubdomain] at hhost
    rw [hlink, Root.raw, base_of_path hsubdomain] at htext
    simp only [hhost, Bool.false_eq_true, if_false]
    have htail : form.linkTail p = '/' :: Root.encodePath p := by
      simp [Form.linkTail, hsubdomain]
    have hpath : formPath form encoded (form.linkTail p)
        = '/' :: form.route ++ '/' :: encoded ++ '/' :: Root.encodePath p := by
      rw [formPath, htail]
    rw [← hpath] at htext
    obtain ⟨huri, hquery⟩ := path_withQuery htext hne hquestion
    exact ⟨huri, hquery, trivial⟩
  | true =>
    rw [hsubdomain] at hhost
    have htarget := hrewritten hsubdomain
    rw [hlink, Root.raw, base_of_subdomain hsubdomain, List.nil_append] at htext htarget
    rw [rewritten_link hsubdomain] at htarget
    obtain ⟨uri, huri⟩ := Option.isSome_iff_exists.mp htarget
    simp only [hhost, if_true, htext, Option.getD_some, rewritten_link hsubdomain, huri]
    obtain ⟨hpath, hquery⟩ :=
      path_withQuery (parsed_withQuery hparse hquery hhash huri) hne hquestion
    exact ⟨hpath, hquery, trivial⟩

end Requests

/-! ## Pages of links -/

section PageOf

/-- Slashes that are gone are not taken away again. -/
theorem getD_stripPrefix_dropWhile (p : Str) :
    (Str.stripPrefix ['/'] (p.dropWhile fun c => c = '/')).getD (p.dropWhile fun c => c = '/')
      = p.dropWhile fun c => c = '/' := by
  have hhead : (p.dropWhile fun c => c = '/').head? ≠ some '/' := by
    intro h
    have hnot := List.head?_dropWhile_not (fun c => decide (c = '/')) p
    rw [h] at hnot
    simp at hnot
  have hself : Form.stripped ⟨false, false⟩ (p.dropWhile fun c => c = '/') = _ :=
    stripped_eq_self.mpr hhead
  exact hself

theorem segment_linkTail (hslash : '/' ∉ encoded) : Origins.segment (encoded ++ form.linkTail p)
    = (encoded, if form.subdomain ∧ p = [] then none else some (Root.encodePath p)) := by
  rw [Origins.segment, Form.linkTail]
  by_cases h : form.subdomain ∧ p = []
  · rw [if_pos h, if_pos h, List.append_nil, Str.splitOnce_eq_none.mpr hslash]
  · rw [if_neg h, if_neg h, Str.splitOnce_eq_some.mpr ⟨rfl, hslash⟩]

/-- Every path of a key goes to one handler. -/
theorem handle_redirect {rest : Option Str} {request : Origins.Request}
    (hpkarr : form.pkarr = true) :
    handle z gateway (form.handlerFor encoded rest).1 (form.handlerFor encoded rest).2 request
      = redirect z gateway (request.originalUri.getD request.uri) request.subdomain := by
  have hhandler : (form.handlerFor encoded rest).1 = .redirect := by
    rcases rest with _ | _ | ⟨c, path⟩ <;> simp [Form.handlerFor, hpkarr]
  rw [hhandler, handle]

theorem encoded_plain (hz : z.Lawful) (hnames : Names z gateway form encoded hash collection) :
    '/' ∉ encoded ∧ encoded ≠ [] ∧ Percent.decode encoded = some encoded := by
  have hmem := mem_alphabet_of_parse hz hnames.isSome
  refine ⟨fun h => absurd (hmem _ h) (by decide), ?_, ?_⟩
  · rintro rfl
    exact absurd hnames.isSome (by simp [parseZ32Bytes, Str.bytes])
  · exact Percent.decode_self fun h => absurd (hmem _ h) (by decide)

variable (hnames : Names z gateway form encoded hash collection)
  (hplain : Plain gateway hash p query)
include hnames hplain

/-- The root is an entry, as the collection is found. -/
theorem serveRoot_entry (root : Root) (h : ∀ c ∈ p, c = '/') :
    serveRoot z gateway root hash true query = .entry root collection ['/'] query := by
  obtain ⟨size, hsize, hmin, hmod, hmax⟩ := hnames.source
  have hdownload : ¬ hasFlag query "download".toList := hplain.download h
  rw [serveRoot, hplain.hints]
  simp only [if_neg hplain.debug, hdownload, hnames.reads, hsize, hmin, hmod, hmax, hnames.probe]
  simp

theorem servePath_entry (root : Root) (path : Str) :
    servePath gateway root hash path query
      = .entry root collection ('/' :: (Str.stripPrefix ['/'] path).getD path) query := by
  rw [servePath, hplain.hints]
  simp only [if_neg hplain.debug, hnames.reads]

variable (hz : z.Lawful)
include hz

/-- The key handler asks for the path without slashes at its beginning. -/
theorem redirect_entry {uri : Uri} (hpkarr : form.pkarr = true)
    (hpath : uri.path = formPath form encoded (form.linkTail p)) (hquery : uri.query = query) :
    redirect z gateway uri form.subdomain
      = .entry (form.root encoded) collection ('/' :: form.stripped p) query := by
  obtain ⟨hslash, -, -⟩ := encoded_plain hz hnames
  have hrest : Str.stripPrefix "/pkarr/".toList uri.path = some (encoded ++ form.linkTail p) := by
    rw [hpath, Str.stripPrefix_eq_some, formPath, Form.route, hpkarr]
    simp
  have hnamed := hnames.named
  rw [hpkarr] at hnamed
  obtain ⟨key, packet, authority, hkey, hpacket, htarget, hhash⟩ := hnamed
  have hpath' : (if form.subdomain ∧ p = [] then none else some (Root.encodePath p)).getD []
      = Root.encodePath p := by
    split
    · rename_i h
      rw [h.2, encodePath_nil, Option.getD_none]
    · rfl
  have hcontains : (form.subdomain || (encoded ++ form.linkTail p).contains '/') = true := by
    rw [Form.linkTail]
    split
    · rename_i h
      rw [h.1, Bool.true_or]
    · simp
  have hdecode : Percent.decode (('/' :: Root.encodePath p).dropWhile fun c => c = '/')
      = some (p.dropWhile fun c => c = '/') := by
    rw [List.dropWhile_cons_of_pos (by simp), dropWhile_encodePath, decode_encodePath]
  have hroot : Root.under encoded (if form.subdomain then [] else "/pkarr/".toList ++ encoded)
      .Revalidate = form.root encoded := by
    rw [Form.root, hpkarr, if_pos rfl]
  rw [redirect, hrest]
  simp only [segment_linkTail hslash, hpath', hkey, hquery, if_neg hplain.debug, hpacket, htarget,
    hhash, hdecode, hcontains, hroot]
  rw [Form.stripped, hpkarr, if_pos rfl]
  split
  · rename_i hempty
    have hall : ∀ c ∈ p, c = '/' := by simpa using List.dropWhile_eq_nil_iff.mp hempty
    rw [serveRoot_entry hnames hplain _ hall, hempty]
  · rw [servePath_entry hnames hplain, getD_stripPrefix_dropWhile]

/-- The handlers of hashes ask for the path without one slash at its beginning. -/
theorem handle_hash {rest : Option Str} {request : Origins.Request} (hpkarr : form.pkarr = false)
    (hrest : rest = if form.subdomain ∧ p = [] then none else some (Root.encodePath p))
    (hquery : request.uri.query = query) (hsubdomain : request.subdomain = form.subdomain) :
    handle z gateway (form.handlerFor encoded rest).1 (form.handlerFor encoded rest).2 request
      = .entry (form.root encoded) collection ('/' :: form.stripped p) query := by
  obtain ⟨-, -, hdecode⟩ := encoded_plain hz hnames
  have hnamed := hnames.named
  rw [hpkarr] at hnamed
  have hhash : parseHash z encoded = some hash := hnamed
  have hroot : form.root encoded = Root.new encoded form.subdomain := by
    rw [Form.root, hpkarr]
    rfl
  have hstripped : form.stripped p = (Str.stripPrefix ['/'] p).getD p := by
    rw [Form.stripped, hpkarr]
    rfl
  rw [hstripped, hroot]
  by_cases h : form.subdomain ∧ p = []
  · -- the root of a subdomain, which is routed without a slash
    rw [if_pos h] at hrest
    have hall : ∀ c ∈ p, c = '/' := by simp [h.2]
    rw [hrest, Form.handlerFor, hpkarr]
    simp only [Bool.false_eq_true, if_false, handle, List.mapM_cons, List.mapM_nil, hdecode, hquery,
      hsubdomain, Option.pure_def, Option.bind_eq_bind, Option.bind_some, blob, hhash, h.1]
    rw [serveRoot_entry hnames hplain _ hall, h.2]
    rfl
  · rw [if_neg h] at hrest
    have hpath : Percent.decode (Root.encodePath p) = some p := decode_encodePath
    cases hencoded : Root.encodePath p with
    | nil =>
      have hp : p = [] := by
        by_contra hne
        exact encodePath_ne_nil hne hencoded
      rw [hrest, hencoded, Form.handlerFor, hpkarr]
      simp only [Bool.false_eq_true, if_false, handle, List.mapM_cons, List.mapM_nil, hdecode,
        hquery, hsubdomain, Option.pure_def, Option.bind_eq_bind, Option.bind_some, collectionRoot,
        collectionPath, hhash]
      rw [servePath_entry hnames hplain, hp]
    | cons c path =>
      rw [hencoded] at hpath
      rw [hrest, hencoded, Form.handlerFor, hpkarr]
      simp only [Bool.false_eq_true, if_false, handle, List.mapM_cons, List.mapM_nil, hdecode,
        hpath, hquery, hsubdomain, Option.pure_def, Option.bind_eq_bind, Option.bind_some,
        collectionPath, hhash]
      rw [servePath_entry hnames hplain]

/-- A link is a call of `collection_entry` with the root of its form, for what is left of its
path. -/
theorem page_link (hparse : ParsesPaths parseUri)
    (hlink : text = withQuery ((form.root encoded).raw p) query)
    (hasks : Asks z form encoded text request)
    (hrewritten : form.subdomain → (parseUri (rewritten form.route encoded text)).isSome) :
    page z gateway parseUri request
      = .entry (form.root encoded) collection ('/' :: form.stripped p) query := by
  obtain ⟨hslash, hne, -⟩ := encoded_plain hz hnames
  obtain ⟨hpath, hquery, hsubdomain⟩ :=
    prepared_link hz hnames.isSome hparse hplain.fragment hlink hasks hrewritten
  have horiginal : (prepared z parseUri request).originalUri = _ := prepared_originalUri
  have hmethod : (prepared z parseUri request).method = .GET ∨
      (prepared z parseUri request).method = .HEAD := by
    rw [prepared_method]
    exact hasks.method
  rw [page]
  simp only [hpath, findSome_formPath hne (segment_linkTail hslash) form, if_pos hmethod]
  cases hpkarr : form.pkarr with
  | false => exact handle_hash hnames hplain hz hpkarr rfl hquery hsubdomain
  | true =>
    rw [handle_redirect hpkarr, horiginal, Option.getD_some, hsubdomain]
    exact redirect_entry hnames hplain hz hpkarr hpath hquery

end PageOf

/-! ## Requests that are not rewritten -/

section Unmarked

variable {root' : Root} {collection' : Collection} {urlPath : Str} {query' : Option Str}

theorem serveRoot_root {slash : Bool}
    (h : serveRoot z gateway root hash slash query = .entry root' collection' urlPath query') :
    root' = root := by
  rw [serveRoot] at h
  split at h
  · cases h
  · split at h
    · cases h
    · simp only at h
      split at h
      · split at h
        · cases h
        · exact (Page.entry.inj h).1.symm
      · split at h
        · cases h
        · split at h
          · exact (Page.entry.inj h).1.symm
          · cases h

theorem servePath_root
    (h : servePath gateway root hash path query = .entry root' collection' urlPath query') :
    root' = root := by
  rw [servePath] at h
  split at h
  · cases h
  · split at h
    · cases h
    · split at h
      · cases h
      · exact (Page.entry.inj h).1.symm

theorem collectionPath_root {encoded : Str} {subdomain : Bool}
    (h : collectionPath z gateway encoded path query subdomain
      = .entry root' collection' urlPath query') : root' = Root.new encoded subdomain := by
  rw [collectionPath] at h
  split at h
  · cases h
  · exact servePath_root h

theorem blob_root {encoded : Str} {subdomain : Bool}
    (h : blob z gateway encoded query subdomain = .entry root' collection' urlPath query') :
    root' = Root.new encoded subdomain := by
  rw [blob] at h
  split at h
  · cases h
  · exact serveRoot_root h

theorem redirect_root {uri : Uri}
    (h : redirect z gateway uri false = .entry root' collection' urlPath query') :
    ∃ encoded, root' = Root.under encoded ("/pkarr/".toList ++ encoded) .Revalidate := by
  rw [redirect] at h
  split at h
  · cases h
  · rename_i rest hrest
    simp only at h
    split at h
    · cases h
    · split at h
      · cases h
      · split at h
        · cases h
        · split at h
          · cases h
          · split at h
            · split at h
              · cases h
              · split at h
                · exact ⟨_, serveRoot_root h⟩
                · exact ⟨_, servePath_root h⟩
            · cases h

/-- Links of a page that did not come by subdomain name their collection. -/
theorem base_ne_nil {handler : Handler} {params : List Str} {request : Origins.Request}
    (hsubdomain : request.subdomain = false)
    (h : handle z gateway handler params request = .entry root' collection' urlPath query') :
    root'.base ≠ [] := by
  have hnew : ∀ encoded, (Root.new encoded false).base ≠ [] := by
    intro encoded
    rw [Root.new]
    exact List.cons_ne_nil _ _
  unfold handle at h
  rw [hsubdomain] at h
  split at h
  · obtain ⟨encoded, rfl⟩ := redirect_root h
    exact List.cons_ne_nil _ _
  · rw [blob_root h]
    exact hnew _
  · rw [collectionPath_root h]
    exact hnew _
  · rw [collectionPath_root h]
    exact hnew _
  · cases h

/-- A request by subdomain that is not rewritten does not get the root of its form. -/
theorem page_of_not_rewritten (hform : form.subdomain = true)
    (hasks : Asks z form encoded text request)
    (hrewritten : parseUri (rewritten form.route encoded text) = none) :
    page z gateway parseUri request ≠ .entry (form.root encoded) collection' urlPath query' := by
  intro h
  have hsubdomain : (prepared z parseUri request).subdomain = false := by
    have hhost := hasks.host
    rw [hform] at hhost
    rw [prepared, rewriteSubdomain]
    simp only [hhost, if_true, hasks.text, Option.getD_some, hrewritten]
  rw [page] at h
  split at h
  · cases h
  · split at h
    · exact base_ne_nil hsubdomain h (base_of_subdomain hform)
    · cases h

end Unmarked

/-! ## The claim -/

/-- A request for a link gets an entry at the path that the link is of. -/
def LeadsBack (z : Z32) (gateway : Pages.Gateway Name) (parseUri : Str → Option Uri) (form : Form)
    (encoded : Str) (collection : Collection) (p : Str) (query : Option Str) (request : Incoming) :
    Prop :=
  ∃ urlPath, page z gateway parseUri request
      = .entry (form.root encoded) collection urlPath query ∧ pathOf urlPath = p

theorem pathOf_cons (path : Str) : pathOf ('/' :: path) = path := by
  have hstrip : Str.stripPrefix ['/'] ('/' :: path) = some path := Str.stripPrefix_eq_some.mpr rfl
  rw [pathOf, hstrip, Option.getD_some]

theorem leadsBack_iff (hz : z.Lawful) (hparse : ParsesPaths parseUri)
    (hnames : Names z gateway form encoded hash collection) (hplain : Plain gateway hash p query)
    (hp : Dotless p) (hasks : Asks z form encoded (linkText form encoded p query) request) :
    LeadsBack z gateway parseUri form encoded collection p query request ↔
      p.head? ≠ some '/' ∧ (form.subdomain →
        (parseUri (rewritten form.route encoded (linkText form encoded p query))).isSome) := by
  by_cases hrewritten : form.subdomain →
      (parseUri (rewritten form.route encoded (linkText form encoded p query))).isSome
  · have hlink := linkText_eq hz hnames.isSome hp form query
    rw [and_iff_left hrewritten, LeadsBack,
      page_link hnames hplain hz hparse hlink hasks hrewritten]
    constructor
    · rintro ⟨urlPath, hpage, hpath⟩
      obtain ⟨-, -, rfl, -⟩ := Page.entry.inj hpage
      rw [pathOf_cons] at hpath
      exact stripped_eq_self.mp hpath
    · intro hhead
      exact ⟨_, rfl, by rw [pathOf_cons, stripped_eq_self.mpr hhead]⟩
  · refine iff_of_false ?_ fun h => hrewritten h.2
    rintro ⟨urlPath, hpage, -⟩
    rw [Classical.not_imp, Bool.not_eq_true, Option.isSome_eq_false_iff,
      Option.isNone_iff_eq_none] at hrewritten
    exact page_of_not_rewritten hrewritten.1 hasks hrewritten.2 hpage

/-- Different paths have different URLs, also once they are normalised. -/
theorem urlPath_injective (hz : z.Lawful) (hencoded : (parseZ32Bytes z encoded).isSome)
    {q : Str} (hp : Dotless p) (hq : Dotless q)
    (h : urlPath ((form.root encoded).link p) = urlPath ((form.root encoded).link q)) : p = q := by
  rw [urlPath_link hz (Form.root_named hencoded) hp, urlPath_link hz (Form.root_named hencoded) hq,
    Root.raw, Root.raw] at h
  exact encodePath_injective (List.cons.inj (List.append_cancel_left h)).2

/-- Where an entry redirects to is the link of its directory, with the query. -/
theorem serveDir_redirect {slash : Bool} {dir location cacheControl : Str} {status : StatusCode}
    (h : serveDir root collection slash dir query = .redirect status location cacheControl) :
    location = withQuery (root.link dir) query := by
  unfold serveDir at h
  split at h
  · cases h
  · simp only at h
    split at h
    · split at h
      · cases h
      · obtain ⟨-, rfl, -⟩ := Answer.redirect.inj h
        cases query <;> rfl
    · cases h

theorem collectionEntry_redirect {urlPath location cacheControl : Str} {status : StatusCode}
    (h : collectionEntry root collection urlPath query = .redirect status location cacheControl) :
    location = withQuery (root.link (dirOf (pathOf urlPath))) query := by
  rw [collectionEntry] at h
  split at h
  · cases h
  · exact serveDir_redirect h

/-- **Links lead back** if they are of paths that do not begin with a slash, as long as a request
by subdomain can be rewritten. Different paths have different links, and the redirect of a
directory is its link. -/
theorem links_lead_back (hz : z.Lawful) (hparse : ParsesPaths parseUri)
    (hnames : Names z gateway form encoded hash collection) :
    (∀ p query request, Plain gateway hash p query → Dotless p →
      Asks z form encoded (linkText form encoded p query) request →
        (LeadsBack z gateway parseUri form encoded collection p query request ↔
          p.head? ≠ some '/' ∧ (form.subdomain →
            (parseUri (rewritten form.route encoded (linkText form encoded p query))).isSome))) ∧
    (∀ p q, Dotless p → Dotless q →
      urlPath ((form.root encoded).link p) = urlPath ((form.root encoded).link q) → p = q) ∧
    ∀ urlPath query status location cacheControl,
      collectionEntry (form.root encoded) collection urlPath query
          = .redirect status location cacheControl →
        location = withQuery ((form.root encoded).link (dirOf (pathOf urlPath))) query := by
  refine ⟨?_, ?_, ?_⟩
  · intro p query request hplain hp hasks
    exact leadsBack_iff hz hparse hnames hplain hp hasks
  · intro p q hp hq h
    exact urlPath_injective hz hnames.isSome hp hq h
  · intro urlPath query status location cacheControl h
    exact collectionEntry_redirect h

end

namespace LinkTargets.Sample

def hash : Hash := .replicate 32 7

/-- Its name. -/
def encoded : Str := Z32.standard.encode hash.toList

/-- A file whose name begins with a slash, and one whose name does not. -/
def collection : Collection := [("/x".toList, hash), ("x/y z".toList, hash)]

/-- The collection is available. -/
def gateway : Pages.Gateway Str where
  addFromQuery _ _ := none
  collection _ := .ok collection
  source _ := .ok 96
  collectionOnConnection _ := some collection
  packet _ := .error .timeout
  toStr := id

/-- By path, of a hash. -/
def form : Form := ⟨false, false⟩

/-- A request for a link. -/
def request (p : Str) : Incoming := ⟨.GET, ⟨none, some (linkText form encoded p none)⟩, []⟩

theorem names : Names Z32.standard gateway form encoded hash collection where
  named := Z32.standard_lawful.parse_encode
  reads := rfl
  source := ⟨96, rfl, by decide⟩
  probe := rfl

theorem plain (p : Str) : Plain gateway hash p none where
  fragment _ h := by cases h
  hints := rfl
  debug := by decide
  download _ := by decide

theorem asks (p : Str) : Asks Z32.standard form encoded (linkText form encoded p none) (request p)
    where
  method := .inl rfl
  text := rfl
  host := rfl

end LinkTargets.Sample

open LinkTargets.Sample in
/-- The link of the file whose name begins with a slash leads elsewhere. -/
theorem links_lead_back_fails : Dotless "/x".toList ∧
    Asks Z32.standard form encoded (linkText form encoded "/x".toList none) (request "/x".toList) ∧
    Names Z32.standard gateway form encoded hash collection ∧
    Plain gateway hash "/x".toList none ∧
    ¬ LeadsBack Z32.standard gateway Origins.Sample.parseUri form encoded collection
      "/x".toList none (request "/x".toList) := by
  have hp : Dotless "/x".toList := by decide
  refine ⟨hp, asks _, names, plain _, ?_⟩
  rw [leadsBack_iff Z32.standard_lawful Origins.Sample.parsesPaths names (plain _) hp (asks _)]
  exact fun h => h.1 rfl

open LinkTargets.Sample in
/-- The link of the other one leads back. -/
theorem links_lead_back_sample :
    LeadsBack Z32.standard gateway Origins.Sample.parseUri form encoded collection
      "x/y z".toList none (request "x/y z".toList) := by
  have hp : Dotless "x/y z".toList := by decide
  have hback := (links_lead_back Z32.standard_lawful Origins.Sample.parsesPaths names).1
    "x/y z".toList none (request _) (plain _) hp (asks _)
  exact hback.mpr ⟨by decide, fun h => absurd h (by decide)⟩

end ContentDiscovery
