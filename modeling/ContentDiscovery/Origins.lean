import ContentDiscovery.Http
import ContentDiscovery.Z32

/-!
# The origins of the gateway

The router of `iroh-link-gateway/src/lib.rs`: a request for a subdomain of `localhost` that
names a hash or a key is rewritten to the path that serves it, and every other response of
the routes is sandboxed. The routes match raw paths; handlers may respond with anything.

The URI parser of the `http` crate, the percent decoding of path parameters, the CORS layer of
`tower-http`, and the handlers are parameters.
-/

namespace ContentDiscovery

open Http

namespace Origins

/-- `Uri`. -/
structure Uri where
  /-- `host` -/
  host : Option Str
  /-- `path_and_query`, which a bare authority does not have -/
  pathAndQuery : Option Str
  deriving DecidableEq

/-- `Uri::path`: what is before the query. -/
def Uri.path (uri : Uri) : Str :=
  match uri.pathAndQuery with
  | none => []
  | some text =>
    let path := text.takeWhile fun c => c ≠ '?'
    if path = [] then ['/'] else path

/-- A request as it arrives. -/
structure Incoming where
  /-- the method -/
  method : Method
  /-- the URI -/
  uri : Uri
  /-- the headers -/
  headers : HeaderMap

/-- A request with its extensions. -/
structure Request extends Incoming where
  /-- `OriginalUri` -/
  originalUri : Option Uri
  /-- `Subdomain` -/
  subdomain : Bool

/-- The name of the `Host` header. -/
def HOST : HeaderName := .other "host".toList

/-- `CONTENT_SECURITY_POLICY`. -/
def CONTENT_SECURITY_POLICY : HeaderName := .other "content-security-policy".toList

/-- `PATH_SANDBOX`: the policy for responses to requests that did not come by subdomain. -/
def PATH_SANDBOX : HeaderValue := Str.bytes "sandbox allow-downloads".toList

/-- `SUBDOMAIN_ROUTES`: suffixes and the route each one is served by. -/
def SUBDOMAIN_ROUTES : List (Str × Str) :=
  [(".blake3.localhost".toList, "blake3".toList), (".pkarr.localhost".toList, "pkarr".toList)]

/-- The host of a request, of its URI or its header. -/
def hostOf (request : Incoming) : Option Str :=
  match request.uri.host with
  | some host => some host
  | none =>
    match request.headers.get HOST with
    | none => none
    | some value =>
      match HeaderValue.toStr value with
      | none => none
      | some host =>
        match Str.rsplitOnce ':' host with
        | none => some host
        | some (host, _) => some host

section

variable (z : Z32) (parseUri : Str → Option Uri)

/-- The label of a subdomain, and its route. -/
def labelOf (host : Str) : Option (Str × Str) :=
  SUBDOMAIN_ROUTES.findSome? fun r =>
    match Str.stripSuffix r.1 host with
    | none => none
    | some label => if (parseZ32Bytes z label).isSome then some (label, r.2) else none

/-- The path that serves a subdomain. -/
def rewritten (route label pathAndQuery : Str) : Str :=
  let rest := (Str.stripPrefix ['/'] pathAndQuery).getD pathAndQuery
  if rest = [] ∨ rest.head? = some '?' then '/' :: route ++ '/' :: label ++ rest
  else '/' :: route ++ '/' :: label ++ '/' :: rest

/-- `rewrite_subdomain`. -/
def rewriteSubdomain (request : Request) : Request :=
  match ((hostOf request.toIncoming).map (List.map Char.toLower)).bind (labelOf z) with
  | none => request
  | some (label, route) =>
    match parseUri (rewritten route label (request.uri.pathAndQuery.getD ['/'])) with
    | none => request
    | some uri => { request with uri := uri, originalUri := some uri, subdomain := true }

/-- The handlers of the routes. -/
inductive Handler where
  /-- `pkarr_redirect::redirect` -/
  | redirect
  | blob
  | collectionRoot
  | collectionPath
  deriving DecidableEq

/-- What a route allows after the first parameter. -/
inductive Tail where
  /-- nothing -/
  | bare
  /-- a slash -/
  | slash
  /-- a slash, and a path that is captured -/
  | path
  deriving DecidableEq

/-- The routes: `/{name}/{key}`, `/{name}/{key}/` and `/{name}/{key}/{*path}`. -/
def ROUTES : List (Str × Tail × Handler) :=
  [("pkarr".toList, .bare, .redirect), ("pkarr".toList, .slash, .redirect),
    ("pkarr".toList, .path, .redirect), ("blake3".toList, .bare, .blob),
    ("blake3".toList, .slash, .collectionRoot), ("blake3".toList, .path, .collectionPath)]

/-- The first segment, and what follows its slash. -/
def segment (rest : Str) : Str × Option Str :=
  match Str.splitOnce '/' rest with
  | none => (rest, none)
  | some (first, path) => (first, some path)

/-- The parameters of a path that a route matches. -/
def matchRoute (path : Str) (r : Str × Tail × Handler) : Option (Handler × List Str) :=
  match Str.stripPrefix ('/' :: r.1 ++ ['/']) path with
  | none => none
  | some rest =>
    if (segment rest).1 = [] then none
    else
      match r.2.1, (segment rest).2 with
      | .bare, none => some (r.2.2, [(segment rest).1])
      | .slash, some [] => some (r.2.2, [(segment rest).1])
      | .path, some (c :: path) => some (r.2.2, [(segment rest).1, c :: path])
      | _, _ => none

/-- Who answers a request. The texts of the routes' own answers are left out. -/
inductive Answerer where
  /-- the CORS layer -/
  | preflight
  /-- the routes, as none of them matches -/
  | fallback
  /-- a route, as it does not allow the method -/
  | methodNotAllowed
  /-- a route, as its parameters are not UTF-8 -/
  | rejected
  /-- a handler that is given a hash or a key -/
  | handler (handler : Handler) (given : Str)
  deriving DecidableEq

variable (decode : Str → Option Str) (respond : Handler → Str → Request → Http.Response)

/-- A handler is called with the parameters of its route, unless it panics. -/
def callHandler (handler : Handler) (params : List Str) (request : Request) :
    Option (Answerer × Http.Response) :=
  match handler with
  | .redirect =>
    match Str.stripPrefix "/pkarr/".toList (request.originalUri.getD request.uri).path with
    -- `expect("routed under /pkarr/")`
    | none => none
    | some rest =>
      let encoded := (segment rest).1
      some (.handler .redirect encoded, respond .redirect encoded request)
  | handler =>
    match params.mapM decode with
    | some (encoded :: _) => some (.handler handler encoded, respond handler encoded request)
    | _ => some (.rejected, ⟨StatusCode.BAD_REQUEST, [], .ended⟩)

/-- `routes`. -/
def routes (request : Request) : Option (Answerer × Http.Response) :=
  match ROUTES.findSome? (matchRoute request.uri.path) with
  | none => some (.fallback, ⟨404, [], .ended⟩)
  | some (handler, params) =>
    if request.method = .GET ∨ request.method = .HEAD then
      callHandler decode respond handler params request
    else
      some (.methodNotAllowed,
        ⟨405, [(.other "allow".toList, Str.bytes "GET,HEAD".toList)], .ended⟩)

/-- `sandbox_path_routes`. -/
def sandboxPathRoutes (request : Request) : Option (Answerer × Http.Response) :=
  (routes decode respond request).map fun r =>
    if request.subdomain then r
    else
      (r.1, { r.2 with headers := r.2.headers.insert CONTENT_SECURITY_POLICY PATH_SANDBOX })

/-- `CorsLayer`, as far as the router sets it up. -/
structure CorsLayer where
  /-- `allow_origin`: `Any`, or one of these -/
  allowOrigin : Option (List HeaderValue)
  /-- `allow_methods` -/
  allowMethods : List Method
  /-- `allow_headers` -/
  allowHeaders : List HeaderName
  /-- `expose_headers` -/
  exposeHeaders : List HeaderName

/-- The layer of the router. -/
def CORS : CorsLayer where
  allowOrigin := none
  allowMethods := [.GET, .HEAD, .OPTIONS]
  allowHeaders := [.range, .ifRange, .ifNoneMatch]
  exposeHeaders := [.acceptRanges, .contentRange, .contentLength, .etag]

/-- A service: who answers a request, and how, unless it panics. -/
abbrev Service : Type := Incoming → Option (Answerer × Http.Response)

/-- The request that the routes see. The outer router records the original URI before. -/
def prepared (request : Incoming) : Request :=
  rewriteSubdomain z parseUri { request with originalUri := some request.uri, subdomain := false }

/-- `Gateway::router`. -/
def router (cors : CorsLayer → Service → Service) : Service :=
  cors CORS fun request => sandboxPathRoutes decode respond (prepared z parseUri request)

end

/-! ## What is relied on -/

/-- What is relied on of the URI parser: of a path and query, all but a fragment is kept. -/
def ParsesPaths (parseUri : Str → Option Uri) : Prop :=
  ∀ s uri, parseUri ('/' :: s) = some uri →
    uri.host = none ∧ uri.pathAndQuery = some (('/' :: s).takeWhile fun c => c ≠ '#')

/-- What is relied on of the CORS layer, however it is set up: it answers `OPTIONS` requests
itself, without the policy, and other answers keep the policy that they have. -/
structure LawfulCors (cors : CorsLayer → Service → Service) : Prop where
  options : ∀ layer inner request, request.method = .OPTIONS →
    ∃ response, cors layer inner request = some (.preflight, response) ∧
      response.headers.getAll CONTENT_SECURITY_POLICY = []
  others : ∀ layer inner request, request.method ≠ .OPTIONS →
    ∀ answerer response, inner request = some (answerer, response) →
      ∃ response', cors layer inner request = some (answerer, response') ∧
        response'.headers.getAll CONTENT_SECURITY_POLICY =
          response.headers.getAll CONTENT_SECURITY_POLICY

/-- What is relied on of the percent decoding: a text without a percent sign is kept. -/
def KeepsPlain (decode : Str → Option Str) : Prop := ∀ s, '%' ∉ s → decode s = some s

section

variable {z : Z32} {parseUri : Str → Option Uri} {decode : Str → Option Str}
  {respond : Handler → Str → Request → Http.Response} {cors : CorsLayer → Service → Service}
  {host label route tail path rest : Str}
  {request : Request} {incoming : Incoming} {handler : Handler} {params : List Str}

/-! ## Labels -/

/-- A label is the canonical encoding of 32 bytes before a suffix. -/
theorem labelOf_eq_some (h : labelOf z host = some (label, route)) :
    ∃ suffix, (suffix, route) ∈ SUBDOMAIN_ROUTES ∧ label ++ suffix = host ∧
      (parseZ32Bytes z label).isSome := by
  obtain ⟨⟨suffix, route'⟩, hmem, hfound⟩ := List.exists_of_findSome?_eq_some h
  simp only at hfound
  split at hfound
  · cases hfound
  · rename_i label' hlabel
    obtain ⟨hz32, heq⟩ := Option.ite_none_right_eq_some.mp hfound
    obtain ⟨rfl, rfl⟩ := Prod.mk.inj (Option.some.inj heq)
    exact ⟨suffix, hmem, Str.stripSuffix_eq_some.mp hlabel, hz32⟩

theorem alphabet_plain : ∀ c ∈ Z32.alphabet, c ≠ '/' ∧ c ≠ '?' ∧ c ≠ '#' ∧ c ≠ '%' := by
  have hall : Z32.alphabet.all fun c => c ≠ '/' ∧ c ≠ '?' ∧ c ≠ '#' ∧ c ≠ '%' := by
    decide +kernel
  intro c hc
  exact of_decide_eq_true (List.all_eq_true.mp hall c hc)

/-! ## Paths -/

/-- A rewritten path begins with the route and the label, whatever the path said. -/
theorem rewritten_eq (route label pathAndQuery : Str) :
    ∃ tail, rewritten route label pathAndQuery = '/' :: route ++ '/' :: label ++ tail ∧
      (tail = [] ∨ ∃ c t, tail = c :: t ∧ (c = '?' ∨ c = '/')) := by
  rw [rewritten]
  generalize (Str.stripPrefix ['/'] pathAndQuery).getD pathAndQuery = rest
  split
  · rename_i hquery
    refine ⟨rest, rfl, ?_⟩
    cases rest with
    | nil => exact .inl rfl
    | cons c t => exact .inr ⟨c, t, rfl, .inl (by simpa using hquery)⟩
  · exact ⟨'/' :: rest, rfl, .inr ⟨'/', rest, rfl, .inr rfl⟩⟩

/-- Nothing but the tail is cut off where the query or a fragment begins. -/
theorem takeWhile_label (tail : Str) {p : Char → Bool} (hslash : p '/' = true)
    (hroute : ∀ c ∈ route, p c) (hlabel : ∀ c ∈ label, p c) :
    ('/' :: route ++ '/' :: label ++ tail).takeWhile p
      = '/' :: route ++ '/' :: label ++ tail.takeWhile p := by
  apply List.takeWhile_append_of_pos
  intro c hc
  simp only [List.cons_append, List.mem_cons, List.mem_append] at hc
  obtain rfl | hc | rfl | hc := hc
  · exact hslash
  · exact hroute c hc
  · exact hslash
  · exact hlabel c hc

/-- The path of a rewritten URI. -/
theorem path_rewritten {uri : Uri} (hparse : ParsesPaths parseUri)
    (hroute : ∀ c ∈ route, c ≠ '/' ∧ c ≠ '?' ∧ c ≠ '#')
    (hlabel : ∀ c ∈ label, c ≠ '/' ∧ c ≠ '?' ∧ c ≠ '#' ∧ c ≠ '%') {pathAndQuery : Str}
    (h : parseUri (rewritten route label pathAndQuery) = some uri) :
    ∃ tail, uri.path = '/' :: route ++ '/' :: label ++ tail ∧
      (tail = [] ∨ ∃ t, tail = '/' :: t) := by
  obtain ⟨tail, hrewritten, htail⟩ := rewritten_eq route label pathAndQuery
  rw [hrewritten] at h
  have hfragment : uri.pathAndQuery
      = some (('/' :: route ++ '/' :: label ++ tail).takeWhile fun c => c ≠ '#') :=
    (hparse _ uri h).2
  have hcut := takeWhile_label tail (p := fun c => c ≠ '#') (by decide)
    (fun c hc => by simpa using (hroute c hc).2.2)
    (fun c hc => by simpa using (hlabel c hc).2.2.1)
  rw [hcut] at hfragment
  have hquery := takeWhile_label (tail.takeWhile fun c => c ≠ '#') (p := fun c => c ≠ '?')
    (by decide) (fun c hc => by simpa using (hroute c hc).2.1)
    (fun c hc => by simpa using (hlabel c hc).2.1)
  refine ⟨(tail.takeWhile fun c => c ≠ '#').takeWhile fun c => c ≠ '?', ?_, ?_⟩
  · rw [Uri.path, hfragment]
    simp only [hquery]
    exact if_neg (nomatch ·)
  · obtain rfl | ⟨c, t, rfl, rfl | rfl⟩ := htail
    · exact .inl rfl
    · exact .inl (by simp)
    · exact .inr ⟨(t.takeWhile fun c => c ≠ '#').takeWhile fun c => c ≠ '?', by simp⟩

/-- The first segment is the label. -/
theorem segment_label (hlabel : '/' ∉ label) (htail : tail = [] ∨ ∃ t, tail = '/' :: t) :
    (segment (label ++ tail)).1 = label := by
  rw [segment]
  obtain rfl | ⟨t, rfl⟩ := htail
  · rw [List.append_nil, Str.splitOnce_eq_none.mpr hlabel]
  · rw [Str.splitOnce_eq_some.mpr ⟨rfl, hlabel⟩]

/-! ## Routes -/

/-- A route that matches begins with its name and gives the first segment. -/
theorem matchRoute_eq_some {r : Str × Tail × Handler}
    (h : matchRoute path r = some (handler, params)) :
    ∃ rest, '/' :: r.1 ++ ['/'] ++ rest = path ∧ handler = r.2.2 ∧
      params.head? = some (segment rest).1 := by
  rw [matchRoute] at h
  split at h
  · cases h
  · rename_i rest hrest
    refine ⟨rest, Str.stripPrefix_eq_some.mp hrest, ?_⟩
    split at h
    · cases h
    · split at h
      · obtain ⟨rfl, rfl⟩ := Prod.mk.inj (Option.some.inj h)
        exact ⟨rfl, rfl⟩
      · obtain ⟨rfl, rfl⟩ := Prod.mk.inj (Option.some.inj h)
        exact ⟨rfl, rfl⟩
      · obtain ⟨rfl, rfl⟩ := Prod.mk.inj (Option.some.inj h)
        exact ⟨rfl, rfl⟩
      · cases h

/-- The Pkarr handler serves the routes of that name, and no other. -/
theorem redirect_iff : ∀ r ∈ ROUTES, r.2.2 = .redirect ↔ r.1 = "pkarr".toList := by
  decide

/-- A handler is given the first segment after the name of its route, decoded or as it is; what
`redirect` expects of the path holds. -/
theorem callHandler_spec (decode : Str → Option Str)
    (respond : Handler → Str → Request → Http.Response) {r : Str × Tail × Handler} (hr : r ∈ ROUTES)
    (hpath : '/' :: r.1 ++ ['/'] ++ rest = request.uri.path)
    (horiginal : request.originalUri = some request.uri)
    (hparams : params.head? = some (segment rest).1) :
    ∃ answer, callHandler decode respond r.2.2 params request = some answer ∧
      answer.1 ≠ .preflight ∧ ∀ handler given, answer.1 = .handler handler given →
        handler = r.2.2 ∧ (given = (segment rest).1 ∨ decode (segment rest).1 = some given) := by
  unfold callHandler
  split
  · rename_i hredirect
    have hrest : Str.stripPrefix "/pkarr/".toList
        (request.originalUri.getD request.uri).path = some rest := by
      rw [horiginal, Option.getD_some, ← hpath, (redirect_iff r hr).mp hredirect]
      exact Str.stripPrefix_eq_some.mpr rfl
    rw [hrest]
    refine ⟨_, rfl, nofun, ?_⟩
    intro handler given heq
    obtain ⟨rfl, rfl⟩ := Answerer.handler.inj heq
    exact ⟨hredirect.symm, .inl rfl⟩
  · split
    · rename_i encoded params' hdecoded
      refine ⟨_, rfl, nofun, ?_⟩
      intro handler given heq
      obtain ⟨rfl, rfl⟩ := Answerer.handler.inj heq
      refine ⟨rfl, .inr ?_⟩
      cases params with
      | nil => cases hparams
      | cons param params =>
        obtain rfl : param = (segment rest).1 := Option.some.inj hparams
        simp only [List.mapM_cons, Option.bind_eq_bind, Option.bind_eq_some_iff,
          Option.pure_def, Option.some.injEq, List.cons.injEq] at hdecoded
        obtain ⟨_, hdecode, _, -, rfl, -⟩ := hdecoded
        exact hdecode
    · exact ⟨_, rfl, nofun, nofun⟩

/-- The routes answer, and a handler among them is named by the path. -/
theorem routes_spec (decode : Str → Option Str) (respond : Handler → Str → Request → Http.Response)
    (horiginal : request.originalUri = some request.uri) :
    ∃ answer, routes decode respond request = some answer ∧
      answer.1 ≠ .preflight ∧ ∀ handler given, answer.1 = .handler handler given →
        ∃ r ∈ ROUTES, ∃ rest, '/' :: r.1 ++ ['/'] ++ rest = request.uri.path ∧
          handler = r.2.2 ∧ (given = (segment rest).1 ∨ decode (segment rest).1 = some given) := by
  rw [routes]
  split
  · exact ⟨_, rfl, nofun, nofun⟩
  · rename_i handler params hfound
    obtain ⟨r, hr, hmatch⟩ := List.exists_of_findSome?_eq_some hfound
    obtain ⟨rest, hpath, rfl, hparams⟩ := matchRoute_eq_some hmatch
    split
    · obtain ⟨answer, hanswer, hpreflight, hgiven⟩ :=
        callHandler_spec decode respond hr hpath horiginal hparams
      refine ⟨answer, hanswer, hpreflight, ?_⟩
      intro handler given heq
      exact ⟨r, hr, rest, hpath, hgiven handler given heq⟩
    · exact ⟨_, rfl, nofun, nofun⟩

/-- Names of routes have no slash, so a path says which one it is for. -/
theorem ROUTES_plain : ∀ r ∈ ROUTES, '/' ∉ r.1 := by
  decide

/-- What a handler is given, where the path is that of an origin. -/
theorem given_eq_label (hdecode : KeepsPlain decode) {r : Str × Tail × Handler} {given : Str}
    (hr : r ∈ ROUTES) (hpath : '/' :: r.1 ++ ['/'] ++ rest = '/' :: route ++ '/' :: label ++ tail)
    (htail : tail = [] ∨ ∃ t, tail = '/' :: t) (hroute : '/' ∉ route)
    (hlabel : ∀ c ∈ label, c ≠ '/' ∧ c ≠ '?' ∧ c ≠ '#' ∧ c ≠ '%')
    (hgiven : given = (segment rest).1 ∨ decode (segment rest).1 = some given) :
    r.1 = route ∧ given = label := by
  have hsplit : Str.splitOnce '/' (r.1 ++ '/' :: rest) = some (route, label ++ tail) := by
    rw [Str.splitOnce_eq_some]
    exact ⟨by simpa using hpath, hroute⟩
  rw [Str.splitOnce_eq_some.mpr ⟨rfl, ROUTES_plain r hr⟩] at hsplit
  obtain ⟨hname, rfl⟩ := Prod.mk.inj (Option.some.inj hsplit)
  rw [segment_label (fun h => (hlabel _ h).1 rfl) htail,
    hdecode label fun h => (hlabel _ h).2.2.2 rfl] at hgiven
  refine ⟨hname, ?_⟩
  obtain rfl | h := hgiven
  · rfl
  · exact (Option.some.inj h).symm

/-! ## The rewrite -/

/-- The host of a request is a hash or a key under the name of a route. -/
structure NamesOrigin (z : Z32) (request : Incoming) (label route : Str) : Prop where
  host_eq : (hostOf request).map (List.map Char.toLower) =
    some (label ++ '.' :: route ++ ".localhost".toList)
  route_mem : route = "blake3".toList ∨ route = "pkarr".toList
  length_label : label.length = 52
  canonical : ∃ bytes : Vector UInt8 32, z.encode bytes.toList = label

/-- The handlers read the URI that is routed. -/
theorem prepared_originalUri :
    (prepared z parseUri incoming).originalUri = some (prepared z parseUri incoming).uri := by
  rw [prepared, rewriteSubdomain]
  split
  · rfl
  · split
    · rfl
    · rfl

/-- Each suffix is the name of its route in `localhost`. -/
theorem suffix_eq : ∀ r ∈ SUBDOMAIN_ROUTES, r.1 = '.' :: r.2 ++ ".localhost".toList ∧
    (r.2 = "blake3".toList ∨ r.2 = "pkarr".toList) := by
  decide +kernel

/-- A label is only found in a host that names an origin. -/
theorem namesOrigin_of_labelOf (hz : z.Lawful)
    (h : ((hostOf incoming).map (List.map Char.toLower)).bind (labelOf z) = some (label, route)) :
    NamesOrigin z incoming label route := by
  obtain ⟨host, hhost, hlabel⟩ := Option.bind_eq_some_iff.mp h
  obtain ⟨suffix, hmem, hsplit, hz32⟩ := labelOf_eq_some hlabel
  obtain ⟨hsuffix, hroute⟩ : suffix = '.' :: route ++ ".localhost".toList ∧ _ := suffix_eq _ hmem
  obtain ⟨bytes, hbytes⟩ := Option.isSome_iff_exists.mp hz32
  have hcanonical := Z32.encode_of_parse hbytes
  refine ⟨?_, hroute, ?_, bytes, hcanonical⟩
  · rw [hhost, ← hsplit, hsuffix, List.append_assoc]
  · rw [← hcanonical]
    exact hz.length_encode _ bytes.length_toList

theorem NamesOrigin.route_plain (h : NamesOrigin z incoming label route) :
    ∀ c ∈ route, c ≠ '/' ∧ c ≠ '?' ∧ c ≠ '#' := by
  have hall : route.all fun c => c ≠ '/' ∧ c ≠ '?' ∧ c ≠ '#' := by
    obtain hroute | hroute := h.route_mem
    · rw [hroute]
      decide
    · rw [hroute]
      decide
  intro c hc
  exact of_decide_eq_true (List.all_eq_true.mp hall c hc)

/-- The characters of a label mean nothing in a URI. -/
theorem NamesOrigin.label_plain (hz : z.Lawful) (h : NamesOrigin z incoming label route) :
    ∀ c ∈ label, c ≠ '/' ∧ c ≠ '?' ∧ c ≠ '#' ∧ c ≠ '%' := by
  obtain ⟨bytes, hbytes⟩ := h.canonical
  intro c hc
  apply alphabet_plain
  apply hz.mem_alphabet bytes.toList bytes.length_toList
  rw [hbytes]
  exact hc

/-- A request is marked as its host names an origin, and that is what its path begins with. -/
theorem prepared_subdomain (hz : z.Lawful) (hparse : ParsesPaths parseUri)
    (h : (prepared z parseUri incoming).subdomain = true) :
    ∃ label route tail, NamesOrigin z incoming label route ∧
      (prepared z parseUri incoming).uri.path = '/' :: route ++ '/' :: label ++ tail ∧
      (tail = [] ∨ ∃ t, tail = '/' :: t) := by
  rw [prepared, rewriteSubdomain] at h ⊢
  split at h
  · cases h
  · rename_i label route hlabel
    split at h
    · cases h
    · rename_i uri huri
      have hnames := namesOrigin_of_labelOf hz hlabel
      obtain ⟨tail, hpath, htail⟩ :=
        path_rewritten hparse hnames.route_plain (hnames.label_plain hz) huri
      exact ⟨label, route, tail, hnames, hpath, htail⟩

/-- A response is sandboxed unless the request is marked, and the CORS layer leaves the policy
alone. -/
theorem router_spec (hcors : LawfulCors cors) (z : Z32) (parseUri : Str → Option Uri)
    (decode : Str → Option Str) (respond : Handler → Str → Request → Http.Response)
    (request : Incoming) :
    ∃ answer, router z parseUri decode respond cors request = some answer ∧
      (answer.1 = .preflight ↔ request.method = .OPTIONS) ∧
      (answer.1 = .preflight → answer.2.headers.getAll CONTENT_SECURITY_POLICY = []) ∧
      (∀ handler given, answer.1 = .handler handler given → ∃ r ∈ ROUTES, ∃ rest,
        '/' :: r.1 ++ ['/'] ++ rest = (prepared z parseUri request).uri.path ∧
        handler = r.2.2 ∧ (given = (segment rest).1 ∨ decode (segment rest).1 = some given)) ∧
      (answer.1 ≠ .preflight → (prepared z parseUri request).subdomain = false →
        answer.2.headers.getAll CONTENT_SECURITY_POLICY = [PATH_SANDBOX]) := by
  by_cases hoptions : request.method = .OPTIONS
  · obtain ⟨response, hanswer, hpolicy⟩ := hcors.options CORS
      (fun request => sandboxPathRoutes decode respond (prepared z parseUri request)) request
      hoptions
    exact ⟨_, hanswer, iff_of_true rfl hoptions, fun _ => hpolicy, nofun, fun h => absurd rfl h⟩
  · have horiginal : (prepared z parseUri request).originalUri = _ := prepared_originalUri
    obtain ⟨answer, hanswer, hpreflight, hgiven⟩ := routes_spec decode respond horiginal
    have hinner : ∃ response, sandboxPathRoutes decode respond (prepared z parseUri request) =
        some (answer.1, response) ∧ ((prepared z parseUri request).subdomain = false →
          response.headers.getAll CONTENT_SECURITY_POLICY = [PATH_SANDBOX]) := by
      rw [sandboxPathRoutes, hanswer, Option.map_some]
      split
      · rename_i hsubdomain
        exact ⟨_, rfl, fun hpath => absurd hsubdomain (by simp [hpath])⟩
      · exact ⟨_, rfl, fun _ => by simp⟩
    obtain ⟨response, hsandboxed, hpolicy⟩ := hinner
    obtain ⟨response', houter, hkept⟩ := hcors.others CORS
      (fun request => sandboxPathRoutes decode respond (prepared z parseUri request)) request
      hoptions _ _ hsandboxed
    refine ⟨_, houter, iff_of_false hpreflight hoptions, fun h => absurd h hpreflight, hgiven, ?_⟩
    intro _ hpath
    exact hkept.trans (hpolicy hpath)

/-- **Every origin is its own**: the Pkarr handler never panics, and a response of the routes
without the policy is one to a request whose host names a hash or a key, by a handler that was
given just this label. A response to a request that was not rewritten has the policy. What the
CORS layer answers itself does not. -/
theorem isolates_origins (hz : z.Lawful) (hparse : ParsesPaths parseUri)
    (hdecode : KeepsPlain decode) (hcors : LawfulCors cors)
    (respond : Handler → Str → Request → Http.Response) (request : Incoming) :
    ∃ answerer response,
      router z parseUri decode respond cors request = some (answerer, response) ∧
      (answerer = .preflight ↔ request.method = .OPTIONS) ∧
      (answerer = .preflight → response.headers.getAll CONTENT_SECURITY_POLICY = []) ∧
      (answerer ≠ .preflight →
        (PATH_SANDBOX ∉ response.headers.getAll CONTENT_SECURITY_POLICY →
          ∃ label route, NamesOrigin z request label route ∧
            ∀ handler given, answerer = .handler handler given →
              given = label ∧ (handler = .redirect ↔ route = "pkarr".toList)) ∧
        ((prepared z parseUri request).subdomain = false →
          response.headers.getAll CONTENT_SECURITY_POLICY = [PATH_SANDBOX])) := by
  obtain ⟨⟨answerer, response⟩, hanswer, hoptions, hbare, hgiven, hsandboxed⟩ :=
    router_spec hcors z parseUri decode respond request
  refine ⟨answerer, response, hanswer, hoptions, hbare,
    fun hpreflight => ⟨?_, hsandboxed hpreflight⟩⟩
  intro hlacks
  have hsubdomain : (prepared z parseUri request).subdomain = true := by
    rw [← Bool.not_eq_false]
    intro hpath
    apply hlacks
    rw [hsandboxed hpreflight hpath]
    exact List.mem_singleton_self _
  obtain ⟨label, route, tail, hnames, hpath, htail⟩ := prepared_subdomain hz hparse hsubdomain
  refine ⟨label, route, hnames, ?_⟩
  intro handler given heq
  obtain ⟨r, hr, rest, hmatch, rfl, hsegment⟩ := hgiven handler given heq
  obtain ⟨hname, hlabel⟩ := given_eq_label hdecode hr (hmatch.trans hpath) htail
    (fun h => (hnames.route_plain _ h).1 rfl) (hnames.label_plain hz) hsegment
  rw [← hname]
  exact ⟨hlabel, redirect_iff r hr⟩

end

namespace Sample

/-- What is in a path and query is kept. -/
def parseUri : Str → Option Uri
  | '/' :: s => some ⟨none, some (('/' :: s).takeWhile fun c => c ≠ '#')⟩
  | _ => none

theorem parsesPaths : ParsesPaths parseUri := by
  intro s uri h
  obtain rfl := Option.some.inj h
  exact ⟨rfl, rfl⟩

/-- Texts without a percent sign are decoded. -/
def decode (s : Str) : Option Str := if '%' ∈ s then none else some s

theorem keepsPlain : KeepsPlain decode := by
  intro s h
  exact if_neg h

/-- Handlers find what they are asked for. -/
def respond (_ : Handler) (_ : Str) (_ : Request) : Http.Response := ⟨StatusCode.OK, [], .ended⟩

/-- What the layer writes, for any origin. -/
def origin : HeaderName × HeaderValue :=
  (.other "access-control-allow-origin".toList, Str.bytes "*".toList)
def methods : HeaderName × HeaderValue :=
  (.other "access-control-allow-methods".toList, Str.bytes "GET,HEAD,OPTIONS".toList)
def allowed : HeaderName × HeaderValue :=
  (.other "access-control-allow-headers".toList, Str.bytes "range,if-range,if-none-match".toList)
def exposed : HeaderName × HeaderValue :=
  (.other "access-control-expose-headers".toList,
    Str.bytes "accept-ranges,content-range,content-length,etag".toList)

/-- What the layer of the router does. -/
def cors (_ : CorsLayer) (inner : Service) : Service := fun request =>
  if request.method = .OPTIONS then
    some (.preflight, ⟨StatusCode.OK, [origin, methods, allowed], .ended⟩)
  else
    (inner request).map fun r =>
      let headers := r.2.headers.insert origin.1 origin.2
      (r.1, { r.2 with headers := headers.insert exposed.1 exposed.2 })

theorem lawfulCors : LawfulCors cors := by
  refine ⟨fun _ inner request hoptions => ?_,
    fun _ inner request hoptions who response hinner => ?_⟩
  · exact ⟨_, if_pos hoptions, by decide⟩
  · rw [cors, if_neg hoptions, hinner]
    exact ⟨_, rfl, by simp [origin, exposed, CONTENT_SECURITY_POLICY]⟩

/-- A hash. -/
def label : Str := Z32.standard.encode (List.replicate 32 0)

/-- A browser shouts the host and asks for the path of a key. -/
def request : Incoming where
  method := .GET
  uri := ⟨none, some "/pkarr/other/../?sizes".toList⟩
  headers := [(HOST, Str.bytes (label.map Char.toUpper ++ ".BLAKE3.LOCALHOST:8080".toList))]

/-- A browser asks what it may read from a path. -/
def preflight : Incoming where
  method := .OPTIONS
  uri := ⟨none, some ("/blake3/".toList ++ label)⟩
  headers := [(HOST, Str.bytes "127.0.0.1:8080".toList)]

end Sample

/-- The request is answered by the handler of the hash that its host names. -/
theorem isolates_origins_sample :
    ∃ label route, NamesOrigin Z32.standard Sample.request label route ∧
      Sample.label = label ∧ (Handler.collectionPath = .redirect ↔ route = "pkarr".toList) := by
  obtain ⟨answerer, response, hanswer, -, -, h⟩ := isolates_origins Z32.standard_lawful
    Sample.parsesPaths Sample.keepsPlain Sample.lawfulCors Sample.respond Sample.request
  have hrun : router Z32.standard Sample.parseUri Sample.decode Sample.respond Sample.cors
      Sample.request = some (.handler .collectionPath Sample.label,
        ⟨StatusCode.OK, [Sample.origin, Sample.exposed], .ended⟩) := by
    rfl
  rw [hrun] at hanswer
  obtain ⟨rfl, rfl⟩ := Prod.mk.inj (Option.some.inj hanswer)
  obtain ⟨label, route, hnames, hgiven⟩ := (h nofun).1 (by decide +kernel)
  exact ⟨label, route, hnames, hgiven _ _ rfl⟩

/-- The CORS layer answers `OPTIONS` itself, without the policy. -/
theorem preflight_not_sandboxed : LawfulCors Sample.cors ∧ ¬ ∀ request answer,
    router Z32.standard Sample.parseUri Sample.decode Sample.respond Sample.cors request =
        some answer →
      (prepared Z32.standard Sample.parseUri request).subdomain = false →
      PATH_SANDBOX ∈ answer.2.headers.getAll CONTENT_SECURITY_POLICY := by
  refine ⟨Sample.lawfulCors, fun h => ?_⟩
  have := h Sample.preflight _ rfl (by decide +kernel)
  exact absurd this (by decide +kernel)

end Origins

end ContentDiscovery
