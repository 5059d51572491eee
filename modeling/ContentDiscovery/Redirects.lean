import ContentDiscovery.ExtensionRules
import ContentDiscovery.LinkTargets

/-!
# From the extension to the gateway

What is requested from a link domain is redirected by the rules of the extension, arrives at the
gateway, and is rewritten there by the subdomain it was redirected to. The URI parser of the gateway
has a limit; a path that is too long with the route in front is not rewritten.
-/

namespace ContentDiscovery

open Http Origins

namespace ExtensionRules

/-- How long a URI of the `http` crate may be. -/
def MAX_LEN : ℕ := 65534

/-- What is relied on of the URI parser: letters, digits and slashes may be put after the first
slash of a path, unless it gets too long. -/
def ParsesLonger (parseUri : Str → Option Uri) : Prop :=
  ∀ w s, (∀ c ∈ w, c = '/' ∨ c.isAlphanum = true) → (parseUri ('/' :: s)).isSome →
    (Str.bytes ('/' :: w ++ s)).length ≤ MAX_LEN → (parseUri ('/' :: w ++ s)).isSome

/-- The path and query that is requested of a URL, without its first slash. -/
def requested (rest : Str) : Str := rest.takeWhile fun c => c ≠ '#'

/-- A browser follows a redirect to the gateway: it asks for path and query, and its `Host` is the
label and the origin, with the port unless it is the default. -/
structure Arrives (parseUri : Str → Option Uri) (d : Domain) (label : Str) (port : ℕ) (rest : Str)
    (request : Incoming) : Prop where
  uri : parseUri ('/' :: requested rest) = some request.uri
  host : request.headers.get HOST =
      some (Str.bytes (label ++ '.' :: d.origin ++ ':' :: Str.ofNat port)) ∨
    port = 80 ∧ request.headers.get HOST = some (Str.bytes (label ++ '.' :: d.origin))

/-- The path and query of a route, for a label. -/
def routed (route label rest : Str) : Str :=
  '/' :: route ++ '/' :: label ++ if rest = [] ∨ rest.head? = some '?' then rest else '/' :: rest

section

variable {z : Z32} {parseUri : Str → Option Uri} {d : Domain} {label route rest s host digits : Str}
  {port : ℕ} {request : Origins.Request} {incoming : Incoming} {bytes : Vector UInt8 32}

/-! ## The host -/

/-- Visible characters are read from a header. -/
theorem toStr_bytes (h : ∀ c ∈ s, 32 ≤ c.toNat ∧ c.toNat < 127) :
    HeaderValue.toStr (Str.bytes s) = some s := by
  have hbytes : Str.bytes s = s.map fun c => UInt8.ofNat c.toNat :=
    Str.bytes_ascii fun c hc => (h c hc).2.trans (by decide)
  have hvisible : ∀ c ∈ s, (UInt8.ofNat c.toNat).toNat = c.toNat :=
    fun c hc => UInt8.toNat_ofNat_of_lt' ((h c hc).2.trans (by decide))
  rw [hbytes, HeaderValue.toStr, if_pos, List.map_map]
  · refine congrArg some ((List.map_congr_left fun c hc => ?_).trans (List.map_id s))
    rw [Function.comp, hvisible c hc, Char.ofNat_toNat, id]
  · rw [List.all_map, List.all_eq_true]
    intro c hc
    have hle : (32 : UInt8) ≤ UInt8.ofNat c.toNat :=
      UInt8.le_iff_toNat_le.mpr ((h c hc).1.trans_eq (hvisible c hc).symm)
    have hlt : UInt8.ofNat c.toNat < (127 : UInt8) :=
      UInt8.lt_iff_toNat_lt.mpr ((hvisible c hc).trans_lt (h c hc).2)
    simp [hle, hlt]

/-- The host of a header is what is before the port. -/
theorem rsplitOnce_port (hdigits : ':' ∉ digits) :
    Str.rsplitOnce ':' (host ++ ':' :: digits) = some (host, digits) := by
  have hsplit : Str.splitOnce ':' (host ++ ':' :: digits).reverse =
      some (digits.reverse, host.reverse) := by
    refine Str.splitOnce_eq_some.mpr ⟨?_, fun h => hdigits (List.mem_reverse.mp h)⟩
    simp
  rw [Str.rsplitOnce, hsplit, Option.map_some, List.reverse_reverse, List.reverse_reverse]

theorem rsplitOnce_none (hhost : ':' ∉ host) : Str.rsplitOnce ':' host = none := by
  rw [Str.rsplitOnce, Str.splitOnce_eq_none.mpr fun h => hhost (List.mem_reverse.mp h)]
  rfl

theorem alphabet_lower : ∀ c ∈ Z32.alphabet,
    (32 ≤ c.toNat ∧ c.toNat < 127) ∧ c ≠ ':' ∧ c ≠ '.' ∧ c.toLower = c ∧ c.isAlphanum = true := by
  have hall : Z32.alphabet.all fun c => (32 ≤ c.toNat ∧ c.toNat < 127) ∧ c ≠ ':' ∧ c ≠ '.' ∧
      c.toLower = c ∧ c.isAlphanum = true := by
    decide +kernel
  intro c hc
  exact of_decide_eq_true (List.all_eq_true.mp hall c hc)

theorem origin_lower : ∀ d ∈ DOMAINS, ∀ c ∈ '.' :: d.origin,
    (32 ≤ c.toNat ∧ c.toNat < 127) ∧ c ≠ ':' ∧ c.toLower = c := by
  decide

theorem isDigit_visible {c : Char} (h : c.isDigit = true) : 32 ≤ c.toNat ∧ c.toNat < 127 := by
  have hrange := Str.toNat_of_isDigit h
  omega

theorem not_mem_ofNat : ':' ∉ Str.ofNat port := by
  intro h
  exact absurd (Str.isDigit_of_mem_ofNat h) (by decide)

/-- The host that the gateway reads is the label and the origin. -/
theorem hostOf_arrives (hparse : ParsesPaths parseUri) (hd : d ∈ DOMAINS)
    (hlabel : ∀ c ∈ label, c ∈ Z32.alphabet) (h : Arrives parseUri d label port rest incoming) :
    (hostOf incoming).map (List.map Char.toLower) = some (label ++ '.' :: d.origin) := by
  have hhost : ∀ c ∈ label ++ '.' :: d.origin,
      (32 ≤ c.toNat ∧ c.toNat < 127) ∧ c ≠ ':' ∧ c.toLower = c := by
    intro c hc
    rcases List.mem_append.mp hc with hc | hc
    · have hlower := alphabet_lower c (hlabel c hc)
      exact ⟨hlower.1, hlower.2.1, hlower.2.2.2.1⟩
    · exact origin_lower d hd c hc
  have hnone : incoming.uri.host = none := (hparse _ _ h.uri).1
  have hheader := h.host
  generalize label ++ '.' :: d.origin = host at hhost hheader ⊢
  have hcolon : ':' ∉ host := fun h => (hhost _ h).2.1 rfl
  have hlower : host.map Char.toLower = host :=
    (List.map_congr_left fun c hc => (hhost c hc).2.2).trans (List.map_id' host)
  rw [hostOf, hnone]
  rcases hheader with hheader | ⟨-, hheader⟩
  · have hvisible : ∀ c ∈ host ++ ':' :: Str.ofNat port, 32 ≤ c.toNat ∧ c.toNat < 127 := by
      simp only [List.mem_append, List.mem_cons]
      rintro c (hc | rfl | hc)
      · exact (hhost c hc).1
      · decide
      · exact isDigit_visible (Str.isDigit_of_mem_ofNat hc)
    simp only [hheader, toStr_bytes hvisible, rsplitOnce_port not_mem_ofNat, Option.map_some,
      hlower]
  · simp only [hheader, toStr_bytes fun c hc => (hhost c hc).1, rsplitOnce_none hcolon,
      Option.map_some, hlower]

/-- The gateway has one route for each origin. -/
theorem exists_route : ∀ d ∈ DOMAINS, ∃ r ∈ SUBDOMAIN_ROUTES, r.1 = '.' :: d.origin := by
  decide +kernel

theorem route_eq : ∀ d ∈ DOMAINS, ∀ r ∈ SUBDOMAIN_ROUTES, r.1 = '.' :: d.origin →
    d.name = r.2 ++ ".net".toList := by
  decide +kernel

theorem suffix_dot : ∀ r ∈ SUBDOMAIN_ROUTES, ∃ s, r.1 = '.' :: s := by
  intro r hr
  exact ⟨_, (suffix_eq r hr).1⟩

theorem alphabet_of_parse (hz : z.Lawful) (h : (parseZ32Bytes z label).isSome) :
    ∀ c ∈ label, c ∈ Z32.alphabet := by
  obtain ⟨bytes, hbytes⟩ := Option.isSome_iff_exists.mp h
  rw [← Z32.encode_of_parse hbytes]
  exact hz.mem_alphabet _ bytes.length_toList

theorem not_mem_dot (h : ∀ c ∈ label, c ∈ Z32.alphabet) : '.' ∉ label :=
  fun hmem => (alphabet_lower _ (h _ hmem)).2.2.1 rfl

/-- The gateway takes the label out of a host, with the route of its domain. -/
theorem labelOf_origin (hz : z.Lawful) (hd : d ∈ DOMAINS) (hname : d.name = route ++ ".net".toList)
    (hlabel : (parseZ32Bytes z label).isSome) :
    labelOf z (label ++ '.' :: d.origin) = some (label, route) := by
  obtain ⟨r, hr, horigin⟩ := exists_route d hd
  have hsome : (labelOf z (label ++ '.' :: d.origin)).isSome := by
    rw [labelOf, List.isSome_findSome?, List.any_eq_true]
    refine ⟨r, hr, ?_⟩
    rw [Str.stripSuffix_eq_some.mpr (congrArg (label ++ ·) horigin)]
    simp only [if_pos hlabel, Option.isSome_some]
  obtain ⟨⟨label', route'⟩, hfound⟩ := Option.isSome_iff_exists.mp hsome
  obtain ⟨suffix, hmem, hhost, hlabel'⟩ := labelOf_eq_some hfound
  obtain ⟨s, hs⟩ := suffix_dot _ hmem
  rw [show suffix = '.' :: s from hs] at hhost
  -- neither label has a dot, so the labels and what follows them are the same
  have hsplit := Str.splitOnce_eq_some.mpr
    ⟨hhost.symm, not_mem_dot (alphabet_of_parse hz hlabel')⟩
  rw [Str.splitOnce_eq_some.mpr ⟨rfl, not_mem_dot (alphabet_of_parse hz hlabel)⟩] at hsplit
  obtain ⟨rfl, rfl⟩ := Prod.mk.inj (Option.some.inj hsplit)
  have hroute := route_eq d hd _ hmem hs
  rw [hname] at hroute
  rw [hfound, List.append_cancel_right hroute]

/-! ## The path -/

/-- What is rewritten is the path of the route, with what was requested. -/
theorem rewritten_requested (route label rest : Str) :
    rewritten route label ('/' :: rest) = routed route label rest := by
  have hstrip : Str.stripPrefix ['/'] ('/' :: rest) = some rest := Str.stripPrefix_eq_some.mpr rfl
  rw [rewritten, routed]
  simp only [hstrip, Option.getD_some]
  split <;> rfl

/-- The characters of a route and a label may be put in front of a path. -/
theorem isSome_routed (hlonger : ParsesLonger parseUri) (hroute : ∀ c ∈ route, c.isAlphanum = true)
    (hlabel : ∀ c ∈ label, c ∈ Z32.alphabet) (hrest : (parseUri ('/' :: rest)).isSome)
    (hshort : (Str.bytes (routed route label rest)).length ≤ MAX_LEN) :
    (parseUri (routed route label rest)).isSome := by
  have hplain : ∀ c ∈ route ++ '/' :: label, c = '/' ∨ c.isAlphanum = true := by
    simp only [List.mem_append, List.mem_cons]
    rintro c (hc | rfl | hc)
    · exact .inr (hroute c hc)
    · exact .inl rfl
    · exact .inr (alphabet_lower c (hlabel c hc)).2.2.2.2
  -- a query follows the label right away, a path after a slash
  by_cases hquery : rest = [] ∨ rest.head? = some '?'
  · have heq : routed route label rest = '/' :: (route ++ '/' :: label) ++ rest := by
      rw [routed, if_pos hquery]
      rfl
    rw [heq] at hshort ⊢
    exact hlonger _ _ hplain hrest hshort
  · have heq : routed route label rest = '/' :: (route ++ '/' :: label ++ ['/']) ++ rest := by
      rw [routed, if_neg hquery]
      simp
    rw [heq] at hshort ⊢
    refine hlonger _ _ (fun c hc => ?_) hrest hshort
    rcases List.mem_append.mp hc with hc | hc
    · exact hplain c hc
    · exact .inl (List.mem_singleton.mp hc)

/-- The routes of the link domains. -/
theorem route_cases (hd : d ∈ DOMAINS) (hname : d.name = route ++ ".net".toList) :
    route = "blake3".toList ∨ route = "pkarr".toList := by
  obtain ⟨r, hr, horigin⟩ := exists_route d hd
  have hroute := route_eq d hd r hr horigin
  rw [hname] at hroute
  rw [List.append_cancel_right hroute]
  exact (suffix_eq r hr).2

theorem route_plain (h : route = "blake3".toList ∨ route = "pkarr".toList) :
    ∀ c ∈ route, (c ≠ '/' ∧ c ≠ '?' ∧ c ≠ '#') ∧ c.isAlphanum = true := by
  rcases h with rfl | rfl
  · decide
  · decide

/-- The path of a route and a label is served by the route, which is given the label. -/
theorem findSome_routed {path tail : Str}
    (hroute : route = "blake3".toList ∨ route = "pkarr".toList)
    (hne : label ≠ []) (hslash : '/' ∉ label) (htail : tail = [] ∨ ∃ t, tail = '/' :: t)
    (hpath : path = '/' :: route ++ '/' :: label ++ tail) :
    ∃ handler params, ROUTES.findSome? (matchRoute path) = some (handler, label :: params) ∧
      (handler = .redirect ↔ route = "pkarr".toList) := by
  have hsegment : ∃ rest, Origins.segment (label ++ tail) = (label, rest) := by
    rw [Origins.segment]
    rcases htail with rfl | ⟨t, rfl⟩
    · rw [List.append_nil, Str.splitOnce_eq_none.mpr hslash]
      exact ⟨none, rfl⟩
    · rw [Str.splitOnce_eq_some.mpr ⟨rfl, hslash⟩]
      exact ⟨some t, rfl⟩
  obtain ⟨rest, hsegment⟩ := hsegment
  have hhandler : ∀ form : Form, ∃ handler params,
      form.handlerFor label rest = (handler, label :: params) ∧
        (handler = .redirect ↔ form.pkarr = true) := by
    rintro ⟨_ | _, subdomain⟩ <;> rcases rest with _ | _ | ⟨c, t⟩ <;>
      exact ⟨_, _, rfl, by simp⟩
  rcases hroute with rfl | rfl
  · obtain ⟨handler, params, hparams, hredirect⟩ := hhandler ⟨false, true⟩
    refine ⟨handler, params, ?_, hredirect.trans (by decide)⟩
    rw [hpath, ← hparams]
    exact findSome_formPath hne hsegment ⟨false, true⟩
  · obtain ⟨handler, params, hparams, hredirect⟩ := hhandler ⟨true, true⟩
    refine ⟨handler, params, ?_, hredirect.trans (by decide)⟩
    rw [hpath, ← hparams]
    exact findSome_formPath hne hsegment ⟨true, true⟩

theorem takeWhile_fragment (h : ∀ c ∈ s, c ≠ '#') : (s.takeWhile fun c => c ≠ '#') = s :=
  List.takeWhile_eq_self_iff.mpr fun c hc => decide_eq_true (h c hc)

theorem requested_plain : ∀ c ∈ requested rest, c ≠ '#' := by
  intro c hc
  have hkept := List.mem_takeWhile_imp (p := fun c : Char => decide (c ≠ '#')) hc
  exact of_decide_eq_true hkept

theorem routed_plain (hroute : ∀ c ∈ route, c ≠ '#') (hlabel : ∀ c ∈ label, c ≠ '#')
    (hrest : ∀ c ∈ rest, c ≠ '#') : ∀ c ∈ routed route label rest, c ≠ '#' := by
  rw [routed]
  simp only [List.mem_append, List.mem_cons]
  rintro c (((rfl | hc) | rfl | hc) | hc)
  · decide
  · exact hroute c hc
  · decide
  · exact hlabel c hc
  · split at hc
    · exact hrest c hc
    · rcases List.mem_cons.mp hc with rfl | hc
      · decide
      · exact hrest c hc

/-- A redirected request is rewritten to the route of its domain, for the same label, with the path
and query that were requested. -/
theorem rewriteSubdomain_arrives (hz : z.Lawful) (hparse : ParsesPaths parseUri)
    (hlonger : ParsesLonger parseUri) (hd : d ∈ DOMAINS) (hname : d.name = route ++ ".net".toList)
    (hlabel : z.encode bytes.toList = label)
    (harrives : Arrives parseUri d label port rest request.toIncoming)
    (hshort : (Str.bytes (routed route label (requested rest))).length ≤ MAX_LEN) :
    ∃ uri, rewriteSubdomain z parseUri request =
        { request with uri := uri, originalUri := some uri, subdomain := true } ∧
      uri.pathAndQuery = some (routed route label (requested rest)) ∧
      ∃ handler params, ROUTES.findSome? (matchRoute uri.path) = some (handler, label :: params) ∧
        (handler = .redirect ↔ route = "pkarr".toList) := by
  have hisSome : (parseZ32Bytes z label).isSome := by
    rw [← hlabel, hz.parse_encode]
    rfl
  have halphabet := alphabet_of_parse hz hisSome
  have hroute := route_cases hd hname
  have hplain : ∀ c ∈ label, c ≠ '/' ∧ c ≠ '?' ∧ c ≠ '#' ∧ c ≠ '%' :=
    fun c hc => alphabet_plain c (halphabet c hc)
  have hhost : ((hostOf request.toIncoming).map (List.map Char.toLower)).bind (labelOf z) =
      some (label, route) := by
    rw [hostOf_arrives hparse hd halphabet harrives]
    exact labelOf_origin hz hd hname hisSome
  have htarget : request.uri.pathAndQuery = some ('/' :: requested rest) := by
    rw [(hparse _ _ harrives.uri).2, takeWhile_fragment]
    rintro c (_ | ⟨_, hc⟩)
    · decide
    · exact requested_plain c hc
  have hrest : (parseUri ('/' :: requested rest)).isSome := by
    rw [harrives.uri]
    rfl
  obtain ⟨uri, huri⟩ := Option.isSome_iff_exists.mp
    (isSome_routed hlonger (fun c hc => (route_plain hroute c hc).2) halphabet hrest hshort)
  have hrewritten : parseUri (rewritten route label ('/' :: requested rest)) = some uri := by
    rw [rewritten_requested]
    exact huri
  refine ⟨uri, ?_, ?_, ?_⟩
  · rw [rewriteSubdomain]
    simp only [hhost, htarget, Option.getD_some, hrewritten]
  · have hkept := (hparse _ _ huri).2
    rw [hkept, takeWhile_fragment]
    · rfl
    · exact routed_plain (fun c hc => (route_plain hroute c hc).1.2.2)
        (fun c hc => (hplain c hc).2.2.1) requested_plain
  · obtain ⟨tail, hpath, htail⟩ := path_rewritten hparse
      (fun c hc => (route_plain hroute c hc).1) hplain hrewritten
    refine findSome_routed hroute ?_ (fun h => (hplain _ h).1 rfl) htail hpath
    rintro rfl
    have hlength := hz.length_encode _ bytes.length_toList
    rw [hlabel] at hlength
    cases hlength

/-- **The extension and the gateway agree**: a rule is for a URL if and only if its authority is a
label of a link domain, and it is the only one; the URL is redirected to the origin of the label,
with the same path, query and fragment, and not again. If the label is a hash or a key, the gateway
rewrites what is requested then to the route for this label, with the same path and query, unless
that is too long for a URI. -/
theorem redirects_agree (hz : z.Lawful) (hparse : ParsesPaths parseUri)
    (hlonger : ParsesLonger parseUri) (hport : 1 ≤ port ∧ port ≤ 65535) :
    ∃ rules, makeRules (.integer port) = .ok rules ∧
      ∀ url authority rest, Normalised url authority rest →
        ((∃ rule ∈ rules, rule.test url = true) ↔
          ∃ d ∈ DOMAINS, ∃ label, Names d authority label) ∧
        (∀ rule ∈ rules, ∀ rule' ∈ rules, rule.test url = true → rule'.test url = true →
          rule = rule') ∧
        (∀ result, redirect rules url = some result ↔ ∃ d ∈ DOMAINS, ∃ label,
          Names d authority label ∧ result = redirected d label port rest) ∧
        ∀ d ∈ DOMAINS, ∀ label, Names d authority label →
          (∀ rule ∈ rules, rule.test (redirected d label port rest) = false) ∧
          ∀ route (bytes : Vector UInt8 32) (request : Origins.Request),
            d.name = route ++ ".net".toList → z.encode bytes.toList = label →
            Arrives parseUri d label port rest request.toIncoming →
            (Str.bytes (routed route label (requested rest))).length ≤ MAX_LEN →
              ∃ uri, rewriteSubdomain z parseUri request =
                  { request with uri := uri, originalUri := some uri, subdomain := true } ∧
                uri.pathAndQuery = some (routed route label (requested rest)) ∧
                ∃ handler params,
                  ROUTES.findSome? (matchRoute uri.path) = some (handler, label :: params) ∧
                    (handler = .redirect ↔ route = "pkarr".toList) := by
  refine ⟨_, makeRules_integer hport, fun url authority rest hurl => ⟨exists_test_iff hurl,
    fun rule hrule rule' hrule' => test_unique hurl hrule hrule',
    fun result => redirect_eq_some hurl, fun d hd label hlabel => ⟨?_, ?_⟩⟩⟩
  · exact fun rule hrule => test_redirected hd hurl hlabel hrule
  · exact fun route bytes request hname hbytes harrives hshort =>
      rewriteSubdomain_arrives hz hparse hlonger hd hname hbytes harrives hshort

end

namespace Sample

/-- A parser with the limit. -/
def parseUri : Str → Option Uri
  | '/' :: s =>
    if (Str.bytes ('/' :: s)).length ≤ MAX_LEN then
      some ⟨none, some (('/' :: s).takeWhile fun c => c ≠ '#')⟩
    else none
  | _ => none

theorem parsesPaths : ParsesPaths parseUri := by
  intro s uri h
  rw [parseUri] at h
  split at h
  · obtain rfl := Option.some.inj h
    exact ⟨rfl, rfl⟩
  · cases h

theorem parsesLonger : ParsesLonger parseUri := by
  intro w s hw h hshort
  rw [List.cons_append] at hshort ⊢
  rw [parseUri, if_pos hshort]
  rfl

/-- The label of a hash. -/
def label : Str := Z32.standard.encode (List.replicate 32 0)

/-- Its authority. -/
def authority : Str := label ++ ".blake3.net".toList

/-- The domain of hashes. -/
def domain : Domain := ⟨"blake3.net".toList, "blake3.localhost".toList⟩

/-- A link to a hash. -/
def url (rest : Str) : Str := "https://".toList ++ authority ++ '/' :: rest

/-- What the browser asks the gateway for. -/
def request (rest : Str) : Origins.Request where
  method := .GET
  uri := ⟨none, some ('/' :: requested rest)⟩
  headers := [(HOST, Str.bytes (label ++ '.' :: domain.origin ++ ':' :: Str.ofNat 45475))]
  originalUri := none
  subdomain := false

theorem normalised {rest : Str} (h : ∀ c ∈ rest, RegExp.isLineTerminator c = false) :
    Normalised (url rest) authority rest := by
  have hhttps : "https://".toList = "http".toList ++ ['s'] ++ "://".toList := by decide
  have hlines : ∀ c ∈ "https://".toList ++ authority, RegExp.isLineTerminator c = false := by
    decide +kernel
  refine ⟨⟨['s'], .inr rfl, congrArg (· ++ authority ++ '/' :: rest) hhttps⟩, by decide +kernel, ?_⟩
  intro c hc
  rcases List.mem_append.mp hc with hc | hc
  · exact hlines c hc
  · rcases List.mem_cons.mp hc with rfl | hc
    · decide
    · exact h c hc

theorem names : Names domain authority label := by
  have hlabel : label.all fun c => c ≠ '.' ∧ c ≠ '/' ∧ c ≠ ':' ∧ c ≠ '@' := by decide +kernel
  refine ⟨⟨by decide +kernel, fun c hc => of_decide_eq_true (List.all_eq_true.mp hlabel c hc)⟩,
    [], .inl rfl, by decide +kernel⟩

theorem arrives {rest : Str} (h : (Str.bytes ('/' :: requested rest)).length ≤ MAX_LEN) :
    Arrives parseUri domain label 45475 rest (request rest).toIncoming := by
  refine ⟨?_, .inl rfl⟩
  have hkept : (('/' :: requested rest).takeWhile fun c => c ≠ '#') = '/' :: requested rest := by
    refine takeWhile_fragment fun c hc => ?_
    rcases List.mem_cons.mp hc with rfl | hc
    · decide
    · exact requested_plain c hc
  rw [parseUri, if_pos h, hkept]
  rfl

/-- A path that is no URI any more with the route in front. -/
def long : Str := List.replicate 65500 'a'

theorem requested_long : requested long = long :=
  takeWhile_fragment fun c hc => List.eq_of_mem_replicate hc ▸ by decide

theorem length_bytes_long : (Str.bytes long).length = 65500 := by
  rw [long, Str.bytes, List.length_flatMap, List.map_replicate, List.sum_replicate]
  decide

theorem label_eq : Z32.standard.encode (Vector.replicate 32 (0 : UInt8)).toList = label := by
  decide +kernel

theorem domain_mem : domain ∈ DOMAINS := List.mem_cons_self

theorem short {rest : Str} (h : (Str.bytes (requested rest)).length < MAX_LEN) :
    (Str.bytes ('/' :: requested rest)).length ≤ MAX_LEN := by
  have hslash : (Str.bytes ['/']).length = 1 := by decide
  rw [← List.singleton_append, Str.bytes_append, List.length_append, hslash, Nat.add_comm]
  exact h

theorem parseUri_routed {route label rest : Str}
    (h : MAX_LEN < (Str.bytes (routed route label rest)).length) :
    parseUri (routed route label rest) = none :=
  if_neg (Nat.not_le_of_lt h)

/-- The path is not rewritten. -/
theorem rewriteSubdomain_long {rest : Str} (hrest : requested rest = rest)
    (hlong : (Str.bytes rest).length = 65500) :
    rewriteSubdomain Z32.standard parseUri (request rest) = request rest := by
  have hshort : (Str.bytes (requested rest)).length < MAX_LEN := by
    rw [hrest, hlong]
    decide
  have hlabel : (parseZ32Bytes Z32.standard label).isSome := by
    rw [← label_eq, Z32.standard_lawful.parse_encode]
    rfl
  have hhost : ((hostOf (request rest).toIncoming).map (List.map Char.toLower)).bind
      (labelOf Z32.standard) = some (label, "blake3".toList) := by
    rw [hostOf_arrives parsesPaths domain_mem (alphabet_of_parse Z32.standard_lawful hlabel)
      (arrives (short hshort))]
    exact labelOf_origin Z32.standard_lawful domain_mem (by decide) hlabel
  have hlength : MAX_LEN < (Str.bytes (routed "blake3".toList label rest)).length := by
    have hroute : (Str.bytes ('/' :: "blake3".toList ++ '/' :: label)).length = 60 := by
      decide +kernel
    have hlonger : 65500 ≤ (Str.bytes (if rest = [] ∨ rest.head? = some '?' then rest
        else '/' :: rest)).length := by
      rw [← hlong]
      split
      · exact le_rfl
      · rw [← List.singleton_append, Str.bytes_append, List.length_append]
        exact Nat.le_add_left _ _
    rw [routed, Str.bytes_append, List.length_append, hroute]
    exact (show MAX_LEN < 60 + 65500 by decide).trans_le (Nat.add_le_add_left hlonger 60)
  have hnone : parseUri (routed "blake3".toList label rest) = none := parseUri_routed hlength
  rw [rewriteSubdomain, hhost]
  have htarget : (request rest).uri.pathAndQuery.getD ['/'] = '/' :: rest := by
    rw [request, hrest]
    rfl
  simp only [htarget, rewritten_requested, hnone]

end Sample

/-- A link to a hash with a query and a fragment is redirected and rewritten. -/
theorem redirects_agree_sample : ∃ rules, makeRules (.integer 45475) = .ok rules ∧
    redirect rules (Sample.url "?download=1#time".toList) =
      some (redirected Sample.domain Sample.label 45475 "?download=1#time".toList) ∧
    ∃ uri, (rewriteSubdomain Z32.standard Sample.parseUri
        (Sample.request "?download=1#time".toList)).uri = uri ∧
      uri.pathAndQuery = some ("/blake3/".toList ++ Sample.label ++ "?download=1".toList) := by
  have hport : 1 ≤ 45475 ∧ 45475 ≤ 65535 := by decide
  obtain ⟨rules, hrules, hall⟩ := redirects_agree Z32.standard_lawful Sample.parsesPaths
    Sample.parsesLonger hport
  have hlines : ∀ c ∈ "?download=1#time".toList, RegExp.isLineTerminator c = false := by decide
  obtain ⟨-, -, hredirect, hnamed⟩ := hall _ _ _ (Sample.normalised hlines)
  obtain ⟨uri, huri, hpath, -⟩ := (hnamed _ Sample.domain_mem _ Sample.names).2 "blake3".toList
    (.replicate 32 0) _ (by decide) Sample.label_eq (Sample.arrives (by decide +kernel))
    (by decide +kernel)
  refine ⟨rules, hrules, (hredirect _).mpr ⟨_, Sample.domain_mem, _, Sample.names, rfl⟩, uri, ?_,
    ?_⟩
  · rw [huri]
  · rw [hpath]
    decide +kernel

/-- With a path that is too long, the request is left as it is. -/
theorem redirects_agree_fails : ¬ ∀ parseUri, ParsesPaths parseUri → ParsesLonger parseUri →
    ∀ url authority rest, Normalised url authority rest → ∀ d ∈ DOMAINS, ∀ label,
      Names d authority label → ∀ (bytes : Vector UInt8 32),
        Z32.standard.encode bytes.toList = label → ∀ request : Origins.Request,
          Arrives parseUri d label 45475 rest request.toIncoming →
            ∃ uri, rewriteSubdomain Z32.standard parseUri request =
              { request with uri := uri, originalUri := some uri, subdomain := true } := by
  intro h
  have hlines : ∀ c ∈ Sample.long, RegExp.isLineTerminator c = false :=
    fun c hc => List.eq_of_mem_replicate hc ▸ by decide
  have hshort : (Str.bytes (requested Sample.long)).length < MAX_LEN := by
    rw [Sample.requested_long, Sample.length_bytes_long]
    decide
  obtain ⟨uri, heq⟩ := h _ Sample.parsesPaths Sample.parsesLonger _ _ _ (Sample.normalised hlines) _
    Sample.domain_mem _ Sample.names _ Sample.label_eq _ (Sample.arrives (Sample.short hshort))
  rw [Sample.rewriteSubdomain_long Sample.requested_long Sample.length_bytes_long] at heq
  exact Bool.false_ne_true (congrArg Origins.Request.subdomain heq)

end ExtensionRules

end ContentDiscovery
