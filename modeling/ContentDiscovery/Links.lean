import ContentDiscovery.Percent
import ContentDiscovery.ServeBlob
import ContentDiscovery.Z32

/-!
# Links

`Root` of `iroh-link-gateway/src/lib.rs`: the URL paths of what is in a collection. A link names
its path segment by segment, percent-encoded; a path that begins with a slash would name another
host, so its link begins with `/.`, which URL parsers take away again (`urlPath_link`).
-/

namespace ContentDiscovery

open Percent

/-- `PATH_SEGMENT`: the bytes that are escaped in a segment. -/
def PATH_SEGMENT : AsciiSet := fun b =>
  CONTROLS b || [32, 37, 35, 63, 47, 92, 60, 62, 34, 39, 38].contains b

/-- `Root`: the collection a listing belongs to, and the path its links start with. -/
structure Root where
  /-- the hash or the key, in z-base-32 -/
  encoded : Str
  /-- what links start with, or nothing if the request came by subdomain -/
  base : Str
  caching : Caching

namespace Root

/-- `Root::new`. -/
def new (encoded : Str) (subdomain : Bool) : Root where
  encoded := encoded
  base := if subdomain then [] else "/blake3/".toList ++ encoded
  caching := .Immutable

/-- The segments of a path, encoded one by one. -/
def encodePath (path : Str) : Str :=
  ['/'].intercalate ((path.splitOn '/').map (Percent.encode PATH_SEGMENT))

/-- `Root::link`: the URL path of a path in the collection. -/
def link (root : Root) (path : Str) : Str :=
  let link := root.base ++ '/' :: encodePath path
  -- an empty first segment would name another host
  if ['/', '/'].isPrefixOf link then '/' :: '.' :: link else link

end Root

/-! ## URL parsers -/

/-- A segment that stands for the current directory, escaped or not. -/
def isSingleDot (segment : Str) : Prop := decodeBytes (Str.bytes segment) = [46]

/-- A segment that stands for the parent directory, escaped or not. -/
def isDoubleDot (segment : Str) : Prop := decodeBytes (Str.bytes segment) = [46, 46]

instance {segment : Str} : Decidable (isSingleDot segment) :=
  inferInstanceAs (Decidable (_ = _))

instance {segment : Str} : Decidable (isDoubleDot segment) :=
  inferInstanceAs (Decidable (_ = _))

/-- The segments of a path after those before, without dots. -/
def resolveDots (done : List Str) : List Str → List Str
  | [] => done
  | segment :: rest =>
    if isDoubleDot segment then resolveDots (done.dropLast ++ if rest = [] then [[]] else []) rest
    else if isSingleDot segment then resolveDots (done ++ if rest = [] then [[]] else []) rest
    else resolveDots (done ++ [segment]) rest

/-- The path that a URL parser makes of an absolute one. -/
def urlPath (path : Str) : Str :=
  '/' :: ['/'].intercalate (resolveDots [] ((path.drop 1).splitOn '/'))

/-- No segment stands for a directory by its dots. -/
def Dotless (path : Str) : Prop :=
  ∀ segment ∈ path.splitOn '/', segment ≠ ['.'] ∧ segment ≠ ['.', '.']

instance : DecidablePred Dotless := fun _ => inferInstanceAs (Decidable (∀ _ ∈ _, _))

variable {p q : Str} {c : Char} {root : Root}

/-! ## Encoded paths -/

/-- Only the slash itself is written as a slash. -/
theorem bytes_slash (h : '/' ∉ p) : 47 ∉ Str.bytes p := by
  intro hmem
  obtain ⟨c, hc, hb⟩ := List.mem_flatMap.mp hmem
  have hval := Str.toNat_of_mem_utf8 hb (by decide)
  have hslash : c = '/' := Char.toNat_inj.mp hval
  exact h (hslash ▸ hc)

/-- `PATH_SEGMENT` without the slash. -/
def PATH : AsciiSet := fun b => b ≠ 47 && PATH_SEGMENT b

theorem encode_segment (h : '/' ∉ p) : Percent.encode PATH_SEGMENT p = Percent.encode PATH p := by
  have hslash := bytes_slash h
  refine List.flatMap_congr fun b hb => ?_
  have hb : b ≠ 47 := fun h0 => hslash (h0 ▸ hb)
  rw [encodeByte, encodeByte, PATH, decide_eq_true hb, Bool.true_and]

theorem encode_slash : Percent.encode PATH ['/'] = ['/'] := by decide

/-- Encoding keeps the slashes between segments. -/
theorem encode_intercalate (ls : List Str) :
    Percent.encode PATH (['/'].intercalate ls)
      = ['/'].intercalate (ls.map (Percent.encode PATH)) := by
  induction ls with
  | nil => rfl
  | cons l ls ih =>
    cases ls with
    | nil => rw [List.map_singleton, List.intercalate_singleton, List.intercalate_singleton]
    | cons l' ls =>
      rw [List.map_cons] at ih
      rw [List.map_cons, List.map_cons, List.intercalate_cons_cons, List.intercalate_cons_cons,
        encode_append, encode_append, encode_slash, ih]

theorem encodePath_eq : Root.encodePath p = Percent.encode PATH p := by
  have hsplit : ['/'].intercalate (p.splitOn '/') = p := List.intercalate_splitOn '/'
  rw [Root.encodePath, ← congrArg (Percent.encode PATH) hsplit, encode_intercalate,
    List.map_congr_left fun l hl => encode_segment (Str.not_mem_of_mem_splitOn hl)]

/-- A path is read back from its encoding. -/
theorem decode_encodePath : Percent.decode (Root.encodePath p) = some p := by
  rw [encodePath_eq]
  exact decode_encode (by decide)

theorem encodePath_injective : Function.Injective Root.encodePath := by
  intro p q h
  rw [encodePath_eq, encodePath_eq] at h
  exact encode_injective (by decide) h

/-- The characters that occur in an encoded path. -/
theorem mem_encodePath (h : c ∈ Root.encodePath p) :
    c.toNat < 128 ∧ (c = '/' ∨ c = '%' ∨ PATH_SEGMENT (.ofNat c.toNat) = false) := by
  rw [encodePath_eq] at h
  rcases mem_encode h with rfl | ⟨n, hn, rfl⟩ | ⟨b, hb, hkept, rfl⟩
  · exact ⟨by decide, .inr (.inl rfl)⟩
  · have hall : ∀ n < 16,
        (hexDigit n).toNat < 128 ∧ PATH_SEGMENT (.ofNat (hexDigit n).toNat) = false := by
      decide
    exact ⟨(hall n hn).1, .inr (.inr (hall n hn).2)⟩
  · have hb : b.toNat < 128 := UInt8.lt_iff_toNat_lt.mp hb
    have hall : ∀ n < 128, (Char.ofNat n).toNat = n := by decide
    rw [hall _ hb, UInt8.ofNat_toNat]
    refine ⟨hb, ?_⟩
    by_cases hslash : b = 47
    · subst hslash
      exact .inl rfl
    · rw [PATH, decide_eq_true hslash, Bool.true_and] at hkept
      exact .inr (.inr hkept)

/-- A segment has no slash. -/
theorem slash_not_mem_encode : '/' ∉ Percent.encode PATH_SEGMENT p := by
  intro h
  rcases mem_encode h with h | ⟨n, hn, h⟩ | ⟨b, hb, hkept, h⟩
  · exact absurd h (by decide)
  · have hall : ∀ n < 16, '/' ≠ hexDigit n := by decide
    exact hall n hn h
  · have hall : ∀ n < 128, '/' = Char.ofNat n → n = 47 := by decide
    have hb := hall _ (UInt8.lt_iff_toNat_lt.mp hb) h
    obtain rfl : b = 47 := UInt8.toNat_inj.mp hb
    exact absurd hkept (by decide)

/-- The segments of an encoded path are the encoded segments. -/
theorem splitOn_encodePath :
    (Root.encodePath p).splitOn '/' = (p.splitOn '/').map (Percent.encode PATH_SEGMENT) := by
  rw [Root.encodePath]
  refine List.splitOn_intercalate '/' ?_ (by simp)
  intro l hl
  obtain ⟨segment, -, rfl⟩ := List.mem_map.mp hl
  exact slash_not_mem_encode

theorem encodePath_cons_slash : Root.encodePath ('/' :: p) = '/' :: Root.encodePath p := by
  rw [encodePath_eq, encodePath_eq, ← List.singleton_append, encode_append, encode_slash]
  rfl

/-- An encoded path begins with a slash if the path does. -/
theorem head?_encodePath : (Root.encodePath p).head? = some '/' ↔ p.head? = some '/' := by
  cases p with
  | nil => exact iff_of_false (by decide) (by decide)
  | cons c p =>
    by_cases hc : c = '/'
    · rw [hc, encodePath_cons_slash]
      exact iff_of_true rfl rfl
    · have hfirst : Percent.encode PATH [c] = Percent.encode PATH_SEGMENT [c] :=
        (encode_segment (by simpa using Ne.symm hc)).symm
      have hne : Percent.encode PATH_SEGMENT [c] ≠ [] := fun h =>
        List.cons_ne_nil c [] (encode_injective (by decide) (h.trans rfl))
      rw [encodePath_eq, ← List.singleton_append, encode_append, hfirst,
        List.head?_append_of_ne_nil _ hne]
      refine iff_of_false (fun h => ?_) (by simpa using hc)
      exact slash_not_mem_encode (List.mem_of_head? h)

/-! ## Roots -/

/-- A root as the handlers build it: of a hash or a key that was parsed, and of a route. -/
structure Root.Named (z : Z32) (root : Root) : Prop where
  encoded : (parseZ32Bytes z root.encoded).isSome
  base : root.base = [] ∨ ∃ route, (route = "blake3".toList ∨ route = "pkarr".toList) ∧
    root.base = '/' :: route ++ '/' :: root.encoded

/-- A character of a link is kept by the router, and stands for itself in a page. -/
def IsLinkChar (c : Char) : Prop :=
  c.toNat < 128 ∧ (c = '/' ∨ c = '%' ∨ PATH_SEGMENT (.ofNat c.toNat) = false)

instance : DecidablePred IsLinkChar := fun _ => inferInstanceAs (Decidable (_ ∧ _))

variable {z : Z32}

theorem isLinkChar_of_all (h : p.all fun c => IsLinkChar c) : ∀ c ∈ p, IsLinkChar c :=
  fun c hc => of_decide_eq_true (List.all_eq_true.mp h c hc)

theorem isLinkChar_alphabet (h : c ∈ Z32.alphabet) : IsLinkChar c := by
  have hall : Z32.alphabet.all fun c => IsLinkChar c := by decide
  exact isLinkChar_of_all hall c h

/-- A canonical encoding is made of the characters of the alphabet. -/
theorem mem_alphabet_of_parse (hz : z.Lawful) {value : Str}
    (h : (parseZ32Bytes z value).isSome) : ∀ c ∈ value, c ∈ Z32.alphabet := by
  obtain ⟨bytes, hbytes⟩ := Option.isSome_iff_exists.mp h
  rw [← Z32.encode_of_parse hbytes]
  exact hz.mem_alphabet _ bytes.length_toList

/-- What a link is, before it is kept on its host. -/
def Root.raw (root : Root) (path : Str) : Str := root.base ++ '/' :: Root.encodePath path

/-- A link to a path that begins with a slash is kept on its host if it would be a host's. -/
theorem link_cases (h : root.Named z) :
    root.link p = root.raw p ∧ (root.base = [] → p.head? ≠ some '/') ∨
      root.base = [] ∧ p.head? = some '/' ∧ root.link p = "/.".toList ++ root.raw p := by
  rcases h.base with hbase | ⟨route, hroute, hbase⟩
  · by_cases hp : p.head? = some '/'
    · refine .inr ⟨hbase, hp, ?_⟩
      have hpath := head?_encodePath.mpr hp
      cases hencoded : Root.encodePath p with
      | nil =>
        rw [hencoded] at hpath
        cases hpath
      | cons c rest =>
        rw [hencoded, List.head?_cons, Option.some.injEq] at hpath
        rw [Root.link, hbase, hencoded, hpath]
        simp [Root.raw, hbase, hencoded, hpath, List.isPrefixOf]
    · refine .inl ⟨?_, fun _ => hp⟩
      have hpath := mt head?_encodePath.mp hp
      rw [Root.link, Root.raw, hbase]
      refine if_neg fun h => hpath ?_
      cases hencoded : Root.encodePath p with
      | nil =>
        rw [hencoded] at h
        cases h
      | cons c rest =>
        rw [hencoded] at h
        simp only [List.nil_append, List.isPrefixOf, Bool.and_eq_true, beq_iff_eq, and_true,
          true_and] at h
        rw [← h, List.head?_cons]
  · refine .inl ⟨?_, fun h0 => ?_⟩
    · rw [Root.link, Root.raw, hbase]
      refine if_neg ?_
      rcases hroute with rfl | rfl <;> simp [List.isPrefixOf]
    · rw [h0] at hbase
      cases hbase

/-! ## What links come to -/

/-- Encoding a segment does not make dots of it. -/
theorem dots_of_encode {l : Str} {ds : Str}
    (h : decodeBytes (Str.bytes (Percent.encode PATH_SEGMENT l)) = Str.bytes ds) : l = ds := by
  rw [decodeBytes_encode (by decide)] at h
  exact Str.bytes_injective h

/-- Segments without dots are kept. -/
theorem resolveDots_of_not {done ls : List Str}
    (h : ∀ l ∈ ls, ¬ isSingleDot l ∧ ¬ isDoubleDot l) : resolveDots done ls = done ++ ls := by
  induction ls generalizing done with
  | nil => rw [resolveDots, List.append_nil]
  | cons l ls ih =>
    obtain ⟨hsingle, hdouble⟩ := h l List.mem_cons_self
    rw [resolveDots, if_neg hdouble, if_neg hsingle,
      ih fun l hl => h l (List.mem_cons_of_mem _ hl), List.append_assoc]
    rfl

theorem not_dots_encode (hp : Dotless p) :
    ∀ l ∈ (Root.encodePath p).splitOn '/', ¬ isSingleDot l ∧ ¬ isDoubleDot l := by
  rw [splitOn_encodePath]
  intro l hl
  obtain ⟨segment, hsegment, rfl⟩ := List.mem_map.mp hl
  obtain ⟨hsingle, hdouble⟩ := hp segment hsegment
  exact ⟨fun h => hsingle (dots_of_encode h), fun h => hdouble (dots_of_encode h)⟩

/-- A label has no slash, and is no dot. -/
theorem not_dots_alphabet {l : Str} (h : ∀ c ∈ l, c ∈ Z32.alphabet) :
    '/' ∉ l ∧ ¬ isSingleDot l ∧ ¬ isDoubleDot l := by
  have hdecode : decodeBytes (Str.bytes l) = Str.bytes l :=
    decodeBytes_self (bytes_percent fun hmem => absurd (h _ hmem) (by decide))
  have hdot : 46 ∉ Str.bytes l := by
    intro hmem
    obtain ⟨c, hc, hb⟩ := List.mem_flatMap.mp hmem
    obtain rfl : c = '.' := Char.toNat_inj.mp (Str.toNat_of_mem_utf8 hb (by decide))
    exact absurd (h _ hc) (by decide)
  rw [isSingleDot, isDoubleDot, hdecode]
  refine ⟨fun hmem => absurd (h _ hmem) (by decide), fun heq => hdot ?_, fun heq => hdot ?_⟩
  · rw [heq]
    exact List.mem_cons_self
  · rw [heq]
    exact List.mem_cons_self

/-- A path without dots is left as it is. -/
theorem urlPath_of_not {path : Str}
    (h : ∀ l ∈ path.splitOn '/', ¬ isSingleDot l ∧ ¬ isDoubleDot l) :
    urlPath ('/' :: path) = '/' :: path := by
  rw [urlPath, List.drop_one, List.tail_cons, resolveDots_of_not h, List.nil_append,
    List.intercalate_splitOn]

/-- A URL parser leaves the path of a link, without the dot that kept it on its host. -/
theorem urlPath_link (hz : z.Lawful) (h : root.Named z) (hp : Dotless p) :
    urlPath (root.link p) = root.raw p := by
  rcases link_cases (p := p) h with ⟨hlink, -⟩ | ⟨hbase, -, hlink⟩
  · rw [hlink, Root.raw]
    rcases h.base with hbase | ⟨route, hroute, hbase⟩
    · rw [hbase]
      exact urlPath_of_not (not_dots_encode hp)
    · have hlabel := not_dots_alphabet (mem_alphabet_of_parse hz h.encoded)
      have hroute : '/' ∉ route ∧ ¬ isSingleDot route ∧ ¬ isDoubleDot route := by
        rcases hroute with rfl | rfl
        · decide
        · decide
      have hpath : root.base ++ '/' :: Root.encodePath p
          = '/' :: (route ++ '/' :: (root.encoded ++ '/' :: Root.encodePath p)) := by
        rw [hbase]
        simp only [List.cons_append, List.append_assoc]
      rw [hpath]
      refine urlPath_of_not ?_
      rw [List.splitOn_append_cons_self_of_not_mem hroute.1,
        List.splitOn_append_cons_self_of_not_mem hlabel.1]
      intro l hl
      rcases List.mem_cons.mp hl with rfl | hl
      · exact hroute.2
      · rcases List.mem_cons.mp hl with rfl | hl
        · exact hlabel.2
        · exact not_dots_encode hp l hl
  · rw [hlink, Root.raw, hbase]
    have hslash : '/' ∉ ['.'] := by decide
    have hsplit : ('.' :: '/' :: Root.encodePath p).splitOn '/'
        = ['.'] :: (Root.encodePath p).splitOn '/' :=
      List.splitOn_append_cons_self_of_not_mem hslash _
    have hdot : ¬ isDoubleDot ['.'] ∧ isSingleDot ['.'] := by decide
    show urlPath ('/' :: '.' :: '/' :: Root.encodePath p) = '/' :: Root.encodePath p
    rw [urlPath, List.drop_one, List.tail_cons, hsplit, resolveDots, if_neg hdot.1, if_pos hdot.2,
      if_neg (List.splitOn_ne_nil _ _), resolveDots_of_not (not_dots_encode hp),
      List.append_nil, List.nil_append, List.intercalate_splitOn]

/-- The characters before the path of a link. -/
theorem isLinkChar_base (hz : z.Lawful) (h : root.Named z) : ∀ c ∈ root.base, IsLinkChar c := by
  rcases h.base with hbase | ⟨route, hroute, hbase⟩
  · rw [hbase]
    exact fun c hc => absurd hc List.not_mem_nil
  · have hall : ('/' :: route).all fun c => IsLinkChar c := by
      rcases hroute with rfl | rfl
      · decide
      · decide
    intro c hc
    rw [hbase] at hc
    rcases List.mem_append.mp hc with hc | hc
    · exact isLinkChar_of_all hall c hc
    · rcases List.mem_cons.mp hc with rfl | hc
      · decide
      · exact isLinkChar_alphabet (mem_alphabet_of_parse hz h.encoded c hc)

/-- A link starts with a single slash, and is made of characters that need no escape. -/
theorem link_stays (hz : z.Lawful) (h : root.Named z) (p : Str) :
    (∃ rest, root.link p = '/' :: rest ∧ rest.head? ≠ some '/' ∧ rest.head? ≠ some '\\') ∧
      ∀ c ∈ root.link p, IsLinkChar c := by
  have hraw : ∀ c ∈ root.raw p, IsLinkChar c := by
    intro c hc
    rcases List.mem_append.mp hc with hc | hc
    · exact isLinkChar_base hz h c hc
    · rcases List.mem_cons.mp hc with rfl | hc
      · decide
      · exact mem_encodePath hc
  rcases link_cases (p := p) h with ⟨hlink, hslash⟩ | ⟨-, -, hlink⟩
  · rw [hlink]
    refine ⟨?_, hraw⟩
    rcases h.base with hbase | ⟨route, hroute, hbase⟩
    · refine ⟨Root.encodePath p, by rw [Root.raw, hbase]; rfl,
        mt head?_encodePath.mp (hslash hbase), fun hback => ?_⟩
      exact absurd (mem_encodePath (List.mem_of_head? hback)) (by decide)
    · refine ⟨route ++ '/' :: root.encoded ++ '/' :: Root.encodePath p, ?_, ?_⟩
      · rw [Root.raw, hbase]
        rfl
      · rcases hroute with rfl | rfl
        · simp
        · simp
  · rw [hlink]
    refine ⟨⟨'.' :: root.raw p, rfl, by simp, by simp⟩, ?_⟩
    intro c hc
    rcases List.mem_append.mp hc with hc | hc
    · have hall : "/.".toList.all fun c => IsLinkChar c := by decide
      exact isLinkChar_of_all hall c hc
    · exact hraw c hc

end ContentDiscovery
