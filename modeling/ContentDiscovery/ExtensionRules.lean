import ContentDiscovery.Origins
import ContentDiscovery.RegExp

/-!
# The rules of the browser extension

`iroh-link-extension/rules.js`: what is requested from a subdomain of a link domain is redirected
to the gateway on this machine. A rule is a regular expression and a substitution for what it
matches; `redirect` is what the browser does with the rules.
-/

namespace ContentDiscovery

namespace ExtensionRules

/-- A stored value: an integer, or anything else. -/
inductive JsValue where
  | integer (n : ℤ)
  | other
  deriving DecidableEq

/-- Valid settings. -/
structure Settings where
  /-- the port of the gateway -/
  port : ℕ
  /-- it is one that a server can have -/
  valid : 1 ≤ port ∧ port ≤ 65535

/-- One entry per link domain. -/
structure Domain where
  /-- the public name -/
  name : Str
  /-- the localhost suffix the gateway serves it under -/
  origin : Str
  deriving DecidableEq

/-- A rule. -/
structure Rule where
  id : ℕ
  priority : ℕ
  /-- what a URL is redirected to -/
  regexSubstitution : Str
  /-- the URLs that are redirected -/
  regexFilter : Str
  isUrlFilterCaseSensitive : Bool
  /-- the kinds of requests that are redirected -/
  resourceTypes : List Str
  deriving DecidableEq

/-- `DOMAINS`. -/
def DOMAINS : List Domain :=
  [⟨"blake3.net".toList, "blake3.localhost".toList⟩,
    ⟨"pkarr.net".toList, "pkarr.localhost".toList⟩]

/-- `validateSettings`, for the port of the settings. -/
def validateSettings (port : JsValue) : Except Str Settings :=
  match port with
  | .integer n =>
    if h : 1 ≤ n ∧ n ≤ 65535 then .ok ⟨n.toNat, by omega⟩
    else .error "Enter a port from 1 to 65535.".toList
  | .other => .error "Enter a port from 1 to 65535.".toList

/-- The first dot of a name with a backslash. -/
def escapeDot (name : Str) : Str :=
  match Str.splitOnce '.' name with
  | none => name
  | some (first, rest) => first ++ "\\.".toList ++ rest

/-- The `regexFilter` of a domain. -/
def regexFilter (name : Str) : Str :=
  "^https?://([^./:@]+)\\.".toList ++ escapeDot name ++ "(?::[0-9]+)?/(.*)$".toList

/-- The `regexSubstitution` of a domain. -/
def regexSubstitution (origin : Str) (port : ℕ) : Str :=
  "http://\\1.".toList ++ origin ++ ':' :: Str.ofNat port ++ "/\\2".toList

/-- `resourceTypes`. -/
def resourceTypes : List Str :=
  ["main_frame", "sub_frame", "stylesheet", "script", "image", "font", "object", "xmlhttprequest",
    "ping", "csp_report", "media", "other"].map String.toList

/-- The rule of a domain. -/
def ruleFor (port index : ℕ) (d : Domain) : Rule where
  id := index + 1
  priority := 1
  regexSubstitution := regexSubstitution d.origin port
  regexFilter := regexFilter d.name
  isUrlFilterCaseSensitive := true
  resourceTypes := resourceTypes

/-- `makeRules`, for the port of the settings. -/
def makeRules (port : JsValue) : Except Str (List Rule) :=
  match validateSettings port with
  | .error error => .error error
  | .ok settings => .ok (DOMAINS.mapIdx (ruleFor settings.port))

/-! ## What the browser does -/

/-- The rule is for a URL. -/
def Rule.test (rule : Rule) (url : Str) : Bool :=
  match RegExp.parse rule.regexFilter with
  | none => false
  | some filter => filter.test rule.isUrlFilterCaseSensitive url

/-- Where the rule redirects a URL to. -/
def Rule.redirect (rule : Rule) (url : Str) : Option Str :=
  match RegExp.parse rule.regexFilter with
  | none => none
  | some filter => filter.replace rule.isUrlFilterCaseSensitive rule.regexSubstitution url

/-- Where a URL is redirected to, by the rule with the highest priority. -/
def redirect (rules : List Rule) (url : Str) : Option Str :=
  (rules.mergeSort fun a b => b.priority ≤ a.priority).findSome? fun rule => rule.redirect url

/-! ## What a filter is for -/

section Filter

/-- A single label of a host. -/
def SingleLabel (label : Str) : Prop :=
  label ≠ [] ∧ ∀ c ∈ label, c ≠ '.' ∧ c ≠ '/' ∧ c ≠ ':' ∧ c ≠ '@'

/-- A decimal port with its colon, or nothing. -/
def OptionalPort (port : Str) : Prop :=
  port = [] ∨ ∃ digits, port = ':' :: digits ∧ digits ≠ [] ∧ ∀ c ∈ digits, c.isDigit = true

variable {name url label port rest : Str} {t : RegExp.Cursor}

/-- What the filter of a name has after `^`. -/
def filterBody (name : Str) : RegExp :=
  let labelChar := RegExp.cls true [('.', '.'), ('/', '/'), (':', ':'), ('@', '@')]
  let digit := RegExp.cls false [('0', '9')]
  RegExp.lits "http".toList <| .seq (.opt (.char 's')) <| RegExp.lits "://".toList <|
    .seq (.group 1 (.seq labelChar (.star labelChar))) <| RegExp.lits ('.' :: name) <|
      .seq (.opt (.seq (.char ':') (.seq digit (.star digit)))) <| RegExp.lits ['/'] <|
        .seq (.group 2 (.star .any)) .stop

theorem parse_regexFilter : ∀ d ∈ DOMAINS,
    RegExp.parse (regexFilter d.name) = some (.seq .start (filterBody d.name)) := by
  decide +kernel

theorem reads_label : RegExp.Reads true
    (.seq (.cls true [('.', '.'), ('/', '/'), (':', ':'), ('@', '@')])
      (.star (.cls true [('.', '.'), ('/', '/'), (':', ':'), ('@', '@')]))) SingleLabel := by
  refine (RegExp.reads_plus rfl).congr fun w => and_congr_right fun _ => forall₂_congr fun c _ => ?_
  have hself : ∀ d : Char, (decide (d ≤ c) && decide (c ≤ d)) = decide (c = d) := by
    intro d
    rw [← Bool.decide_and, decide_eq_decide]
    exact ⟨fun h => Char.le_antisymm h.2 h.1, fun h => h ▸ ⟨Char.le_refl c, Char.le_refl c⟩⟩
  simp [RegExp.sameCase, RegExp.inRanges, hself]

theorem reads_port : RegExp.Reads true (.opt (.seq (.char ':')
    (.seq (.cls false [('0', '9')]) (.star (.cls false [('0', '9')]))))) OptionalPort := by
  have hdigits : RegExp.Reads true
      (.seq (.cls false [('0', '9')]) (.star (.cls false [('0', '9')])))
      fun w => w ≠ [] ∧ ∀ c ∈ w, c.isDigit = true := by
    refine (RegExp.reads_plus rfl).congr fun w =>
      and_congr_right fun _ => forall₂_congr fun c _ => ?_
    simp only [RegExp.sameCase, if_true, List.any_cons, List.any_nil, Bool.or_false,
      RegExp.inRanges, Bool.bne_false, Char.isDigit, ge_iff_le, Bool.and_eq_true, decide_eq_true_eq]
    exact Iff.rfl
  refine (((RegExp.reads_char ':').seq hdigits).opt ?_).congr fun w => or_congr_right ?_
  · rintro ⟨u, v, h, rfl, -⟩
    cases h
  · constructor
    · rintro ⟨_, v, rfl, rfl, hv⟩
      exact ⟨v, rfl, hv⟩
    · rintro ⟨v, rfl, hv⟩
      exact ⟨[':'], v, rfl, rfl, hv⟩

/-- A URL matches in one way only: its parts are the captures. -/
theorem mem_run_filterBody : t ∈ RegExp.run true (filterBody name) ⟨[], url, []⟩ ↔
    ∃ s label port rest, url = "http".toList ++ (s ++ ("://".toList ++
        (label ++ ('.' :: name ++ (port ++ '/' :: rest))))) ∧
      (s = [] ∨ s = ['s']) ∧ SingleLabel label ∧ OptionalPort port ∧
      (∀ c ∈ rest, RegExp.isLineTerminator c = false) ∧
      t = ⟨url, [], [(2, rest), (1, label)]⟩ := by
  have hs := (RegExp.reads_char 's').opt (fun h => nomatch h)
  have hrest : RegExp.Reads true (.star .any)
      fun w => ∀ c ∈ w, (!RegExp.isLineTerminator c) = true := RegExp.reads_star rfl
  simp only [filterBody, RegExp.mem_run_lits, hs.mem_seq, reads_label.mem_group_seq,
    reads_port.mem_seq, hrest.mem_group_seq, RegExp.mem_run_stop, RegExp.Cursor.read]
  constructor
  · rintro ⟨_, rfl, s, _, rfl, hs, _, rfl, label, _, rfl, hlabel, _, rfl, port, _, rfl, hport, _,
      rfl, rest, _, rfl, hrest, rfl, rfl⟩
    refine ⟨s, label, port, rest, ?_, hs, hlabel, hport, ?_, ?_⟩
    · rw [List.append_nil]
      rfl
    · simpa using hrest
    · simp
  · rintro ⟨s, label, port, rest, rfl, hs, hlabel, hport, hrest, rfl⟩
    refine ⟨_, rfl, s, _, rfl, hs, _, rfl, label, _, rfl, hlabel, _, rfl, port, _, rfl, hport, _,
      rfl, rest, [], ?_, ?_, rfl, ?_⟩
    · rw [List.append_nil]
    · simpa using hrest
    · simp

/-- A normalised URL: a slash ends its authority, and there are no line breaks. -/
structure Normalised (url authority rest : Str) : Prop where
  parts : ∃ s, (s = [] ∨ s = ['s']) ∧
    url = "http".toList ++ s ++ "://".toList ++ authority ++ '/' :: rest
  authority : '/' ∉ authority
  lines : ∀ c ∈ url, RegExp.isLineTerminator c = false

/-- An authority is a label under the name of a domain, with or without a port. -/
def Names (d : Domain) (authority label : Str) : Prop :=
  SingleLabel label ∧ ∃ port, OptionalPort port ∧ authority = label ++ '.' :: d.name ++ port

variable {authority s s' a b : Str} {d d' : Domain}

theorem SingleLabel.not_mem_slash (h : SingleLabel label) : '/' ∉ label :=
  fun hmem => (h.2 _ hmem).2.1 rfl

theorem SingleLabel.not_mem_dot (h : SingleLabel label) : '.' ∉ label :=
  fun hmem => (h.2 _ hmem).1 rfl

theorem OptionalPort.not_mem_slash (h : OptionalPort port) : '/' ∉ port := by
  rcases h with rfl | ⟨digits, rfl, -, hdigits⟩
  · exact List.not_mem_nil
  · rw [List.mem_cons, not_or]
    refine ⟨by decide, fun hmem => ?_⟩
    have hslash := hdigits _ hmem
    exact absurd hslash (by decide)

/-- The scheme of a URL, and what follows it. -/
theorem scheme_inj (hs : s = [] ∨ s = ['s']) (hs' : s' = [] ∨ s' = ['s'])
    (h : "http".toList ++ s ++ "://".toList ++ a = "http".toList ++ s' ++ "://".toList ++ b) :
    s = s' ∧ a = b := by
  rcases hs with rfl | rfl <;> rcases hs' with rfl | rfl <;> simp at h <;> simp [h]

theorem name_plain : ∀ d ∈ DOMAINS, '/' ∉ d.name := by
  decide

theorem mem_run_url (hd : d ∈ DOMAINS) (hurl : Normalised url authority rest) :
    t ∈ RegExp.run true (filterBody d.name) ⟨[], url, []⟩ ↔
      ∃ label, Names d authority label ∧ t = ⟨url, [], [(2, rest), (1, label)]⟩ := by
  obtain ⟨s, hs, hparts⟩ := hurl.parts
  rw [mem_run_filterBody]
  constructor
  · rintro ⟨s', label, port, rest', heq, hs', hlabel, hport, hrest, rfl⟩
    have heq' : "http".toList ++ s ++ "://".toList ++ (authority ++ '/' :: rest) =
        "http".toList ++ s' ++ "://".toList ++
          ((label ++ '.' :: d.name ++ port) ++ '/' :: rest') := by
      rw [← List.append_assoc, ← hparts, heq]
      simp
    -- the scheme ends at its colon, and the authority at the first slash after it
    obtain ⟨-, htail⟩ := scheme_inj hs hs' heq'
    have hslash : '/' ∉ label ++ '.' :: d.name ++ port := by
      simp only [List.mem_append, List.mem_cons, not_or]
      exact ⟨⟨hlabel.not_mem_slash, by decide, name_plain d hd⟩, hport.not_mem_slash⟩
    have hsplit := Str.splitOnce_eq_some.mpr ⟨htail, hslash⟩
    rw [Str.splitOnce_eq_some.mpr ⟨rfl, hurl.authority⟩] at hsplit
    obtain ⟨hauthority, rfl⟩ := Prod.mk.inj (Option.some.inj hsplit)
    exact ⟨label, ⟨hlabel, port, hport, hauthority⟩, rfl⟩
  · rintro ⟨label, ⟨hlabel, port, hport, rfl⟩, rfl⟩
    refine ⟨s, label, port, rest, ?_, hs, hlabel, hport, fun c hc => hurl.lines c ?_, rfl⟩
    · rw [hparts]
      simp
    · rw [hparts]
      exact List.mem_append_right _ (List.mem_cons_of_mem _ hc)

end Filter

/-! ## What the rules do -/

section Rules

variable {url authority rest label label' result : Str} {d d' : Domain} {port index : ℕ}
  {rules : List Rule} {rule rule' : Rule}

theorem makeRules_integer (h : 1 ≤ port ∧ port ≤ 65535) :
    makeRules (.integer port) = .ok (DOMAINS.mapIdx (ruleFor port)) := by
  have hint : (1 : ℤ) ≤ port ∧ (port : ℤ) ≤ 65535 := by omega
  rw [makeRules, validateSettings, dif_pos hint]
  rfl

theorem mem_rules : rule ∈ DOMAINS.mapIdx (ruleFor port) ↔
    ∃ index, ∃ h : index < DOMAINS.length, ruleFor port index DOMAINS[index] = rule :=
  List.mem_mapIdx

/-- The URL that a label of a domain is redirected to. -/
def redirected (d : Domain) (label : Str) (port : ℕ) (rest : Str) : Str :=
  "http://".toList ++ label ++ '.' :: d.origin ++ ':' :: Str.ofNat port ++ '/' :: rest

theorem test_ruleFor (hd : d ∈ DOMAINS) (hurl : Normalised url authority rest) :
    (ruleFor port index d).test url = true ↔ ∃ label, Names d authority label := by
  rw [Rule.test, ruleFor]
  simp only [parse_regexFilter d hd, RegExp.test_seq_start, mem_run_url hd hurl]
  constructor
  · rintro ⟨t, label, hlabel, -⟩
    exact ⟨label, hlabel⟩
  · rintro ⟨label, hlabel⟩
    exact ⟨_, label, hlabel, rfl⟩

theorem origin_plain : ∀ d ∈ DOMAINS, ∀ c ∈ d.origin, c ≠ '\\' := by
  decide

theorem middle_plain (hd : d ∈ DOMAINS) (port : ℕ) :
    ∀ c ∈ '.' :: (d.origin ++ ':' :: Str.ofNat port) ++ ['/'], c ≠ '\\' := by
  simp only [List.mem_append, List.mem_cons, List.not_mem_nil, or_false]
  rintro c ((rfl | hc | rfl | hc) | rfl)
  · decide
  · exact origin_plain d hd c hc
  · decide
  · rintro rfl
    exact absurd (Str.isDigit_of_mem_ofNat hc) (by decide)
  · decide

/-- A text with two places for captures. -/
theorem expand_captures {captured : ℕ → Str} {http middle first last : Str}
    (hhttp : ∀ c ∈ http, c ≠ '\\') (hmiddle : ∀ c ∈ '.' :: middle ++ ['/'], c ≠ '\\')
    (hfirst : first = http ++ ['\\', '1', '.']) (hlast : last = ['/', '\\', '2']) :
    RegExp.expand captured (first ++ middle ++ last) =
      http ++ captured 1 ++ '.' :: middle ++ '/' :: captured 2 := by
  have hparts : first ++ middle ++ last =
      http ++ ('\\' :: '1' :: (('.' :: middle ++ ['/']) ++ ['\\', '2'])) := by
    rw [hfirst, hlast]
    simp
  have hone : '1'.isDigit = true := rfl
  have htwo : '2'.isDigit = true := rfl
  rw [hparts, RegExp.expand_plain hhttp, RegExp.expand, if_pos hone,
    RegExp.expand_plain hmiddle, RegExp.expand, if_pos htwo, RegExp.expand]
  simp

/-- What a URL is redirected to has the two captures. -/
theorem expand_regexSubstitution (hd : d ∈ DOMAINS) (captured : ℕ → Str) :
    RegExp.expand captured (regexSubstitution d.origin port) =
      redirected d (captured 1) port (captured 2) := by
  have hhttp : ∀ c ∈ "http://".toList, c ≠ '\\' := by decide
  calc
    RegExp.expand captured (regexSubstitution d.origin port) = RegExp.expand captured
        ("http://\\1.".toList ++ (d.origin ++ ':' :: Str.ofNat port) ++ "/\\2".toList) :=
      congrArg (fun s => RegExp.expand captured (s ++ "/\\2".toList)) (List.append_assoc _ _ _)
    _ = "http://".toList ++ captured 1 ++ '.' :: (d.origin ++ ':' :: Str.ofNat port) ++
        '/' :: captured 2 :=
      expand_captures hhttp (middle_plain hd port) (by decide) (by decide)
    _ = redirected d (captured 1) port (captured 2) :=
      congrArg (· ++ '/' :: captured 2) (List.append_assoc _ ('.' :: d.origin) _).symm

/-- The label is put under the origin of the domain, and the rest is kept. -/
theorem redirect_ruleFor (hd : d ∈ DOMAINS) (hurl : Normalised url authority rest)
    (h : (ruleFor port index d).redirect url = some result) :
    ∃ label, Names d authority label ∧ result = redirected d label port rest := by
  rw [Rule.redirect, ruleFor] at h
  simp only [parse_regexFilter d hd] at h
  obtain ⟨t, ht, rfl⟩ := RegExp.replace_seq_start h
  obtain ⟨label, hlabel, rfl⟩ := (mem_run_url hd hurl).mp ht
  refine ⟨label, hlabel, ?_⟩
  rw [expand_regexSubstitution hd]
  exact List.append_nil _

theorem isSome_redirect : (rule.redirect url).isSome = rule.test url := by
  rw [Rule.redirect, Rule.test]
  split
  · rfl
  · exact RegExp.isSome_replace

/-- Names and origins differ in their first eight characters. -/
theorem length_name : ∀ d ∈ DOMAINS, 8 ≤ d.name.length := by
  decide

theorem length_origin : ∀ d ∈ DOMAINS, 8 ≤ d.origin.length := by
  decide

theorem names_differ : ∀ d ∈ DOMAINS, ∀ d' ∈ DOMAINS, d.name.take 8 = d'.name.take 8 → d = d' := by
  decide +kernel

theorem origins_differ : ∀ d ∈ DOMAINS, ∀ d' ∈ DOMAINS, d.origin.take 8 ≠ d'.name.take 8 := by
  decide +kernel

theorem take_eight {a b c d : Str} (h : a ++ c = b ++ d) (ha : 8 ≤ a.length) (hb : 8 ≤ b.length) :
    a.take 8 = b.take 8 := by
  rw [← List.take_append_of_le_length ha, h, List.take_append_of_le_length hb]

/-- The label of an authority is what is before its first dot. -/
theorem Names.cut {tail : Str} (hlabel : SingleLabel label)
    (h : Names d (label ++ '.' :: tail) label') :
    label = label' ∧ ∃ port, tail = d.name ++ port := by
  obtain ⟨hlabel', port, -, heq⟩ := h
  rw [List.append_assoc, List.cons_append] at heq
  have hsplit := Str.splitOnce_eq_some.mpr ⟨heq, hlabel'.not_mem_dot⟩
  rw [Str.splitOnce_eq_some.mpr ⟨rfl, hlabel.not_mem_dot⟩] at hsplit
  obtain ⟨rfl, htail⟩ := Prod.mk.inj (Option.some.inj hsplit)
  exact ⟨rfl, port, htail⟩

/-- The rule of one domain at most is for an authority, and one label. -/
theorem Names.inj (hd : d ∈ DOMAINS) (hd' : d' ∈ DOMAINS) (h : Names d authority label)
    (h' : Names d' authority label') : d = d' ∧ label = label' := by
  obtain ⟨hlabel, port, -, rfl⟩ := h
  rw [List.append_assoc, List.cons_append] at h'
  obtain ⟨rfl, port', hname⟩ := h'.cut hlabel
  exact ⟨names_differ d hd d' hd' (take_eight hname (length_name d hd) (length_name d' hd')), rfl⟩

/-- No label of the gateway's origins is one of a domain. -/
theorem not_names_origin (hd : d ∈ DOMAINS) (hd' : d' ∈ DOMAINS) (hlabel : SingleLabel label)
    (a : Str) : ¬ Names d' (label ++ '.' :: d.origin ++ a) label' := by
  intro h
  rw [List.append_assoc, List.cons_append] at h
  obtain ⟨-, port', hname⟩ := h.cut hlabel
  exact origins_differ d hd d' hd' (take_eight hname (length_origin d hd) (length_name d' hd'))

theorem isDigit_plain {c : Char} (h : c.isDigit = true) :
    c ≠ '/' ∧ RegExp.isLineTerminator c = false := by
  refine ⟨fun heq => absurd (heq ▸ h) (by decide), ?_⟩
  have hrange := Str.toNat_of_isDigit h
  simp only [RegExp.isLineTerminator, Bool.or_eq_false_iff, beq_eq_false_iff_ne]
  omega

theorem origin_lines : ∀ d ∈ DOMAINS, ∀ c ∈ d.origin,
    c ≠ '/' ∧ RegExp.isLineTerminator c = false := by
  decide

theorem redirected_eq : redirected d label port rest =
    "http://".toList ++ (label ++ '.' :: d.origin ++ ':' :: Str.ofNat port) ++ '/' :: rest := by
  have hassoc : ∀ a b c d e : Str, a ++ b ++ c ++ d ++ e = a ++ (b ++ c ++ d) ++ e := by simp
  exact hassoc _ _ _ _ _

/-- A URL that is redirected to is normalised. -/
theorem normalised_redirected (hd : d ∈ DOMAINS) (hurl : Normalised url authority rest)
    (hlabel : Names d authority label) : Normalised (redirected d label port rest)
      (label ++ '.' :: d.origin ++ ':' :: Str.ofNat port) rest := by
  obtain ⟨s, -, hparts⟩ := hurl.parts
  obtain ⟨hsingle, port', -, rfl⟩ := hlabel
  have hhttp : "http://".toList = "http".toList ++ [] ++ "://".toList := by decide
  have hhttp' : ∀ c ∈ "http://".toList, RegExp.isLineTerminator c = false := by decide
  refine ⟨⟨[], .inl rfl, ?_⟩, ?_, fun c hc => ?_⟩
  · rw [redirected_eq]
    exact congrArg (· ++ (label ++ '.' :: d.origin ++ ':' :: Str.ofNat port) ++ '/' :: rest) hhttp
  · simp only [List.mem_append, List.mem_cons, not_or]
    refine ⟨⟨hsingle.not_mem_slash, by decide, fun h => (origin_lines d hd _ h).1 rfl⟩, by decide,
      fun h => (isDigit_plain (Str.isDigit_of_mem_ofNat h)).1 rfl⟩
  · rw [redirected_eq, List.mem_append, List.mem_append] at hc
    have hlines : ∀ c, c ∈ label ∨ c ∈ rest → RegExp.isLineTerminator c = false := by
      rintro c (hc | hc) <;> refine hurl.lines c ?_ <;> rw [hparts]
      · exact List.mem_append_left _ (List.mem_append_right _
          (List.mem_append_left _ (List.mem_append_left _ hc)))
      · exact List.mem_append_right _ (List.mem_cons_of_mem _ hc)
    rcases hc with (hc | hc) | hc
    · exact hhttp' c hc
    · simp only [List.mem_append, List.mem_cons] at hc
      rcases hc with (hc | rfl | hc) | rfl | hc
      · exact hlines c (.inl hc)
      · decide
      · exact (origin_lines d hd c hc).2
      · decide
      · exact (isDigit_plain (Str.isDigit_of_mem_ofNat hc)).2
    · rcases List.mem_cons.mp hc with rfl | hc
      · decide
      · exact hlines c (.inr hc)

/-- The rule of a domain redirects what the domain names, and nothing else is redirected. -/
theorem redirect_eq_some (hurl : Normalised url authority rest) :
    redirect (DOMAINS.mapIdx (ruleFor port)) url = some result ↔
      ∃ d ∈ DOMAINS, ∃ label, Names d authority label ∧ result = redirected d label port rest := by
  have hresult : ∀ result, redirect (DOMAINS.mapIdx (ruleFor port)) url = some result →
      ∃ d ∈ DOMAINS, ∃ label, Names d authority label ∧ result = redirected d label port rest := by
    intro result h
    obtain ⟨rule, hrule, hredirect⟩ := List.exists_of_findSome?_eq_some h
    obtain ⟨index, hindex, rfl⟩ := mem_rules.mp (List.mem_mergeSort.mp hrule)
    obtain ⟨label, hlabel, rfl⟩ := redirect_ruleFor (List.getElem_mem hindex) hurl hredirect
    exact ⟨_, List.getElem_mem hindex, label, hlabel, rfl⟩
  refine ⟨hresult result, ?_⟩
  rintro ⟨d, hd, label, hlabel, rfl⟩
  obtain ⟨index, hindex, rfl⟩ := List.mem_iff_getElem.mp hd
  have htest : ((ruleFor port index DOMAINS[index]).redirect url).isSome = true := by
    rw [isSome_redirect, test_ruleFor hd hurl]
    exact ⟨label, hlabel⟩
  have hsome : (redirect (DOMAINS.mapIdx (ruleFor port)) url).isSome = true := by
    rw [redirect, List.isSome_findSome?, List.any_eq_true]
    exact ⟨_, List.mem_mergeSort.mpr (mem_rules.mpr ⟨index, hindex, rfl⟩), htest⟩
  -- some rule redirects it; as there is only one for it, it is this one
  obtain ⟨result, hredirect⟩ := Option.isSome_iff_exists.mp hsome
  obtain ⟨d', hd', label', hlabel', rfl⟩ := hresult result hredirect
  obtain ⟨rfl, rfl⟩ := hlabel.inj hd hd' hlabel'
  exact hredirect

/-- The rules are for what a domain names. -/
theorem exists_test_iff (hurl : Normalised url authority rest) :
    (∃ rule ∈ DOMAINS.mapIdx (ruleFor port), rule.test url = true) ↔
      ∃ d ∈ DOMAINS, ∃ label, Names d authority label := by
  constructor
  · rintro ⟨rule, hrule, htest⟩
    obtain ⟨index, hindex, rfl⟩ := mem_rules.mp hrule
    exact ⟨_, List.getElem_mem hindex, (test_ruleFor (List.getElem_mem hindex) hurl).mp htest⟩
  · rintro ⟨d, hd, hlabel⟩
    obtain ⟨index, hindex, rfl⟩ := List.mem_iff_getElem.mp hd
    exact ⟨_, mem_rules.mpr ⟨index, hindex, rfl⟩, (test_ruleFor hd hurl).mpr hlabel⟩

theorem nodup_domains : DOMAINS.Nodup := by
  decide +kernel

/-- One rule at most is for a URL. -/
theorem test_unique (hurl : Normalised url authority rest)
    (hrule : rule ∈ DOMAINS.mapIdx (ruleFor port)) (hrule' : rule' ∈ DOMAINS.mapIdx (ruleFor port))
    (htest : rule.test url = true) (htest' : rule'.test url = true) : rule = rule' := by
  obtain ⟨index, hindex, rfl⟩ := mem_rules.mp hrule
  obtain ⟨index', hindex', rfl⟩ := mem_rules.mp hrule'
  obtain ⟨label, hlabel⟩ := (test_ruleFor (List.getElem_mem hindex) hurl).mp htest
  obtain ⟨label', hlabel'⟩ := (test_ruleFor (List.getElem_mem hindex') hurl).mp htest'
  have hsame := (hlabel.inj (List.getElem_mem hindex) (List.getElem_mem hindex') hlabel').1
  obtain rfl : index = index' := (nodup_domains.getElem_inj_iff).mp hsame
  rfl

/-- No rule is for a URL of the gateway. -/
theorem test_redirected (hd : d ∈ DOMAINS) (hurl : Normalised url authority rest)
    (hlabel : Names d authority label) (hrule : rule ∈ DOMAINS.mapIdx (ruleFor port)) :
    rule.test (redirected d label port rest) = false := by
  rw [← Bool.not_eq_true]
  intro htest
  obtain ⟨d', hd', label', hlabel'⟩ := (exists_test_iff
    (normalised_redirected hd hurl hlabel)).mp ⟨rule, hrule, htest⟩
  exact not_names_origin hd hd' hlabel.1 _ hlabel'

end Rules

end ExtensionRules

end ContentDiscovery
