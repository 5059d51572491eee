import ContentDiscovery.Percent
import ContentDiscovery.ServeBlob

/-!
# Content-Disposition

The header that `attachment` of `iroh-link-gateway/src/lib.rs` writes, as its readers parse it:
a type and parameters, whose values are tokens or quoted strings (RFC 6266). Whatever the name
of the file, the header is a valid one, has a plain and an extended parameter, and the extended
one says the name (`attachment_faithful`).
-/

namespace ContentDiscovery

open Http

namespace ContentDisposition

/-- A value of a parameter. -/
inductive Value where
  /-- a token -/
  | token (text : Str)
  /-- the text between quotes -/
  | quoted (text : Str)
  deriving DecidableEq

/-- A parsed header: its type and its parameters. -/
structure Disposition where
  /-- the type -/
  kind : Str
  /-- the names and the values of the parameters -/
  parameters : List (Str × Value)
  deriving DecidableEq

/-- The characters of a token. -/
def isTokenChar (c : Char) : Bool := c.isAlphanum || c ∈ "!#$%&'*+-.^_`|~".toList

/-- What is between spaces. -/
def isSpace (c : Char) : Bool := c = ' ' || c = '\t'

/-- The rest of a quoted string: the text up to its end, and what follows. -/
def quoted : Str → Option (Str × Str)
  | [] => none
  | '"' :: s => some ([], s)
  | '\\' :: c :: s => (quoted s).map fun r => (c :: r.1, r.2)
  | c :: s => (quoted s).map fun r => (c :: r.1, r.2)

/-- The parameters, of which there are at most so many. -/
def parameters : ℕ → Str → Option (List (Str × Value))
  | _, [] => some []
  | n + 1, ';' :: s =>
    let s := s.dropWhile isSpace
    let name := s.takeWhile isTokenChar
    match s.dropWhile isTokenChar with
    | '=' :: '"' :: s =>
      (quoted s).bind fun r =>
        (parameters n (r.2.dropWhile isSpace)).map fun rest => (name, .quoted r.1) :: rest
    | '=' :: s =>
      if s.takeWhile isTokenChar = [] then none
      else
        (parameters n ((s.dropWhile isTokenChar).dropWhile isSpace)).map fun rest =>
          (name, .token (s.takeWhile isTokenChar)) :: rest
    | _ => none
  | _, _ => none

/-- A header. -/
def parse (s : Str) : Option Disposition :=
  (parameters s.length ((s.dropWhile isTokenChar).dropWhile isSpace)).map fun parameters =>
    ⟨s.takeWhile isTokenChar, parameters⟩

/-! ## Extended values -/

/-- `attr-char` of RFC 8187. -/
def isAttrChar (c : Char) : Bool := c.isAlphanum || c ∈ "!#$&+-.^_`|~".toList

def isHexDigit (c : Char) : Bool :=
  c.isDigit || ('A' ≤ c ∧ c ≤ 'F') || ('a' ≤ c ∧ c ≤ 'f')

/-- `value-chars` of RFC 8187: escapes and attribute characters. -/
def isValueChars : Str → Bool
  | [] => true
  | '%' :: h :: l :: s => isHexDigit h && isHexDigit l && isValueChars s
  | c :: s => isAttrChar c && isValueChars s

end ContentDisposition

open ContentDisposition

variable {filename s rest : Str} {c : Char}

/-- The encoder of the extended parameter, by what it escapes. -/
theorem percentEncode_eq (s : Str) :
    percentEncode s = Percent.encode (fun b => ! ATTR_CHAR b) s := by
  have hbyte : ∀ n < 256, (if ATTR_CHAR (.ofNat n) then [Char.ofNat (UInt8.ofNat n).toNat]
      else ['%', ((UInt8.ofNat n).toNat / 16).digitChar.toUpper,
        ((UInt8.ofNat n).toNat % 16).digitChar.toUpper])
      = Percent.encodeByte (fun b => ! ATTR_CHAR b) (.ofNat n) := by
    decide +kernel
  rw [percentEncode, Percent.encode]
  congr 1
  funext b
  have hb := hbyte b.toNat b.toNat_lt
  rwa [UInt8.ofNat_toNat] at hb

/-- A byte is written as an escape, or as the character that it is. -/
theorem isValueChars_encodeByte (b : UInt8) (s : Str) :
    isValueChars (Percent.encodeByte (fun b => ! ATTR_CHAR b) b ++ s) = isValueChars s := by
  have hhex : ∀ n < 16, isHexDigit (Percent.hexDigit n) = true := by decide
  have hattr : ∀ n < 256, ATTR_CHAR (.ofNat n) = true →
      isAttrChar (.ofNat n) = true ∧ Char.ofNat n ≠ '%' := by
    decide +kernel
  have hlt : b.toNat < 256 := b.toNat_lt
  rw [Percent.encodeByte]
  split
  · have hhigh := hhex (b.toNat / 16) (by omega)
    have hlow := hhex (b.toNat % 16) (by omega)
    simp only [List.cons_append, List.nil_append, isValueChars, hhigh, hlow, Bool.true_and]
  · rename_i hnot
    rw [not_or, Bool.not_eq_true, Bool.not_eq_false'] at hnot
    obtain ⟨hchar, hpercent⟩ := hattr b.toNat hlt (by rw [UInt8.ofNat_toNat]; exact hnot.2)
    rw [List.singleton_append, isValueChars, hchar, Bool.true_and]
    intro h l s' heq
    exact absurd heq hpercent

theorem isValueChars_percentEncode (s : Str) : isValueChars (percentEncode s) = true := by
  rw [percentEncode_eq, Percent.encode]
  induction Str.bytes s with
  | nil => rfl
  | cons b bs ih => rw [List.flatMap_cons, isValueChars_encodeByte, ih]

/-- An encoded name is a token. -/
theorem mem_percentEncode (h : c ∈ percentEncode s) :
    isTokenChar c = true ∧ 32 ≤ c.toNat ∧ c.toNat < 127 := by
  have hhex : ∀ n < 16, isTokenChar (Percent.hexDigit n) = true ∧
      32 ≤ (Percent.hexDigit n).toNat ∧ (Percent.hexDigit n).toNat < 127 := by
    decide
  have hattr : ∀ n < 256, ATTR_CHAR (.ofNat n) = true → isTokenChar (.ofNat n) = true ∧
      32 ≤ (Char.ofNat n).toNat ∧ (Char.ofNat n).toNat < 127 := by
    decide +kernel
  rw [percentEncode_eq] at h
  obtain rfl | ⟨n, hn, rfl⟩ | ⟨b, -, hb, rfl⟩ := Percent.mem_encode h
  · decide
  · exact hhex n hn
  · rw [Bool.not_eq_false'] at hb
    exact hattr b.toNat b.toNat_lt (by rw [UInt8.ofNat_toNat]; exact hb)

/-! ## The header -/

/-- The plain form of a name: what it has of other characters is replaced. -/
def asciiName (filename : Str) : Str :=
  filename.map fun c => if c.isAlphanum ∨ c ∈ ['.', '-', '_', ' '] then c else '_'

theorem attachment_eq (filename : Str) : attachment filename =
    "attachment; filename=\"".toList ++ (asciiName filename ++ '"' ::
      ("; filename*=UTF-8''".toList ++ percentEncode filename)) := by
  unfold attachment asciiName
  rw [List.append_assoc, List.append_assoc]
  rfl

theorem toNat_of_isAlphanum (h : c.isAlphanum = true) : 48 ≤ c.toNat ∧ c.toNat ≤ 122 := by
  change (decide (c.val ≥ 'A'.val ∧ c.val ≤ 'Z'.val) || (c.val ≥ 'a'.val && c.val ≤ 'z'.val) ||
    (c.val ≥ '0'.val && c.val ≤ '9'.val)) = true at h
  simp only [Bool.or_eq_true, Bool.and_eq_true, decide_eq_true_eq, ge_iff_le,
    UInt32.le_iff_toNat_le] at h
  change (65 ≤ c.toNat ∧ c.toNat ≤ 90 ∨ 97 ≤ c.toNat ∧ c.toNat ≤ 122) ∨
    48 ≤ c.toNat ∧ c.toNat ≤ 57 at h
  omega

/-- A plain name has nothing that would end it. -/
theorem mem_asciiName (h : c ∈ asciiName filename) :
    32 ≤ c.toNat ∧ c.toNat < 127 ∧ c ≠ '"' ∧ c ≠ '\\' := by
  obtain ⟨d, -, rfl⟩ := List.mem_map.mp h
  split
  · rename_i hd
    obtain hd | hd := hd
    · have hrange := toNat_of_isAlphanum hd
      refine ⟨by omega, by omega, ?_, ?_⟩
      · rintro rfl
        exact absurd hd (by decide)
      · rintro rfl
        exact absurd hd (by decide)
    · have hall : ∀ c ∈ ['.', '-', '_', ' '],
          32 ≤ c.toNat ∧ c.toNat < 127 ∧ c ≠ '"' ∧ c ≠ '\\' := by
        decide
      exact hall d hd
  · decide

/-- A text without quotes and backslashes is read up to its end. -/
theorem quoted_append (h : ∀ c ∈ s, c ≠ '"' ∧ c ≠ '\\') :
    quoted (s ++ '"' :: rest) = some (s, rest) := by
  induction s with
  | nil => rfl
  | cons c s ih =>
    rw [List.forall_mem_cons] at h
    rw [List.cons_append, quoted, ih h.2, Option.map_some]
    · exact h.1.1
    · intro d t heq
      exact absurd heq h.1.2

/-- The extended parameter is read as one token. -/
theorem parameters_extended (n : ℕ) :
    parameters (n + 1) ("; filename*=UTF-8''".toList ++ percentEncode filename)
      = some [("filename*".toList, .token ("UTF-8''".toList ++ percentEncode filename))] := by
  have htoken : ∀ c ∈ "UTF-8''".toList ++ percentEncode filename, isTokenChar c = true := by
    intro c hc
    obtain hc | hc := List.mem_append.mp hc
    · have hall : "UTF-8''".toList.all isTokenChar = true := by decide
      exact List.all_eq_true.mp hall c hc
    · exact (mem_percentEncode hc).1
  have htake := List.takeWhile_eq_self_iff.mpr htoken
  have hdrop := List.dropWhile_eq_nil_iff.mpr htoken
  have hstep : parameters (n + 1) ("; filename*=UTF-8''".toList ++ percentEncode filename)
      = if ("UTF-8''".toList ++ percentEncode filename).takeWhile isTokenChar = [] then none
        else (parameters n ((("UTF-8''".toList ++ percentEncode filename).dropWhile
          isTokenChar).dropWhile isSpace)).map fun rest => ("filename*".toList,
            .token (("UTF-8''".toList ++ percentEncode filename).takeWhile isTokenChar)) :: rest :=
    rfl
  have hend : parameters n [] = some [] := by cases n <;> rfl
  rw [hstep, htake, hdrop, if_neg (by simp), List.dropWhile_nil, hend]
  rfl

/-- The header has its two parameters. -/
theorem parse_attachment (filename : Str) : parse (attachment filename) = some
    ⟨"attachment".toList, [("filename".toList, .quoted (asciiName filename)),
      ("filename*".toList, .token ("UTF-8''".toList ++ percentEncode filename))]⟩ := by
  have hquoted : quoted (asciiName filename ++ '"' ::
      ("; filename*=UTF-8''".toList ++ percentEncode filename)) =
        some (asciiName filename, "; filename*=UTF-8''".toList ++ percentEncode filename) :=
    quoted_append fun c hc => (mem_asciiName hc).2.2
  obtain ⟨n, hn⟩ : ∃ n, (attachment filename).length = n + 2 := by
    rw [attachment_eq]
    exact ⟨_, rfl⟩
  have hstep : parse (attachment filename) = ((quoted (asciiName filename ++ '"' ::
        ("; filename*=UTF-8''".toList ++ percentEncode filename))).bind fun r =>
      (parameters (n + 1) (r.2.dropWhile isSpace)).map fun rest =>
        ("filename".toList, Value.quoted r.1) :: rest).map fun parameters =>
          ⟨"attachment".toList, parameters⟩ := by
    rw [parse, hn, attachment_eq]
    rfl
  have hspace : ("; filename*=UTF-8''".toList ++ percentEncode filename).dropWhile isSpace
      = "; filename*=UTF-8''".toList ++ percentEncode filename := rfl
  rw [hstep, hquoted, Option.bind_some, hspace, parameters_extended]
  rfl

theorem mem_attachment (h : c ∈ attachment filename) : 32 ≤ c.toNat ∧ c.toNat < 127 := by
  rw [attachment_eq, List.mem_append, List.mem_append, List.mem_cons, List.mem_append] at h
  have hall : ∀ c ∈ "attachment; filename=\"; filename*=UTF-8''".toList,
      32 ≤ c.toNat ∧ c.toNat < 127 := by
    decide
  obtain h | h | rfl | h | h := h
  · exact hall c (List.mem_append_left "; filename*=UTF-8''".toList h)
  · exact ⟨(mem_asciiName h).1, (mem_asciiName h).2.1⟩
  · decide
  · exact hall c (List.mem_append_right "attachment; filename=\"".toList h)
  · exact (mem_percentEncode h).2

/-- The bytes of the header are its characters. -/
theorem mem_bytes_attachment {b : UInt8} (h : b ∈ Str.bytes (attachment filename)) :
    32 ≤ b.toNat ∧ b.toNat < 127 := by
  rw [Str.bytes_ascii fun c hc => (mem_attachment hc).2.trans (by decide)] at h
  obtain ⟨c, hc, rfl⟩ := List.mem_map.mp h
  obtain ⟨hle, hlt⟩ := mem_attachment hc
  rw [UInt8.toNat_ofNat', Nat.mod_eq_of_lt (by omega)]
  exact ⟨hle, hlt⟩

/-- A name is saved as it is: the header is valid and printable, has a plain and an extended
parameter and no others, quotes nothing that ends the plain one, and the extended one is escapes
and attribute characters that decode to the name. -/
theorem attachment_faithful (filename : Str) :
    (∀ c ∈ attachment filename, 32 ≤ c.toNat ∧ c.toNat < 127) ∧
    HeaderValue.fromBytes (Str.bytes (attachment filename))
      = some (Str.bytes (attachment filename)) ∧
    ∃ ascii encoded,
      attachment filename = "attachment; filename=\"".toList ++ (ascii ++ '"' ::
        ("; filename*=UTF-8''".toList ++ encoded)) ∧
      parse (attachment filename) = some ⟨"attachment".toList,
        [("filename".toList, .quoted ascii),
          ("filename*".toList, .token ("UTF-8''".toList ++ encoded))]⟩ ∧
      '"' ∉ ascii ∧ '\\' ∉ ascii ∧ isValueChars encoded = true ∧
      Percent.decodeBytes (Str.bytes encoded) = Str.bytes filename := by
  refine ⟨fun c => mem_attachment, ?_, asciiName filename, percentEncode filename,
    attachment_eq filename, parse_attachment filename, fun h => (mem_asciiName h).2.2.1 rfl,
    fun h => (mem_asciiName h).2.2.2 rfl, isValueChars_percentEncode filename, ?_⟩
  · refine if_pos (List.all_eq_true.mpr fun b hb => ?_)
    obtain ⟨hle, hlt⟩ := mem_bytes_attachment hb
    have hvisible : 32 ≤ b ∧ b ≠ 127 := by
      refine ⟨UInt8.le_iff_toNat_le.mpr hle, ?_⟩
      rintro rfl
      exact absurd hlt (by decide)
    rw [Bool.or_eq_true, decide_eq_true_eq]
    exact .inl hvisible
  · rw [percentEncode_eq]
    exact Percent.decodeBytes_encode (by decide) filename

end ContentDiscovery
