import ContentDiscovery.PkarrCache
import ContentDiscovery.Z32

/-!
# Pkarr names

What `PkarrPublisher::set_https` of `iroh-mainline-endpoint-discovery/src/pkarr.rs`
publishes under a key, and what the gateway makes of it: `target` and `content_hash` of
`iroh-link-gateway/src/pkarr_redirect.rs`. Both sides test names with `is_hostname`.
-/

namespace ContentDiscovery

open Dns

/-- `BLAKE3_DOMAIN`: the domain under which a BLAKE3 hash names content. -/
def BLAKE3_DOMAIN : Str := "blake3.net".toList

/-- `TTL`: time to live of published records, in seconds. -/
def PKARR_TTL : UInt32 := 300

/-- A name without the dot of the root. -/
def withoutRoot (name : Str) : Str := (Str.stripSuffix ['.'] name).getD name

/-- A label of a hostname. -/
def isLabel (label : Str) : Bool :=
  label ≠ [] && (Str.bytes label).length ≤ 63 && label.head? ≠ some '-' &&
    label.getLast? ≠ some '-' &&
      (Str.bytes label).all fun byte => Str.isAsciiAlphanumeric byte || byte == 45

/-- `is_hostname`. -/
def isHostname (value : Str) : Bool :=
  (Str.bytes (withoutRoot value)).length ≤ 253 && (withoutRoot value).contains '.' &&
    ((withoutRoot value).splitOn '.').all isLabel

variable {Name : Type}

section Publisher

/-- Why a packet is not published. -/
inductive PkarrError where
  | message (text : Str)
  /-- an error of the DNS crate -/
  | dns
  deriving DecidableEq

variable (dns : Dns Name) (z : Z32)

/-- `pkarr_name`. -/
def pkarrName (publicKey : PkarrKey) : Str := z.encode publicKey.toList

/-- The packet of `set_raw`. -/
def setRaw (packet : Dns.Packet Name) : Except PkarrError (List UInt8) :=
  match dns.build packet with
  | none => .error .dns
  | some bytes =>
    if bytes.length ≤ 1000 then .ok bytes
    else .error (.message "DNS packet exceeds the BEP44 size limit".toList)

/-- The owner of the record for a label. -/
def ownerOf (key : PkarrKey) (name : Str) : Str :=
  if name = [] ∨ name = ['@'] then pkarrName z key else name ++ '.' :: pkarrName z key

/-- `set_https`, up to the packet. -/
def setHttps (key : PkarrKey) (name target : Str) : Except PkarrError (List UInt8) :=
  if isHostname target then
    match dns.newName (ownerOf z key name) with
    | none => .error .dns
    | some record =>
      match dns.newName target with
      | none => .error .dns
      | some target => setRaw dns ⟨[⟨record, .IN, PKARR_TTL, .HTTPS ⟨0, target, []⟩⟩]⟩
  else .error (.message "target must be a hostname, without a scheme, port, or path".toList)

/-- The name of a hash, `{hash}.blake3.net`. -/
def blake3Name (hash : Vector UInt8 32) : Str := z.encode hash.toList ++ '.' :: BLAKE3_DOMAIN

/-- `set_blake3`, up to the packet. -/
def setBlake3 (key : PkarrKey) (hash : Vector UInt8 32) : Except PkarrError (List UInt8) :=
  setHttps dns z key [] (blake3Name z hash)

end Publisher

section Gateway

/-- `parse_hash`. -/
def parseHash (z : Z32) (value : Str) : Option (Vector UInt8 32) := parseZ32Bytes z value

/-- `content_hash`. -/
def contentHash (z : Z32) (authority : Str) : Option (Vector UInt8 32) :=
  match Str.stripSuffix BLAKE3_DOMAIN authority with
  | none => none
  | some rest =>
    match Str.stripSuffix ['.'] rest with
    | none => none
    | some label => parseHash z label

/-- What the parameters of a record add to its target. -/
def pushParams (target : Str) : List SVCParam → Option Str
  | [] => some target
  | .mandatory :: _ => none
  | .noDefaultAlpn :: _ => none
  | .port port :: params =>
    if port = 0 then none
    else if port ≠ 443 then pushParams (target ++ ':' :: Str.ofNat port.toNat) params
    else pushParams target params
  | .other :: params => pushParams target params

variable (toStr : Name → Str)

/-- `authority`. -/
def authority (svcb : SVCB Name) : Option Str :=
  let name := Str.trimEndMatches '.' (toStr svcb.target)
  if isHostname name then
    if svcb.priority ≠ 0 then pushParams name svcb.params else some name
  else none

/-- The record of an answer that `key` asks for, by its priority and target. -/
def candidate (key : Str) (record : ResourceRecord Name) : Option (UInt16 × Str) :=
  if record.recordClass = .IN ∧ Str.eqIgnoreAsciiCase (toStr record.name) key then
    match record.rdata with
    | .HTTPS svcb => (authority toStr svcb).map fun target => (svcb.priority, target)
    | _ => none
  else none

/-- `Iterator::min` of pairs. -/
def least (l : List (UInt16 × Str)) : Option (UInt16 × Str) :=
  l.foldl (fun best a =>
    match best with
    | none => some a
    | some b => if a.1 < b.1 ∨ a.1 = b.1 ∧ a.2 < b.2 then some a else some b) none

/-- `target`. -/
def target (packet : Dns.Packet Name) (key : Str) : Option Str :=
  (least (packet.answers.filterMap (candidate toStr key))).map Prod.snd

end Gateway

section Laws

/-- A name without escapes: labels of letters, digits and hyphens. -/
def IsPlain (name : Str) : Prop :=
  ∀ label ∈ (withoutRoot name).splitOn '.',
    label ≠ [] ∧ ∀ byte ∈ Str.bytes label, Str.isAsciiAlphanumeric byte ∨ byte = 45

/-- What is relied on of the DNS crate: plain names are shown as they were given, up to the
dot of the root, and a packet that is written is read back with names shown the same. -/
structure Dns.Lawful (dns : Dns Name) : Prop where
  toStr_newName : ∀ s name, IsPlain s → dns.newName s = some name →
    dns.toStr name = s ∨ dns.toStr name ++ ['.'] = s
  parse_build : ∀ packet bytes, dns.build packet = some bytes →
    ∃ packet', dns.parse bytes = some packet' ∧ packet'.map dns.toStr = packet.map dns.toStr

end Laws

section Hostname

variable {name s : Str}

/-- A name ends with the dot of the root, or it is kept. -/
theorem withoutRoot_cases (name : Str) :
    withoutRoot name ++ ['.'] = name ∨ withoutRoot name = name ∧ ∀ a, a ++ ['.'] ≠ name := by
  rw [withoutRoot]
  cases h : Str.stripSuffix ['.'] name with
  | some a =>
    left
    exact Str.stripSuffix_eq_some.mp h
  | none =>
    right
    refine ⟨rfl, fun a ha => ?_⟩
    rw [Str.stripSuffix_eq_some.mpr ha] at h
    cases h

/-- Nothing but a nonempty label is at the end. -/
theorem no_dot_at_end (h : ∀ label ∈ s.splitOn '.', label ≠ []) : ∀ a, a ++ ['.'] ≠ s := by
  rintro a rfl
  refine h [] ?_ rfl
  rw [List.splitOn_append_cons_self]
  simp

theorem withoutRoot_self (h : ∀ a, a ++ ['.'] ≠ s) : withoutRoot s = s := by
  obtain hdot | ⟨hself, -⟩ := withoutRoot_cases s
  · exact absurd hdot (h _)
  · exact hself

theorem trimEndMatches_self (h : ∀ a, a ++ ['.'] ≠ s) : Str.trimEndMatches '.' s = s := by
  rw [Str.trimEndMatches, List.rdropWhile_eq_self_iff]
  intro hne hlast
  apply h s.dropLast
  rw [decide_eq_true_eq] at hlast
  rw [← hlast, List.dropLast_concat_getLast hne]

theorem trimEndMatches_dot (h : ∀ a, a ++ ['.'] ≠ s) :
    Str.trimEndMatches '.' (s ++ ['.']) = s := by
  rw [Str.trimEndMatches, List.rdropWhile_concat_pos _ _ _ (by simp)]
  exact trimEndMatches_self h

theorem isLabel_ne_nil (h : isLabel s) : s ≠ [] := by
  simp only [isLabel, Bool.and_eq_true, decide_eq_true_eq] at h
  exact h.1.1.1.1

theorem isLabel_bytes (h : isLabel s) :
    ∀ byte ∈ Str.bytes s, Str.isAsciiAlphanumeric byte ∨ byte = 45 := by
  intro byte hbyte
  simp only [isLabel, Bool.and_eq_true, List.all_eq_true] at h
  simpa using h.2 byte hbyte

theorem isHostname_labels (h : isHostname name) :
    ∀ label ∈ (withoutRoot name).splitOn '.', isLabel label := by
  simp only [isHostname, Bool.and_eq_true, List.all_eq_true] at h
  exact h.2

theorem isHostname_plain (h : isHostname name) : IsPlain name := by
  intro label hlabel
  have hlabel := isHostname_labels h label hlabel
  exact ⟨isLabel_ne_nil hlabel, isLabel_bytes hlabel⟩

/-- The dot of the root stands alone. -/
theorem isHostname_no_dot (h : isHostname name) : ∀ a, a ++ ['.'] ≠ withoutRoot name :=
  no_dot_at_end fun label hlabel => isLabel_ne_nil (isHostname_labels h label hlabel)

/-- The dot of the root does not matter. -/
theorem isHostname_withoutRoot (h : isHostname name) : isHostname (withoutRoot name) := by
  rw [isHostname, withoutRoot_self (isHostname_no_dot h)]
  exact h

/-- However a name is shown, it is trimmed the same way. -/
theorem trimEndMatches_shown {shown : Str} (h : isHostname name)
    (hshown : shown = name ∨ shown ++ ['.'] = name) :
    Str.trimEndMatches '.' shown = withoutRoot name := by
  have hdot := isHostname_no_dot h
  obtain hroot | ⟨hself, hno⟩ := withoutRoot_cases name
  · obtain rfl | hshown := hshown
    · rw [← trimEndMatches_dot hdot, hroot]
    · rw [List.append_cancel_right (hshown.trans hroot.symm)]
      exact trimEndMatches_self hdot
  · obtain rfl | hshown := hshown
    · rw [hself]
      exact trimEndMatches_self hno
    · exact absurd hshown (hno _)

end Hostname

section Encoded

variable {z : Z32} {key hash : Vector UInt8 32}

/-- The characters of the encoding are letters and digits. -/
theorem alphabet_bytes : ∀ c ∈ Z32.alphabet,
    (String.utf8EncodeChar c).all (Str.isAsciiAlphanumeric ·) ∧ c ≠ '.' ∧ c ≠ '-' := by
  have hall : Z32.alphabet.all fun c =>
      (String.utf8EncodeChar c).all (Str.isAsciiAlphanumeric ·) ∧ c ≠ '.' ∧ c ≠ '-' := by
    decide +kernel
  intro c hc
  exact of_decide_eq_true (List.all_eq_true.mp hall c hc)

theorem encode_bytes {s : Str} (h : ∀ c ∈ s, c ∈ Z32.alphabet) :
    ∀ byte ∈ Str.bytes s, Str.isAsciiAlphanumeric byte := by
  intro byte hbyte
  obtain ⟨c, hc, hbyte⟩ := List.mem_flatMap.mp hbyte
  exact List.all_eq_true.mp (alphabet_bytes c (h c hc)).1 byte hbyte

/-- A name of 52 such characters is a label. -/
theorem isLabel_encode {s : Str} (hlength : s.length = 52) (h : ∀ c ∈ s, c ∈ Z32.alphabet) :
    isLabel s := by
  have hhyphen : '-' ∉ s := fun hmem => (alphabet_bytes '-' (h _ hmem)).2.2 rfl
  simp only [isLabel, Bool.and_eq_true, decide_eq_true_eq, List.all_eq_true, Bool.or_eq_true]
  refine ⟨⟨⟨⟨?_, ?_⟩, ?_⟩, ?_⟩, ?_⟩
  · rintro rfl
    cases hlength
  · rw [Z32.length_bytes h, hlength]
    decide
  · intro hhead
    exact hhyphen (List.mem_of_head? hhead)
  · intro hlast
    exact hhyphen (List.mem_of_getLast? hlast)
  · intro byte hbyte
    exact .inl (encode_bytes h byte hbyte)

theorem encode_no_dot {s : Str} (h : ∀ c ∈ s, c ∈ Z32.alphabet) : '.' ∉ s :=
  fun hmem => (alphabet_bytes '.' (h _ hmem)).2.1 rfl

theorem blake3Name_no_dot_at_end : ∀ a, a ++ ['.'] ≠ blake3Name z hash := by
  intro a ha
  have hlast := congrArg List.getLast? ha
  rw [List.getLast?_concat, blake3Name, List.getLast?_append_cons] at hlast
  exact absurd hlast (by decide)

variable (hz : z.Lawful)
include hz

theorem pkarrName_mem : ∀ c ∈ pkarrName z key, c ∈ Z32.alphabet :=
  hz.mem_alphabet _ key.length_toList

theorem pkarrName_length : (Str.bytes (pkarrName z key)).length = 52 :=
  (Z32.length_bytes (pkarrName_mem hz)).trans (hz.length_encode _ key.length_toList)

theorem pkarrName_isLabel : isLabel (pkarrName z key) :=
  isLabel_encode (hz.length_encode _ key.length_toList) (pkarrName_mem hz)

theorem pkarrName_no_dot_at_end : ∀ a, a ++ ['.'] ≠ pkarrName z key := by
  intro a ha
  have hdot : '.' ∉ pkarrName z key := encode_no_dot (pkarrName_mem hz)
  apply hdot
  rw [← ha]
  simp

theorem pkarrName_plain : IsPlain (pkarrName z key) := by
  have hdot : '.' ∉ pkarrName z key := encode_no_dot (pkarrName_mem hz)
  rw [IsPlain, withoutRoot_self (pkarrName_no_dot_at_end hz), List.splitOn_eq_singleton hdot]
  intro label hlabel
  obtain rfl := List.mem_singleton.mp hlabel
  exact ⟨isLabel_ne_nil (pkarrName_isLabel hz), isLabel_bytes (pkarrName_isLabel hz)⟩

/-- The name of a hash is a hostname. -/
theorem blake3Name_isHostname : isHostname (blake3Name z hash) := by
  have hmem := hz.mem_alphabet _ hash.length_toList
  have hlength := hz.length_encode _ hash.length_toList
  rw [isHostname, withoutRoot_self blake3Name_no_dot_at_end]
  simp only [Bool.and_eq_true, decide_eq_true_eq]
  refine ⟨⟨?_, ?_⟩, ?_⟩
  · rw [blake3Name, Str.bytes_append, List.length_append, Z32.length_bytes hmem, hlength]
    decide
  · rw [blake3Name]
    simp
  · rw [blake3Name, List.splitOn_append_cons_self_of_not_mem (encode_no_dot hmem),
      List.all_cons, isLabel_encode hlength hmem]
    decide

/-- The name of a hash is recognised as this hash. -/
theorem contentHash_blake3Name : contentHash z (blake3Name z hash) = some hash := by
  have hrest : Str.stripSuffix BLAKE3_DOMAIN (blake3Name z hash)
      = some (z.encode hash.toList ++ ['.']) := by
    rw [Str.stripSuffix_eq_some, blake3Name, List.append_assoc, List.singleton_append]
  have hlabel : Str.stripSuffix ['.'] (z.encode hash.toList ++ ['.'])
      = some (z.encode hash.toList) := Str.stripSuffix_eq_some.mpr rfl
  rw [contentHash, hrest]
  simp only [hlabel]
  exact hz.parse_encode

end Encoded

section Agreement

variable {dns : Dns Name} {z : Z32} {key : PkarrKey} {name host : Str} {bytes : List UInt8}

/-- What is published is a single alias. -/
theorem setHttps_ok (h : setHttps dns z key name host = .ok bytes) :
    isHostname host ∧ ∃ record dest, dns.newName (ownerOf z key name) = some record ∧
      dns.newName host = some dest ∧
        dns.build ⟨[⟨record, .IN, PKARR_TTL, .HTTPS ⟨0, dest, []⟩⟩]⟩ = some bytes := by
  rw [setHttps] at h
  split at h
  · rename_i hhost
    split at h
    · cases h
    · rename_i record hrecord
      split at h
      · cases h
      · rename_i dest hdest
        rw [setRaw] at h
        split at h
        · cases h
        · rename_i packet hpacket
          split at h
          · obtain rfl := Except.ok.inj h
            exact ⟨hhost, record, dest, hrecord, hdest, hpacket⟩
          · cases h
  · cases h

theorem candidate_map {Name' : Type} (toStr : Name' → Str) (f : Name → Name') (key : Str)
    (record : ResourceRecord Name) :
    candidate toStr key (record.map f) = candidate (toStr ∘ f) key record := by
  cases record with
  | mk name recordClass ttl rdata => cases rdata <;> rfl

/-- The target is decided by the names as they are shown. -/
theorem target_map {Name' : Type} (toStr : Name' → Str) (f : Name → Name')
    (packet : Dns.Packet Name) (key : Str) :
    target toStr (packet.map f) key = target (toStr ∘ f) packet key := by
  simp only [target, Dns.Packet.map, List.filterMap_map]
  congr 2
  exact List.filterMap_congr fun record _ => candidate_map toStr f key record

/-- The target of a single alias. -/
theorem target_alias {toStr : Name → Str} {record dest : Name} {ttl : UInt32}
    (hrecord : toStr record = name) (hdest : Str.trimEndMatches '.' (toStr dest) = host)
    (hhost : isHostname host) :
    target toStr ⟨[⟨record, .IN, ttl, .HTTPS ⟨0, dest, []⟩⟩]⟩ name = some host := by
  simp [target, candidate, authority, hrecord, hdest, hhost, Str.eqIgnoreAsciiCase, least]

/-- What is published for the apex is the target that the gateway reads. -/
theorem setHttps_target (hz : z.Lawful) (hdns : Dns.Lawful dns) (hname : name = [] ∨ name = ['@'])
    (h : setHttps dns z key name host = .ok bytes) :
    ∃ packet, dns.parse bytes = some packet ∧
      target dns.toStr packet (pkarrName z key) = some (withoutRoot host) := by
  obtain ⟨hhost, record, dest, hrecord, hdest, hbuild⟩ := setHttps_ok h
  obtain ⟨packet, hparse, hmap⟩ := hdns.parse_build _ _ hbuild
  rw [ownerOf, if_pos hname] at hrecord
  have hshown : dns.toStr record = pkarrName z key := by
    obtain hself | hdot := hdns.toStr_newName _ _ (pkarrName_plain hz) hrecord
    · exact hself
    · exact absurd hdot (pkarrName_no_dot_at_end hz _)
  have htrim := trimEndMatches_shown hhost
    (hdns.toStr_newName _ _ (isHostname_plain hhost) hdest)
  refine ⟨packet, hparse, ?_⟩
  calc
    target dns.toStr packet (pkarrName z key)
      = target id (packet.map dns.toStr) (pkarrName z key) :=
        (target_map id dns.toStr packet _).symm
    _ = target dns.toStr ⟨[⟨record, .IN, PKARR_TTL, .HTTPS ⟨0, dest, []⟩⟩]⟩ (pkarrName z key) := by
      rw [hmap, target_map, Function.id_comp]
    _ = some (withoutRoot host) := target_alias hshown htrim (isHostname_withoutRoot hhost)

/-- Parameters add nothing but ports. -/
theorem pushParams_eq_some {params : List SVCParam} {served : Str}
    (h : pushParams host params = some served) :
    ∃ ports, served = host ++ ports ∧ (ports = [] ∨ ports.head? = some ':') := by
  induction params generalizing host with
  | nil =>
    obtain rfl := Option.some.inj h
    exact ⟨[], by simp⟩
  | cons param params ih =>
    cases param with
    | mandatory => cases h
    | noDefaultAlpn => cases h
    | other => exact ih h
    | port port =>
      rw [pushParams] at h
      split at h
      · cases h
      · split at h
        · obtain ⟨ports, rfl, -⟩ := ih h
          exact ⟨':' :: Str.ofNat port.toNat ++ ports, by simp, .inr rfl⟩
        · exact ih h

/-- A name is only served if it is a hostname. -/
theorem authority_isHostname {toStr : Name → Str} {svcb : SVCB Name} {served : Str}
    (h : authority toStr svcb = some served) :
    ∃ name ports, served = name ++ ports ∧ isHostname name ∧
      (ports = [] ∨ svcb.priority ≠ 0 ∧ ports.head? = some ':') := by
  simp only [authority] at h
  split at h
  · rename_i hname
    split at h
    · rename_i hpriority
      obtain ⟨ports, rfl, hports⟩ := pushParams_eq_some h
      exact ⟨_, ports, rfl, hname, hports.imp_right fun hhead => ⟨hpriority, hhead⟩⟩
    · obtain rfl := Option.some.inj h
      exact ⟨_, [], by simp, hname, .inl rfl⟩
  · cases h

/-- The gateway reads the target that was published for the apex, without the dot of the
root; it recognises the target of a hash as this hash; and it serves no name that is not a
hostname for the publisher. -/
theorem names_agree (hz : z.Lawful) (hdns : Dns.Lawful dns) :
    (∀ key name host bytes, name = [] ∨ name = ['@'] →
        setHttps dns z key name host = .ok bytes →
          ∃ packet, dns.parse bytes = some packet ∧
            target dns.toStr packet (pkarrName z key) = some (withoutRoot host)) ∧
      (∀ hash, isHostname (blake3Name z hash) ∧ contentHash z (blake3Name z hash) = some hash) ∧
      (∀ key hash bytes, setBlake3 dns z key hash = .ok bytes →
        ∃ packet served, dns.parse bytes = some packet ∧
          target dns.toStr packet (pkarrName z key) = some served ∧
            contentHash z served = some hash) ∧
      ∀ svcb served, authority dns.toStr svcb = some served →
        ∃ name ports, served = name ++ ports ∧ isHostname name ∧
          (ports = [] ∨ svcb.priority ≠ 0 ∧ ports.head? = some ':') := by
  refine ⟨?_, ?_, ?_, ?_⟩
  · intro key name host bytes hname h
    exact setHttps_target hz hdns hname h
  · intro hash
    exact ⟨blake3Name_isHostname hz, contentHash_blake3Name hz⟩
  · intro key hash bytes h
    obtain ⟨packet, hparse, htarget⟩ := setHttps_target hz hdns (.inl rfl) h
    rw [withoutRoot_self blake3Name_no_dot_at_end] at htarget
    exact ⟨packet, _, hparse, htarget, contentHash_blake3Name hz⟩
  · intro svcb served h
    exact authority_isHostname h

end Agreement

namespace PkarrNames.Sample

open Z32 (standard)

def key : PkarrKey := .replicate 32 9

def hash : Vector UInt8 32 := .replicate 32 7

/-- The name of the key is an alias of `example.com`. -/
def packet : Dns.Packet Str :=
  ⟨[⟨pkarrName standard key, .IN, PKARR_TTL, .HTTPS ⟨0, "example.com".toList, []⟩⟩]⟩

/-- Its bytes. -/
def wire : List UInt8 :=
  [0, 0, 0x80, 0, 0, 0, 0, 1, 0, 0, 0, 0, 52] ++ Str.bytes (pkarrName standard key) ++
    [0, 0, 65, 0, 1, 0, 0, 1, 44, 0, 15, 0, 0, 7, 101, 120, 97, 109, 112, 108, 101, 3, 99, 111,
      109, 0]

/-- What the crate does with these names and this packet. -/
def dns : Dns Str where
  newName s := some (withoutRoot s)
  toStr := id
  parse bytes := if bytes = wire then some packet else none
  build p := if p = packet then some wire else none

theorem dns_lawful : Dns.Lawful dns where
  toStr_newName s name _ h := by
    obtain rfl := Option.some.inj h
    obtain hdot | ⟨hself, -⟩ := withoutRoot_cases s
    · exact .inr hdot
    · exact .inl hself
  parse_build p bytes h := by
    obtain ⟨rfl, hbytes⟩ := Option.ite_none_right_eq_some.mp h
    obtain rfl := Option.some.inj hbytes
    exact ⟨packet, by simp [dns], rfl⟩

/-- The packet is what is published for the key. -/
theorem setHttps_wire : setHttps dns standard key ['@'] "example.com.".toList = .ok wire := by
  have hlength : wire.length ≤ 1000 := by
    simp [wire, pkarrName_length Z32.standard_lawful]
  have hroot : withoutRoot "example.com.".toList = "example.com".toList := by decide
  rw [setHttps, if_pos (by decide), ownerOf, if_pos (.inr rfl)]
  simp only [dns, withoutRoot_self (pkarrName_no_dot_at_end Z32.standard_lawful), hroot]
  rw [setRaw]
  simp [packet, hlength]

end PkarrNames.Sample

open PkarrNames.Sample in
/-- A name that was set with the dot of the root is read without it. -/
theorem names_agree_sample : ∃ packet, dns.parse wire = some packet ∧
    target dns.toStr packet (pkarrName Z32.standard key) = some "example.com".toList := by
  obtain ⟨packet, hparse, htarget⟩ := (names_agree Z32.standard_lawful dns_lawful).1 key ['@']
    "example.com.".toList wire (.inr rfl) setHttps_wire
  have hroot : withoutRoot "example.com.".toList = "example.com".toList := by decide
  exact ⟨packet, hparse, hroot ▸ htarget⟩

end ContentDiscovery
