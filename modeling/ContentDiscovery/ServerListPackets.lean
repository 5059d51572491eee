import ContentDiscovery.BigEndian
import ContentDiscovery.Collections
import ContentDiscovery.ServerList
import Mathlib.Algebra.Order.BigOperators.Group.List

/-!
# Packets of server lists

`ServerList::encode` and `ServerList::decode` of
`iroh-mainline-endpoint-discovery/src/server_list.rs`. Only the text records of the apex
that are not empty count: the list is decoded from them alone, and what is encoded decodes
to the same list.
-/

namespace ContentDiscovery

open Dns

namespace Ipv4Addr

/-- `Ipv4Addr::to_string`. -/
def toStr (ip : Ipv4Addr) : Str :=
  Str.ofNat ip.a.toNat ++ '.' :: (Str.ofNat ip.b.toNat ++ '.' ::
    (Str.ofNat ip.c.toNat ++ '.' :: Str.ofNat ip.d.toNat))

/-- An octet is written without leading zeros. -/
theorem parseOctet_ofNat (octet : UInt8) : parseOctet (Str.ofNat octet.toNat) = some octet := by
  have hall : ∀ n < 256, parseOctet (Str.ofNat n) = some (.ofNat n) := by decide +kernel
  rw [hall octet.toNat octet.toNat_lt, UInt8.ofNat_toNat]

theorem not_mem_ofNat {c : Char} {n : ℕ} (hc : ¬ c.isDigit) : c ∉ Str.ofNat n :=
  fun hmem => hc (Str.isDigit_of_mem_ofNat hmem)

/-- What is written is read back. -/
theorem parse_toStr (ip : Ipv4Addr) : parse ip.toStr = some ip := by
  have hdot : ∀ n, '.' ∉ Str.ofNat n := fun n => not_mem_ofNat (by decide)
  rw [parse, toStr, List.splitOn_append_cons_self_of_not_mem (hdot _),
    List.splitOn_append_cons_self_of_not_mem (hdot _),
    List.splitOn_append_cons_self_of_not_mem (hdot _), List.splitOn_eq_singleton (hdot _)]
  simp only [List.map_cons, List.map_nil, parseOctet_ofNat]

end Ipv4Addr

namespace SocketAddrV4

/-- `SocketAddrV4::to_string`. -/
def toStr (addr : SocketAddrV4) : Str := addr.ip.toStr ++ ':' :: Str.ofNat addr.port.toNat

theorem parsePort_ofNat (port : UInt16) : parsePort (Str.ofNat port.toNat) = some port := by
  have hne : Str.ofNat port.toNat ≠ [] := by
    intro hnil
    have hpos : 0 < (Nat.toDigits 10 port.toNat).length := Nat.length_toDigits_pos
    rw [← Str.ofNat, hnil] at hpos
    exact Nat.lt_irrefl _ hpos
  have hdigits : (Str.ofNat port.toNat).all Char.isDigit := by
    rw [List.all_eq_true]
    exact fun c hc => Str.isDigit_of_mem_ofNat hc
  rw [parsePort, if_neg (not_or.mpr ⟨hne, not_not_intro hdigits⟩), Str.decimal_ofNat,
    if_pos port.toNat_lt, UInt16.ofNat_toNat]

/-- What is written is read back. -/
theorem parse_toStr (addr : SocketAddrV4) : parse addr.toStr = some addr := by
  have hcolon : ':' ∉ addr.ip.toStr := by
    simp [Ipv4Addr.toStr, Ipv4Addr.not_mem_ofNat (c := ':')]
  have hsplit : Str.splitOnce ':' addr.toStr
      = some (addr.ip.toStr, Str.ofNat addr.port.toNat) :=
    Str.splitOnce_eq_some.mpr ⟨rfl, hcolon⟩
  rw [parse, hsplit]
  simp only [Ipv4Addr.parse_toStr, parsePort_ofNat]

end SocketAddrV4

namespace SocketAddrV4

theorem length_bytes_ofNat {n : ℕ} : (Str.bytes (Str.ofNat n)).length = (Str.ofNat n).length := by
  have hascii : ∀ c ∈ Str.ofNat n, c.toNat < 128 := by
    intro c hc
    have hrange := Str.toNat_of_isDigit (Str.isDigit_of_mem_ofNat hc)
    omega
  rw [Str.bytes_ascii hascii, List.length_map]

theorem length_octet (octet : UInt8) : (Str.bytes (Str.ofNat octet.toNat)).length ≤ 3 := by
  have hlt : octet.toNat < 256 := octet.toNat_lt
  rw [length_bytes_ofNat]
  exact (Nat.length_toDigits_le_iff (by decide) (by decide)).mpr (by omega)

/-- A socket takes at most 21 bytes. -/
theorem length_toStr_le (addr : SocketAddrV4) : (Str.bytes addr.toStr).length ≤ 21 := by
  have hport : (Str.bytes (Str.ofNat addr.port.toNat)).length ≤ 5 := by
    have hlt : addr.port.toNat < 65536 := addr.port.toNat_lt
    rw [length_bytes_ofNat]
    exact (Nat.length_toDigits_le_iff (by decide) (by decide)).mpr (by omega)
  have ha := length_octet addr.ip.a
  have hb := length_octet addr.ip.b
  have hc := length_octet addr.ip.c
  have hd := length_octet addr.ip.d
  have hdot : ∀ s, (Str.bytes ('.' :: s)).length = (Str.bytes s).length + 1 := fun _ => rfl
  have hcolon : ∀ s, (Str.bytes (':' :: s)).length = (Str.bytes s).length + 1 := fun _ => rfl
  have hlength : (Str.bytes addr.toStr).length
      = (Str.bytes (Str.ofNat addr.ip.a.toNat)).length
        + (Str.bytes (Str.ofNat addr.ip.b.toNat)).length
        + (Str.bytes (Str.ofNat addr.ip.c.toNat)).length
        + (Str.bytes (Str.ofNat addr.ip.d.toNat)).length
        + (Str.bytes (Str.ofNat addr.port.toNat)).length + 4 := by
    rw [toStr, Ipv4Addr.toStr]
    simp only [Str.bytes_append, List.length_append, hdot, hcolon]
    omega
  omega

end SocketAddrV4

namespace Dns

variable {Name : Type}

/-- The text of a text record. -/
def RData.text : RData Name → Option (Option Str)
  | TXT text => some text
  | _ => none

/-- The packet with a text record for each text. -/
def textPacket (name : Name) (texts : List Str) : Packet Name :=
  ⟨texts.map fun text => ⟨name, .IN, 300, .TXT (some text)⟩⟩

/-- The size of such a packet when nothing is compressed: each record has its owner, with
the length of its label and the root, ten bytes that tell what it is, and its text behind
the length. -/
def textPacketSize (owner : Str) (texts : List Str) : ℕ :=
  12 + (texts.map fun text => (Str.bytes owner).length + 2 + 10 + (1 + (Str.bytes text).length)).sum

variable [BEq Name]

/-- The same name, the same class and the same text, if there is one. -/
structure SameText (record record' : ResourceRecord Name) : Prop where
  name : ∀ name, (record'.name == name) = (record.name == name)
  recordClass : record'.recordClass = record.recordClass
  text : record'.rdata.text = record.rdata.text

/-- What is relied on of the DNS crate: labels are names, text records are written in no more
than their size, and what is written is read back with the same names and texts. -/
structure TextLawful (dns : Dns Name) : Prop where
  beq_self : ∀ name : Name, name == name
  newName_label : ∀ label, isLabel label → ∃ name, dns.newName label = some name
  build_texts : ∀ owner name texts, dns.newName owner = some name →
    (∀ text ∈ texts, (Str.bytes text).length ≤ 255) → textPacketSize owner texts < 2 ^ 16 →
      ∃ bytes, dns.build (textPacket name texts) = some bytes ∧
        bytes.length ≤ textPacketSize owner texts
  parse_build : ∀ packet bytes, dns.build packet = some bytes →
    ∃ packet', dns.parse bytes = some packet' ∧
      List.Forall₂ SameText packet.answers packet'.answers

end Dns

namespace ServerList

section Unique

variable {found addresses pre : List SocketAddrV4}

/-- The addresses come in the order of their first appearance. -/
theorem pairwise_unique (hmem : ∀ addr, addr ∈ found ↔ addr ∈ pre)
    (h : found.Pairwise fun a b => (pre ++ addresses).idxOf a < (pre ++ addresses).idxOf b) :
    (unique found addresses).Pairwise
      fun a b => (pre ++ addresses).idxOf a < (pre ++ addresses).idxOf b := by
  induction addresses generalizing found pre with
  | nil => exact h
  | cons address rest ih =>
    have hassoc : pre ++ address :: rest = pre ++ [address] ++ rest := List.append_cons _ _ _
    rw [hassoc] at h ⊢
    rw [unique]
    split
    · rename_i hfound
      apply ih _ h
      intro addr
      rw [hmem, List.mem_append, List.mem_singleton]
      refine ⟨.inl, fun hor => hor.elim id ?_⟩
      rintro rfl
      exact (hmem addr).mp hfound
    · rename_i hfound
      have hnot : address ∉ pre := fun hpre => hfound ((hmem address).mpr hpre)
      apply ih
      · intro addr
        rw [List.mem_append, List.mem_append, hmem]
      · rw [List.pairwise_append]
        refine ⟨h, List.pairwise_singleton _ _, fun a ha b hb => ?_⟩
        rw [List.mem_singleton.mp hb, List.append_assoc,
          List.idxOf_append_of_mem ((hmem a).mp ha), List.idxOf_append_of_notMem hnot]
        have hlt := List.idxOf_lt_length_iff.mpr ((hmem a).mp ha)
        omega

/-- Nothing is left out of a list without repetitions. -/
theorem unique_self (h : (found ++ addresses).Nodup) :
    unique found addresses = found ++ addresses := by
  induction addresses generalizing found with
  | nil => rw [unique, List.append_nil]
  | cons address rest ih =>
    have hnot : address ∉ found := by
      intro hmem
      exact List.disjoint_of_nodup_append h hmem List.mem_cons_self
    rw [List.append_cons] at h
    rw [unique, if_neg hnot, ih h, ← List.append_cons]

theorem unique_addresses (list : ServerList) : unique [] list.addresses = list.addresses := by
  have hnodup : ([] ++ list.addresses).Nodup := list.nodup
  rw [unique_self hnodup, List.nil_append]

end Unique

variable {Name : Type}

section Entries

variable [BEq Name]

/-- A text record of the apex that is not empty. -/
def IsEntry (name : Name) (record : ResourceRecord Name) : Bool :=
  record.recordClass = .IN && record.name == name &&
    record.rdata.text.any fun text => text ≠ some []

/-- The socket in a record. -/
def socket (record : ResourceRecord Name) : Option SocketAddrV4 :=
  match record.rdata.text with
  | some (some text) => SocketAddrV4.parse text
  | _ => none

/-- The addresses are the sockets of the entries. -/
theorem apexAddresses_eq (name : Name) (records : List (ResourceRecord Name)) :
    apexAddresses name records = (records.filter (IsEntry name)).mapM socket := by
  induction records with
  | nil => rfl
  | cons record rest ih =>
    cases record with
    | mk owner recordClass ttl rdata =>
      by_cases howner : recordClass ≠ .IN ∨ ¬ owner == name
      · have hnot : ¬ IsEntry name ⟨owner, recordClass, ttl, rdata⟩ := by
          simp only [IsEntry, Bool.and_eq_true, decide_eq_true_eq]
          intro hentry
          exact howner.elim (fun h => h hentry.1.1) fun h => h hentry.1.2
        rw [apexAddresses, if_pos howner, List.filter_cons_of_neg hnot, ih]
      · rw [apexAddresses, if_neg howner]
        obtain ⟨rfl, hname⟩ : recordClass = .IN ∧ owner == name := by simpa using howner
        cases rdata with
        | HTTPS svcb => rw [List.filter_cons_of_neg (by simp [IsEntry, RData.text]), ih]
        | other => rw [List.filter_cons_of_neg (by simp [IsEntry, RData.text]), ih]
        | TXT text =>
          cases text with
          | none =>
            rw [List.filter_cons_of_pos (by simp [IsEntry, RData.text, hname]), List.mapM_cons]
            rfl
          | some text =>
            by_cases hempty : text = []
            · subst hempty
              rw [List.filter_cons_of_neg (by simp [IsEntry, RData.text])]
              simp only [if_pos, ih]
            · rw [List.filter_cons_of_pos (by simp [IsEntry, RData.text, hname, hempty]),
                List.mapM_cons]
              simp only [if_neg hempty, socket, RData.text, ih]
              cases SocketAddrV4.parse text with
              | none => rfl
              | some address => cases (rest.filter (IsEntry name)).mapM socket <;> rfl

end Entries

section Decode

/-- What `ServerList::new` accepts, and the list that it makes. -/
theorem new_toOption {addresses : List SocketAddrV4} {list : ServerList} :
    (new addresses).toOption = some list ↔ addresses.length ≤ 2 ∧
      (∀ addr ∈ addresses, validAddress addr) ∧ list.addresses = unique [] addresses := by
  rw [new]
  split
  · rename_i hlength
    split
    · rename_i hvalid
      cases list with
      | mk found _ _ _ =>
        rw [Except.toOption, Option.some_inj, mk.injEq]
        exact ⟨fun h => ⟨hlength, hvalid, h.symm⟩, fun h => h.2.2.symm⟩
    · rename_i hvalid
      refine ⟨fun h => ?_, fun h => absurd h.2.1 hvalid⟩
      cases h
  · rename_i hlength
    refine ⟨fun h => ?_, fun h => absurd h.1 hlength⟩
    cases h

theorem exists_new {addresses : List SocketAddrV4} (hlength : addresses.length ≤ 2)
    (hvalid : ∀ addr ∈ addresses, validAddress addr) :
    ∃ list, (new addresses).toOption = some list := by
  rw [new, dif_pos hlength, dif_pos hvalid]
  exact ⟨_, rfl⟩

variable [BEq Name] {dns : Dns Name} {z : Z32} {key : PkarrKey} {name : Name}
  {value value' : List UInt8} {packet packet' : Dns.Packet Name} {list : ServerList}

theorem decode_eq (hname : dns.newName (pkarrName z key) = some name) (hvalue : value.length ≤ 1000)
    (hparse : dns.parse value = some packet) :
    decode dns z value key
      = ((packet.answers.filter (IsEntry name)).mapM socket).bind fun addresses =>
        (new addresses).toOption := by
  rw [decode, if_neg (Nat.not_lt.mpr hvalue), hparse]
  simp only [hname, apexAddresses_eq]
  cases (packet.answers.filter (IsEntry name)).mapM socket <;> rfl

/-- A packet decodes to the sockets of its entries, without repetitions. -/
theorem decode_eq_some (hname : dns.newName (pkarrName z key) = some name)
    (hvalue : value.length ≤ 1000) (hparse : dns.parse value = some packet) :
    decode dns z value key = some list ↔ ∃ addresses,
      (packet.answers.filter (IsEntry name)).map socket = addresses.map some ∧
        addresses.length ≤ 2 ∧ (∀ addr ∈ addresses, validAddress addr) ∧
          list.addresses = unique [] addresses := by
  rw [decode_eq hname hvalue hparse, Option.bind_eq_some_iff]
  simp only [List.mapM_eq_some, new_toOption]

/-- A packet decodes if its entries are at most two valid sockets. -/
theorem decode_isSome (hname : dns.newName (pkarrName z key) = some name)
    (hvalue : value.length ≤ 1000) (hparse : dns.parse value = some packet) :
    (decode dns z value key).isSome ↔
      (∀ record ∈ packet.answers.filter (IsEntry name),
        ∃ addr, socket record = some addr ∧ validAddress addr) ∧
        (packet.answers.filter (IsEntry name)).length ≤ 2 := by
  rw [Option.isSome_iff_exists]
  simp only [decode_eq_some hname hvalue hparse]
  generalize packet.answers.filter (IsEntry name) = entries
  constructor
  · rintro ⟨list, addresses, hmap, hlength, hvalid, -⟩
    constructor
    · intro record hrecord
      have hmem : socket record ∈ addresses.map some := hmap ▸ List.mem_map_of_mem hrecord
      obtain ⟨addr, haddr, hsocket⟩ := List.mem_map.mp hmem
      exact ⟨addr, hsocket.symm, hvalid addr haddr⟩
    · rw [← List.length_map (f := socket), hmap, List.length_map]
      exact hlength
  · rintro ⟨hvalid, hlength⟩
    have hmap : entries.map socket = (entries.filterMap socket).map some := by
      apply List.map_eq_map_filterMap
      intro record hrecord
      obtain ⟨addr, haddr, -⟩ := hvalid record hrecord
      exact Option.isSome_of_eq_some haddr
    have hvalid : ∀ addr ∈ entries.filterMap socket, validAddress addr := by
      intro addr hmem
      obtain ⟨record, hrecord, hsocket⟩ := List.mem_filterMap.mp hmem
      obtain ⟨addr', haddr', hvalid⟩ := hvalid record hrecord
      rwa [Option.some.inj (hsocket.symm.trans haddr')]
    have hlength : (entries.filterMap socket).length ≤ 2 :=
      (List.length_filterMap_le _ _).trans hlength
    obtain ⟨list, hlist⟩ := exists_new hlength hvalid
    exact ⟨list, entries.filterMap socket, hmap, new_toOption.mp hlist⟩

/-- Only the entries matter. -/
theorem decode_congr (hname : dns.newName (pkarrName z key) = some name)
    (hvalue : value.length ≤ 1000) (hvalue' : value'.length ≤ 1000)
    (hparse : dns.parse value = some packet) (hparse' : dns.parse value' = some packet')
    (h : packet.answers.filter (IsEntry name) = packet'.answers.filter (IsEntry name)) :
    decode dns z value key = decode dns z value' key := by
  rw [decode_eq hname hvalue hparse, decode_eq hname hvalue' hparse', h]

end Decode

section Encode

/-- The texts of a list: an empty one stands for the empty list. -/
def texts (list : ServerList) : List Str :=
  if list.addresses = [] then [[]] else list.addresses.map SocketAddrV4.toStr

/-- `ServerList::encode`, unless it panics. -/
def encode (dns : Dns Name) (z : Z32) (list : ServerList) (publicKey : PkarrKey) :
    Option (List UInt8) :=
  match dns.newName (pkarrName z publicKey) with
  | none => none
  | some name => dns.build (textPacket name list.texts)

variable [BEq Name] {dns : Dns Name} {z : Z32} {key : PkarrKey} {name : Name} {list : ServerList}

theorem texts_length_le {text : Str} (h : text ∈ list.texts) : (Str.bytes text).length ≤ 21 := by
  rw [texts] at h
  split at h
  · obtain rfl := List.mem_singleton.mp h
    exact Nat.zero_le _
  · obtain ⟨addr, -, rfl⟩ := List.mem_map.mp h
    exact addr.length_toStr_le

theorem length_texts_le (list : ServerList) : list.texts.length ≤ 2 := by
  rw [texts]
  split
  · decide
  · rw [List.length_map]
    exact list.length_le

/-- However many texts a list has, they are small. -/
theorem textPacketSize_le {owner : Str} (howner : (Str.bytes owner).length = 52) :
    textPacketSize owner list.texts ≤ 1000 := by
  have hsize : ∀ size ∈ list.texts.map
      (fun text => (Str.bytes owner).length + 2 + 10 + (1 + (Str.bytes text).length)),
      size ≤ 86 := by
    intro size hmem
    obtain ⟨text, htext, rfl⟩ := List.mem_map.mp hmem
    have hlength := texts_length_le htext
    omega
  have hsum := List.sum_le_card_nsmul _ _ hsize
  have htexts := length_texts_le list
  rw [List.length_map, Nat.nsmul_eq_mul] at hsum
  rw [textPacketSize]
  omega

/-- Records with the same names and texts have the same addresses. -/
theorem apexAddresses_congr {records records' : List (ResourceRecord Name)}
    (h : List.Forall₂ SameText records records') :
    apexAddresses name records' = apexAddresses name records := by
  rw [apexAddresses_eq, apexAddresses_eq]
  induction h with
  | nil => rfl
  | @cons record record' rest rest' hsame _ ih =>
    have hentry : IsEntry name record' = IsEntry name record := by
      rw [IsEntry, IsEntry, hsame.name, hsame.recordClass, hsame.text]
    have hsocket : socket record' = socket record := by
      rw [socket, socket, hsame.text]
    rw [List.filter_cons, List.filter_cons, hentry]
    split
    · rw [List.mapM_cons, List.mapM_cons, hsocket, ih]
    · exact ih

/-- The texts of a list have its addresses. -/
theorem apexAddresses_texts (hname : name == name) :
    apexAddresses name (textPacket name list.texts).answers = some list.addresses := by
  rw [textPacket, texts]
  split
  · rename_i hempty
    rw [hempty]
    simp [apexAddresses, hname]
  · generalize list.addresses = addresses
    induction addresses with
    | nil => rfl
    | cons addr rest ih =>
      have hne : addr.toStr ≠ [] := by
        simp [SocketAddrV4.toStr]
      simp only [List.map_cons] at ih ⊢
      rw [apexAddresses, if_neg (by simp [hname])]
      simp only [if_neg hne, SocketAddrV4.parse_toStr, ih]
      rfl

variable (hz : z.Lawful) (hdns : TextLawful dns)
include hz hdns

theorem exists_name (key : PkarrKey) : ∃ name, dns.newName (pkarrName z key) = some name :=
  hdns.newName_label _ (pkarrName_isLabel hz)

/-- A list is encoded in few bytes, which decode to this list. -/
theorem decode_encode (key : PkarrKey) (list : ServerList) :
    ∃ bytes, encode dns z list key = some bytes ∧ bytes.length ≤ 1000 ∧
      decode dns z bytes key = some list := by
  obtain ⟨name, hname⟩ := exists_name hz hdns key
  have hsize : textPacketSize (pkarrName z key) list.texts ≤ 1000 :=
    textPacketSize_le (pkarrName_length hz)
  obtain ⟨bytes, hbuild, hlength⟩ := hdns.build_texts _ _ list.texts hname
    (fun text htext => (texts_length_le htext).trans (by decide)) (by omega)
  obtain ⟨packet, hparse, hsame⟩ := hdns.parse_build _ _ hbuild
  have hlength : bytes.length ≤ 1000 := hlength.trans hsize
  have haddresses : apexAddresses name packet.answers = some list.addresses :=
    (apexAddresses_congr hsame).trans (apexAddresses_texts (hdns.beq_self name))
  refine ⟨bytes, ?_, hlength, ?_⟩
  · rw [encode, hname]
    exact hbuild
  · rw [decode_eq hname hlength hparse, ← apexAddresses_eq, haddresses, Option.bind_some,
      new_toOption]
    exact ⟨list.length_le, list.valid, list.unique_addresses.symm⟩

/-- A list survives its packet, and a packet decodes if the entries of its apex are at most
two valid sockets: to these sockets, in the order in which they first appear, whatever other
records there are. -/
theorem server_list_packets (key : PkarrKey) :
    (∀ list, ∃ bytes, encode dns z list key = some bytes ∧ bytes.length ≤ 1000 ∧
      decode dns z bytes key = some list) ∧
    ∃ name, dns.newName (pkarrName z key) = some name ∧
      (∀ value packet, value.length ≤ 1000 → dns.parse value = some packet →
        ((decode dns z value key).isSome ↔
          (∀ record ∈ packet.answers.filter (IsEntry name),
            ∃ addr, socket record = some addr ∧ validAddress addr) ∧
            (packet.answers.filter (IsEntry name)).length ≤ 2) ∧
        ∀ list, decode dns z value key = some list → ∃ addresses : List SocketAddrV4,
          (packet.answers.filter (IsEntry name)).map socket = addresses.map some ∧
            list.addresses.Nodup ∧ (∀ addr, addr ∈ list.addresses ↔ addr ∈ addresses) ∧
              list.addresses.Pairwise fun a b => addresses.idxOf a < addresses.idxOf b) ∧
      ∀ value value' packet packet', value.length ≤ 1000 → value'.length ≤ 1000 →
        dns.parse value = some packet → dns.parse value' = some packet' →
          packet.answers.filter (IsEntry name) = packet'.answers.filter (IsEntry name) →
            decode dns z value key = decode dns z value' key := by
  obtain ⟨name, hname⟩ := exists_name hz hdns key
  refine ⟨decode_encode hz hdns key, name, hname, ?_, ?_⟩
  · intro value packet hvalue hparse
    refine ⟨decode_isSome hname hvalue hparse, fun list hlist => ?_⟩
    obtain ⟨addresses, hmap, -, -, hunique⟩ := (decode_eq_some hname hvalue hparse).mp hlist
    have hmem : ∀ addr, addr ∈ list.addresses ↔ addr ∈ addresses := by
      intro addr
      rw [hunique, mem_unique]
      simp
    have horder : (unique [] addresses).Pairwise
        fun a b => ([] ++ addresses).idxOf a < ([] ++ addresses).idxOf b :=
      pairwise_unique (fun _ => Iff.rfl) List.Pairwise.nil
    rw [List.nil_append, ← hunique] at horder
    exact ⟨addresses, hmap, list.nodup, hmem, horder⟩
  · intro value value' packet packet' hvalue hvalue' hparse hparse' h
    exact decode_congr hname hvalue hvalue' hparse hparse' h

end Encode

end ServerList

namespace ServerListPackets.Sample

open Z32 (standard)

/-- A text behind its length. -/
def prefixed (text : Str) : List UInt8 := .ofNat (Str.bytes text).length :: Str.bytes text

/-- A record with its name as one label. -/
def write (record : ResourceRecord Str) : Option (List UInt8) :=
  match record.rdata with
  | .TXT (some text) =>
    if record.recordClass = .IN ∧ record.ttl = 300 ∧ isLabel record.name ∧
        (Str.bytes text).length ≤ 255 then
      some (prefixed record.name ++ ([0, 0, 16, 0, 1, 0, 0, 1, 44] ++
        (toBeBytes 2 ((Str.bytes text).length + 1) ++ prefixed text)))
    else none
  | _ => none

/-- The text at the front, behind its length. -/
def readPrefixed : List UInt8 → Option (Str × List UInt8)
  | [] => none
  | length :: bs =>
    (Str.fromUtf8 (bs.take length.toNat)).map fun text => (text, bs.drop length.toNat)

/-- The record at the front. -/
def read (bs : List UInt8) : Option (ResourceRecord Str × List UInt8) :=
  match readPrefixed bs with
  | none => none
  | some (name, bs) =>
    (readPrefixed (bs.drop 11)).map fun (text, bs) => (⟨name, .IN, 300, .TXT (some text)⟩, bs)

/-- A number of records. -/
def readAll : ℕ → List UInt8 → Option (List (ResourceRecord Str))
  | 0, _ => some []
  | n + 1, bs =>
    match read bs with
    | none => none
    | some (record, bs) => (readAll n bs).map (record :: ·)

/-- What the crate does with labels and texts, when it does not compress names. -/
def dns : Dns Str where
  newName s := if isLabel s then some s else none
  toStr := id
  parse bytes := (readAll (fromBeBytes ((bytes.drop 6).take 2)) (bytes.drop 12)).map Dns.Packet.mk
  build packet := (packet.answers.mapM write).bind fun parts =>
    if packet.answers.length < 2 ^ 16 then
      some ([0, 0, 0x80, 0, 0, 0] ++ toBeBytes 2 packet.answers.length ++ [0, 0, 0, 0] ++
        parts.flatten)
    else none

theorem readPrefixed_prefixed {text : Str} {rest : List UInt8} (h : (Str.bytes text).length ≤ 255) :
    readPrefixed (prefixed text ++ rest) = some (text, rest) := by
  have hlength : (UInt8.ofNat (Str.bytes text).length).toNat = (Str.bytes text).length :=
    UInt8.toNat_ofNat_of_lt' (by rw [UInt8.size]; omega)
  rw [prefixed, List.cons_append, readPrefixed, hlength, List.take_left, List.drop_left,
    Str.fromUtf8_bytes, Option.map_some]

theorem length_le_of_isLabel {label : Str} (h : isLabel label) : (Str.bytes label).length ≤ 63 := by
  simp only [isLabel, Bool.and_eq_true, decide_eq_true_eq] at h
  exact h.1.1.1.2

/-- What `write` writes. -/
theorem write_eq_some {record : ResourceRecord Str} {part : List UInt8}
    (h : write record = some part) : ∃ text, record.recordClass = .IN ∧ record.ttl = 300 ∧
      record.rdata = .TXT (some text) ∧ isLabel record.name ∧ (Str.bytes text).length ≤ 255 ∧
        part = prefixed record.name ++ ([0, 0, 16, 0, 1, 0, 0, 1, 44] ++
          (toBeBytes 2 ((Str.bytes text).length + 1) ++ prefixed text)) := by
  rw [write] at h
  split at h
  · rename_i text htext
    obtain ⟨⟨hclass, httl, hname, hlength⟩, hpart⟩ := Option.ite_none_right_eq_some.mp h
    exact ⟨text, hclass, httl, htext, hname, hlength, (Option.some.inj hpart).symm⟩
  · cases h

theorem read_write {record : ResourceRecord Str} {part rest : List UInt8}
    (h : write record = some part) : read (part ++ rest) = some (record, rest) := by
  obtain ⟨text, hclass, httl, hrdata, hname, hlength, rfl⟩ := write_eq_some h
  have hdrop : ([0, 0, 16, 0, 1, 0, 0, 1, 44] ++
      (toBeBytes 2 ((Str.bytes text).length + 1) ++ prefixed text) ++ rest).drop 11
      = prefixed text ++ rest := by
    simp [toBeBytes]
  have hname := (length_le_of_isLabel hname).trans (by decide : 63 ≤ 255)
  rw [read, List.append_assoc, readPrefixed_prefixed hname]
  simp only [hdrop, readPrefixed_prefixed hlength, Option.map_some]
  rw [← hclass, ← httl, ← hrdata]

theorem readAll_flatten {records : List (ResourceRecord Str)} {parts : List (List UInt8)}
    {rest : List UInt8} (h : records.map write = parts.map some) :
    readAll records.length (parts.flatten ++ rest) = some records := by
  induction records generalizing parts with
  | nil => rfl
  | cons record records ih =>
    cases parts with
    | nil => cases h
    | cons part parts =>
      obtain ⟨hpart, hparts⟩ := List.cons.inj h
      rw [List.length_cons, readAll, List.flatten_cons, List.append_assoc, read_write hpart]
      simp only [ih hparts, Option.map_some]

theorem length_le_textPacketSize (owner : Str) (texts : List Str) :
    texts.length ≤ textPacketSize owner texts := by
  induction texts with
  | nil => exact Nat.zero_le _
  | cons text texts ih =>
    rw [textPacketSize] at ih ⊢
    rw [List.map_cons, List.sum_cons, List.length_cons]
    omega

/-- Each text is written in its size. -/
theorem mapM_write {owner : Str} {texts : List Str} (howner : isLabel owner)
    (htexts : ∀ text ∈ texts, (Str.bytes text).length ≤ 255) :
    ∃ parts, (textPacket owner texts).answers.mapM write = some parts ∧
      parts.flatten.length + 12 = textPacketSize owner texts := by
  induction texts with
  | nil => exact ⟨[], rfl, rfl⟩
  | cons text texts ih =>
    obtain ⟨htext, htexts⟩ := List.forall_mem_cons.mp htexts
    obtain ⟨parts, hparts, hlength⟩ := ih htexts
    rw [textPacket] at hparts ⊢
    rw [textPacketSize] at hlength ⊢
    simp only [List.map_cons, List.mapM_cons] at hparts ⊢
    rw [write]
    simp only [hparts, if_pos (And.intro trivial (And.intro trivial (And.intro howner htext)))]
    refine ⟨_, rfl, ?_⟩
    simp only [List.flatten_cons, List.length_append, prefixed, List.length_cons, length_toBeBytes,
      List.length_nil, List.sum_cons]
    omega

theorem dns_lawful : TextLawful dns where
  beq_self name := beq_self_eq_true name
  newName_label label h := ⟨label, if_pos h⟩
  build_texts owner name texts hname htexts hsize := by
    obtain ⟨hlabel, hname⟩ := Option.ite_none_right_eq_some.mp hname
    obtain rfl := Option.some.inj hname
    obtain ⟨parts, hparts, hlength⟩ := mapM_write hlabel htexts
    have hcount : (textPacket owner texts).answers.length < 2 ^ 16 := by
      rw [textPacket, List.length_map]
      exact (length_le_textPacketSize owner texts).trans_lt hsize
    rw [dns]
    simp only [hparts, Option.bind_some, if_pos hcount]
    refine ⟨_, rfl, ?_⟩
    simp only [List.length_append, length_toBeBytes, List.length_cons, List.length_nil]
    omega
  parse_build packet bytes h := by
    obtain ⟨parts, hparts, h⟩ := Option.bind_eq_some_iff.mp h
    obtain ⟨hcount, hbytes⟩ := Option.ite_none_right_eq_some.mp h
    obtain rfl := Option.some.inj hbytes
    have hread : readAll packet.answers.length (parts.flatten ++ []) = some packet.answers :=
      readAll_flatten (List.mapM_eq_some.mp hparts)
    rw [List.append_nil] at hread
    refine ⟨packet, ?_, List.forall₂_same.mpr fun _ _ => ⟨fun _ => rfl, rfl, rfl⟩⟩
    have hlength : fromBeBytes (toBeBytes 2 packet.answers.length) = packet.answers.length := by
      exact (fromBeBytes_toBeBytes _ _).trans (Nat.mod_eq_of_lt hcount)
    have htake : (([0, 0, 0x80, 0, 0, 0] ++ toBeBytes 2 packet.answers.length ++ [0, 0, 0, 0] ++
        parts.flatten).drop 6).take 2 = toBeBytes 2 packet.answers.length := by
      simp [toBeBytes]
    have hdrop : ([0, 0, 0x80, 0, 0, 0] ++ toBeBytes 2 packet.answers.length ++ [0, 0, 0, 0] ++
        parts.flatten).drop 12 = parts.flatten := by
      simp [toBeBytes]
    rw [dns]
    simp only [htake, hdrop, hlength, hread, Option.map_some]

/-- A single server. -/
def list : ServerList where
  addresses := [⟨⟨203, 0, 113, 1⟩, 60125⟩]
  length_le := by decide
  valid := by decide
  nodup := by decide

def key : PkarrKey := .replicate 32 42

end ServerListPackets.Sample

open ServerListPackets.Sample in
/-- A server is read back. -/
theorem ServerList.server_list_packets_sample :
    ∃ bytes, ServerList.encode dns Z32.standard list key = some bytes ∧
      ServerList.decode dns Z32.standard bytes key = some list := by
  obtain ⟨bytes, hencode, -, hdecode⟩ :=
    (ServerList.server_list_packets Z32.standard_lawful dns_lawful key).1 list
  exact ⟨bytes, hencode, hdecode⟩

end ContentDiscovery
