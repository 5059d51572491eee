import ContentDiscovery.PkarrNames

/-!
# Curated lists of index servers

`iroh-mainline-endpoint-discovery/src/server_list.rs`: at most two sockets, each a text
record of the apex of a Pkarr packet. A list carries what `ServerList::new` checks, so that
whatever decodes is a usable list.
-/

namespace ContentDiscovery

namespace Ipv4Addr

/-- `Ipv4Addr::is_unspecified`. -/
def isUnspecified (ip : Ipv4Addr) : Bool := ip.a = 0 ∧ ip.b = 0 ∧ ip.c = 0 ∧ ip.d = 0

/-- `Ipv4Addr::is_multicast`: 224.0.0.0/4. -/
def isMulticast (ip : Ipv4Addr) : Bool := 224 ≤ ip.a ∧ ip.a ≤ 239

/-- `Ipv4Addr::is_broadcast`. -/
def isBroadcast (ip : Ipv4Addr) : Bool := ip.a = 255 ∧ ip.b = 255 ∧ ip.c = 255 ∧ ip.d = 255

/-- An octet in decimal, without leading zeros. -/
def parseOctet (s : Str) : Option UInt8 :=
  if s = [] ∨ 3 < s.length ∨ ¬ s.all Char.isDigit ∨ (s.head? = some '0' ∧ 1 < s.length) then none
  else if Str.decimal s < 256 then some (.ofNat (Str.decimal s)) else none

/-- `Ipv4Addr::from_str`. -/
def parse (s : Str) : Option Ipv4Addr :=
  match (s.splitOn '.').map parseOctet with
  | [some a, some b, some c, some d] => some ⟨a, b, c, d⟩
  | _ => none

end Ipv4Addr

namespace SocketAddrV4

/-- A port in decimal. -/
def parsePort (s : Str) : Option UInt16 :=
  if s = [] ∨ ¬ s.all Char.isDigit then none
  else if Str.decimal s < 2 ^ 16 then some (.ofNat (Str.decimal s)) else none

/-- `SocketAddrV4::from_str`. -/
def parse (s : Str) : Option SocketAddrV4 :=
  match Str.splitOnce ':' s with
  | none => none
  | some (ip, port) =>
    match Ipv4Addr.parse ip, parsePort port with
    | some ip, some port => some ⟨ip, port⟩
    | _, _ => none

end SocketAddrV4

/-- `valid_address`. -/
def validAddress (addr : SocketAddrV4) : Bool :=
  addr.port ≠ 0 && !addr.ip.isUnspecified && !addr.ip.isMulticast && !addr.ip.isBroadcast

/-- `ServerList`. -/
structure ServerList where
  /-- the sockets -/
  addresses : List SocketAddrV4
  length_le : addresses.length ≤ 2
  valid : ∀ addr ∈ addresses, validAddress addr
  nodup : addresses.Nodup

namespace ServerList

/-- The loop of `ServerList::new` that leaves out repeated sockets. -/
def unique (found : List SocketAddrV4) : List SocketAddrV4 → List SocketAddrV4
  | [] => found
  | address :: rest =>
    if address ∈ found then unique found rest else unique (found ++ [address]) rest

variable {found addresses : List SocketAddrV4}

theorem mem_unique {addr : SocketAddrV4} :
    addr ∈ unique found addresses ↔ addr ∈ found ∨ addr ∈ addresses := by
  induction addresses generalizing found with
  | nil => simp [unique]
  | cons address rest ih =>
    rw [unique]
    split
    · rename_i hmem
      rw [ih, List.mem_cons]
      constructor
      · exact fun h => h.imp_right .inr
      · rintro (h | rfl | h)
        · exact .inl h
        · exact .inl hmem
        · exact .inr h
    · rw [ih]
      simp [or_assoc]

theorem length_unique_le : (unique found addresses).length ≤ found.length + addresses.length := by
  induction addresses generalizing found with
  | nil => simp [unique]
  | cons address rest ih =>
    rw [unique]
    split
    · have hle : (unique found rest).length ≤ found.length + rest.length := ih
      rw [List.length_cons]
      omega
    · have hle : (unique (found ++ [address]) rest).length
          ≤ (found ++ [address]).length + rest.length := ih
      rw [List.length_append, List.length_singleton] at hle
      rw [List.length_cons]
      omega

theorem nodup_unique (h : found.Nodup) : (unique found addresses).Nodup := by
  induction addresses generalizing found with
  | nil => exact h
  | cons address rest ih =>
    rw [unique]
    split
    · exact ih h
    · rename_i hmem
      apply ih
      rw [List.nodup_append]
      refine ⟨h, List.nodup_singleton _, fun a ha b hb => ?_⟩
      rw [List.mem_singleton.mp hb]
      rintro rfl
      exact hmem ha

/-- `ServerList::new`. -/
def new (addresses : List SocketAddrV4) : Except Str ServerList :=
  if hlength : addresses.length ≤ 2 then
    if hvalid : ∀ addr ∈ addresses, validAddress addr then
      .ok
        { addresses := unique [] addresses
          length_le := length_unique_le.trans (by simpa using hlength)
          valid := fun addr h => hvalid addr (by simpa [mem_unique] using h)
          nodup := nodup_unique List.nodup_nil }
    else .error "invalid index server socket".toList
  else .error "at most two index servers are allowed".toList

variable {Name : Type} [BEq Name]

/-- The sockets of the apex records, unless one is malformed. -/
def apexAddresses (name : Name) : List (Dns.ResourceRecord Name) → Option (List SocketAddrV4)
  | [] => some []
  | record :: rest =>
    if record.recordClass ≠ .IN ∨ ¬ record.name == name then apexAddresses name rest
    else
      match record.rdata with
      | .TXT none => none
      | .TXT (some text) =>
        if text = [] then apexAddresses name rest
        else
          match SocketAddrV4.parse text with
          | none => none
          | some address => (apexAddresses name rest).map (address :: ·)
      | _ => apexAddresses name rest

/-- `ServerList::decode`. -/
def decode (dns : Dns Name) (z : Z32) (value : List UInt8) (publicKey : PkarrKey) :
    Option ServerList :=
  if 1000 < value.length then none
  else
    match dns.parse value with
    | none => none
    | some packet =>
      match dns.newName (pkarrName z publicKey) with
      | none => none
      | some name =>
        match apexAddresses name packet.answers with
        | none => none
        | some addresses => (new addresses).toOption

end ServerList

end ContentDiscovery
