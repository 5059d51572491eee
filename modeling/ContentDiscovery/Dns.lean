import ContentDiscovery.Str

/-!
# DNS packets and Mainline items

The values that the `simple_dns` and `n0_mainline` crates hand over. What a name is and
how packets are written as bytes is a matter of the crate: `Dns` collects the functions
that are used of it.
-/

namespace ContentDiscovery

/-- `MutableItem`: a signed item of the DHT. -/
structure MutableItem where
  /-- the public key of its signer -/
  key : Vector UInt8 32
  /-- the sequence number -/
  seq : ℤ
  /-- the signed bytes -/
  value : List UInt8
  /-- what tells items of one signer apart -/
  salt : Option (List UInt8)
  deriving DecidableEq

namespace Dns

/-- `CLASS`. -/
inductive CLASS where
  | IN
  | CS
  | CH
  | HS
  | NONE
  | ANY
  deriving DecidableEq

/-- `SVCParam`. -/
inductive SVCParam where
  | mandatory
  | noDefaultAlpn
  | port (port : UInt16)
  /-- any other one -/
  | other
  deriving DecidableEq

/-- `SVCB`. -/
structure SVCB (Name : Type) where
  /-- the lowest one is preferred, zero stands for an alias -/
  priority : UInt16
  /-- the name to go to -/
  target : Name
  /-- what to know about it -/
  params : List SVCParam
  deriving DecidableEq

/-- `RData`. -/
inductive RData (Name : Type) where
  | HTTPS (svcb : SVCB Name)
  /-- a text, unless it is not UTF-8 -/
  | TXT (text : Option Str)
  /-- any other record -/
  | other
  deriving DecidableEq

/-- `ResourceRecord`. -/
structure ResourceRecord (Name : Type) where
  /-- the owner -/
  name : Name
  /-- `class` -/
  recordClass : CLASS
  /-- how long it may be kept, in seconds -/
  ttl : UInt32
  /-- the data -/
  rdata : RData Name
  deriving DecidableEq

/-- `Packet`. -/
structure Packet (Name : Type) where
  /-- the answers -/
  answers : List (ResourceRecord Name)
  deriving DecidableEq

section Map

variable {Name Name' : Type} (f : Name → Name')

/-- The same record with other names. -/
def SVCB.map (svcb : SVCB Name) : SVCB Name' := ⟨svcb.priority, f svcb.target, svcb.params⟩

/-- The same data with other names. -/
def RData.map : RData Name → RData Name'
  | HTTPS svcb => .HTTPS (svcb.map f)
  | TXT text => .TXT text
  | other => .other

/-- The same record with other names. -/
def ResourceRecord.map (record : ResourceRecord Name) : ResourceRecord Name' :=
  ⟨f record.name, record.recordClass, record.ttl, record.rdata.map f⟩

/-- The same packet with other names. -/
def Packet.map (packet : Packet Name) : Packet Name' := ⟨packet.answers.map (.map f)⟩

end Map

end Dns

/-- What is used of the `simple_dns` crate. -/
structure Dns (Name : Type) where
  /-- `Name::new` -/
  newName : Str → Option Name
  /-- `Name::to_string` -/
  toStr : Name → Str
  /-- `Packet::parse` -/
  parse : List UInt8 → Option (Dns.Packet Name)
  /-- `Packet::build_bytes_vec_compressed` -/
  build : Dns.Packet Name → Option (List UInt8)

end ContentDiscovery
