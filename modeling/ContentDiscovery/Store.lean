import ContentDiscovery.Collections
import ContentDiscovery.Proto

/-!
# The in-memory store of an index server

`udp-addr-index/src/store.rs`. A store maps a socket to opaque bytes and keeps
two indexes beside the map: the expiry times in order, and the number of entries
each address holds.

The arithmetic type `F` of the request rates is the source's `f64`; no operation
of the store reads them.
-/

namespace ContentDiscovery

/-- `Limits`: storage, token and request limits of a server. -/
structure Limits (F : Type) where
  /-- maximum opaque value length -/
  maxValueLen : ℕ
  /-- maximum number of live mappings -/
  maxEntries : ℕ
  /-- maximum number of live mappings per publishing address -/
  maxEntriesPerIp : ℕ
  /-- how long an accepted value remains live -/
  valueTtlSecs : UInt64
  /-- length of one token validity bucket -/
  tokenBucketSecs : UInt64
  /-- request token rate per source IP -/
  requestsPerIpPerSec : F
  /-- request burst per source IP -/
  requestBurst : F

/-- `PutError`: rejection of a local put. -/
inductive PutError where
  /-- the opaque value exceeds the server's configured limit -/
  | tooLarge
  /-- the server reached its entry limit, or the address reached its own -/
  | full
  deriving DecidableEq, Repr

/-- `Entry`. -/
structure Entry where
  /-- the opaque value -/
  value : List UInt8
  /-- when the entry expires, in Unix seconds -/
  expiresAt : UInt64
  deriving DecidableEq, Repr

/-- `Store`: in-memory address-index state. -/
structure Store where
  /-- the stored values -/
  entries : HashMap SocketAddrV4 Entry
  /-- the expiry times, in order -/
  expirations : BTreeSet (UInt64 ×ₗ SocketAddrV4)
  /-- entries held per address -/
  perIp : HashMap Ipv4Addr ℕ

namespace Store

variable {F : Type}

/-- `Store::new`. -/
def new : Store := ⟨∅, ∅, ∅⟩

/-- `Store::len`. -/
def len (s : Store) : ℕ := s.entries.keys.card

/-- `Store::remove_entry`: drops one entry and its per-address count. The count
is decremented in machine arithmetic; `Consistent` rules the underflow out. -/
def removeEntry (s : Store) (addr : SocketAddrV4) : Store :=
  if (s.entries.lookup addr).isSome then
    { s with
      entries := s.entries.erase addr
      perIp :=
        match s.perIp.lookup addr.ip with
        | none => s.perIp
        | some count =>
          if count - 1 = 0 then s.perIp.erase addr.ip
          else s.perIp.insert addr.ip (count - 1) }
  else s

/-- Drop one pair from `expirations` and the entry it stands for: what `gc` and
the eviction in `put` both do. -/
def dropExpiration (s : Store) (e : UInt64 ×ₗ SocketAddrV4) : Store :=
  removeEntry { s with expirations := s.expirations.erase e } (ofLex e).2

/-- The loop of `Store::gc`. Each round pops one pair, so the number of pairs
bounds the rounds. -/
def gcLoop : ℕ → Store → UInt64 → Store
  | 0, s, _ => s
  | fuel + 1, s, now =>
    match s.expirations.first with
    | none => s
    | some e => if (ofLex e).1 > now then s else gcLoop fuel (s.dropExpiration e) now

/-- `Store::gc`: removes expired entries in expiry order. -/
def gc (s : Store) (now : UInt64) : Store := gcLoop s.expirations.card s now

/-- The check for room in `Store::put`: a fresh address needs a free place in its
quota, and in a full store the entry nearest to expiry makes way. -/
def makeRoom (s : Store) (addr : SocketAddrV4) (limits : Limits F) : Except PutError Store :=
  let fresh := (s.entries.lookup addr).isNone
  if fresh then
    if (s.perIp.lookup addr.ip).getD 0 ≥ limits.maxEntriesPerIp then .error .full
    else if s.len ≥ limits.maxEntries then
      match s.expirations.first with
      | none => .error .full
      | some oldest => .ok (s.dropExpiration oldest)
    else .ok s
  else .ok s

/-- The insertion at the end of `Store::put`. -/
def insertEntry (s : Store) (addr : SocketAddrV4) (value : List UInt8) (expiresAt : UInt64) :
    Store :=
  let previous := s.entries.lookup addr
  let s := { s with entries := s.entries.insert addr ⟨value, expiresAt⟩ }
  let s :=
    match previous with
    | some previous =>
      { s with expirations := s.expirations.erase (toLex (previous.expiresAt, addr)) }
    | none => { s with perIp := s.perIp.insert addr.ip ((s.perIp.lookup addr.ip).getD 0 + 1) }
  { s with expirations := insert (toLex (expiresAt, addr)) s.expirations }

/-- `Store::put`: inserts or replaces one value, using server receipt time for
expiry. A rejected put has still collected the expired entries. -/
def put (s : Store) (addr : SocketAddrV4) (value : List UInt8) (now : UInt64)
    (limits : Limits F) : Store × Except PutError Unit :=
  let s := s.gc now
  if value.length > limits.maxValueLen ∨ value.length > MAX_VALUE_LEN then
    (s, .error .tooLarge)
  else
    match s.makeRoom addr limits with
    | .error err => (s, .error err)
    | .ok s => (s.insertEntry addr value (saturatingAdd now limits.valueTtlSecs), .ok ())

/-- `Store::get`: clones the live value stored under `addr`. -/
def get (s : Store) (addr : SocketAddrV4) (now : UInt64) : Store × Option (List UInt8) :=
  let s := s.gc now
  (s, (s.entries.lookup addr).map Entry.value)

end Store

end ContentDiscovery
