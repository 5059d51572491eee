import ContentDiscovery.AddrIndex
import ContentDiscovery.Amplification
import ContentDiscovery.Transactions
import Mathlib.Order.CompletePartialOrder

/-!
# Endpoints, index servers and everyone else

Any number of address indexes, each with the key of its endpoint, index servers, and
other parties that send anything from any source address, but receive only what is
sent to the sockets they control. One endpoint is the honest one; it publishes to
honest servers only. Datagrams are never taken off the wire.

Its transaction ids and its signatures are symbolic: nobody else sends a datagram with
the id of one of its publishes without having received one (`MaySend.unguessed`), or
with a record that its key verifies and that it did not sign (`MaySend.unforged`).

Behind a network address translation every server may observe another source address;
it is the one with which a datagram is delivered.
-/

namespace ContentDiscovery

/-! ## What a client sends -/

namespace Actor

/-- The datagrams that a client sends. -/
inductive Sends (s : Actor) : Event → Datagram → Prop
  /-- a publish starts -/
  | prepare {value : ValueFor} {tx : TransactionId} {now : Instant} {bytes : List UInt8}
    {server : SocketAddrV4} {pad : List.Vector UInt8 24} (hserver : server ∈ s.servers)
    (hdec : Proto.decode bytes = some (.request (.v1 (.prepare tx pad)))) :
    Sends s (.message (.publish value) tx now) ⟨bytes, server⟩
  /-- a resolve starts -/
  | get {addr : SocketAddrV4} {accept : Option Accept} {tx : TransactionId} {now : Instant}
    {bytes : List UInt8} {server : SocketAddrV4} (hserver : server ∈ s.servers)
    (hdec : Proto.decode bytes = some (.request (.v1 (.get tx addr)))) :
    Sends s (.message (.resolve addr accept) tx now) ⟨bytes, server⟩
  /-- a server is ready to store a value -/
  | put {data bytes : List UInt8} {src addr : SocketAddrV4} {unixSecs : UInt64}
    {tx : TransactionId} {token : Token} {p : PendingPublish}
    (hp : s.publishes.lookup tx = some p)
    (hdec : Proto.decode data = some (.response (.v1 (.prepared tx addr token))))
    (hawait : src ∈ p.awaiting) (hfirst : src ∉ p.prepared)
    (hfit : (p.value addr unixSecs).length ≤ MAX_VALUE_LEN)
    (hput : Proto.decode bytes = some (.request (.v1 (.put tx token (p.value addr unixSecs))))) :
    Sends s (.packet data src unixSecs) ⟨bytes, src⟩

/-- The datagram that an action sends, if it does. -/
def sentOf : Action → Option Datagram
  | .send d => some d
  | _ => none

variable {s : Actor}

theorem mem_sentOf {d : Datagram} {actions : List Action} :
    d ∈ actions.filterMap sentOf ↔ .send d ∈ actions := by
  rw [List.mem_filterMap]
  constructor
  · rintro ⟨action, hmem, haction⟩
    cases action with
    | send d' => exact Option.some.inj haction ▸ hmem
    | _ => cases haction
  · exact fun h => ⟨_, h, rfl⟩

theorem mem_sendAll {d : Datagram} {servers : HashSet SocketAddrV4} {bytes : List UInt8}
    (h : .send d ∈ sendAll servers bytes) : d.bytes = bytes ∧ d.dest ∈ servers := by
  obtain ⟨server, hserver, heq⟩ := List.mem_map.mp h
  obtain rfl := Action.send.inj heq
  exact ⟨rfl, (Finset.mem_sort _).mp hserver⟩

theorem sentOf_finishPublish (s : Actor) (tx : TransactionId) :
    (s.finishPublish tx).2.filterMap sentOf = [] := by
  rw [finishPublish]
  split <;> rfl

theorem sentOf_finishResolve (s : Actor) (tx : TransactionId) :
    (s.finishResolve tx).2.filterMap sentOf = [] := by
  rw [finishResolve]
  split <;> rfl

theorem sentOf_updatePublish (s : Actor) (tx : TransactionId) (p : PendingPublish) :
    (s.updatePublish tx p).2.filterMap sentOf = [] := by
  rw [updatePublish]
  split
  · exact sentOf_finishPublish _ tx
  · rfl

/-- A client sends nothing else. -/
theorem sends {e : Event} {d : Datagram} (h : .send d ∈ (s.step e).2) : Sends s e d := by
  have hnothing {actions : List Action} (hmem : .send d ∈ actions)
      (hnone : actions.filterMap sentOf = []) : Sends s e d := by
    rw [← mem_sentOf, hnone] at hmem
    cases hmem
  cases e with
  | message m tx now =>
    cases m with
    | addServer | replaceServers | removeServer => cases h
    | publish value =>
      simp only [step, handleMessage] at h
      split at h
      · exact hnothing h rfl
      · split at h
        · exact hnothing h rfl
        · rename_i bytes hbytes
          obtain ⟨hd, hserver⟩ := mem_sendAll h
          exact .prepare hserver (hd ▸ decode_encode hbytes)
    | resolve addr accept =>
      simp only [step, handleMessage] at h
      split at h
      · exact hnothing h rfl
      · split at h
        · exact hnothing h rfl
        · rename_i bytes hbytes
          obtain ⟨hd, hserver⟩ := mem_sendAll h
          exact .get hserver (hd ▸ decode_encode hbytes)
  | packet data src unixSecs =>
    simp only [step, handlePacket] at h
    split at h
    · rename_i tx addr token hdec
      simp only [handlePrepared] at h
      split at h
      · cases h
      · rename_i p hp
        split at h
        · cases h
        · rename_i hheeded
          rw [not_or, not_not] at hheeded
          split at h
          · exact hnothing h (sentOf_updatePublish ..)
          · rename_i hfit
            split at h
            · cases h
            · rename_i bytes hbytes
              obtain rfl := Action.send.inj (List.mem_singleton.mp h)
              exact .put hp hdec hheeded.1 hheeded.2 (not_lt.mp hfit) (decode_encode hbytes)
    · simp only [handleStored] at h
      split at h
      · cases h
      · split at h
        · cases h
        · exact hnothing h (sentOf_updatePublish ..)
    · simp only [handleValue] at h
      split at h
      · cases h
      · split at h
        · cases h
        · split at h
          · exact hnothing h (sentOf_finishResolve ..)
          · cases h
    · cases h
  | flush now =>
    refine hnothing h ?_
    simp only [step, flushExpired, List.filterMap_append]
    rw [finishAll_unseen sentOf_finishPublish, finishAll_unseen sentOf_finishResolve]
    rfl

/-- The socket that a datagram makes a publish build a value for, if it does. -/
def prepares (s : Actor) (data : List UInt8) (src : SocketAddrV4) : Option SocketAddrV4 :=
  match Proto.decode data with
  | some (.response (.v1 (.prepared tx addr _))) =>
    match s.publishes.lookup tx with
    | none => none
    | some pending => if src ∉ pending.awaiting ∨ src ∈ pending.prepared then none else some addr
  | _ => none

theorem prepares_eq_some {data : List UInt8} {src addr : SocketAddrV4} :
    s.prepares data src = some addr ↔ ∃ tx token p,
      Proto.decode data = some (.response (.v1 (.prepared tx addr token))) ∧
        s.publishes.lookup tx = some p ∧ src ∈ p.awaiting ∧ src ∉ p.prepared := by
  rw [prepares]
  constructor
  · intro h
    split at h
    · rename_i tx addr' token hdec
      split at h
      · cases h
      · rename_i p hp
        split at h
        · cases h
        · rename_i hheeded
          rw [not_or, not_not] at hheeded
          obtain rfl := Option.some.inj h
          exact ⟨tx, token, p, hdec, hp, hheeded⟩
    · cases h
  · rintro ⟨tx, token, p, hdec, hp, hawait, hfirst⟩
    simp [hdec, hp, hawait, hfirst]

end Actor

/-! ## The parties -/

/-- The transaction id of a packet. -/
def Proto.tx : Proto → TransactionId
  | .request (.v1 (.prepare tx _)) | .request (.v1 (.put tx _ _)) | .request (.v1 (.get tx _)) => tx
  | .response (.v1 (.prepared tx _ _)) | .response (.v1 (.stored tx _))
  | .response (.v1 (.value tx _ _)) => tx

/-- Who sends a datagram. -/
inductive Party (ι : Type) where
  /-- the client of an address index -/
  | index (n : ι)
  /-- the index server at a socket -/
  | server (socket : SocketAddrV4)
  /-- anyone else -/
  | other
  deriving DecidableEq

/-- A datagram on the wire. -/
structure Packet (ι : Type) where
  /-- who sent it -/
  sender : Party ι
  /-- the payload -/
  bytes : List UInt8
  /-- the destination -/
  dest : SocketAddrV4
  deriving DecidableEq

/-- Who takes part. -/
structure Deployment (SecretKey EndpointId Signature F ι : Type) where
  /-- the keys and signatures -/
  K : Signing SecretKey EndpointId Signature
  /-- the hashes of the servers -/
  P : Primitives
  /-- the limits of the servers -/
  limits : Limits F
  /-- the keys of the endpoints -/
  secret : ι → SecretKey
  /-- the honest endpoint -/
  honest : ι
  /-- nobody else has its key -/
  own : ∀ n, K.endpointId (secret n) = K.endpointId (secret honest) → n = honest
  /-- the sockets of the honest index servers -/
  servers : Set SocketAddrV4
  /-- the sockets at which the other parties receive -/
  controlled : Set SocketAddrV4
  /-- these are different ones -/
  disjoint : Disjoint servers controlled

namespace Deployment

variable {SecretKey EndpointId Signature F ι κ : Type}

/-- The state of all parties. -/
structure World (EndpointId Signature F ι κ : Type) where
  /-- the address indexes -/
  indexes : ι → AddrIndex EndpointId Signature κ
  /-- the index servers -/
  servers : SocketAddrV4 → Server F
  /-- what the honest endpoint has signed -/
  signed : List RecordPayload

/-- What can happen. -/
inductive Event (ι κ : Type) where
  /-- an address index takes a step -/
  | index (n : ι) (e : AddrIndex.Event κ)
  /-- a datagram reaches its client -/
  | toIndex (n : ι) (p : Packet ι) (src : SocketAddrV4) (unixSecs : UInt64)
  /-- a datagram reaches an index server, which observes a source address -/
  | toServer (k : SocketAddrV4) (p : Packet ι) (src : SocketAddrV4) (clock : Clock)

/-- What a step shows. -/
structure Output (EndpointId Signature ι : Type) where
  /-- the datagrams that are put on the wire -/
  sent : List (Packet ι)
  /-- what a lookup returns -/
  found : Option (SocketAddrV4 × Except UdpError (List (SignedRecord EndpointId Signature)))

/-- What happened so far. -/
abbrev History (EndpointId Signature ι κ : Type) : Type :=
  List (Event ι κ × Output EndpointId Signature ι)

section History

variable (t : History EndpointId Signature ι κ)

/-- The packet was put on the wire. -/
def Sent (p : Packet ι) : Prop := ∃ e out, (e, out) ∈ t ∧ p ∈ out.sent

/-- An address index drew the transaction id. -/
def Drawn (tx : TransactionId) : Prop := ∃ n e out, (.index n e, out) ∈ t ∧ e.tx = some tx

/-- It drew it for a publish. -/
def Published (n : ι) (tx : TransactionId) : Prop :=
  ∃ now out, (.index n (.publish tx now), out) ∈ t

/-- A server observed `addr` as the source address of the endpoint, during one of its
publishes: it received the `Prepare` of this publish from there. -/
def Observed (n : ι) (addr : SocketAddrV4) : Prop :=
  ∃ pre k p clock out post tx pad, t = pre ++ (.toServer k p addr clock, out) :: post ∧
    p.sender = .index n ∧ Proto.decode p.bytes = some (.request (.v1 (.prepare tx pad))) ∧
      Published pre n tx

end History

variable (D : Deployment SecretKey EndpointId Signature F ι)

/-- The endpoint id of the honest endpoint. -/
def endpointId : EndpointId := D.K.endpointId (D.secret D.honest)

/-- If the value is a record of the honest endpoint, then it signed the payload. -/
def Genuine (signed : List RecordPayload) (v : List UInt8) : Prop :=
  ∀ r, Postcard.fromBytes (SignedRecord.codec D.K) v = some r → r.endpointId = D.endpointId →
    r.verify D.K = true → r.payload ∈ signed

/-- Another party was sent the transaction id. -/
def Learned (t : History EndpointId Signature ι κ) (tx : TransactionId) : Prop :=
  ∃ p m, Sent t p ∧ p.dest ∈ D.controlled ∧ Proto.decode p.bytes = some m ∧ m.tx = tx

/-- What another party may send. -/
structure MaySend (t : History EndpointId Signature ι κ) (signed : List RecordPayload)
    (bytes : List UInt8) : Prop where
  /-- it does not guess the id of a publish -/
  unguessed : ∀ m, Proto.decode bytes = some m → Published t D.honest m.tx → D.Learned t m.tx
  /-- it does not forge a record -/
  unforged : ∀ m v, Proto.decode bytes = some m → Carries m v → D.Genuine signed v

/-- A transaction id that is not guessed: it is new, also to the other parties. -/
def Fresh (t : History EndpointId Signature ι κ) (tx : TransactionId) : Prop :=
  ¬ Drawn t tx ∧ ∀ p m, Sent t p → Proto.decode p.bytes = some m → m.tx ≠ tx

/-- The honest endpoint uses honest servers. -/
def UsesServers (e : AddrIndex.Event κ) : Prop :=
  (∀ addr, e = .addServer addr → addr ∈ D.servers) ∧
    ∀ servers, e = .replaceServers servers → ↑servers ⊆ D.servers

variable [DecidableEq ι] [DecidableEq κ] [FloatArith F]

/-- When a step can happen. A datagram comes from a party that may send it or, off the
wire, from the socket of its server, or from wherever the network shows an address
index, which is no socket of another party. -/
def Enabled (t : History EndpointId Signature ι κ) (w : World EndpointId Signature F ι κ) :
    Event ι κ → Prop
  | .index n e =>
    (w.indexes n).Enabled e ∧ (∀ data src unixSecs, e ≠ .packet data src unixSecs) ∧
      (∀ tx, e.tx = some tx → Fresh t tx) ∧ (n = D.honest → D.UsesServers e)
  | .toIndex _ p src _ =>
    match p.sender with
    | .index _ => False
    | .server k => k ∈ D.servers ∧ src = k ∧ Sent t p
    | .other => D.MaySend t w.signed p.bytes
  | .toServer k p src _ => k ∈ D.servers ∧
    match p.sender with
    | .index _ => Sent t p ∧ p.dest = k ∧ src ∉ D.controlled
    | .server k' => Sent t p ∧ p.dest = k ∧ src = k'
    | .other => D.MaySend t w.signed p.bytes

/-- The datagrams of the client of an address index. -/
def packets (n : ι) (actions : List Action) : List (Packet ι) :=
  (actions.filterMap Actor.sentOf).map fun d => ⟨.index n, d.bytes, d.dest⟩

/-- An address index takes a step. -/
def indexStep (w : World EndpointId Signature F ι κ) (n : ι) (e : AddrIndex.Event κ) :
    World EndpointId Signature F ι κ × Output EndpointId Signature ι :=
  let r := (w.indexes n).step D.K (D.secret n) e
  ({ w with indexes := Function.update w.indexes n r.1 }, ⟨packets n r.2.actions, r.2.found⟩)

/-- What the honest endpoint has signed after a datagram. -/
def signs (w : World EndpointId Signature F ι κ) (n : ι) (data : List UInt8) (src : SocketAddrV4)
    (unixSecs : UInt64) : List RecordPayload :=
  if n = D.honest then
    match (w.indexes n).client.prepares data src with
    | some addr => .v1 ⟨addr, unixSecs⟩ :: w.signed
    | none => w.signed
  else w.signed

/-- One step. -/
def step (w : World EndpointId Signature F ι κ) :
    Event ι κ → World EndpointId Signature F ι κ × Output EndpointId Signature ι
  | .index n e => D.indexStep w n e
  | .toIndex n p src unixSecs =>
    D.indexStep { w with signed := D.signs w n p.bytes src unixSecs } n
      (.packet p.bytes src unixSecs)
  | .toServer k p src clock =>
    match (w.servers k).handlePacket D.P p.bytes src clock with
    | .error _ => (w, ⟨[], none⟩)
    | .ok (s, sent) =>
      ({ w with servers := Function.update w.servers k s },
        ⟨sent.map fun d => ⟨.server k, d.bytes, d.dest⟩, none⟩)

/-- All parties before anything happens. -/
def Initial (w : World EndpointId Signature F ι κ) : Prop :=
  (∀ n, (w.indexes n).Initial) ∧
    (∀ k, ∃ key created, w.servers k = Server.new D.limits key created) ∧ w.signed = []

/-- The machine of a deployment. -/
def machine :
    Machine (World EndpointId Signature F ι κ) (Event ι κ) (Output EndpointId Signature ι) where
  init := D.Initial
  enabled := D.Enabled
  step := D.step

end Deployment

end ContentDiscovery
