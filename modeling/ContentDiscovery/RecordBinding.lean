import ContentDiscovery.Deployment
import ContentDiscovery.WriteAuthority

/-!
# Records are bound to the socket of their endpoint

In a deployment, the transaction id of a publish of the honest endpoint stays between it
and the servers it asked (`Confined`). So the socket that a `Prepared` with this id names is
one that a server observed for the endpoint, and the endpoint signs its record for these
sockets only. Every value on the wire, in a store or in an index that reads as a record of
the endpoint is one that it signed (`Bound`), and a lookup returns a record for the socket
that was signed alone. So a copy of a record in another slot is not found there.
-/

namespace ContentDiscovery

/-- A response has the transaction id of its request. -/
theorem Server.Answered.tx_eq {F : Type} {P : Primitives} {s s' : Server F} {src : SocketAddrV4}
    {clock : Clock} {request : RequestV1} {response : ResponseV1}
    (h : Answered P s src clock request s' (some response)) :
    (Proto.response (.v1 response)).tx = (Proto.request (.v1 request)).tx := by
  cases h with
  | prepared => rfl
  | stored => rfl
  | value => rfl

/-- A value in a response is one that the store holds. -/
theorem Server.Answered.carries {F : Type} {P : Primitives} {limits : Limits F}
    {s s' : Server F} (hs : s.Inv limits) {src : SocketAddrV4} {clock : Clock}
    {request : RequestV1} {response : ResponseV1}
    (h : Answered P s src clock request s' (some response)) {v : List UInt8}
    (hv : Carries (.response (.v1 response)) v) :
    ∃ addr exp, s.store.view addr = some (v, exp) := by
  cases h with
  | prepared => cases hv
  | stored => cases hv
  | value tx addr r =>
    rcases hget : (s.store.get addr clock.storeSecs).2 with _ | v'
    · rw [hget] at hv
      cases hv
    · rw [hget] at hv
      cases hv
      obtain ⟨exp, hview, -⟩ := hs.consistent.get_eq_some.mp hget
      exact ⟨addr, exp, hview⟩

/-- A reply that a publish heeds leaves the value alone, and awaits no other server. -/
theorem Actor.PublishUpdate.frame {tx : TransactionId} {p p' : PendingPublish} {e : Actor.Event}
    {ds : List Datagram} (h : Actor.PublishUpdate tx p e p' ds) :
    p'.value = p.value ∧ p'.awaiting ⊆ p.awaiting := by
  cases h with
  | prepared => exact ⟨rfl, subset_rfl⟩
  | tooLarge => exact ⟨rfl, Finset.erase_subset _ _⟩
  | stored => exact ⟨rfl, Finset.erase_subset _ _⟩

/-- A publish under way was under way before, or it starts, with the record of the endpoint. -/
theorem AddrIndex.pending_step {SecretKey EndpointId Signature κ : Type} [DecidableEq κ]
    (K : Signing SecretKey EndpointId Signature) (s : AddrIndex EndpointId Signature κ)
    (secret : SecretKey) (e : AddrIndex.Event κ) {tx : TransactionId} {p' : PendingPublish}
    (h : (s.step K secret e).1.client.publishes.lookup tx = some p') :
    (∃ p, s.client.publishes.lookup tx = some p ∧ p'.value = p.value ∧
        p'.awaiting ⊆ p.awaiting) ∨
      (∃ now, e = .publish tx now) ∧ p'.value = AddrIndex.valueFor K secret ∧
        p'.awaiting = s.client.servers := by
  obtain ⟨hsame, -⟩ | ⟨ce, hce, hclient, -⟩ := s.step_client K secret e
  · rw [hsame] at h
    exact .inl ⟨p', h, rfl, subset_rfl⟩
  · rw [hclient] at h
    have hstep := s.client.publish_step tx ce
    rw [Actor.PublishSees, h] at hstep
    generalize hold : s.client.publishes.lookup tx = o at hstep
    generalize (s.client.step ce).2.filterMap (Actor.putOf tx) = ds at hstep
    generalize (s.client.step ce).2.filterMap (Actor.publishedOf tx) = rs at hstep
    cases hstep with
    | idle => exact .inl ⟨p', rfl, rfl, subset_rfl⟩
    | noServers => exact .inl ⟨p', rfl, rfl, subset_rfl⟩
    | start hsome =>
      cases hce
      exact .inr ⟨⟨_, rfl⟩, rfl, rfl⟩
    | update hupdate hawait => exact .inl ⟨_, rfl, hupdate.frame⟩

/-- The servers of a client are those that discovery names. -/
theorem AddrIndex.servers_step {SecretKey EndpointId Signature κ : Type} [DecidableEq κ]
    (K : Signing SecretKey EndpointId Signature) {s : AddrIndex EndpointId Signature κ}
    (secret : SecretKey) {e : AddrIndex.Event κ} {S : Set SocketAddrV4}
    (hs : ↑s.client.servers ⊆ S) (hadd : ∀ addr, e = .addServer addr → addr ∈ S)
    (hreplace : ∀ servers : HashSet SocketAddrV4, e = .replaceServers servers → ↑servers ⊆ S) :
    ↑(s.step K secret e).1.client.servers ⊆ S := by
  obtain ⟨hsame, -⟩ | ⟨ce, hce, hclient, -⟩ := s.step_client K secret e
  · rw [hsame]
    exact hs
  · rw [hclient, (s.client.step_config ce).1]
    cases hce with
    | addServer addr =>
      simp only [Actor.Event.servers, Finset.coe_insert]
      exact Set.insert_subset (hadd addr rfl) hs
    | replaceServers servers => exact hreplace servers rfl
    | removeServer addr =>
      simp only [Actor.Event.servers, Finset.coe_erase]
      exact Set.sdiff_subset.trans hs
    | publish => exact hs
    | lookup => exact hs
    | locked => exact hs
    | lookupUncached => exact hs
    | packet => exact hs
    | flush => exact hs

namespace Deployment

section

variable {SecretKey EndpointId Signature F ι κ : Type}

/-! ## Histories -/

section History

variable {t : History EndpointId Signature ι κ} {x : Event ι κ × Output EndpointId Signature ι}
  {n : ι} {tx : TransactionId} {addr : SocketAddrV4}

theorem sent_iff {p : Packet ι} : Sent t p ↔ p ∈ t.flatMap fun x => x.2.sent := by
  rw [List.mem_flatMap]
  constructor
  · rintro ⟨e, out, hmem, hp⟩
    exact ⟨(e, out), hmem, hp⟩
  · rintro ⟨⟨e, out⟩, hmem, hp⟩
    exact ⟨e, out, hmem, hp⟩

theorem sent_concat {p : Packet ι} : Sent (t ++ [x]) p ↔ Sent t p ∨ p ∈ x.2.sent := by
  rw [sent_iff, sent_iff, List.flatMap_append, List.mem_append, List.flatMap_singleton]

theorem published_concat :
    Published (t ++ [x]) n tx ↔ Published t n tx ∨ ∃ now, x.1 = .index n (.publish tx now) := by
  simp only [Published, List.mem_append, List.mem_singleton]
  constructor
  · rintro ⟨now, out, hmem | rfl⟩
    · exact .inl ⟨now, out, hmem⟩
    · exact .inr ⟨now, rfl⟩
  · rintro (⟨now, out, hmem⟩ | ⟨now, hx⟩)
    · exact ⟨now, out, .inl hmem⟩
    · exact ⟨now, x.2, .inr (Prod.ext hx.symm rfl)⟩

theorem Published.drawn (h : Published t n tx) : Drawn t tx := by
  obtain ⟨now, out, hmem⟩ := h
  exact ⟨n, _, out, hmem, rfl⟩

theorem Observed.concat (h : Observed t n addr) : Observed (t ++ [x]) n addr := by
  obtain ⟨pre, k, p, clock, out, post, tx, pad, rfl, hp⟩ := h
  exact ⟨pre, k, p, clock, out, post ++ [x], tx, pad, by simp, hp⟩

end History

/-! ## What a step sends -/

variable {D : Deployment SecretKey EndpointId Signature F ι}
  {t : History EndpointId Signature ι κ} {w : World EndpointId Signature F ι κ} {e : Event ι κ}

/-- The packets that a step puts on the wire. -/
inductive Emits (D : Deployment SecretKey EndpointId Signature F ι)
    (w : World EndpointId Signature F ι κ) : Event ι κ → Packet ι → Prop
  /-- a publish starts -/
  | prepare {n : ι} {tx : TransactionId} {now : Instant} {bytes : List UInt8}
    {server : SocketAddrV4} {pad : List.Vector UInt8 24}
    (hserver : server ∈ (w.indexes n).client.servers)
    (hdec : Proto.decode bytes = some (.request (.v1 (.prepare tx pad)))) :
    Emits D w (.index n (.publish tx now)) ⟨.index n, bytes, server⟩
  /-- a lookup starts -/
  | get {n : ι} {e : AddrIndex.Event κ} {tx : TransactionId} {bytes : List UInt8}
    {server addr : SocketAddrV4} (htx : e.tx = some tx) (hlookup : ∀ now, e ≠ .publish tx now)
    (hdec : Proto.decode bytes = some (.request (.v1 (.get tx addr)))) :
    Emits D w (.index n e) ⟨.index n, bytes, server⟩
  /-- an endpoint stores its record -/
  | put {n : ι} {p : Packet ι} {src addr : SocketAddrV4} {unixSecs : UInt64} {tx : TransactionId}
    {token : Token} {pending : PendingPublish} {bytes : List UInt8}
    (hpending : (w.indexes n).client.publishes.lookup tx = some pending)
    (hdec : Proto.decode p.bytes = some (.response (.v1 (.prepared tx addr token))))
    (hawait : src ∈ pending.awaiting) (hfirst : src ∉ pending.prepared)
    (hfit : (pending.value addr unixSecs).length ≤ MAX_VALUE_LEN)
    (hput : Proto.decode bytes =
      some (.request (.v1 (.put tx token (pending.value addr unixSecs))))) :
    Emits D w (.toIndex n p src unixSecs) ⟨.index n, bytes, src⟩
  /-- a server responds -/
  | reply {k : SocketAddrV4} {p : Packet ι} {src : SocketAddrV4} {clock : Clock}
    {request : RequestV1} {response : ResponseV1} {s' : Server F} {bytes : List UInt8}
    (hdec : Proto.decode p.bytes = some (.request (.v1 request)))
    (hans : Server.Answered D.P (w.servers k) src clock request s' (some response))
    (hreply : Proto.decode bytes = some (.response (.v1 response))) :
    Emits D w (.toServer k p src clock) ⟨.server k, bytes, src⟩

/-- What an event is to an index. -/
inductive Reaches : Event ι κ → ι → AddrIndex.Event κ → Prop
  /-- a step of its own -/
  | index (n : ι) (e : AddrIndex.Event κ) : Reaches (.index n e) n e
  /-- a datagram -/
  | packet (n : ι) (p : Packet ι) (src : SocketAddrV4) (unixSecs : UInt64) :
    Reaches (.toIndex n p src unixSecs) n (.packet p.bytes src unixSecs)

theorem mem_packets {n : ι} {actions : List Action} {q : Packet ι} (h : q ∈ packets n actions) :
    q.sender = .index n ∧ .send ⟨q.bytes, q.dest⟩ ∈ actions := by
  obtain ⟨d, hd, rfl⟩ := List.mem_map.mp h
  exact ⟨rfl, Actor.mem_sentOf.mp hd⟩

/-! ## Transaction ids -/

/-- What is known of the transaction ids of the publishes of a deployment. -/
structure Confined (D : Deployment SecretKey EndpointId Signature F ι)
    (t : History EndpointId Signature ι κ) (w : World EndpointId Signature F ι κ) : Prop where
  /-- the servers stay within their limits -/
  servers : ∀ k, (w.servers k).Inv D.limits
  /-- the honest endpoint uses honest servers -/
  configured : ↑(w.indexes D.honest).client.servers ⊆ D.servers
  /-- an id is drawn once -/
  single : ∀ n n' tx, Published t n tx → Published t n' tx → n = n'
  /-- a publish under way was started, and stores the record of its endpoint -/
  pending : ∀ n tx p, (w.indexes n).client.publishes.lookup tx = some p →
    Published t n tx ∧ p.value = AddrIndex.valueFor D.K (D.secret n) ∧
      (n = D.honest → ↑p.awaiting ⊆ D.servers)
  /-- clients send requests and servers responses -/
  sender : ∀ p m, Sent t p → Proto.decode p.bytes = some m →
    (∃ n r, p.sender = .index n ∧ m = .request (.v1 r)) ∨
      ∃ k r, p.sender = .server k ∧ m = .response (.v1 r)
  /-- a client asks for a token for one of its publishes -/
  asked : ∀ p n tx pad, Sent t p → p.sender = .index n →
    Proto.decode p.bytes = some (.request (.v1 (.prepare tx pad))) → Published t n tx
  /-- the ids of the honest endpoint are sent to nobody else -/
  confined : ∀ p m, Sent t p → Proto.decode p.bytes = some m → Published t D.honest m.tx →
    p.dest ∉ D.controlled
  /-- a socket that is prepared for one of them was observed -/
  observed : ∀ p tx addr token, Sent t p →
    Proto.decode p.bytes = some (.response (.v1 (.prepared tx addr token))) →
    Published t D.honest tx → Observed t D.honest addr

/-- Nobody else sends a datagram with such an id. -/
theorem Confined.not_published (h : Confined D t w) {signed : List RecordPayload}
    {bytes : List UInt8} (hsend : D.MaySend t signed bytes) {m : Proto}
    (hdec : Proto.decode bytes = some m) : ¬ Published t D.honest m.tx := by
  intro hpublished
  obtain ⟨p, m', hp, hdest, hdec', htx⟩ := hsend.unguessed m hdec hpublished
  exact h.confined p m' hp hdec' (htx ▸ hpublished) hdest

/-- A publish that is known after a step was known before, or its id is fresh. -/
theorem published_step (hen : D.Enabled t w e) {out : Output EndpointId Signature ι} {n : ι}
    {tx : TransactionId} (h : Published (t ++ [(e, out)]) n tx) :
    Published t n tx ∨ (∃ now, e = .index n (.publish tx now)) ∧ Fresh t tx := by
  obtain h | ⟨now, rfl⟩ := published_concat.mp h
  · exact .inl h
  · exact .inr ⟨⟨now, rfl⟩, hen.2.2.1 tx rfl⟩

/-- A request with the id of a publish of the honest endpoint comes from this endpoint. -/
theorem Confined.of_request (h : Confined D t w) {k : SocketAddrV4} {p : Packet ι}
    {src : SocketAddrV4} {clock : Clock} (hen : D.Enabled t w (.toServer k p src clock))
    {request : RequestV1} (hdec : Proto.decode p.bytes = some (.request (.v1 request)))
    (hpublished : Published t D.honest (Proto.request (.v1 request)).tx) :
    ∃ n, p.sender = .index n ∧ Sent t p ∧ src ∉ D.controlled := by
  obtain ⟨-, hen⟩ := hen
  cases hsender : p.sender with
  | index n =>
    rw [hsender] at hen
    exact ⟨n, rfl, hen.1, hen.2.2⟩
  | server k' =>
    -- servers send no requests
    rw [hsender] at hen
    obtain ⟨n, r, hindex, -⟩ | ⟨k'', r, -, hm⟩ := h.sender p _ hen.1 hdec
    · rw [hsender] at hindex
      cases hindex
    · cases hm
  | other =>
    rw [hsender] at hen
    exact absurd hpublished (h.not_published hen hdec)

/-! ## Records -/

/-- Where records of the honest endpoint are, and what it signed. -/
structure Bound (D : Deployment SecretKey EndpointId Signature F ι)
    (t : History EndpointId Signature ι κ) (w : World EndpointId Signature F ι κ) : Prop where
  /-- it signed for sockets that a server observed -/
  signed : ∀ payload ∈ w.signed, Observed t D.honest payload.getV1.addr
  /-- its records on the wire are signed by it -/
  wire : ∀ p m v, Sent t p → Proto.decode p.bytes = some m → Carries m v → D.Genuine w.signed v
  /-- those in a store, too -/
  stored : ∀ k a b, (w.servers k).store.view a = some b → D.Genuine w.signed b.1
  /-- and those that an index holds on to -/
  vouched : ∀ n, AddrIndex.Vouched D.K (D.Genuine w.signed) (w.indexes n)

theorem Genuine.mono {signed signed' : List RecordPayload} (hsub : signed ⊆ signed')
    {v : List UInt8} (h : D.Genuine signed v) : D.Genuine signed' v := by
  intro r hr hid hverify
  exact hsub (h r hr hid hverify)

/-- The values that a datagram brings to a party are genuine. -/
theorem Bound.arrives (h : Bound D t w) {p : Packet ι}
    (hp : Sent t p ∨ D.MaySend t w.signed p.bytes) {m : Proto} {v : List UInt8}
    (hdec : Proto.decode p.bytes = some m) (hv : Carries m v) :
    D.Genuine w.signed v := by
  obtain hsent | hsend := hp
  · exact h.wire p m v hsent hdec hv
  · exact hsend.unforged m v hdec hv

theorem sent_or_maySend_toIndex {n : ι} {p : Packet ι} {src : SocketAddrV4} {unixSecs : UInt64}
    (hen : D.Enabled t w (.toIndex n p src unixSecs)) :
    Sent t p ∨ D.MaySend t w.signed p.bytes := by
  simp only [Enabled] at hen
  split at hen
  · exact hen.elim
  · exact .inl hen.2.2
  · exact .inr hen

theorem sent_or_maySend_toServer {k : SocketAddrV4} {p : Packet ι} {src : SocketAddrV4}
    {clock : Clock} (hen : D.Enabled t w (.toServer k p src clock)) :
    Sent t p ∨ D.MaySend t w.signed p.bytes := by
  obtain ⟨-, hen⟩ := hen
  split at hen
  · exact .inl hen.1
  · exact .inl hen.1
  · exact .inr hen

/-- So are those that it brings to a client. -/
theorem Bound.brings (h : Bound D t w) (hen : D.Enabled t w e) {n : ι} {ie : AddrIndex.Event κ}
    (hreaches : Reaches e n ie) {ce : Actor.Event}
    (hce : AddrIndex.Commands D.K (D.secret n) ie ce) : ce.Brings (D.Genuine w.signed) := by
  rintro data src unixSecs m v rfl hdec hv
  cases hce
  cases hreaches with
  | index => exact absurd rfl (hen.2.1 _ _ _)
  | packet => exact h.arrives (sent_or_maySend_toIndex hen) hdec hv

/-- A record that an endpoint makes is one that the honest endpoint signed, or it is another
endpoint's. -/
theorem genuine_valueFor {n : ι} {addr : SocketAddrV4} {unixSecs : UInt64}
    {signed : List RecordPayload}
    (hfit : (AddrIndex.valueFor D.K (D.secret n) addr unixSecs).length ≤ MAX_VALUE_LEN)
    (hsigned : n = D.honest → .v1 ⟨addr, unixSecs⟩ ∈ signed) :
    D.Genuine signed (AddrIndex.valueFor D.K (D.secret n) addr unixSecs) := by
  intro r hr hid _
  have hlt : (AddrIndex.valueFor D.K (D.secret n) addr unixSecs).length < sizeLimit :=
    hfit.trans_lt (by decide)
  rw [AddrIndex.valueFor, SignedRecord.fromBytes_encode D.K _ hlt] at hr
  obtain rfl := Option.some.inj hr
  exact hsigned (D.own n hid)

/-! ## Steps -/

variable [DecidableEq κ]

/-- What the client of an index sends, it sends as it was asked to. -/
theorem sends_of_mem_packets {s : AddrIndex EndpointId Signature κ} {n : ι} {secret : SecretKey}
    {e : AddrIndex.Event κ} {q : Packet ι}
    (h : q ∈ packets n (s.step D.K secret e).2.actions) :
    q.sender = .index n ∧ ∃ ce, AddrIndex.Commands D.K secret e ce ∧
      Actor.Sends s.client ce ⟨q.bytes, q.dest⟩ := by
  obtain ⟨hsender, hsend⟩ := mem_packets h
  refine ⟨hsender, ?_⟩
  obtain ⟨-, hnone⟩ | ⟨ce, hce, -, hactions⟩ := s.step_client D.K secret e
  · rw [hnone] at hsend
    cases hsend
  · rw [hactions] at hsend
    exact ⟨ce, hce, Actor.sends hsend⟩

variable [DecidableEq ι]

theorem indexes_indexStep (D : Deployment SecretKey EndpointId Signature F ι)
    (w : World EndpointId Signature F ι κ) (m : ι) (ie : AddrIndex.Event κ) (n : ι) :
    (D.indexStep w m ie).1.indexes n = w.indexes n ∨ n = m ∧
      (D.indexStep w m ie).1.indexes n = ((w.indexes n).step D.K (D.secret n) ie).1 := by
  simp only [indexStep]
  by_cases hnm : n = m
  · subst hnm
    exact .inr ⟨rfl, Function.update_self ..⟩
  · exact .inl (Function.update_of_ne hnm ..)

variable [FloatArith F]

/-- A step puts nothing else on the wire. -/
theorem emits (hservers : ∀ k, (w.servers k).Inv D.limits) (hen : D.Enabled t w e)
    {q : Packet ι} (hq : q ∈ (D.step w e).2.sent) : Emits D w e q := by
  obtain ⟨sender, bytes, dest⟩ := q
  cases e with
  | index n e =>
    obtain ⟨rfl, ce, hce, hsends⟩ := sends_of_mem_packets hq
    cases hsends with
    | prepare hserver hdec =>
      cases hce
      exact .prepare hserver hdec
    | get hserver hdec =>
      cases hce with
      | lookup => exact .get rfl (fun _ => nofun) hdec
      | locked => exact .get rfl (fun _ => nofun) hdec
      | lookupUncached => exact .get rfl (fun _ => nofun) hdec
    | put =>
      cases hce
      exact absurd rfl (hen.2.1 _ _ _)
  | toIndex n p src unixSecs =>
    obtain ⟨rfl, ce, hce, hsends⟩ := sends_of_mem_packets hq
    cases hce
    cases hsends with
    | put hp hdec hawait hfirst hfit hput => exact .put hp hdec hawait hfirst hfit hput
  | toServer k p src clock =>
    obtain ⟨s', sent, hhandle, hhandled⟩ := (hservers k).handled (P := D.P) p.bytes src clock
    simp only [step, hhandle, List.mem_map] at hq
    obtain ⟨d, hd, heq⟩ := hq
    cases hhandled with
    | ignored => cases hd
    | silent => cases hd
    | replied hdec hans hle hfit =>
      obtain rfl := List.mem_singleton.mp hd
      obtain ⟨rfl, rfl, rfl⟩ := Packet.mk.inj heq
      exact .reply hdec hans (Server.decode_reply hfit)

/-- An index changes by its steps. -/
theorem indexes_step (D : Deployment SecretKey EndpointId Signature F ι)
    (w : World EndpointId Signature F ι κ) (e : Event ι κ) (n : ι) :
    (D.step w e).1.indexes n = w.indexes n ∨ ∃ ie, Reaches e n ie ∧
      (D.step w e).1.indexes n = ((w.indexes n).step D.K (D.secret n) ie).1 := by
  cases e with
  | index m ie =>
    obtain hsame | ⟨rfl, hstep⟩ := indexes_indexStep D w m ie n
    · exact .inl hsame
    · exact .inr ⟨ie, .index n ie, hstep⟩
  | toIndex m p src unixSecs =>
    obtain hsame | ⟨rfl, hstep⟩ := indexes_indexStep D
      { w with signed := D.signs w m p.bytes src unixSecs } m (.packet p.bytes src unixSecs) n
    · exact .inl hsame
    · exact .inr ⟨_, .packet n p src unixSecs, hstep⟩
  | toServer k p src clock =>
    left
    simp only [step]
    split
    · rfl
    · rfl

/-- A server changes by the datagrams that it handles. -/
theorem servers_step (hservers : ∀ k, (w.servers k).Inv D.limits) (e : Event ι κ)
    (k : SocketAddrV4) :
    (D.step w e).1.servers k = w.servers k ∨ ∃ p src clock sent, e = .toServer k p src clock ∧
      Server.Handled D.P (w.servers k) p.bytes src clock ((D.step w e).1.servers k) sent := by
  cases e with
  | index n e => exact .inl rfl
  | toIndex n p src unixSecs => exact .inl rfl
  | toServer k' p src clock =>
    obtain ⟨s', sent, hhandle, hhandled⟩ := (hservers k').handled (P := D.P) p.bytes src clock
    simp only [step, hhandle]
    by_cases hk : k = k'
    · subst hk
      rw [Function.update_self]
      exact .inr ⟨p, src, clock, sent, rfl, hhandled⟩
    · exact .inl (Function.update_of_ne hk ..)

/-- A publish under way was under way before, or it starts. -/
theorem pending_step {n : ι} {tx : TransactionId} {p' : PendingPublish}
    (h : ((D.step w e).1.indexes n).client.publishes.lookup tx = some p') :
    (∃ p, (w.indexes n).client.publishes.lookup tx = some p ∧ p'.value = p.value ∧
        p'.awaiting ⊆ p.awaiting) ∨
      (∃ now, e = .index n (.publish tx now)) ∧
        p'.value = AddrIndex.valueFor D.K (D.secret n) ∧
        p'.awaiting = (w.indexes n).client.servers := by
  obtain hsame | ⟨ie, hreaches, hstep⟩ := indexes_step D w e n
  · rw [hsame] at h
    exact .inl ⟨p', h, rfl, subset_rfl⟩
  · rw [hstep] at h
    refine (AddrIndex.pending_step D.K _ _ _ h).imp_right ?_
    rintro ⟨⟨now, rfl⟩, hp'⟩
    cases hreaches
    exact ⟨⟨now, rfl⟩, hp'⟩

theorem Confined.servers_step (h : Confined D t w) (k : SocketAddrV4) :
    ((D.step w e).1.servers k).Inv D.limits := by
  obtain hsame | ⟨p, src, clock, sent, rfl, hhandled⟩ := Deployment.servers_step h.servers e k
  · rw [hsame]
    exact h.servers k
  · exact (h.servers k).handled_inv hhandled

theorem Confined.configured_step (h : Confined D t w) (hen : D.Enabled t w e) :
    ↑((D.step w e).1.indexes D.honest).client.servers ⊆ D.servers := by
  obtain hsame | ⟨ie, hreaches, hstep⟩ := indexes_step D w e D.honest
  · rw [hsame]
    exact h.configured
  · rw [hstep]
    cases hreaches with
    | index =>
      obtain ⟨hadd, hreplace⟩ := hen.2.2.2 rfl
      exact AddrIndex.servers_step _ _ h.configured hadd hreplace
    | packet => exact AddrIndex.servers_step _ _ h.configured nofun nofun

/-- The ids stay confined. -/
theorem Confined.confined_step (h : Confined D t w) (hen : D.Enabled t w e) {q : Packet ι}
    {m : Proto} (hq : Sent (t ++ [(e, (D.step w e).2)]) q) (hdec : Proto.decode q.bytes = some m)
    (hpublished : Published (t ++ [(e, (D.step w e).2)]) D.honest m.tx) :
    q.dest ∉ D.controlled := by
  obtain hq | hq := sent_concat.mp hq
  · obtain hpublished | ⟨-, hfresh⟩ := published_step hen hpublished
    · exact h.confined q m hq hdec hpublished
    · exact absurd rfl (hfresh.2 q m hq hdec)
  · cases emits h.servers hen hq with
    | prepare hserver hprepare =>
      obtain rfl := Option.some.inj (hprepare.symm.trans hdec)
      obtain hpublished | ⟨⟨now, hpublish⟩, -⟩ := published_step hen hpublished
      · exact absurd hpublished.drawn (hen.2.2.1 _ rfl).1
      · obtain ⟨rfl, -⟩ := Event.index.inj hpublish
        exact Set.disjoint_left.mp D.disjoint (h.configured hserver)
    | get htx hlookup hget =>
      obtain rfl := Option.some.inj (hget.symm.trans hdec)
      obtain hpublished | ⟨⟨now, hpublish⟩, -⟩ := published_step hen hpublished
      · exact absurd hpublished.drawn (hen.2.2.1 _ htx).1
      · obtain ⟨-, rfl⟩ := Event.index.inj hpublish
        exact absurd rfl (hlookup now)
    | @put n p src addr unixSecs tx token pending bytes hpending hprepared hawait hfirst hfit
        hput =>
      obtain rfl := Option.some.inj (hput.symm.trans hdec)
      obtain ⟨hpublished', -, hservers⟩ := h.pending n tx pending hpending
      obtain hpublished | ⟨⟨now, hpublish⟩, -⟩ := published_step hen hpublished
      · obtain rfl := h.single _ _ _ hpublished' hpublished
        exact Set.disjoint_left.mp D.disjoint (hservers rfl hawait)
      · cases hpublish
    | reply hrequest hans hreply =>
      obtain rfl := Option.some.inj (hreply.symm.trans hdec)
      rw [hans.tx_eq] at hpublished
      obtain hpublished | ⟨⟨now, hpublish⟩, -⟩ := published_step hen hpublished
      · obtain ⟨n, -, -, hsrc⟩ := h.of_request hen hrequest hpublished
        exact hsrc
      · cases hpublish

/-- A server that prepares observes the endpoint. -/
theorem Confined.observed_step (h : Confined D t w) (hen : D.Enabled t w e) {q : Packet ι}
    {tx : TransactionId} {addr : SocketAddrV4} {token : Token}
    (hq : Sent (t ++ [(e, (D.step w e).2)]) q)
    (hdec : Proto.decode q.bytes = some (.response (.v1 (.prepared tx addr token))))
    (hpublished : Published (t ++ [(e, (D.step w e).2)]) D.honest tx) :
    Observed (t ++ [(e, (D.step w e).2)]) D.honest addr := by
  obtain hq | hq := sent_concat.mp hq
  · obtain hpublished | ⟨-, hfresh⟩ := published_step hen hpublished
    · exact (h.observed q tx addr token hq hdec hpublished).concat
    · exact absurd rfl (hfresh.2 q _ hq hdec)
  · cases emits h.servers hen hq with
    | prepare hserver hprepare => cases hprepare.symm.trans hdec
    | get htx hlookup hget => cases hget.symm.trans hdec
    | put hpending hprepared hawait hfirst hfit hput => cases hput.symm.trans hdec
    | @reply k p src clock request response s' bytes hrequest hans hreply =>
      cases hreply.symm.trans hdec
      cases hans with
      | prepared tx pad r =>
        obtain hpublished | ⟨⟨now, hpublish⟩, -⟩ := published_step hen hpublished
        · obtain ⟨n, hsender, hsent, -⟩ := h.of_request hen hrequest hpublished
          have hpublish := h.asked p n tx pad hsent hsender hrequest
          obtain rfl := h.single _ _ _ hpublish hpublished
          exact ⟨t, k, p, clock, _, [], tx, pad, rfl, hsender, hrequest, hpublish⟩
        · cases hpublish

/-- A step keeps the ids confined. -/
theorem Confined.step (h : Confined D t w) (hen : D.Enabled t w e) :
    Confined D (t ++ [(e, (D.step w e).2)]) (D.step w e).1 where
  servers := h.servers_step
  configured := h.configured_step hen
  single n n' tx hn hn' := by
    obtain hn | ⟨⟨now, rfl⟩, hfresh⟩ := published_step hen hn
    · obtain hn' | ⟨-, hfresh⟩ := published_step hen hn'
      · exact h.single n n' tx hn hn'
      · exact absurd hn.drawn hfresh.1
    · obtain hn' | ⟨⟨now', heq⟩, -⟩ := published_step hen hn'
      · exact absurd hn'.drawn hfresh.1
      · exact (Event.index.inj heq).1
  pending n tx p' hp' := by
    obtain ⟨p, hp, hvalue, hawaiting⟩ | ⟨hpublish, hvalue, hawaiting⟩ := pending_step hp'
    · obtain ⟨hpublished, hvalue', hservers⟩ := h.pending n tx p hp
      refine ⟨published_concat.mpr (.inl hpublished), hvalue.trans hvalue', ?_⟩
      intro hn
      exact (Finset.coe_subset.mpr hawaiting).trans (hservers hn)
    · refine ⟨published_concat.mpr (.inr hpublish), hvalue, ?_⟩
      rintro rfl
      rw [hawaiting]
      exact h.configured
  sender q m hq hdec := by
    obtain hq | hq := sent_concat.mp hq
    · exact h.sender q m hq hdec
    · cases emits h.servers hen hq with
      | prepare hserver hprepare =>
        exact .inl ⟨_, _, rfl, Option.some.inj (hdec.symm.trans hprepare)⟩
      | get htx hlookup hget => exact .inl ⟨_, _, rfl, Option.some.inj (hdec.symm.trans hget)⟩
      | put hpending hprepared hawait hfirst hfit hput =>
        exact .inl ⟨_, _, rfl, Option.some.inj (hdec.symm.trans hput)⟩
      | reply hrequest hans hreply =>
        exact .inr ⟨_, _, rfl, Option.some.inj (hdec.symm.trans hreply)⟩
  asked q n tx pad hq hsender hdec := by
    obtain hq | hq := sent_concat.mp hq
    · exact published_concat.mpr (.inl (h.asked q n tx pad hq hsender hdec))
    · cases emits h.servers hen hq with
      | prepare hserver hprepare =>
        cases hprepare.symm.trans hdec
        cases hsender
        exact published_concat.mpr (.inr ⟨_, rfl⟩)
      | get htx hlookup hget => cases hget.symm.trans hdec
      | put hpending hprepared hawait hfirst hfit hput => cases hput.symm.trans hdec
      | reply hrequest hans hreply => cases hsender
  confined q m hq hdec hpublished := h.confined_step hen hq hdec hpublished
  observed q tx addr token hq hdec hpublished := h.observed_step hen hq hdec hpublished

/-- The honest endpoint signs as it is prepared for. -/
theorem signed_step (D : Deployment SecretKey EndpointId Signature F ι)
    (w : World EndpointId Signature F ι κ) (e : Event ι κ) :
    (D.step w e).1.signed = w.signed ∨ ∃ p src unixSecs addr,
      e = .toIndex D.honest p src unixSecs ∧
      (w.indexes D.honest).client.prepares p.bytes src = some addr ∧
      (D.step w e).1.signed = .v1 ⟨addr, unixSecs⟩ :: w.signed := by
  cases e with
  | index n e => exact .inl rfl
  | toServer k p src clock =>
    left
    simp only [step]
    split
    · rfl
    · rfl
  | toIndex n p src unixSecs =>
    show D.signs w n p.bytes src unixSecs = _ ∨ ∃ p' src' unixSecs' addr, _ ∧ _ ∧
      D.signs w n p.bytes src unixSecs = _
    rw [signs]
    split
    · rename_i hhonest
      subst hhonest
      split
      · rename_i addr haddr
        exact .inr ⟨p, src, unixSecs, addr, rfl, haddr, rfl⟩
      · exact .inl rfl
    · exact .inl rfl

theorem signed_subset (D : Deployment SecretKey EndpointId Signature F ι)
    (w : World EndpointId Signature F ι κ) (e : Event ι κ) :
    w.signed ⊆ (D.step w e).1.signed := by
  obtain hsame | ⟨_, _, _, _, -, -, hsigned⟩ := signed_step D w e
  · rw [hsame]
    exact List.Subset.refl _
  · rw [hsigned]
    exact List.subset_cons_self _ _

theorem Bound.signed_step (h : Bound D t w) (hconf : Confined D t w) (hen : D.Enabled t w e)
    {payload : RecordPayload} (hpayload : payload ∈ (D.step w e).1.signed) :
    Observed t D.honest payload.getV1.addr := by
  obtain hsame | ⟨p, src, unixSecs, addr, rfl, hprepares, hsigned⟩ := Deployment.signed_step D w e
  · rw [hsame] at hpayload
    exact h.signed payload hpayload
  · rw [hsigned] at hpayload
    obtain rfl | hpayload := List.mem_cons.mp hpayload
    · -- the id that it is prepared for is one of its own
      obtain ⟨tx, token, pending, hdec, hpending, -⟩ := Actor.prepares_eq_some.mp hprepares
      have hpublished := (hconf.pending D.honest tx pending hpending).1
      obtain hsent | hsend := sent_or_maySend_toIndex hen
      · exact hconf.observed p tx addr token hsent hdec hpublished
      · exact absurd hpublished (hconf.not_published hsend hdec)
    · exact h.signed payload hpayload

theorem Bound.stored_step (h : Bound D t w) (hconf : Confined D t w) (hen : D.Enabled t w e)
    {k a : SocketAddrV4} {b : List UInt8 × UInt64}
    (hb : ((D.step w e).1.servers k).store.view a = some b) : D.Genuine w.signed b.1 := by
  obtain hsame | ⟨p, src, clock, sent, rfl, hhandled⟩ :=
    Deployment.servers_step hconf.servers e k
  · rw [hsame] at hb
    exact h.stored k a b hb
  · obtain (hview | hview) | ⟨v, haccepted, hview⟩ := (hconf.servers k).handled_view hhandled
    · exact h.stored k a b (hview ▸ hb)
    · rw [hview] at hb
      exact h.stored k a b (TimedMap.expire_eq_some.mp hb).1
    · obtain hold | ⟨-, rfl⟩ := hview a b hb
      · exact h.stored k a b hold
      · obtain ⟨tx, token, hdec, -⟩ := haccepted.request
        exact h.arrives (sent_or_maySend_toServer hen) hdec (.put tx token b.1)

theorem Bound.wire_step (h : Bound D t w) (hconf : Confined D t w) (hen : D.Enabled t w e)
    {q : Packet ι} {m : Proto} {v : List UInt8} (hq : Sent (t ++ [(e, (D.step w e).2)]) q)
    (hdec : Proto.decode q.bytes = some m) (hv : Carries m v) :
    D.Genuine (D.step w e).1.signed v := by
  have hsub := signed_subset D w e
  obtain hq | hq := sent_concat.mp hq
  · exact (h.wire q m v hq hdec hv).mono hsub
  · cases emits hconf.servers hen hq with
    | prepare hserver hprepare =>
      obtain rfl := Option.some.inj (hprepare.symm.trans hdec)
      cases hv
    | get htx hlookup hget =>
      obtain rfl := Option.some.inj (hget.symm.trans hdec)
      cases hv
    | @put n p src addr unixSecs tx token pending bytes hpending hprepared hawait hfirst hfit
        hput =>
      obtain rfl := Option.some.inj (hput.symm.trans hdec)
      cases hv
      have hvalue := (hconf.pending n tx pending hpending).2.1
      rw [hvalue] at hfit ⊢
      refine genuine_valueFor hfit ?_
      rintro rfl
      have hprepares : (w.indexes D.honest).client.prepares p.bytes src = some addr :=
        Actor.prepares_eq_some.mpr ⟨tx, token, pending, hprepared, hpending, hawait, hfirst⟩
      simp [step, indexStep, signs, hprepares]
    | @reply k p src clock request response s' bytes hrequest hans hreply =>
      obtain rfl := Option.some.inj (hreply.symm.trans hdec)
      obtain ⟨addr, exp, hview⟩ := hans.carries (hconf.servers k) hv
      exact Genuine.mono hsub (h.stored k addr _ hview)

theorem Bound.vouched_step (h : Bound D t w) (hen : D.Enabled t w e) (n : ι) :
    AddrIndex.Vouched D.K (D.Genuine (D.step w e).1.signed) ((D.step w e).1.indexes n) := by
  have hmono : ∀ v, D.Genuine w.signed v → D.Genuine (D.step w e).1.signed v :=
    fun v hv => hv.mono (signed_subset D w e)
  obtain hsame | ⟨ie, hreaches, hstep⟩ := indexes_step D w e n
  · rw [hsame]
    exact (h.vouched n).mono hmono
  · rw [hstep]
    have hbrings : ∀ ce, AddrIndex.Commands D.K (D.secret n) ie ce → ce.Brings _ :=
      fun ce hce => h.brings hen hreaches hce
    exact ((h.vouched n).step (D.secret n) hbrings).1.mono hmono

/-- A step keeps records bound. -/
theorem Bound.step (h : Bound D t w) (hconf : Confined D t w) (hen : D.Enabled t w e) :
    Bound D (t ++ [(e, (D.step w e).2)]) (D.step w e).1 where
  signed _ hpayload := (h.signed_step hconf hen hpayload).concat
  wire _ _ _ hq hdec hv := h.wire_step hconf hen hq hdec hv
  stored _ _ _ hb := (h.stored_step hconf hen hb).mono (signed_subset D w e)
  vouched n := h.vouched_step hen n

/-! ## Runs -/

omit [DecidableEq ι] [DecidableEq κ] in
/-- Nothing happened yet. -/
theorem confined_initial (hinit : D.Initial w) : Confined D ([] : History _ _ _ _) w := by
  obtain ⟨hindexes, hservers, -⟩ := hinit
  have hclient (n : ι) : ∃ timeout, (w.indexes n).client = .new timeout := (hindexes n).1
  exact {
    servers := by
      intro k
      obtain ⟨key, created, hk⟩ := hservers k
      rw [hk]
      exact Server.inv_new D.limits key created
    configured := by
      obtain ⟨timeout, hclient⟩ := hclient D.honest
      rw [hclient]
      exact fun _ h => absurd h (Finset.notMem_empty _)
    single := by
      rintro n n' tx ⟨now, out, hmem⟩
      cases hmem
    pending := by
      intro n tx p hp
      obtain ⟨timeout, hclient⟩ := hclient n
      rw [hclient] at hp
      cases hp
    sender := by
      rintro p m ⟨e, out, hmem, -⟩
      cases hmem
    asked := by
      rintro p n tx pad ⟨e, out, hmem, -⟩
      cases hmem
    confined := by
      rintro p m ⟨e, out, hmem, -⟩
      cases hmem
    observed := by
      rintro p tx addr token ⟨e, out, hmem, -⟩
      cases hmem }

omit [DecidableEq ι] [DecidableEq κ] in
theorem bound_initial (hinit : D.Initial w) : Bound D ([] : History _ _ _ _) w := by
  obtain ⟨hindexes, hservers, hsigned⟩ := hinit
  exact {
    signed := by
      intro payload hpayload
      rw [hsigned] at hpayload
      cases hpayload
    wire := by
      rintro p m v ⟨e, out, hmem, -⟩
      cases hmem
    stored := by
      intro k a b hb
      obtain ⟨key, created, hk⟩ := hservers k
      rw [hk] at hb
      cases hb
    vouched := by
      intro n
      obtain ⟨⟨timeout, hclient⟩, hcache, hlookups⟩ := hindexes n
      exact {
        collected := by
          intro tx p hp
          rw [hclient] at hp
          cases hp
        answered := by
          intro c addr cached values hc
          rw [hlookups c] at hc
          cases hc
        cached := by
          intro cache addr records hsome hremembers
          obtain hnone | ⟨ttl, hcache⟩ := hcache
          · rw [hnone] at hsome
            cases hsome
          · rw [hcache] at hsome
            obtain rfl := Option.some.inj hsome
            obtain ⟨expires, hmem⟩ := hremembers
            cases hmem } }

/-- Both invariants hold in every run. -/
theorem bound_run (h : D.machine.Run t w) : Confined D t w ∧ Bound D t w := by
  refine h.invariant (I := fun t w => Confined D t w ∧ Bound D t w) ?_ ?_
  · exact fun w hinit => ⟨confined_initial hinit, bound_initial hinit⟩
  · exact fun t w e _ hen ⟨hconf, hbound⟩ => ⟨hconf.step hen, hbound.step hconf hen⟩

/-- **A record is found where its endpoint was observed, and nowhere else.** In every run,
whatever anyone else sends, stores or copies: when a lookup of a socket returns a record that
names the honest endpoint, a server has observed this socket for the endpoint during one of
its publishes. -/
theorem record_binding (D : Deployment SecretKey EndpointId Signature F ι)
    (h : D.machine.Run t w) {pre post : History EndpointId Signature ι κ} {e : Event ι κ}
    {out : Output EndpointId Signature ι} (ht : t = pre ++ (e, out) :: post)
    {addr : SocketAddrV4} {records : List (SignedRecord EndpointId Signature)}
    (hfound : out.found = some (addr, .ok records)) :
    ∀ r ∈ records, r.endpointId = D.endpointId → Observed pre D.honest addr := by
  intro r hr hid
  obtain ⟨w₁, hrun, hen, hout⟩ := h.stepAt ht
  change D.Enabled pre w₁ e at hen
  obtain ⟨-, hbound⟩ := bound_run hrun
  obtain rfl : out = (D.step w₁ e).2 := hout
  cases e with
  | index n ie =>
    have hbrings : ∀ ce, AddrIndex.Commands D.K (D.secret n) ie ce → ce.Brings _ :=
      fun ce hce => hbound.brings hen (.index n ie) hce
    obtain ⟨v, hgenuine, hdec⟩ :=
      ((hbound.vouched n).step (D.secret n) hbrings).2 addr records hfound r hr
    obtain ⟨hread, rfl, hverify⟩ := (SignedRecord.decode_eq_some D.K).mp hdec
    exact hbound.signed r.payload (hgenuine r hread hid hverify)
  | toIndex n p src unixSecs => cases hfound
  | toServer k p src clock =>
    simp only [step] at hfound
    split at hfound
    · cases hfound
    · cases hfound

end

/-! ### A sample -/

namespace Sample

open SignedRecord.Sample (socket signing record)
open Server.Sample (evil evilToken)

/-- The index server. -/
def server : SocketAddrV4 := ⟨⟨192, 0, 2, 53⟩, 6881⟩

/-- One endpoint, one server, and a socket of someone else. -/
def deployment :
    Deployment Bool (List.Vector UInt8 32) (List.Vector UInt8 64) (Option ℚ) Unit where
  K := signing
  P := Server.Sample.primitives
  limits := .default
  secret _ := true
  honest := ()
  own _ _ := rfl
  servers := {server}
  controlled := {evil}
  disjoint := Set.disjoint_singleton.mpr (by decide)

/-- The machine of the sample. -/
def net : Machine (World (List.Vector UInt8 32) (List.Vector UInt8 64) (Option ℚ) Unit Unit)
    (Event Unit Unit) (Output (List.Vector UInt8 32) (List.Vector UInt8 64) Unit) :=
  deployment.machine

/-- They are built. -/
def start : World (List.Vector UInt8 32) (List.Vector UInt8 64) (Option ℚ) Unit Unit where
  indexes _ := ⟨.new DEFAULT_TIMEOUT, none, fun _ => .idle⟩
  servers _ := .new .default Server.Sample.key 0
  signed := []

/-- A request to the server. -/
def request (r : RequestV1) : Packet Unit := ⟨.index (), (encode r).getD [], server⟩

/-- The server responds to the socket of the endpoint. -/
def response (r : ResponseV1) : Packet Unit := ⟨.server server, Server.reply r, socket⟩

/-- A request of the other party. -/
def other (r : RequestV1) : Packet Unit := ⟨.other, (encode r).getD [], server⟩

/-- It asks for a token, and puts a copy of the record. -/
def ask : Packet Unit := other (.prepare 9 (.replicate 24 0))
def copy : Packet Unit := other (.put 9 evilToken ((record true).encode signing))

/-- The request of the lookup. -/
def get : Packet Unit := request (.get 2 socket)

/-- The requests of the publish. -/
def prepare : Packet Unit := request (.prepare 1 (.replicate 24 0))
def put : Packet Unit := request (.put 1 Server.Sample.token ((record true).encode signing))

/-- The responses. -/
def prepared : Packet Unit := response (.prepared 1 socket Server.Sample.token)
def value : Packet Unit := response (.value 2 socket (some ((record true).encode signing)))

/-- What happens: the endpoint publishes its record while its socket is looked up, and the other
party stores a copy under its own socket. -/
def events : List (Event Unit Unit) :=
  [.index () (.replaceServers {server}), .index () (.lookupUncached () socket 2 0),
    .index () (.publish 1 0), .toServer server prepare socket Server.Sample.clock,
    .toIndex () prepared server 1700000010, .toServer server put socket Server.Sample.clock,
    .toServer server ask evil Server.Sample.clock, .toServer server copy evil Server.Sample.clock,
    .toServer server get socket Server.Sample.clock, .toIndex () value server 1700000010,
    .index () (.finish () 0)]

/-- The run. -/
def run : History (List.Vector UInt8 32) (List.Vector UInt8 64) Unit Unit ×
    World (List.Vector UInt8 32) (List.Vector UInt8 64) (Option ℚ) Unit Unit :=
  net.exec start events

theorem decode_request {r : RequestV1}
    (hput : ∀ tx token v, r = .put tx token v → v.length ≤ MAX_VALUE_LEN) :
    Proto.decode (request r).bytes = some (.request (.v1 r)) := by
  simp only [request, encode, Proto.decode_request hput]

theorem decode_other {r : RequestV1}
    (hput : ∀ tx token v, r = .put tx token v → v.length ≤ MAX_VALUE_LEN) :
    Proto.decode (other r).bytes = some (.request (.v1 r)) := by
  simp only [other, encode, Proto.decode_request hput]

theorem decode_get : Proto.decode get.bytes = some (.request (.v1 (.get 2 socket))) :=
  decode_request nofun

theorem decode_ask :
    Proto.decode ask.bytes = some (.request (.v1 (.prepare 9 (.replicate 24 0)))) :=
  decode_other nofun

theorem decode_copy : Proto.decode copy.bytes =
    some (.request (.v1 (.put 9 evilToken ((record true).encode signing)))) := by
  apply decode_other
  rintro _ _ _ ⟨⟩
  decide +kernel

theorem socket_free : socket ∉ deployment.controlled := by
  rw [deployment, Set.mem_singleton_iff]
  decide

/-- The endpoint publishes with the id 1 only. -/
theorem not_published {t : History (List.Vector UInt8 32) (List.Vector UInt8 64) Unit Unit}
    {n : ℕ} (ht : t.map Prod.fst = events.take n) : ¬ Published t () 9 := by
  rintro ⟨now, out, hmem⟩
  have hevent : Event.index () (.publish 9 now) ∈ events :=
    List.mem_of_mem_take (ht ▸ List.mem_map_of_mem (f := Prod.fst) hmem)
  simp [events] at hevent

theorem read_copy : Postcard.fromBytes (SignedRecord.codec signing)
    ((record true).encode signing) = some (record true) := by
  decide +kernel

/-- The events can follow each other. -/
theorem follows : net.Follows [] start events := by
  refine ⟨?configure, ?lookup, ?publish, ?prepare, ?prepared, ?put, ?ask, ?copy, ?get, ?value,
    ?finish, trivial⟩
  case configure =>
    refine ⟨trivial, nofun, nofun, fun _ => ⟨nofun, ?_⟩⟩
    rintro _ ⟨⟩
    simp [deployment]
  case lookup =>
    refine ⟨rfl, nofun, ?_, fun _ => ⟨nofun, nofun⟩⟩
    rintro _ ⟨⟩
    refine ⟨?_, ?_⟩
    · rintro ⟨n, e, out, hmem, htx⟩
      cases List.mem_singleton.mp hmem
      cases htx
    · intro p m hp hdec
      rw [sent_iff] at hp
      cases hp
  case publish =>
    refine ⟨trivial, nofun, ?_, fun _ => ⟨nofun, nofun⟩⟩
    rintro _ ⟨⟩
    refine ⟨?_, ?_⟩
    · rintro ⟨n, e, out, hmem, htx⟩
      obtain hmem | hmem := List.mem_append.mp hmem
      · cases List.mem_singleton.mp hmem
        cases htx
      · cases List.mem_singleton.mp hmem
        exact absurd htx (by decide)
    · intro p m hp hdec
      have hsent : (net.exec start (events.take 2)).1.flatMap
          (fun x => x.2.sent) = [get] := by
        decide +kernel
      obtain rfl := List.mem_singleton.mp (hsent ▸ sent_iff.mp hp)
      cases hdec.symm.trans decode_get
      decide
  case prepare =>
    exact ⟨rfl, sent_iff.mpr (by decide +kernel), rfl, socket_free⟩
  case prepared =>
    exact ⟨rfl, rfl, sent_iff.mpr (by decide +kernel)⟩
  case put =>
    exact ⟨rfl, sent_iff.mpr (by decide +kernel), rfl, socket_free⟩
  case ask =>
    refine ⟨rfl, ⟨fun m hm hpublished => ?_, fun m v hm hcarries => ?_⟩⟩
    · obtain rfl := Option.some.inj (decode_ask.symm.trans hm)
      exact absurd hpublished (not_published (n := 6) rfl)
    · obtain rfl := Option.some.inj (decode_ask.symm.trans hm)
      cases hcarries
  case copy =>
    refine ⟨rfl, ⟨fun m hm hpublished => ?_, fun m v hm hcarries => ?_⟩⟩
    · obtain rfl := Option.some.inj (decode_copy.symm.trans hm)
      exact absurd hpublished (not_published (n := 7) rfl)
    · obtain rfl := Option.some.inj (decode_copy.symm.trans hm)
      cases hcarries
      rintro r hread - -
      obtain rfl := Option.some.inj (read_copy.symm.trans hread)
      decide +kernel
  case get =>
    exact ⟨rfl, sent_iff.mpr (by decide +kernel), rfl, socket_free⟩
  case value =>
    exact ⟨rfl, rfl, sent_iff.mpr (by decide +kernel)⟩
  case finish =>
    refine ⟨?_, nofun, nofun, fun _ => ⟨nofun, nofun⟩⟩
    exact AddrIndex.enabled_of_found signing true (f := (socket, .ok [record true]))
      (by decide +kernel)

theorem run_deployment : net.Run run.1 run.2 := by
  have hstart : net.Run [] start :=
    .start ⟨fun _ => ⟨⟨_, rfl⟩, .inl rfl, fun _ => rfl⟩, fun _ => ⟨_, _, rfl⟩, rfl⟩
  exact hstart.follows follows

end Sample

/-- The endpoint publishes its record while its socket is looked up, and the record is found,
though there is a copy of it under another socket. -/
theorem record_binding_sample : ∃ t w, Sample.net.Run t w ∧ ∃ pre e out,
    t = pre ++ [(e, out)] ∧
      out.found = some (SignedRecord.Sample.socket, .ok [SignedRecord.Sample.record true]) ∧
      ((w.servers Sample.server).store.view Server.Sample.evil).map Prod.fst =
        some ((SignedRecord.Sample.record true).encode SignedRecord.Sample.signing) ∧
      Observed pre () SignedRecord.Sample.socket := by
  have ht := congrArg Prod.fst (Machine.exec_concat (M := Sample.net) Sample.start
    (Sample.events.take 10) (.index () (.finish () 0)))
  have hfound : (Sample.net.step
      (Sample.net.exec Sample.start (Sample.events.take 10)).2
      (.index () (.finish () 0))).2.found =
        some (SignedRecord.Sample.socket, .ok [SignedRecord.Sample.record true]) := by
    decide +kernel
  exact ⟨_, _, Sample.run_deployment, _, _, _, ht, hfound, by decide +kernel,
    record_binding Sample.deployment Sample.run_deployment ht hfound _ List.mem_cons_self rfl⟩

end Deployment

end ContentDiscovery
