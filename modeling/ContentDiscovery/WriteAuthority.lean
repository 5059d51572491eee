import ContentDiscovery.Amplification

/-!
# Who can write to an index server

A server on an open network. Honest owners sit behind their sockets; an attacker
sends anything from any source address, but receives only what is sent to the
sockets it controls. Datagrams are never taken off the wire, so they can be
delivered in any order, more than once, or not at all.

The hash of the tokens is symbolic: nobody sends a token that the server accepts
for some socket and bucket without having received it (`MaySend.unforged`), be it
in the token field of a response or inside a value.

`Authority` is the invariant. Tokens travel only from the server to the socket they
were made for, so a valid token on the wire was issued, and one that the attacker
has was issued to a socket it controls. There is one way around that: values are
public, and an owner that puts its token inside a value gives it away (`GivenAway`).
A client builds its values from addresses and never does.
-/

namespace ContentDiscovery

namespace Server

variable {F : Type} {P : Primitives} {limits : Limits F} {s s₀ s' : Server F}

/-! ## What a datagram does to the bindings -/

theorem Answered.frame {src : SocketAddrV4} {clock : Clock} {request : RequestV1}
    {o : Option ResponseV1} (h : Answered P s src clock request s' o) :
    s'.tokenFor P = s.tokenFor P ∧ s'.bucket = s.bucket := by
  cases h <;> exact ⟨rfl, rfl⟩

theorem Handled.frame {data : List UInt8} {src : SocketAddrV4} {clock : Clock}
    {sent : List Datagram} (h : Handled P s data src clock s' sent) :
    s'.tokenFor P = s.tokenFor P ∧ s'.bucket = s.bucket := by
  cases h with
  | ignored => exact ⟨rfl, rfl⟩
  | silent hdec hans => exact hans.frame
  | replied hdec hans hle hfit => exact hans.frame

/-- The datagram was a put that the server accepted. -/
structure Accepted (P : Primitives) (s : Server F) (data : List UInt8) (src : SocketAddrV4)
    (clock : Clock) (v : List UInt8) (sent : List Datagram) : Prop where
  /-- it is a put with a valid token -/
  request : ∃ tx token, Proto.decode data = some (.request (.v1 (.put tx token v))) ∧
    s.verifyToken P src token clock.unixSecs = true
  /-- it is confirmed -/
  confirmed : ∃ tx, sent = [⟨reply (.stored tx src), src⟩]

/-- A datagram leaves the bindings alone, but for the expired ones, unless it is
an accepted put, which writes one binding: that of its source. -/
theorem Inv.handled_view (hs : s.Inv limits) {data : List UInt8} {src : SocketAddrV4}
    {clock : Clock} {sent : List Datagram} (h : Handled P s data src clock s' sent) :
    (s'.store.view = s.store.view ∨ s'.store.view = s.store.view.expire clock.storeSecs) ∨
      ∃ v, Accepted P s data src clock v sent ∧ ∀ a b, s'.store.view a = some b →
        s.store.view a = some b ∨ a = src ∧ b.1 = v := by
  have hans {request : RequestV1} {o : Option ResponseV1}
      (hdec : Proto.decode data = some (.request (.v1 request)))
      (h : Answered P s src clock request s' o) :
      (s'.store.view = s.store.view ∨ s'.store.view = s.store.view.expire clock.storeSecs) ∨
        ∃ tx token v, request = .put tx token v ∧ o = some (.stored tx src) ∧
          s.verifyToken P src token clock.unixSecs = true ∧ ∀ a b, s'.store.view a = some b →
            s.store.view a = some b ∨ a = src ∧ b.1 = v := by
    cases h with
    | refused _ r => exact .inl (.inl rfl)
    | prepared _ _ r => exact .inl (.inl rfl)
    | rejected _ _ v r err hverify hput =>
      have hview := (Store.putOutcome hs.consistent (hs.limits_eq ▸ hs.bounded) src v
        clock.storeSecs).error err hput
      left; right
      show (s.store.put src v clock.storeSecs s.limits).1.view = _
      rw [hview, hs.consistent.view_gc]
    | stored tx token v r hverify hput =>
      have hspec := (Store.putOutcome hs.consistent (hs.limits_eq ▸ hs.bounded) src v
        clock.storeSecs).spec
      refine .inr ⟨tx, token, v, rfl, rfl, hverify, fun a b hb => ?_⟩
      rcases hspec.origin hb with h | ⟨rfl, rfl⟩
      · exact .inl (TimedMap.expire_eq_some.mp h).1
      · exact .inr ⟨rfl, rfl⟩
    | value _ addr r => exact .inl (.inr (hs.consistent.view_gc _))
  cases h with
  | ignored => exact .inl (.inl rfl)
  | silent hdec h =>
    rcases hans hdec h with h | ⟨_, _, _, _, ho, _⟩
    · exact .inl h
    · cases ho
  | replied hdec h hle hfit =>
    rcases hans hdec h with h | ⟨tx, token, v, rfl, ho, hverify, hview⟩
    · exact .inl h
    · obtain rfl := Option.some.inj ho
      exact .inr ⟨v, ⟨⟨tx, token, hdec, hverify⟩, ⟨tx, rfl⟩⟩, hview⟩

/-! ## The network -/

/-- Who puts a datagram on the wire. -/
inductive Party where
  /-- the attacker -/
  | attacker
  /-- the honest process behind a socket -/
  | owner (socket : SocketAddrV4)

/-- A datagram on its way to the server. -/
structure Packet where
  /-- who sent it -/
  sender : Party
  /-- the source address it carries -/
  src : SocketAddrV4
  /-- the payload -/
  data : List UInt8

/-- What can happen on the network. -/
inductive NetEvent where
  /-- a datagram is put on the wire -/
  | send (p : Packet)
  /-- a datagram on the wire reaches the server -/
  | deliver (p : Packet) (clock : Clock)

/-- What happened so far, with what the server sent. -/
abbrev NetHistory : Type := List (NetEvent × Except Panic (List Datagram))

/-- The server sent `d`. -/
def Sent (t : NetHistory) (d : Datagram) : Prop := ∃ e out, (e, Except.ok out) ∈ t ∧ d ∈ out

/-- The message shows the token, in its token field or inside its value. -/
inductive Reveals : Proto → Token → Prop
  /-- the token of a put -/
  | put (tx : TransactionId) (token : Token) (v : List UInt8) :
    Reveals (.request (.v1 (.put tx token v))) token
  /-- inside the value of a put -/
  | putValue {token : Token} (tx : TransactionId) (token' : Token) {v : List UInt8}
    (h : token.toList <:+: v) : Reveals (.request (.v1 (.put tx token' v))) token
  /-- the token of a response -/
  | prepared (tx : TransactionId) (addr : SocketAddrV4) (token : Token) :
    Reveals (.response (.v1 (.prepared tx addr token))) token
  /-- inside the value of a response -/
  | value {token : Token} (tx : TransactionId) (addr : SocketAddrV4) {v : List UInt8}
    (h : token.toList <:+: v) : Reveals (.response (.v1 (.value tx addr (some v)))) token

/-- What is sent to a socket is received by its owner, or by the attacker if it
controls the socket. -/
def Party.Receives (controlled : Set SocketAddrV4) : Party → SocketAddrV4 → Prop
  | .attacker, dest => dest ∈ controlled
  | .owner x, dest => dest = x

/-- The party was sent a response that shows the token. -/
def Learned (controlled : Set SocketAddrV4) (t : NetHistory) (q : Party) (token : Token) : Prop :=
  ∃ d m, Sent t d ∧ q.Receives controlled d.dest ∧ Proto.decode d.bytes = some m ∧
    Reveals m token

/-- What a party may put on the wire. -/
structure MaySend (P : Primitives) (s : Server F) (controlled : Set SocketAddrV4)
    (t : NetHistory) (p : Packet) : Prop where
  /-- an owner sends from its own socket, which the attacker does not control -/
  own : ∀ x, p.sender = .owner x → p.src = x ∧ x ∉ controlled
  /-- a token that is valid for some socket and bucket was learned -/
  unforged : ∀ m token a b, Proto.decode p.data = some m → Reveals m token →
    token = s.tokenFor P a b → Learned controlled t p.sender token

/-- Whoever has learned the token of a put may send it, with a value that shows no other. -/
theorem MaySend.put {t : NetHistory} {controlled : Set SocketAddrV4} {p : Packet}
    {tx : TransactionId} {token : Token} {v : List UInt8}
    (hdec : Proto.decode p.data = some (.request (.v1 (.put tx token v))))
    (hown : ∀ x, p.sender = .owner x → p.src = x ∧ x ∉ controlled)
    (hlearned : Learned controlled t p.sender token)
    (hvalue : ∀ w : Token, w.toList <:+: v → w = token) : MaySend P s controlled t p := by
  refine ⟨hown, fun m w a b hm hrev _ => ?_⟩
  obtain rfl := Option.some.inj (hdec.symm.trans hm)
  cases hrev with
  | put => exact hlearned
  | putValue _ _ h => rwa [hvalue w h]

/-- Other requests show no token. -/
theorem MaySend.of_not_put {t : NetHistory} {controlled : Set SocketAddrV4} {p : Packet}
    {request : RequestV1} (hdec : Proto.decode p.data = some (.request (.v1 request)))
    (hput : ∀ tx token v, request ≠ .put tx token v)
    (hown : ∀ x, p.sender = .owner x → p.src = x ∧ x ∉ controlled) :
    MaySend P s controlled t p := by
  refine ⟨hown, fun m w a b hm hrev _ => ?_⟩
  obtain rfl := Option.some.inj (hdec.symm.trans hm)
  cases hrev with
  | put => exact absurd rfl (hput _ _ _)
  | putValue => exact absurd rfl (hput _ _ _)

/-! ## The invariant -/

/-- The server sent the token to `a` in a `Prepared` while in bucket `b`. -/
def Issued (P : Primitives) (s₀ : Server F) (t : NetHistory) (a : SocketAddrV4) (token : Token)
    (b : UInt64) : Prop :=
  token = s₀.tokenFor P a b ∧ ∃ p clock out tx d, (NetEvent.deliver p clock, Except.ok out) ∈ t ∧
    d ∈ out ∧ d.dest = a ∧ Proto.decode d.bytes = some (.response (.v1 (.prepared tx a token))) ∧
    s₀.bucket clock.unixSecs = b

/-- The owner of `a` put its token for bucket `b` inside a value, where all can read it. -/
def GivenAway (P : Primitives) (s₀ : Server F) (t : NetHistory) (a : SocketAddrV4) (b : UInt64) :
    Prop :=
  ∃ p out tx token v, (NetEvent.send p, out) ∈ t ∧ p.sender = .owner a ∧
    Proto.decode p.data = some (.request (.v1 (.put tx token v))) ∧
    (s₀.tokenFor P a b).toList <:+: v

/-- The bucket of this time, or the one before it: a token for it is accepted. -/
def Current (s : Server F) (now b : UInt64) : Prop :=
  b = s.bucket now ∨ s.bucket now ≠ 0 ∧ b = s.bucket now - 1

/-- A put that was allowed to write `v`: its token was issued for its source in the
same or the preceding bucket, and a source that the attacker does not control is
the true one, unless its owner gave the token away. -/
structure Authorised (P : Primitives) (s₀ : Server F) (controlled : Set SocketAddrV4)
    (t : NetHistory) (p : Packet) (clock : Clock) (v : List UInt8) (b : UInt64) : Prop where
  /-- the token it carries was issued -/
  token : ∃ tx token, Proto.decode p.data = some (.request (.v1 (.put tx token v))) ∧
    Issued P s₀ t p.src token b
  /-- not long ago -/
  current : s₀.Current clock.unixSecs b
  /-- nobody else can have sent it -/
  sender : p.src ∉ controlled → p.sender = .owner p.src ∨ GivenAway P s₀ t p.src b

/-- The invariant of the network. -/
structure Authority (P : Primitives) (s₀ : Server F) (limits : Limits F)
    (controlled : Set SocketAddrV4) (t : NetHistory) (s : Server F) : Prop where
  /-- the server stays within its limits -/
  inv : s.Inv limits
  /-- tokens stay what they are -/
  frame : s.tokenFor P = s₀.tokenFor P ∧ s.bucket = s₀.bucket
  /-- owners are where they say they are -/
  own : ∀ p out x, (NetEvent.send p, out) ∈ t → p.sender = .owner x → p.src = x
  /-- valid tokens on the wire were issued, and those the attacker has to sockets it
  controls, or they were given away -/
  sent : ∀ p out m token a b, (NetEvent.send p, out) ∈ t → Proto.decode p.data = some m →
    Reveals m token → token = s₀.tokenFor P a b →
      Issued P s₀ t a token b ∧
        (p.sender = .attacker → a ∈ controlled ∨ GivenAway P s₀ t a b)
  /-- valid tokens in the values on the wire are the attacker's, or given away -/
  values : ∀ p out tx token v w a b, (NetEvent.send p, out) ∈ t →
    Proto.decode p.data = some (.request (.v1 (.put tx token v))) → w.toList <:+: v →
      w = s₀.tokenFor P a b → a ∈ controlled ∨ GivenAway P s₀ t a b
  /-- every binding was authorised -/
  stored : ∀ a v, s.store.view a = some v → ∃ pre p clock out post b,
    t = pre ++ (.deliver p clock, out) :: post ∧ p.src = a ∧
      (∃ o, (NetEvent.send p, o) ∈ pre) ∧ Authorised P s₀ controlled pre p clock v.1 b
  /-- valid tokens in responses were issued, to their destination or to the attacker, or
  they were given away -/
  disclosed : ∀ d m token a b, Sent t d → Proto.decode d.bytes = some m → Reveals m token →
    token = s₀.tokenFor P a b →
      Issued P s₀ t a token b ∧ (a = d.dest ∨ a ∈ controlled ∨ GivenAway P s₀ t a b)

theorem Issued.mono {t : NetHistory} {a : SocketAddrV4} {token : Token} {b : UInt64}
    (h : Issued P s₀ t a token b) (x : NetEvent × Except Panic (List Datagram)) :
    Issued P s₀ (t ++ [x]) a token b := by
  obtain ⟨htoken, p, clock, out, tx, d, hmem, h⟩ := h
  exact ⟨htoken, p, clock, out, tx, d, List.mem_append_left _ hmem, h⟩

theorem GivenAway.mono {t : NetHistory} {a : SocketAddrV4} {b : UInt64}
    (h : GivenAway P s₀ t a b) (t' : NetHistory) : GivenAway P s₀ (t ++ t') a b := by
  obtain ⟨p, out, tx, token, v, hmem, h⟩ := h
  exact ⟨p, out, tx, token, v, List.mem_append_left _ hmem, h⟩

variable {controlled : Set SocketAddrV4} {t : NetHistory}

/-- Putting a datagram on the wire keeps the invariant. -/
theorem Authority.send (h : Authority P s₀ limits controlled t s) {p : Packet}
    (hp : MaySend P s controlled t p) :
    Authority P s₀ limits controlled (t ++ [(.send p, .ok [])]) s where
  inv := h.inv
  frame := h.frame
  own q out x hq hx := by
    rcases List.mem_append.mp hq with hq | hq
    · exact h.own q out x hq hx
    · obtain ⟨⟨⟩, -⟩ := Prod.mk.inj (List.mem_singleton.mp hq)
      exact (hp.own x hx).1
  sent q out m token a b hq hdec hrev htoken := by
    rcases List.mem_append.mp hq with hq | hq
    · obtain ⟨hissued, hattacker⟩ := h.sent q out m token a b hq hdec hrev htoken
      exact ⟨hissued.mono _, fun hsender => (hattacker hsender).imp_right (·.mono _)⟩
    · obtain ⟨⟨⟩, -⟩ := Prod.mk.inj (List.mem_singleton.mp hq)
      -- a party only sends what it learned, and what it learned was issued
      obtain ⟨d, m', hsent, hrecv, hdec', hrev'⟩ :=
        hp.unforged m token a b hdec hrev (h.frame.1 ▸ htoken)
      obtain ⟨hissued, ha⟩ := h.disclosed d m' token a b hsent hdec' hrev' htoken
      refine ⟨hissued.mono _, fun hattacker => ?_⟩
      rw [hattacker] at hrecv
      rcases ha with rfl | ha
      · exact .inl hrecv
      · exact ha.imp_right (·.mono _)
  values q out tx token v w a b hq hdec hw htoken := by
    rcases List.mem_append.mp hq with hq | hq
    · exact (h.values q out tx token v w a b hq hdec hw htoken).imp_right (·.mono _)
    · obtain ⟨⟨⟩, -⟩ := Prod.mk.inj (List.mem_singleton.mp hq)
      obtain ⟨d, m', hsent, hrecv, hdec', hrev'⟩ :=
        hp.unforged _ w a b hdec (.putValue tx token hw) (h.frame.1 ▸ htoken)
      rcases (h.disclosed d m' w a b hsent hdec' hrev' htoken).2 with rfl | ha
      · cases hsender : p.sender with
        | owner x =>
          -- whoever puts its own token inside a value gives it away
          rw [hsender] at hrecv
          obtain rfl : d.dest = x := hrecv
          exact .inr ⟨p, _, tx, token, v, List.mem_append_right _ (List.mem_singleton_self _),
            hsender, hdec, htoken ▸ hw⟩
        | attacker =>
          rw [hsender] at hrecv
          exact .inl hrecv
      · exact ha.imp_right (·.mono _)
  stored a v hv := by
    obtain ⟨pre, q, clock, out, post, b, rfl, hq⟩ := h.stored a v hv
    exact ⟨pre, q, clock, out, post ++ [(.send p, .ok [])], b, by simp, hq⟩
  disclosed d m token a b hd hdec hrev htoken := by
    have hd : Sent t d := by
      obtain ⟨e, out, hmem, hout⟩ := hd
      rcases List.mem_append.mp hmem with hmem | hmem
      · exact ⟨e, out, hmem, hout⟩
      · obtain ⟨-, ⟨⟩⟩ := Prod.mk.inj (List.mem_singleton.mp hmem)
        cases hout
    obtain ⟨hissued, ha⟩ := h.disclosed d m token a b hd hdec hrev htoken
    exact ⟨hissued.mono _, ha.imp_right (·.imp_right (·.mono _))⟩

/-- The authentication of the tokens as the attacker sees it: no two inputs share a
token. -/
def MacInjective (P : Primitives) (key : List.Vector UInt8 32) : Prop :=
  Set.InjOn (fun input => (P.keyedHash key input).take 16)
    {input | ∃ a b, input = tokenInput a b}

theorem MacInjective.tokenFor_inj (hmac : MacInjective P s.tokenKey) {a a' : SocketAddrV4}
    {b b' : UInt64} (h : s.tokenFor P a b = s.tokenFor P a' b') : a = a' ∧ b = b' :=
  tokenInput_inj (hmac ⟨a, b, rfl⟩ ⟨a', b', rfl⟩ h)

/-- What a response to a request shows is a token for its destination, or sits in a
value that the store holds. -/
theorem Answered.reveals (hs : s.Inv limits) {src : SocketAddrV4} {clock : Clock}
    {request : RequestV1} {response : ResponseV1}
    (h : Answered P s src clock request s' (some response)) {token : Token}
    (hrev : Reveals (.response (.v1 response)) token) :
    (∃ tx, response = .prepared tx src token ∧
        token = s.tokenFor P src (s.bucket clock.unixSecs)) ∨
      ∃ addr b, s.store.view addr = some b ∧ token.toList <:+: b.1 := by
  cases h with
  | prepared tx pad r =>
    cases hrev
    exact .inl ⟨tx, rfl, rfl⟩
  | stored => cases hrev
  | value tx addr r =>
    rcases hv : (s.store.get addr clock.storeSecs).2 with _ | v
    · rw [hv] at hrev
      cases hrev
    · rw [hv] at hrev
      obtain ⟨exp, hview, -⟩ := hs.consistent.get_eq_some.mp hv
      cases hrev with
      | value _ _ hinfix => exact .inr ⟨addr, _, hview, hinfix⟩

/-- A put that the server accepts was authorised. -/
theorem Authority.authorised (h : Authority P s₀ limits controlled t s) {p : Packet}
    {clock : Clock} (hwire : ∃ out, (.send p, out) ∈ t) {v : List UInt8} {sent : List Datagram}
    (hacc : Accepted P s p.data p.src clock v sent) :
    ∃ b, Authorised P s₀ controlled t p clock v b := by
  obtain ⟨out, hout⟩ := hwire
  obtain ⟨tx, token, hdec, hverify⟩ := hacc.request
  obtain ⟨bucket, htoken, hbucket⟩ := (s.verifyToken_iff P).mp hverify
  rw [h.frame.1] at htoken
  rw [h.frame.2] at hbucket
  obtain ⟨hissued, hattacker⟩ := h.sent p out _ token _ bucket hout hdec (.put ..) htoken
  refine ⟨bucket, ⟨tx, token, hdec, hissued⟩, hbucket, fun hfree => ?_⟩
  cases hsender : p.sender with
  | attacker => exact .inr ((hattacker hsender).resolve_left hfree)
  | owner x => exact .inl (by rw [h.own p out x hout hsender])

/-- A delivery sends nothing on behalf of a party. -/
theorem mem_of_mem_deliver {p q : Packet} {clock : Clock} {out out' : Except Panic (List Datagram)}
    (h : (NetEvent.send q, out) ∈ t ++ [(.deliver p clock, out')]) :
    (NetEvent.send q, out) ∈ t := by
  rcases List.mem_append.mp h with h | h
  · exact h
  · cases List.mem_singleton.mp h

/-- The delivery of a datagram keeps the invariant. -/
theorem Authority.deliver (hmac : MacInjective P s₀.tokenKey)
    (h : Authority P s₀ limits controlled t s) {p : Packet} {clock : Clock}
    (hwire : ∃ out, (.send p, out) ∈ t) {sent : List Datagram}
    (hhandled : Handled P s p.data p.src clock s' sent) :
    Authority P s₀ limits controlled (t ++ [(.deliver p clock, .ok sent)]) s' where
  inv := h.inv.handled_inv hhandled
  frame := ⟨hhandled.frame.1.trans h.frame.1, hhandled.frame.2.trans h.frame.2⟩
  own q out x hq hx := h.own q out x (mem_of_mem_deliver hq) hx
  sent q out m token a b hq hdec hrev htoken := by
    obtain ⟨hissued, hattacker⟩ :=
      h.sent q out m token a b (mem_of_mem_deliver hq) hdec hrev htoken
    exact ⟨hissued.mono _, fun hsender => (hattacker hsender).imp_right (·.mono _)⟩
  values q out tx token v w a b hq hdec hw htoken := by
    have hwas := h.values q out tx token v w a b (mem_of_mem_deliver hq) hdec hw htoken
    exact hwas.imp_right (·.mono _)
  stored a v hv := by
    have hold (hv : s.store.view a = some v) : ∃ pre q clock' out post b,
        t ++ [(.deliver p clock, .ok sent)] = pre ++ (NetEvent.deliver q clock', out) :: post ∧
          q.src = a ∧ (∃ o, (NetEvent.send q, o) ∈ pre) ∧
            Authorised P s₀ controlled pre q clock' v.1 b := by
      obtain ⟨pre, q, clock', out, post, b, rfl, hq⟩ := h.stored a v hv
      exact ⟨pre, q, clock', out, post ++ [(.deliver p clock, .ok sent)], b, by simp, hq⟩
    rcases h.inv.handled_view hhandled with (hview | hview) | ⟨w, hacc, hview⟩
    · exact hold (hview ▸ hv)
    · rw [hview] at hv
      exact hold (TimedMap.expire_eq_some.mp hv).1
    rcases hview a v hv with hv | ⟨rfl, rfl⟩
    · exact hold hv
    obtain ⟨b, hauth⟩ := h.authorised hwire hacc
    exact ⟨t, p, clock, _, [], b, rfl, rfl, hwire, hauth⟩
  disclosed d m token a b hd hdec hrev htoken := by
    obtain ⟨e, out, hmem, hout⟩ := hd
    rcases List.mem_append.mp hmem with hmem | hmem
    · obtain ⟨hissued, ha⟩ := h.disclosed d m token a b ⟨e, out, hmem, hout⟩ hdec hrev htoken
      exact ⟨hissued.mono _, ha.imp_right (·.imp_right (·.mono _))⟩
    cases List.mem_singleton.mp hmem
    cases hhandled with
    | ignored | silent => cases hout
    | @replied request _ response hreq hans hle hfit =>
      obtain rfl := List.mem_singleton.mp hout
      rw [decode_reply hfit] at hdec
      obtain rfl := Option.some.inj hdec
      rcases hans.reveals h.inv hrev with ⟨tx, rfl, hmade⟩ | ⟨addr, b', hview, hinfix⟩
      · -- the server made the token for the destination just now
        rw [h.frame.1, h.frame.2] at hmade
        obtain ⟨rfl, rfl⟩ := hmac.tokenFor_inj (htoken.symm.trans hmade)
        exact ⟨⟨htoken, p, clock, _, tx, _, List.mem_append_right _ (List.mem_singleton_self _),
          List.mem_singleton_self _, rfl, decode_reply hfit, rfl⟩, .inl rfl⟩
      · -- the token came out of a value, which was on the wire once
        obtain ⟨pre, q, clock', out', post, _, rfl, -, ⟨o, hq⟩, hauth⟩ := h.stored addr b' hview
        obtain ⟨tx, token', hdecq, -⟩ := hauth.token
        have hwireq : (NetEvent.send q, o) ∈ pre ++ (.deliver q clock', out') :: post :=
          List.mem_append_left _ hq
        exact ⟨(h.sent q o _ token a b hwireq hdecq (.putValue tx token' hinfix) htoken).1.mono _,
          .inr ((h.values q o tx token' b'.1 token a b hwireq hdecq hinfix htoken).imp_right
            (·.mono _))⟩

/-! ## Runs -/

variable [FloatArith F]

/-- The server `s₀` on a network where the attacker controls some sockets. -/
def network (P : Primitives) (s₀ : Server F) (controlled : Set SocketAddrV4) :
    Machine (Server F) NetEvent (Except Panic (List Datagram)) where
  init s := s = s₀
  enabled t s
    | .send p => MaySend P s controlled t p
    | .deliver p _ => ∃ out, (.send p, out) ∈ t
  step s
    | .send _ => (s, .ok [])
    | .deliver p clock =>
      match s.handlePacket P p.data p.src clock with
      | .error e => (s, .error e)
      | .ok (s', sent) => (s', .ok sent)

theorem authority_run {key : List.Vector UInt8 32} {created : Instant}
    (hmac : MacInjective P key)
    (h : (network P (new limits key created) controlled).Run t s) :
    Authority P (new limits key created) limits controlled t s := by
  refine h.invariant (I := fun t s => Authority P (new limits key created) limits controlled t s)
    ?_ ?_
  · rintro s rfl
    exact {
      inv := inv_new limits key created
      frame := ⟨rfl, rfl⟩
      own := fun _ _ _ h => nomatch h
      sent := fun _ _ _ _ _ _ h => nomatch h
      values := fun _ _ _ _ _ _ _ _ h => nomatch h
      stored := fun _ _ h => nomatch h
      disclosed := fun _ _ _ _ _ ⟨_, _, h, _⟩ => nomatch h }
  · intro t s e _ hen h
    cases e with
    | send p => exact h.send hen
    | deliver p clock =>
      obtain ⟨s', sent, hstep, hhandled⟩ := h.inv.handled (P := P) p.data p.src clock
      simp only [network, hstep]
      exact h.deliver hmac hen hhandled

/-- **Write authority.** On a network with an attacker, with tokens that cannot be
forged: a binding of `a` is the value of a put from `a` whose token the server issued
to `a` in the same or the preceding bucket. That put came from the owner of `a`, and
a datagram of the attacker writes no binding of `a`, unless the attacker controls `a`
or the owner gave the token away. Any datagram but an accepted put at most removes
the expired bindings. -/
theorem write_authority (P : Primitives) (limits : Limits F) (key : List.Vector UInt8 32)
    (created : Instant) (controlled : Set SocketAddrV4) (hmac : MacInjective P key)
    {t : NetHistory} {s : Server F}
    (h : (network P (new limits key created) controlled).Run t s) :
    (∀ a v exp, s.store.view a = some (v, exp) → ∃ pre p clock out post b,
      t = pre ++ (.deliver p clock, out) :: post ∧ p.src = a ∧
        Authorised P (new limits key created) controlled pre p clock v b) ∧
    (∀ p clock, (network P (new limits key created) controlled).enabled t s (.deliver p clock) →
      p.sender = .attacker → ∀ a ∉ controlled,
        (∀ b, Current (new limits key created) clock.unixSecs b →
          ¬ GivenAway P (new limits key created) t a b) →
        ∀ v, ((network P (new limits key created) controlled).step s
          (.deliver p clock)).1.store.view a = some v → s.store.view a = some v) ∧
    ∀ data src clock s' sent, s.handlePacket P data src clock = .ok (s', sent) →
      (∀ tx token v, Proto.decode data = some (.request (.v1 (.put tx token v))) → sent = []) →
        s'.store.view = s.store.view ∨
          s'.store.view = s.store.view.expire clock.storeSecs := by
  have hauth := authority_run hmac h
  refine ⟨fun a v exp hv => ?_, fun p clock hen hattacker a ha hkept v hv => ?_, ?_⟩
  · obtain ⟨pre, p, clock, out, post, b, ht, hsrc, -, hp⟩ := hauth.stored a _ hv
    exact ⟨pre, p, clock, out, post, b, ht, hsrc, hp⟩
  · obtain ⟨s', sent, hstep, hhandled⟩ := hauth.inv.handled (P := P) p.data p.src clock
    simp only [network, hstep] at hv
    rcases hauth.inv.handled_view hhandled with (hview | hview) | ⟨w, hacc, hview⟩
    · exact hview ▸ hv
    · rw [hview] at hv
      exact (TimedMap.expire_eq_some.mp hv).1
    rcases hview a v hv with hv | ⟨rfl, -⟩
    · exact hv
    · -- an accepted put from a free socket is its owner's
      obtain ⟨b, hput⟩ := hauth.authorised hen hacc
      rcases hput.sender ha with howner | hgiven
      · rw [hattacker] at howner
        cases howner
      · exact absurd hgiven (hkept b hput.current)
  · intro data src clock s' sent hstep hsent
    obtain ⟨s'', sent', hstep', hhandled⟩ := hauth.inv.handled (P := P) data src clock
    obtain ⟨rfl, rfl⟩ := Prod.mk.inj (Except.ok.inj (hstep.symm.trans hstep'))
    rcases hauth.inv.handled_view hhandled with hview | ⟨v, hacc, -⟩
    · exact hview
    · obtain ⟨tx, token, hdec, -⟩ := hacc.request
      obtain ⟨tx', hconfirmed⟩ := hacc.confirmed
      rw [hsent tx token v hdec] at hconfirmed
      cases hconfirmed

/-! ## Sample runs -/

namespace Sample

/-- A socket that writes its own binding. -/
def socket : SocketAddrV4 := ⟨⟨192, 0, 2, 1⟩, 4433⟩

/-- A socket of the attacker. -/
def evil : SocketAddrV4 := ⟨⟨198, 51, 100, 7⟩, 6881⟩

/-- The key of the sampled server. -/
def key : List.Vector UInt8 32 := .replicate 32 0

/-- The keyed BLAKE3 hash of the socket in bucket 56666667. -/
def hash : List.Vector UInt8 32 :=
  ⟨[249, 69, 48, 99, 253, 236, 76, 157, 201, 219, 67, 92, 229, 193, 95, 6, 44, 104, 19, 189, 245,
    41, 204, 17, 189, 115, 32, 252, 73, 151, 87, 158], rfl⟩

/-- The hash at the sampled input; elsewhere the end of the input stands for it. -/
def primitives : Primitives where
  keyedHash _ input :=
    if input = tokenInput socket 56666667 then hash
    else ⟨(input.reverse ++ List.replicate 32 0).take 32, by simp⟩
  hashIp _ := 0

/-- Every call of the sample reads the same time, in bucket 56666667. -/
def clock : Clock := ⟨1700000010, 1700000010, 0, 0⟩

/-- The token of the socket. -/
def token : Token := hash.take 16

/-- The token that the attacker gets. -/
def evilToken : Token := (primitives.keyedHash key (tokenInput evil 56666667)).take 16

/-- The datagram of a request. -/
def packet (sender : Party) (src : SocketAddrV4) (request : RequestV1) : Packet :=
  ⟨sender, src, (Proto.encode (.request (.v1 request)) (.replicate _ 0)).getD []⟩

/-- The socket asks for a token. -/
def prepare : Packet := packet (.owner socket) socket (.prepare 1 (.replicate 24 0))

/-- The socket writes a value. -/
def put : Packet := packet (.owner socket) socket (.put 1 token [7])

/-- The socket writes its own token. -/
def giveAway : Packet := packet (.owner socket) socket (.put 1 token token.toList)

/-- The attacker asks for a token. -/
def ask : Packet := packet .attacker evil (.prepare 2 (.replicate 24 0))

/-- The attacker reads the binding of the socket. -/
def get : Packet := packet .attacker evil (.get 3 socket)

/-- The attacker writes in the name of the socket, with its own token. -/
def spoof : Packet := packet .attacker socket (.put 4 evilToken [9])

/-- The attacker writes in the name of the socket, with the token of the socket. -/
def takeOver : Packet := packet .attacker socket (.put 4 token [9])

/-- The network of the samples. -/
def net : Machine (Server (Option ℚ)) NetEvent (Except Panic (List Datagram)) :=
  network primitives (new .default key 0) {evil}

/-- The socket gets its token. -/
def opening : List NetEvent := [.send prepare, .deliver prepare clock]

/-- The attacker tries what it can. -/
def tries : List NetEvent :=
  [.send ask, .deliver ask clock, .send get, .deliver get clock, .send spoof]

/-- The socket writes before that. -/
def attack : List NetEvent := .send put :: .deliver put clock :: tries

/-- The socket gives its token away, and the attacker reads it. -/
def gift : List NetEvent :=
  [.send giveAway, .deliver giveAway clock, .send get, .deliver get clock, .send takeOver]

/-- The opening. -/
def opened : NetHistory × Server (Option ℚ) := net.exec (new .default key 0) opening

/-- What follows it. -/
def run (events : List NetEvent) : NetHistory × Server (Option ℚ) := net.exec opened.2 events

theorem toList_keyedHash {tail : List UInt8} (h : tail.length = 14)
    (hne : TOKEN_DOMAIN ++ tail ≠ tokenInput socket 56666667) :
    ((primitives.keyedHash key (TOKEN_DOMAIN ++ tail)).take 16).toList =
      tail.reverse ++ [49, 118] := by
  have htail : tail.reverse.length = 14 := by rw [List.length_reverse, h]
  have hecho : primitives.keyedHash key (TOKEN_DOMAIN ++ tail) = ⟨_, _⟩ := if_neg hne
  rw [hecho]
  show (List.take 32 _).take 16 = _
  rw [List.take_take, List.reverse_append, List.append_assoc, List.take_append, htail,
    List.take_of_length_le (by rw [htail]; decide)]
  rfl

theorem toList_hash_ne {tail : List UInt8} (h : tail.length = 14) :
    (hash.take 16).toList ≠ tail.reverse ++ [49, 118] := by
  intro heq
  have hlast : ([95, 6] : List UInt8) = [49, 118] := calc
    [95, 6] = (hash.take 16).toList.drop 14 := rfl
    _ = (tail.reverse ++ [49, 118]).drop 14 := by rw [heq]
    _ = [49, 118] := List.drop_left' (by rw [List.length_reverse, h])
  exact absurd hlast (by decide)

theorem macInjective : MacInjective primitives key := by
  have hsplit (a : SocketAddrV4) (b : UInt64) :
      ∃ tail : List UInt8, tail.length = 14 ∧ tokenInput a b = TOKEN_DOMAIN ++ tail :=
    ⟨_, by simp [length_toBeBytes], rfl⟩
  have hat : primitives.keyedHash key (tokenInput socket 56666667) = hash := by
    decide +kernel
  rintro x ⟨a, b, rfl⟩ y ⟨a', b', rfl⟩ h
  obtain ⟨tail, hlen, htail⟩ := hsplit a b
  obtain ⟨tail', hlen', htail'⟩ := hsplit a' b'
  have h : ((primitives.keyedHash key (tokenInput a b)).take 16).toList =
      ((primitives.keyedHash key (tokenInput a' b')).take 16).toList :=
    congrArg List.Vector.toList h
  by_cases h₁ : tokenInput a b = tokenInput socket 56666667
  · by_cases h₂ : tokenInput a' b' = tokenInput socket 56666667
    · rw [h₁, h₂]
    · rw [h₁, hat, htail', toList_keyedHash hlen' (htail' ▸ h₂)] at h
      exact absurd h (toList_hash_ne hlen')
  · by_cases h₂ : tokenInput a' b' = tokenInput socket 56666667
    · rw [h₂, hat, htail, toList_keyedHash hlen (htail ▸ h₁)] at h
      exact absurd h.symm (toList_hash_ne hlen)
    · rw [htail, htail', toList_keyedHash hlen (htail ▸ h₁),
        toList_keyedHash hlen' (htail' ▸ h₂)] at h
      rw [htail, htail', List.reverse_injective (List.append_cancel_right h)]

/-- The server receives a request as it was made. -/
theorem decode_packet {sender : Party} {src : SocketAddrV4} {request : RequestV1}
    (hput : ∀ tx token v, request = .put tx token v → v.length ≤ MAX_VALUE_LEN) :
    Proto.decode (packet sender src request).data = some (.request (.v1 request)) := by
  simp only [packet, Proto.decode_request hput]

theorem decode_prepare :
    Proto.decode prepare.data = some (.request (.v1 (.prepare 1 (.replicate 24 0)))) :=
  decode_packet nofun

theorem decode_put : Proto.decode put.data = some (.request (.v1 (.put 1 token [7]))) :=
  decode_packet (by rintro _ _ _ ⟨⟩; decide)

theorem decode_giveAway :
    Proto.decode giveAway.data = some (.request (.v1 (.put 1 token token.toList))) :=
  decode_packet (by rintro _ _ _ ⟨⟩; decide)

theorem decode_ask :
    Proto.decode ask.data = some (.request (.v1 (.prepare 2 (.replicate 24 0)))) :=
  decode_packet nofun

theorem decode_get : Proto.decode get.data = some (.request (.v1 (.get 3 socket))) :=
  decode_packet nofun

theorem decode_spoof : Proto.decode spoof.data = some (.request (.v1 (.put 4 evilToken [9]))) :=
  decode_packet (by rintro _ _ _ ⟨⟩; decide)

theorem decode_takeOver :
    Proto.decode takeOver.data = some (.request (.v1 (.put 4 token [9]))) :=
  decode_packet (by rintro _ _ _ ⟨⟩; decide)

theorem socket_free : socket ∉ ({evil} : Set SocketAddrV4) := by
  rw [Set.mem_singleton_iff]
  decide

/-- A value of one byte is too short to hold a token. -/
theorem not_infix {w : Token} {x : UInt8} : ¬ w.toList <:+: [x] := by
  intro h
  have hle := h.length_le
  rw [List.Vector.toList_length, List.length_singleton] at hle
  exact absurd hle (by decide)

theorem owner_prepare (x : SocketAddrV4) (h : prepare.sender = .owner x) :
    prepare.src = x ∧ x ∉ ({evil} : Set SocketAddrV4) := by
  obtain rfl := Party.owner.inj h
  exact ⟨rfl, socket_free⟩

/-- A response of the server to a socket shows its token. -/
theorem learned (dest : SocketAddrV4) (tx : TransactionId) (e : NetEvent) {t : NetHistory}
    {q : Party} {w : Token}
    (hmem : (e, .ok [⟨reply (.prepared tx dest w), dest⟩]) ∈ t) (hq : q.Receives {evil} dest)
    (hfit : (reply (.prepared tx dest w)).length ≤ MAX_DGRAM) : Learned {evil} t q w :=
  ⟨_, _, ⟨e, _, hmem, List.mem_singleton_self _⟩, hq, decode_reply hfit, .prepared ..⟩

/-- The socket got its token. -/
theorem learned_opened (t : NetHistory) : Learned {evil} (opened.1 ++ t) (.owner socket) token := by
  refine learned socket 1 (.deliver prepare clock) ?_ rfl (by decide +kernel)
  refine List.mem_append_left _ (List.mem_cons_of_mem _ (List.mem_cons.mpr (.inl (congrArg _ ?_))))
  decide +kernel

theorem run_opened : net.Run opened.1 opened.2 := by
  have hstart : net.Run [] (new .default key 0) := .start rfl
  have hopening : net.Follows [] (new .default key 0) opening :=
    ⟨.of_not_put decode_prepare nofun owner_prepare, ⟨_, List.mem_cons_self⟩, trivial⟩
  exact hstart.follows hopening

/-- The attack is a run of the network. -/
theorem run_attack : net.Run (opened.1 ++ (run attack).1) (run attack).2 := by
  refine run_opened.follows ⟨?put, ?store, ?ask, ?answer, ?get, ?value, ?spoof, trivial⟩
  case put =>
    have hlearned := learned_opened []
    rw [List.append_nil] at hlearned
    exact .put decode_put owner_prepare hlearned fun w hw => absurd hw not_infix
  case store => exact ⟨_, List.mem_append_right _ List.mem_cons_self⟩
  case ask => exact .of_not_put decode_ask nofun nofun
  case answer => exact ⟨_, List.mem_append_right _ List.mem_cons_self⟩
  case get => exact .of_not_put decode_get nofun nofun
  case value => exact ⟨_, List.mem_append_right _ List.mem_cons_self⟩
  case spoof =>
    refine .put decode_spoof nofun ?_ fun w hw => absurd hw not_infix
    refine learned evil 2 (.deliver ask clock) ?_ (Set.mem_singleton evil) (by decide +kernel)
    refine List.mem_append_left _ (List.mem_append_left _ (List.mem_append_right _
      (List.mem_singleton.mpr (congrArg _ ?_))))
    decide +kernel

/-- The gift is a run of the network. -/
theorem run_gift : net.Run (opened.1 ++ (run gift).1) (run gift).2 := by
  refine run_opened.follows ⟨?put, ?store, ?get, ?value, ?takeOver, trivial⟩
  case put =>
    have hlearned := learned_opened []
    rw [List.append_nil] at hlearned
    refine .put decode_giveAway owner_prepare hlearned fun w hw => ?_
    refine List.Vector.toList_injective (hw.sublist.eq_of_length ?_)
    rw [List.Vector.toList_length, List.Vector.toList_length]
  case store => exact ⟨_, List.mem_append_right _ List.mem_cons_self⟩
  case get => exact .of_not_put decode_get nofun nofun
  case value => exact ⟨_, List.mem_append_right _ List.mem_cons_self⟩
  case takeOver =>
    refine .put decode_takeOver nofun ?_ fun w hw => absurd hw not_infix
    refine ⟨⟨reply (.value 3 socket (some token.toList)), evil⟩, _,
      ⟨.deliver get clock, [_], List.mem_append_right _ (List.mem_singleton.mpr (congrArg _ ?_)),
        List.mem_singleton_self _⟩, Set.mem_singleton evil,
      decode_reply (by decide +kernel), .value 3 socket List.infix_rfl⟩
    decide +kernel

/-- The socket keeps its tokens in the attack. -/
theorem not_givenAway (b : UInt64) :
    ¬ GivenAway primitives (new .default key 0) (opened.1 ++ (run attack).1) socket b := by
  rintro ⟨p, out, tx, w, v, hmem, hsender, hdec, hinfix⟩
  have hevent : NetEvent.send p ∈ opening ++ attack := List.mem_map_of_mem (f := Prod.fst) hmem
  simp only [opening, attack, tries, List.cons_append, List.nil_append, List.mem_cons, reduceCtorEq,
    NetEvent.send.injEq, List.not_mem_nil, or_false, false_or] at hevent
  rcases hevent with rfl | rfl | rfl | rfl | rfl
  · rw [decode_prepare] at hdec
    cases hdec
  · rw [decode_put] at hdec
    cases hdec
    exact not_infix hinfix
  · cases hsender
  · cases hsender
  · cases hsender

end Sample

open Sample in
/-- The attacker asks for a token of its own, reads the binding of the socket and writes in
its name: the binding stays as the socket wrote it. -/
theorem write_authority_sample :
    ∃ t s, (network primitives (new .default key 0) {evil}).Run t s ∧
      (network primitives (new .default key 0) {evil}).enabled t s (.deliver spoof clock) ∧
      s.store.view socket = some ([7], 1700003610) ∧
      (∃ pre p clock out post b, t = pre ++ (.deliver p clock, out) :: post ∧ p.src = socket ∧
        Authorised primitives (new .default key 0) {evil} pre p clock [7] b) ∧
      ∀ v, ((network primitives (new .default key 0) {evil}).step s
        (.deliver spoof clock)).1.store.view socket = some v → v = ([7], 1700003610) := by
  have hview : (run attack).2.store.view socket = some ([7], 1700003610) := by
    decide +kernel
  have hwire : net.enabled (opened.1 ++ (run attack).1) (run attack).2 (.deliver spoof clock) :=
    ⟨_, List.mem_of_getLast? rfl⟩
  have hauth := write_authority primitives .default key 0 {evil} macInjective run_attack
  refine ⟨_, _, run_attack, hwire, hview, hauth.1 _ _ _ hview, fun v hv => ?_⟩
  have hkept := hauth.2.1 spoof clock hwire rfl socket socket_free (fun b _ => not_givenAway b) v hv
  exact Option.some.inj (hkept.symm.trans hview)

open Sample in
/-- A socket that puts its own token inside a value is written over by the attacker, who reads
the token there. -/
theorem token_given_away :
    MacInjective primitives key ∧ socket ∉ ({evil} : Set SocketAddrV4) ∧
    ∃ t s, (network primitives (new .default key 0) {evil}).Run t s ∧
      (network primitives (new .default key 0) {evil}).enabled t s (.deliver takeOver clock) ∧
      takeOver.sender = .attacker ∧
      s.store.view socket = some (token.toList, 1700003610) ∧
      ((network primitives (new .default key 0) {evil}).step s
        (.deliver takeOver clock)).1.store.view socket = some ([9], 1700003610) := by
  refine ⟨macInjective, socket_free, _, _, run_gift, ⟨_, List.mem_of_getLast? rfl⟩, rfl, ?_, ?_⟩
  · decide +kernel
  · decide +kernel

end Server

end ContentDiscovery
