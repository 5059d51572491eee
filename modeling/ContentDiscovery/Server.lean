import ContentDiscovery.BigEndian
import ContentDiscovery.Machine
import ContentDiscovery.RateLimit
import ContentDiscovery.StoreRefine

/-!
# The index server

`udp-addr-index/src/lib.rs` and the request handler of
`udp-addr-index/src/udp.rs`. The keyed hash and the hasher of the limiter are
functions the server is given; a call's clock readings are part of its input.

`handlePacket_cases` is the shape every later argument uses: a datagram that is not
a version-one request changes nothing, and a request is answered by `answer` with
at most one response to its sender. `Answered` lists what `answer` can do.
-/

namespace ContentDiscovery

/-- Functions from outside the repository. -/
structure Primitives where
  /-- `blake3::keyed_hash` -/
  keyedHash : List.Vector UInt8 32 → List UInt8 → List.Vector UInt8 32
  /-- the hash that `DefaultHasher` gives an address -/
  hashIp : IpAddr → UInt64

/-- The clock readings of one call, in the order the call makes them. -/
structure Clock where
  /-- `unix_secs`, read for the token -/
  unixSecs : UInt64
  /-- `unix_secs`, read again for the store -/
  storeSecs : UInt64
  /-- `Instant::now`, read to start a fresh bucket -/
  started : Instant
  /-- `Instant::now`, read to take a token -/
  now : Instant

/-- The one place where the handler can panic. -/
inductive Panic where
  /-- `expect("bounded response")` -/
  | boundedResponse
  deriving DecidableEq

/-- `TOKEN_DOMAIN`, `b"udp-addr-index-token-v1"`. -/
def TOKEN_DOMAIN : List UInt8 :=
  [117, 100, 112, 45, 97, 100, 100, 114, 45, 105, 110, 100, 101, 120, 45, 116, 111, 107, 101, 110,
    45, 118, 49]

/-- `Server`: in-memory address index server. Metrics are left out: no operation
reads them. -/
structure Server (F : Type) where
  /-- the store -/
  store : Store
  /-- the configured limits -/
  limits : Limits F
  /-- the request limiter -/
  rate : RateLimiters F
  /-- the key of the write tokens -/
  tokenKey : List.Vector UInt8 32

namespace Server

variable {F : Type} [FloatArith F]

/-- `Server::new`, with the key it drew and the time it was created. -/
def new (limits : Limits F) (tokenKey : List.Vector UInt8 32) (now : Instant) : Server F :=
  ⟨.new, limits, .new now, tokenKey⟩

variable (P : Primitives) (s : Server F)

/-- `Server::put_local`: stores bytes directly, bypassing token validation. -/
def putLocal (addr : SocketAddrV4) (value : List UInt8) (now : UInt64) :
    Server F × Except PutError Unit :=
  let r := s.store.put addr value now s.limits
  ({ s with store := r.1 }, r.2)

/-- `Server::get_local`: reads a live value directly. -/
def getLocal (addr : SocketAddrV4) (now : UInt64) : Server F × Option (List UInt8) :=
  let r := s.store.get addr now
  ({ s with store := r.1 }, r.2)

omit [FloatArith F] in
/-- `Server::bucket`. -/
def bucket (now : UInt64) : UInt64 := now / max s.limits.tokenBucketSecs 1

/-- What a token authenticates: the domain, the socket and the bucket. -/
def tokenInput (addr : SocketAddrV4) (bucket : UInt64) : List UInt8 :=
  TOKEN_DOMAIN ++ (addr.ip.octets.toList ++
    (toBeBytes 2 addr.port.toNat ++ toBeBytes 8 bucket.toNat))

/-- `Server::token_for`: the first half of the keyed hash. -/
def tokenFor (addr : SocketAddrV4) (bucket : UInt64) : Token :=
  (P.keyedHash s.tokenKey (tokenInput addr bucket)).take 16

/-- `token_eq`: compares without stopping at the first difference. -/
def tokenEq (left right : Token) : Bool :=
  (List.zipWith (· ^^^ ·) left.toList right.toList).foldl (· ||| ·) 0 == 0

/-- `Server::issue_token`. -/
def issueToken (addr : SocketAddrV4) (now : UInt64) : Token := s.tokenFor P addr (s.bucket now)

/-- `Server::verify_token`: accepts the current and the previous bucket. -/
def verifyToken (addr : SocketAddrV4) (token : Token) (now : UInt64) : Bool :=
  let bucket := s.bucket now
  tokenEq (s.tokenFor P addr bucket) token ||
    (bucket != 0 && tokenEq (s.tokenFor P addr (bucket - 1)) token)

/-- `Server::allow_request`. -/
def allowRequest (ip : IpAddr) (clock : Clock) : Server F × Bool :=
  let r := s.rate.allow s.limits (P.hashIp ip) clock.started clock.now
  ({ s with rate := r.1 }, r.2)

/-- The `match` of `Server::handle_packet`: the response to a request, or `none`
where the handler returns early. -/
def answer (request : RequestV1) (src : SocketAddrV4) (clock : Clock) :
    Server F × Option ResponseV1 :=
  match request with
  | .prepare tx _ =>
    match s.allowRequest P (.v4 src.ip) clock with
    | (s, false) => (s, none)
    | (s, true) => (s, some (.prepared tx src (s.issueToken P src clock.unixSecs)))
  | .put tx token value =>
    if !s.verifyToken P src token clock.unixSecs then (s, none)
    else
      match s.allowRequest P (.v4 src.ip) clock with
      | (s, false) => (s, none)
      | (s, true) =>
        match s.putLocal src value clock.storeSecs with
        | (s, .error _) => (s, none)
        | (s, .ok ()) => (s, some (.stored tx src))
  | .get tx addr =>
    match s.allowRequest P (.v4 src.ip) clock with
    | (s, false) => (s, none)
    | (s, true) =>
      let r := s.getLocal addr clock.storeSecs
      (r.1, some (.value tx addr r.2))

/-- `Server::handle_packet`: the new state and the datagrams sent, or a panic. -/
def handlePacket (data : List UInt8) (src : SocketAddrV4) (clock : Clock) :
    Except Panic (Server F × List Datagram) :=
  if data.isEmpty || data.length > MAX_DGRAM then .ok (s, [])
  else
    match Proto.decode data with
    | some (.request (.v1 request)) =>
      match s.answer P request src clock with
      | (s, none) => .ok (s, [])
      | (s, some response) =>
        match Proto.encode (.response (.v1 response)) (List.Vector.replicate _ 0) with
        | none => .error .boundedResponse
        | some bytes => .ok (s, [⟨bytes, src⟩])
    | _ => .ok (s, [])

/-! ## Tokens -/

/-- Different sockets or buckets give different inputs to the hash. -/
theorem tokenInput_inj {a a' : SocketAddrV4} {b b' : UInt64}
    (h : tokenInput a b = tokenInput a' b') : a = a' ∧ b = b' := by
  obtain ⟨⟨ip, port⟩, ⟨ip', port'⟩⟩ := a, a'
  obtain ⟨hip, h⟩ := List.append_inj (List.append_cancel_left h)
    (by rw [List.Vector.toList_length, List.Vector.toList_length])
  obtain ⟨hport, hbucket⟩ := List.append_inj h (by rw [length_toBeBytes, length_toBeBytes])
  have h16 (w : UInt16) : w.toNat % 256 ^ 2 = w.toNat := Nat.mod_eq_of_lt w.toNat_lt
  have h64 (w : UInt64) : w.toNat % 256 ^ 8 = w.toNat := Nat.mod_eq_of_lt w.toNat_lt
  have hip : ip = ip' := Ipv4Addr.octetsEquiv.injective (List.Vector.toList_injective hip)
  have hport : port = port' := by
    rw [← UInt16.toNat_inj, ← h16 port, ← h16 port', toBeBytes_inj hport]
  have hbucket : b = b' := by
    rw [← UInt64.toNat_inj, ← h64 b, ← h64 b', toBeBytes_inj hbucket]
  rw [hip, hport, hbucket]
  exact ⟨rfl, rfl⟩

/-- Folding the differences finds whether there is one. -/
theorem foldl_or_eq_zero {l r : List UInt8} (h : l.length = r.length) (acc : UInt8) :
    (List.zipWith (· ^^^ ·) l r).foldl (· ||| ·) acc = 0 ↔ acc = 0 ∧ l = r := by
  induction l generalizing r acc with
  | nil =>
    obtain rfl := List.length_eq_zero_iff.mp h.symm
    simp
  | cons x l ih =>
    obtain ⟨y, r, rfl⟩ := List.exists_cons_of_length_eq_add_one h.symm
    rw [List.zipWith_cons_cons, List.foldl_cons, ih (Nat.succ.inj h)]
    simp [and_assoc]

/-- The comparison of tokens is equality. -/
theorem tokenEq_iff {left right : Token} : tokenEq left right = true ↔ left = right := by
  rw [tokenEq, beq_iff_eq, foldl_or_eq_zero (by simp), eq_self, true_and]
  exact List.Vector.toList_injective.eq_iff

omit [FloatArith F] in
/-- A token is accepted in the bucket it was made for and in the next one. -/
theorem verifyToken_iff {addr : SocketAddrV4} {token : Token} {now : UInt64} :
    s.verifyToken P addr token now = true ↔
      ∃ b, token = s.tokenFor P addr b ∧ (b = s.bucket now ∨ s.bucket now ≠ 0 ∧
        b = s.bucket now - 1) := by
  simp only [verifyToken, Bool.or_eq_true, Bool.and_eq_true, tokenEq_iff, bne_iff_ne]
  refine ⟨?_, ?_⟩
  · rintro (h | ⟨hpos, h⟩)
    · exact ⟨_, h.symm, .inl rfl⟩
    · exact ⟨_, h.symm, .inr ⟨hpos, rfl⟩⟩
  · rintro ⟨b, rfl, rfl | ⟨hpos, rfl⟩⟩
    · exact .inl rfl
    · exact .inr ⟨hpos, rfl⟩

/-! ## What a request does -/

/-- The outcomes of a request: the state after it and the response. `r` is the
limiter after the request. -/
inductive Answered (src : SocketAddrV4) (clock : Clock) :
    RequestV1 → Server F → Option ResponseV1 → Prop
  /-- the limiter refuses, or the token is wrong -/
  | refused (request : RequestV1) (r : RateLimiters F) :
    Answered src clock request { s with rate := r } none
  /-- a token is issued -/
  | prepared (tx : TransactionId) (pad : List.Vector UInt8 24) (r : RateLimiters F) :
    Answered src clock (.prepare tx pad) { s with rate := r }
      (some (.prepared tx src (s.issueToken P src clock.unixSecs)))
  /-- a put with a valid token that the store refuses -/
  | rejected (tx : TransactionId) (token : Token) (v : List UInt8) (r : RateLimiters F)
    (err : PutError) (hverify : s.verifyToken P src token clock.unixSecs = true)
    (hput : (s.store.put src v clock.storeSecs s.limits).2 = .error err) :
    Answered src clock (.put tx token v)
      { s with rate := r, store := (s.store.put src v clock.storeSecs s.limits).1 } none
  /-- a put with a valid token that the store accepts -/
  | stored (tx : TransactionId) (token : Token) (v : List UInt8) (r : RateLimiters F)
    (hverify : s.verifyToken P src token clock.unixSecs = true)
    (hput : (s.store.put src v clock.storeSecs s.limits).2 = .ok ()) :
    Answered src clock (.put tx token v)
      { s with rate := r, store := (s.store.put src v clock.storeSecs s.limits).1 }
      (some (.stored tx src))
  /-- a read -/
  | value (tx : TransactionId) (addr : SocketAddrV4) (r : RateLimiters F) :
    Answered src clock (.get tx addr)
      { s with rate := r, store := (s.store.get addr clock.storeSecs).1 }
      (some (.value tx addr (s.store.get addr clock.storeSecs).2))

/-- Every request has one of these outcomes. -/
theorem answered (request : RequestV1) (src : SocketAddrV4) (clock : Clock) :
    Answered P s src clock request (s.answer P request src clock).1
      (s.answer P request src clock).2 := by
  rcases hr : s.rate.allow s.limits (P.hashIp (.v4 src.ip)) clock.started clock.now
    with ⟨r, - | -⟩
  · -- the limiter refuses
    cases request with
    | prepare tx pad =>
      simp only [answer, allowRequest, hr]
      exact .refused _ r
    | put tx token v =>
      simp only [answer, allowRequest, hr]
      split
      · exact .refused _ s.rate
      · exact .refused _ r
    | get tx addr =>
      simp only [answer, allowRequest, hr]
      exact .refused _ r
  · cases request with
    | prepare tx pad =>
      simp only [answer, allowRequest, hr]
      exact .prepared tx pad r
    | put tx token v =>
      simp only [answer, allowRequest, hr, putLocal]
      split
      · exact .refused _ s.rate
      rename_i hverify
      simp only [Bool.not_eq_eq_eq_not, Bool.not_true, Bool.not_eq_false] at hverify
      rcases hput : (s.store.put src v clock.storeSecs s.limits).2 with err | ⟨⟩
      · exact .rejected tx token v r err hverify hput
      · exact .stored tx token v r hverify hput
    | get tx addr =>
      simp only [answer, allowRequest, hr, getLocal]
      exact .value tx addr r

/-- A datagram is handled in one of three ways: it is ignored; it is answered
without a response; or its response is sent, or panics. -/
theorem handlePacket_cases (data : List UInt8) (src : SocketAddrV4) (clock : Clock) :
    s.handlePacket P data src clock = .ok (s, []) ∨
      ∃ request, data.length ≤ MAX_DGRAM ∧ Proto.decode data = some (.request (.v1 request)) ∧
        s.handlePacket P data src clock =
          match s.answer P request src clock with
          | (s', none) => .ok (s', [])
          | (s', some response) =>
            match Proto.encode (.response (.v1 response)) (List.Vector.replicate _ 0) with
            | none => .error .boundedResponse
            | some bytes => .ok (s', [⟨bytes, src⟩]) := by
  rw [handlePacket]
  split
  · exact .inl rfl
  rename_i hlen
  simp only [Bool.or_eq_true, decide_eq_true_eq, not_or, not_lt] at hlen
  split
  · rename_i request hdec
    exact .inr ⟨request, hlen.2, hdec, rfl⟩
  · exact .inl rfl

end Server

end ContentDiscovery
