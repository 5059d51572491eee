import ContentDiscovery.Server

/-!
# The server does not amplify

A response is never longer than the datagram that caused it, and goes nowhere
but to its sender, in every state a server can reach. Requests may be padded in
many ways, so the comparison is made with the canonical encoding of what was
decoded, which is no longer than what was received (`Codec.length_enc_le`):

* a `Prepare` carries padding for the address and the token of its response;
* a `Put` carries a token, which is longer than the address of its response;
* a `Get` fills a datagram, and a stored value leaves room for its framing,
  because the store only holds values within `MAX_VALUE_LEN`.
-/

namespace ContentDiscovery

namespace Server

variable {F : Type} {P : Primitives} {limits : Limits F} {s s' : Server F}

/-- The server runs under `limits`, and its store within them. -/
structure Inv (limits : Limits F) (s : Server F) : Prop where
  /-- the limits never change -/
  limits_eq : s.limits = limits
  /-- the indexes of the store agree with its map -/
  consistent : s.store.Consistent
  /-- the store is within the limits -/
  bounded : s.store.Bounded limits

/-- A call on the store keeps the invariant, whatever the limiter becomes. -/
theorem Inv.of_store (hs : s.Inv limits) (op : Store.Op) (r : RateLimiters F) :
    ({ s with rate := r, store := ((Store.machine limits).step s.store op).1 } : Server F).Inv
      limits := by
  obtain ⟨hc, hb⟩ := Store.inv_step ⟨hs.consistent, hs.bounded⟩ op
  exact ⟨hs.limits_eq, hc, hb⟩

theorem Inv.answered (hs : s.Inv limits) {src : SocketAddrV4} {clock : Clock}
    {request : RequestV1} {o : Option ResponseV1} (h : Answered P s src clock request s' o) :
    s'.Inv limits := by
  cases h with
  | refused _ r => exact ⟨hs.limits_eq, hs.consistent, hs.bounded⟩
  | prepared _ _ r => exact ⟨hs.limits_eq, hs.consistent, hs.bounded⟩
  | rejected _ _ v r =>
    obtain ⟨rfl, -, -⟩ := id hs
    exact hs.of_store (.put src v clock.storeSecs) r
  | stored _ _ v r =>
    obtain ⟨rfl, -, -⟩ := id hs
    exact hs.of_store (.put src v clock.storeSecs) r
  | value _ addr r => exact hs.of_store (.get addr clock.storeSecs) r

/-! ## Lengths of the responses -/

theorem length_enc_prepared (tx : TransactionId) (addr : SocketAddrV4) (token : Token) :
    (ResponseV1.codec.enc (.prepared tx addr token)).length =
      1 + ((Codec.u64.enc tx).length + ((SocketAddrV4.codec.enc addr).length + 16)) := by
  have h : (ResponseV1.codec.enc (.prepared tx addr token)).length = 1 + _ :=
    Codec.length_enc_variant (φ := ResponseV1.Fields) _ (by decide) ResponseV1.fieldsCodec
      ⟨0, (tx, addr, token)⟩
  rw [h]
  show 1 + (_ ++ (_ ++ _) : List UInt8).length = _
  rw [List.length_append, List.length_append, Codec.length_enc_array]

theorem length_enc_stored (tx : TransactionId) (addr : SocketAddrV4) :
    (ResponseV1.codec.enc (.stored tx addr)).length =
      1 + ((Codec.u64.enc tx).length + (SocketAddrV4.codec.enc addr).length) := by
  have h : (ResponseV1.codec.enc (.stored tx addr)).length = 1 + _ :=
    Codec.length_enc_variant (φ := ResponseV1.Fields) _ (by decide) ResponseV1.fieldsCodec
      ⟨1, (tx, addr)⟩
  rw [h]
  show 1 + (_ ++ _ : List UInt8).length = _
  rw [List.length_append]

theorem length_enc_value_le (tx : TransactionId) (addr : SocketAddrV4) (o : Option (List UInt8)) :
    (ResponseV1.codec.enc (.value tx addr o)).length ≤ 29 + (o.elim 0 List.length) := by
  have h : (ResponseV1.codec.enc (.value tx addr o)).length = 1 + _ :=
    Codec.length_enc_variant (φ := ResponseV1.Fields) _ (by decide) ResponseV1.fieldsCodec
      ⟨2, (tx, addr, o)⟩
  have htx := Codec.length_enc_u64_le tx
  have haddr := Proto.length_enc_addr_le addr
  have ho : ((Codec.option .bytes).enc o).length ≤ 11 + (o.elim 0 List.length) := by
    rcases o with _ | v
    · exact Nat.le_add_left 1 10
    · have hv := Codec.length_enc_bytes_le v
      show (1 :: Codec.bytes.enc v).length ≤ 11 + v.length
      rw [List.length_cons]
      omega
  rw [h]
  show 1 + (_ ++ (_ ++ _) : List UInt8).length ≤ _
  rw [List.length_append, List.length_append]
  change _ + ((Codec.u64.enc tx).length + ((SocketAddrV4.codec.enc addr).length +
    ((Codec.option .bytes).enc o).length)) ≤ _
  omega

/-- What a read returns is within the value limit. -/
theorem Inv.get_length_le (hs : s.Inv limits) (addr : SocketAddrV4) (now : UInt64) :
    (s.store.get addr now).2.elim 0 List.length ≤ MAX_VALUE_LEN := by
  rcases hv : (s.store.get addr now).2 with _ | v
  · exact Nat.zero_le _
  · obtain ⟨t, hview, -⟩ := hs.consistent.get_eq_some.mp hv
    exact (hs.bounded.value_le _ _ (Store.view_eq_some.mp hview)).trans (Nat.min_le_right _ _)

/-- A response is no longer than the canonical form of its request, or it answers
a get and fits a datagram. -/
theorem Inv.length_response_le (hs : s.Inv limits) {src : SocketAddrV4} {clock : Clock}
    {request : RequestV1} {response : ResponseV1}
    (h : Answered P s src clock request s' (some response)) :
    (Proto.codec.enc (.response (.v1 response))).length ≤
        (Proto.codec.enc (.request (.v1 request))).length ∨
      Proto.isPadded (.request (.v1 request)) = true ∧
        MAGIC.length + (Proto.codec.enc (.response (.v1 response))).length ≤ MAX_DGRAM := by
  rw [Proto.length_enc_request, Proto.length_enc_response]
  have hsrc := Proto.length_enc_addr_le src
  cases h with
  | prepared tx pad r =>
    left
    rw [length_enc_prepared, Proto.length_enc_prepare]
    omega
  | stored tx token v r =>
    left
    rw [length_enc_stored, Proto.length_enc_put]
    omega
  | value tx addr r =>
    right
    have hvalue := length_enc_value_le tx addr (s.store.get addr clock.storeSecs).2
    have hget := hs.get_length_le addr clock.storeSecs
    have hmax : MAX_DGRAM = 1200 := rfl
    have hmaxv : MAX_VALUE_LEN = 1024 := rfl
    have hmagic : MAGIC.length = 8 := rfl
    exact ⟨rfl, by omega⟩

/-! ## Datagrams -/

/-- The datagram that carries a response. -/
def reply (r : ResponseV1) : List UInt8 := MAGIC ++ Proto.codec.enc (.response (.v1 r))

theorem decode_reply {r : ResponseV1} (h : (reply r).length ≤ MAX_DGRAM) :
    Proto.decode (reply r) = some (.response (.v1 r)) := by
  refine Proto.decode_eq_some.mpr ⟨h, _, rfl, ⟨[], ?_⟩, fun hpad => nomatch hpad⟩
  rw [reply, List.length_append] at h
  simpa using Proto.dec_enc_append h []

/-- What can become of a datagram: the server after it and the datagrams sent. -/
inductive Handled (P : Primitives) (s : Server F) (data : List UInt8) (src : SocketAddrV4)
    (clock : Clock) : Server F → List Datagram → Prop
  /-- it is not a request -/
  | ignored : Handled P s data src clock s []
  /-- a request without a response -/
  | silent {request : RequestV1} {s' : Server F}
    (hdec : Proto.decode data = some (.request (.v1 request)))
    (hans : Answered P s src clock request s' none) : Handled P s data src clock s' []
  /-- a request with a response -/
  | replied {request : RequestV1} {s' : Server F} {response : ResponseV1}
    (hdec : Proto.decode data = some (.request (.v1 request)))
    (hans : Answered P s src clock request s' (some response))
    (hle : (reply response).length ≤ data.length)
    (hfit : (reply response).length ≤ MAX_DGRAM) :
    Handled P s data src clock s' [⟨reply response, src⟩]

theorem Inv.handled_inv (hs : s.Inv limits) {data : List UInt8} {src : SocketAddrV4}
    {clock : Clock} {sent : List Datagram} (h : Handled P s data src clock s' sent) :
    s'.Inv limits := by
  cases h with
  | ignored => exact hs
  | silent hdec hans => exact hs.answered hans
  | replied hdec hans hle hfit => exact hs.answered hans

/-- One datagram at most is sent, to the sender, no longer than the one received. -/
theorem Handled.sent {data : List UInt8} {src : SocketAddrV4} {clock : Clock}
    {sent : List Datagram} (h : Handled P s data src clock s' sent) :
    sent.length ≤ 1 ∧ ∀ d ∈ sent, d.dest = src ∧ d.bytes.length ≤ data.length ∧
      d.bytes.length ≤ MAX_DGRAM := by
  cases h with
  | ignored => exact ⟨Nat.zero_le _, fun d hd => nomatch hd⟩
  | silent hdec hans => exact ⟨Nat.zero_le _, fun d hd => nomatch hd⟩
  | replied hdec hans hle hfit =>
    refine ⟨le_rfl, fun d hd => ?_⟩
    obtain rfl := List.mem_singleton.mp hd
    exact ⟨rfl, hle, hfit⟩

variable [FloatArith F]

/-- The handler does not panic on a server within its limits. -/
theorem Inv.handled (hs : s.Inv limits) (data : List UInt8) (src : SocketAddrV4)
    (clock : Clock) :
    ∃ s' sent, s.handlePacket P data src clock = .ok (s', sent) ∧
      Handled P s data src clock s' sent := by
  rcases s.handlePacket_cases P data src clock with h | ⟨request, hlen, hdec, h⟩
  · exact ⟨s, [], h, .ignored⟩
  have hans := s.answered P request src clock
  rcases hanswer : s.answer P request src clock with ⟨s', - | response⟩
  · rw [hanswer] at h hans
    exact ⟨s', [], h, .silent hdec hans⟩
  rw [hanswer] at h hans
  -- the bytes received hold at least the canonical form of the request
  obtain ⟨-, body, rfl, ⟨rest, hbody⟩, hfull⟩ := Proto.decode_eq_some.mp hdec
  have hcanon := Proto.codec.length_enc_le hbody
  have hsize := hs.length_response_le hans
  have hreply : (reply response).length ≤ (MAGIC ++ body).length := by
    rw [reply, List.length_append]
    rcases hsize with hle | ⟨hpad, hfit⟩
    · rw [List.length_append]
      omega
    · rw [hfull hpad]
      exact hfit
  have hfit := hreply.trans hlen
  have henc : Proto.encode (.response (.v1 response)) (List.Vector.replicate _ 0) =
      some (MAGIC ++ (Proto.codec.enc (.response (.v1 response)) ++ [])) := by
    rw [reply, List.length_append] at hfit
    rw [Proto.encode_eq, if_pos hfit]
    rfl
  rw [List.append_nil] at henc
  simp only [henc] at h
  exact ⟨s', _, h, .replied hdec hans hreply hfit⟩

/-! ## Runs -/

theorem inv_new (limits : Limits F) (key : List.Vector UInt8 32) (now : Instant) :
    (new limits key now).Inv limits :=
  ⟨rfl, Store.consistent_new, Store.bounded_new⟩

/-- What can happen to a server. -/
inductive Event where
  /-- a datagram arrives: `Server::handle_packet` -/
  | packet (data : List UInt8) (src : SocketAddrV4) (clock : Clock)
  /-- `Server::put_local` -/
  | putLocal (addr : SocketAddrV4) (value : List UInt8) (now : UInt64)
  /-- `Server::get_local` -/
  | getLocal (addr : SocketAddrV4) (now : UInt64)

/-- What the server does in response. -/
inductive Output where
  /-- the datagrams sent, or a panic -/
  | packet (r : Except Panic (List Datagram))
  /-- the result of a local put -/
  | putLocal (r : Except PutError Unit)
  /-- the value a local read found -/
  | getLocal (v : Option (List UInt8))

/-- A server under fixed limits, with any key. -/
def machine (P : Primitives) (limits : Limits F) : Machine (Server F) Event Output where
  init s := ∃ key now, s = new limits key now
  enabled _ _ _ := True
  step s
    | .packet data src clock =>
      match s.handlePacket P data src clock with
      | .error p => (s, .packet (.error p))
      | .ok (s', sent) => (s', .packet (.ok sent))
    | .putLocal addr value now =>
      ((s.putLocal addr value now).1, .putLocal (s.putLocal addr value now).2)
    | .getLocal addr now => ((s.getLocal addr now).1, .getLocal (s.getLocal addr now).2)

theorem Inv.step (hs : s.Inv limits) (e : Event) : ((machine P limits).step s e).1.Inv limits := by
  cases e with
  | packet data src clock =>
    obtain ⟨s', sent, h, hhandled⟩ := hs.handled (P := P) data src clock
    simp only [machine, h]
    exact hs.handled_inv hhandled
  | putLocal addr value now =>
    obtain ⟨rfl, -, -⟩ := id hs
    exact hs.of_store (.put addr value now) s.rate
  | getLocal addr now => exact hs.of_store (.get addr now) s.rate

theorem inv_run {t : List (Event × Output)} (h : (machine P limits).Run t s) : s.Inv limits := by
  refine h.invariant (I := fun _ s => s.Inv limits) ?_ fun _ _ e _ _ hs => hs.step e
  rintro s ⟨key, now, rfl⟩
  exact inv_new limits key now

/-- **No amplification and no panic.** After any events, for every datagram: the
handler returns, and what it sends is at most one datagram, to the sender, no
longer than the datagram received and no longer than `MAX_DGRAM`. -/
theorem no_amplification (P : Primitives) (limits : Limits F) (key : List.Vector UInt8 32)
    (created : Instant) (events : List Event) (data : List UInt8) (src : SocketAddrV4)
    (clock : Clock) :
    let s := ((machine P limits).exec (new limits key created) events).2
    ∃ s' sent, s.handlePacket P data src clock = .ok (s', sent) ∧ sent.length ≤ 1 ∧
      ∀ d ∈ sent, d.dest = src ∧ d.bytes.length ≤ data.length ∧ d.bytes.length ≤ MAX_DGRAM := by
  intro s
  have hs : s.Inv limits :=
    inv_run ((machine P limits).run_exec (fun _ _ _ => trivial) ⟨key, created, rfl⟩ events)
  obtain ⟨s', sent, h, hhandled⟩ := hs.handled (P := P) data src clock
  exact ⟨s', sent, h, hhandled.sent⟩

end Server

end ContentDiscovery
