import ContentDiscovery.Addr
import ContentDiscovery.Postcard

/-!
# Wire types of the address index

`udp-addr-index-proto/src/lib.rs`. The types are the source's, and their codecs
are the ones its derives produce: every enumeration writes the index of its
variant and then the fields in declaration order.

The codec laws then give the properties of the framing (`encode_decode_laws`):
encoding succeeds exactly when the packet fits, decoding inverts it, a truncated
packet is rejected, and a `Get` is only accepted padded to a full datagram.
-/

namespace ContentDiscovery

/-- `MAGIC`: wire discriminator for address-index datagrams, `b"\0addridx"`. -/
def MAGIC : List UInt8 := [0, 97, 100, 100, 114, 105, 100, 120]

/-- `MAX_DGRAM`: maximum UDP payload. -/
def MAX_DGRAM : ℕ := 1200

/-- `MAX_VALUE_LEN`: maximum opaque value length. -/
def MAX_VALUE_LEN : ℕ := 1024

/-- `TransactionId`. -/
abbrev TransactionId : Type := UInt64

/-- `Token`: stateless write token generated by a server. -/
abbrev Token : Type := List.Vector UInt8 16

/-- The serialization of a socket: its octets and its port. -/
def SocketAddrV4.codec : Codec SocketAddrV4 :=
  (((Codec.array 4).imap Ipv4Addr.octetsEquiv.symm).pair .u16).imap SocketAddrV4.pairEquiv.symm

/-- `RequestV1`: version-one request body. -/
inductive RequestV1 where
  /-- asks the server to observe this packet's socket and issue a write token -/
  | prepare (tx : TransactionId) (padding : List.Vector UInt8 24)
  /-- stores opaque bytes under this packet's observed source socket -/
  | put (tx : TransactionId) (token : Token) (value : List UInt8)
  /-- reads the value stored for an exact public IPv4 socket -/
  | get (tx : TransactionId) (addr : SocketAddrV4)
  deriving DecidableEq

namespace RequestV1

/-- The fields of each variant. -/
def Fields : Fin 3 → Type
  | 0 => TransactionId × List.Vector UInt8 24
  | 1 => TransactionId × Token × List UInt8
  | 2 => TransactionId × SocketAddrV4

/-- Fields are written in declaration order. -/
def fieldsCodec : ∀ i, Codec (Fields i)
  | 0 => Codec.u64.pair (.array 24)
  | 1 => Codec.u64.pair ((Codec.array 16).pair .bytes)
  | 2 => Codec.u64.pair SocketAddrV4.codec

/-- A request is a variant with its fields. -/
def fieldsEquiv : (Σ i, Fields i) ≃ RequestV1 where
  toFun
    | ⟨0, (tx, padding)⟩ => .prepare tx padding
    | ⟨1, (tx, token, value)⟩ => .put tx token value
    | ⟨2, (tx, addr)⟩ => .get tx addr
  invFun
    | .prepare tx padding => ⟨0, (tx, padding)⟩
    | .put tx token value => ⟨1, (tx, token, value)⟩
    | .get tx addr => ⟨2, (tx, addr)⟩
  left_inv
    | ⟨0, _⟩ => rfl
    | ⟨1, _⟩ => rfl
    | ⟨2, _⟩ => rfl
  right_inv r := by cases r <;> rfl

/-- The derived serialization. -/
def codec : Codec RequestV1 := (Codec.variant (by decide) fieldsCodec).imap fieldsEquiv

end RequestV1

/-- `Request`: versioned request. -/
inductive Request where
  /-- current request body -/
  | v1 (r : RequestV1)
  deriving DecidableEq

/-- The derived serialization. -/
def Request.codec : Codec Request :=
  (Codec.variant (n := 1) (by decide) fun _ => RequestV1.codec).imap
    { toFun := fun v => .v1 v.2
      invFun := fun | .v1 r => ⟨0, r⟩
      left_inv := fun ⟨0, _⟩ => rfl
      right_inv := fun | .v1 _ => rfl }

/-- `ResponseV1`: version-one response body. -/
inductive ResponseV1 where
  /-- result of `RequestV1::Prepare` -/
  | prepared (tx : TransactionId) (addr : SocketAddrV4) (token : Token)
  /-- confirmation that a value was accepted -/
  | stored (tx : TransactionId) (addr : SocketAddrV4)
  /-- result of `RequestV1::Get` -/
  | value (tx : TransactionId) (addr : SocketAddrV4) (value : Option (List UInt8))
  deriving DecidableEq

namespace ResponseV1

/-- The fields of each variant. -/
def Fields : Fin 3 → Type
  | 0 => TransactionId × SocketAddrV4 × Token
  | 1 => TransactionId × SocketAddrV4
  | 2 => TransactionId × SocketAddrV4 × Option (List UInt8)

/-- Fields are written in declaration order. -/
def fieldsCodec : ∀ i, Codec (Fields i)
  | 0 => Codec.u64.pair (SocketAddrV4.codec.pair (.array 16))
  | 1 => Codec.u64.pair SocketAddrV4.codec
  | 2 => Codec.u64.pair (SocketAddrV4.codec.pair (.option .bytes))

/-- A response is a variant with its fields. -/
def fieldsEquiv : (Σ i, Fields i) ≃ ResponseV1 where
  toFun
    | ⟨0, (tx, addr, token)⟩ => .prepared tx addr token
    | ⟨1, (tx, addr)⟩ => .stored tx addr
    | ⟨2, (tx, addr, v)⟩ => .value tx addr v
  invFun
    | .prepared tx addr token => ⟨0, (tx, addr, token)⟩
    | .stored tx addr => ⟨1, (tx, addr)⟩
    | .value tx addr v => ⟨2, (tx, addr, v)⟩
  left_inv
    | ⟨0, _⟩ => rfl
    | ⟨1, _⟩ => rfl
    | ⟨2, _⟩ => rfl
  right_inv r := by cases r <;> rfl

/-- The derived serialization. -/
def codec : Codec ResponseV1 := (Codec.variant (by decide) fieldsCodec).imap fieldsEquiv

end ResponseV1

/-- `Response`: versioned response. -/
inductive Response where
  /-- current response body -/
  | v1 (r : ResponseV1)
  deriving DecidableEq

/-- The derived serialization. -/
def Response.codec : Codec Response :=
  (Codec.variant (n := 1) (by decide) fun _ => ResponseV1.codec).imap
    { toFun := fun v => .v1 v.2
      invFun := fun | .v1 r => ⟨0, r⟩
      left_inv := fun ⟨0, _⟩ => rfl
      right_inv := fun | .v1 _ => rfl }

/-- A datagram on its way to a socket. -/
structure Datagram where
  /-- the payload -/
  bytes : List UInt8
  /-- the destination -/
  dest : SocketAddrV4
  deriving DecidableEq

/-- `Proto`: everything that goes on the wire, in one tag space. -/
inductive Proto where
  /-- sent by a client -/
  | request (r : Request)
  /-- sent by a server -/
  | response (r : Response)
  deriving DecidableEq

namespace Proto

/-- The fields of each variant. -/
def Fields : Fin 2 → Type
  | 0 => Request
  | 1 => Response

/-- The body of each variant. -/
def fieldsCodec : ∀ i, Codec (Fields i)
  | 0 => Request.codec
  | 1 => Response.codec

/-- A packet is a variant with its body. -/
def fieldsEquiv : (Σ i, Fields i) ≃ Proto where
  toFun
    | ⟨0, r⟩ => .request r
    | ⟨1, r⟩ => .response r
  invFun
    | .request r => ⟨0, r⟩
    | .response r => ⟨1, r⟩
  left_inv
    | ⟨0, _⟩ => rfl
    | ⟨1, _⟩ => rfl
  right_inv m := by cases m <;> rfl

/-- The derived serialization: the postcard body of a packet. -/
def codec : Codec Proto := (Codec.variant (by decide) fieldsCodec).imap fieldsEquiv

/-- `Proto::is_padded`: whether this datagram is padded to a full `MAX_DGRAM` buffer. -/
def isPadded : Proto → Bool
  | .request (.v1 (.get _ _)) => true
  | _ => false

/-- `Proto::encode`: writes `MAGIC` and the postcard body into a datagram buffer,
and pads get requests with zeros. Returns the part of the buffer to send. -/
def encode (m : Proto) (buf : List.Vector UInt8 MAX_DGRAM) : Option (List UInt8) :=
  match Postcard.toSlice codec m (buf.toList.drop MAGIC.length) with
  | none => none
  | some (rest, written) =>
    let buf := MAGIC ++ rest
    let len := MAGIC.length + written
    if m.isPadded then some (buf.take len ++ List.replicate (buf.length - len) 0)
    else some (buf.take len)

/-- `Proto::decode`: reads a framed datagram, rejecting oversized packets, packets
without the discriminator, and get requests that are not padded. -/
def decode (data : List UInt8) : Option Proto :=
  if data.length > MAX_DGRAM then none
  else if MAGIC.isPrefixOf data then
    match Postcard.fromBytes codec (data.drop MAGIC.length) with
    | none => none
    | some value => if !value.isPadded || data.length == MAX_DGRAM then some value else none
  else none

/-- The padding that follows the body of a packet. -/
def padding (m : Proto) : List UInt8 :=
  if m.isPadded then List.replicate (MAX_DGRAM - (MAGIC.length + (codec.enc m).length)) 0 else []

/-- What `encode` returns: it does not depend on what the buffer held before. -/
theorem encode_eq (m : Proto) (buf : List.Vector UInt8 MAX_DGRAM) :
    encode m buf =
      if MAGIC.length + (codec.enc m).length ≤ MAX_DGRAM then
        some (MAGIC ++ (codec.enc m ++ m.padding)) else none := by
  have hbuf : (buf.toList.drop MAGIC.length).length = MAX_DGRAM - MAGIC.length := by
    rw [List.length_drop, List.Vector.toList_length]
  have hmagic : MAGIC.length ≤ MAX_DGRAM := by decide
  rw [encode, Postcard.toSlice, hbuf]
  by_cases hfit : MAGIC.length + (codec.enc m).length ≤ MAX_DGRAM
  · have htake : ∀ rest, (MAGIC ++ (codec.enc m ++ rest)).take
        (MAGIC.length + (codec.enc m).length) = MAGIC ++ codec.enc m := fun rest => by
      rw [← List.append_assoc, List.take_left' List.length_append]
    rw [if_pos hfit, if_pos (by omega)]
    dsimp only
    rw [htake, padding]
    split
    · rw [List.append_assoc, List.length_append, List.length_append, List.length_drop, hbuf]
      congr 4
      omega
    · rw [List.append_nil]
  · rw [if_neg hfit, if_neg (by omega)]

/-- What `decode` accepts. -/
theorem decode_eq_some {data : List UInt8} {m : Proto} :
    decode data = some m ↔ data.length ≤ MAX_DGRAM ∧
      ∃ body, data = MAGIC ++ body ∧ (∃ rest, codec.dec body = some (m, rest)) ∧
        (m.isPadded = true → data.length = MAX_DGRAM) := by
  rw [decode]
  split
  · rename_i hlong
    exact ⟨(nomatch ·), fun ⟨hle, _⟩ => absurd hle (by omega)⟩
  rename_i hshort
  split
  swap
  · rename_i hmagic
    refine ⟨(nomatch ·), ?_⟩
    rintro ⟨-, body, rfl, -⟩
    exact absurd (List.isPrefixOf_iff_prefix.mpr (List.prefix_append _ _)) hmagic
  rename_i hmagic
  obtain ⟨body, rfl⟩ := List.isPrefixOf_iff_prefix.mp hmagic
  rw [List.drop_left, Postcard.fromBytes]
  have hbody : ∀ {q : List UInt8 → Prop}, (∃ body', MAGIC ++ body = MAGIC ++ body' ∧ q body') ↔
      q body := ⟨fun ⟨_, h, hq⟩ => List.append_cancel_left h ▸ hq, fun hq => ⟨body, rfl, hq⟩⟩
  rw [hbody]
  rcases hdec : codec.dec body with _ | ⟨m', rest⟩
  · simp
  · simp only [Option.map_some, Option.some.injEq, Prod.mk.injEq, exists_and_left, exists_eq',
      and_true]
    split
    · rename_i hpad
      rw [Option.some_inj]
      refine ⟨?_, fun h => h.2.1⟩
      rintro rfl
      refine ⟨not_lt.mp hshort, rfl, fun hp => ?_⟩
      rw [hp] at hpad
      simpa using hpad
    · rename_i hpad
      refine ⟨(nomatch ·), ?_⟩
      rintro ⟨-, rfl, hp⟩
      simp only [Bool.or_eq_true, Bool.not_eq_eq_eq_not, Bool.not_true, beq_iff_eq, not_or,
        Bool.not_eq_false] at hpad
      exact absurd (hp hpad.1) hpad.2

/-! ## Lengths of the packets -/

theorem length_enc_addr_le (addr : SocketAddrV4) : (SocketAddrV4.codec.enc addr).length ≤ 7 := by
  have hport := Codec.length_enc_u16_le addr.port
  show (((Codec.array 4).enc addr.ip.octets) ++ Codec.u16.enc addr.port).length ≤ 7
  rw [List.length_append, Codec.length_enc_array]
  omega

theorem length_enc_request (r : RequestV1) :
    (codec.enc (.request (.v1 r))).length = 2 + (RequestV1.codec.enc r).length := by
  have hreq : (Request.codec.enc (.v1 r)).length = 1 + (RequestV1.codec.enc r).length :=
    Codec.length_enc_variant (n := 1) (by decide) (by decide) (fun _ => RequestV1.codec) ⟨0, r⟩
  have hproto : (codec.enc (.request (.v1 r))).length = 1 + (Request.codec.enc (.v1 r)).length :=
    Codec.length_enc_variant (φ := Fields) _ (by decide) fieldsCodec ⟨0, Request.v1 r⟩
  omega

theorem length_enc_response (r : ResponseV1) :
    (codec.enc (.response (.v1 r))).length = 2 + (ResponseV1.codec.enc r).length := by
  have hresp : (Response.codec.enc (.v1 r)).length = 1 + (ResponseV1.codec.enc r).length :=
    Codec.length_enc_variant (n := 1) (by decide) (by decide) (fun _ => ResponseV1.codec) ⟨0, r⟩
  have hproto : (codec.enc (.response (.v1 r))).length =
      1 + (Response.codec.enc (.v1 r)).length :=
    Codec.length_enc_variant (φ := Fields) _ (by decide) fieldsCodec ⟨1, Response.v1 r⟩
  omega

theorem length_enc_prepare (tx : TransactionId) (pad : List.Vector UInt8 24) :
    (RequestV1.codec.enc (.prepare tx pad)).length = 1 + ((Codec.u64.enc tx).length + 24) := by
  have h : (RequestV1.codec.enc (.prepare tx pad)).length = 1 + _ :=
    Codec.length_enc_variant (φ := RequestV1.Fields) _ (by decide) RequestV1.fieldsCodec
      ⟨0, (tx, pad)⟩
  rw [h]
  show 1 + (_ ++ _ : List UInt8).length = _
  rw [List.length_append, Codec.length_enc_array]

theorem length_enc_put (tx : TransactionId) (token : Token) (v : List UInt8) :
    (RequestV1.codec.enc (.put tx token v)).length =
      1 + ((Codec.u64.enc tx).length + (16 + (Codec.bytes.enc v).length)) := by
  have h : (RequestV1.codec.enc (.put tx token v)).length = 1 + _ :=
    Codec.length_enc_variant (φ := RequestV1.Fields) _ (by decide) RequestV1.fieldsCodec
      ⟨1, (tx, token, v)⟩
  rw [h]
  show 1 + (_ ++ (_ ++ _) : List UInt8).length = _
  rw [List.length_append, List.length_append, Codec.length_enc_array]

theorem length_enc_get (tx : TransactionId) (addr : SocketAddrV4) :
    (RequestV1.codec.enc (.get tx addr)).length =
      1 + ((Codec.u64.enc tx).length + (SocketAddrV4.codec.enc addr).length) := by
  have h : (RequestV1.codec.enc (.get tx addr)).length = 1 + _ :=
    Codec.length_enc_variant (φ := RequestV1.Fields) _ (by decide) RequestV1.fieldsCodec
      ⟨2, (tx, addr)⟩
  rw [h]
  show 1 + (_ ++ _ : List UInt8).length = _
  rw [List.length_append]

/-- A request fits a datagram, if the value that it puts is not too long. -/
theorem request_fits {r : RequestV1}
    (hput : ∀ tx token v, r = .put tx token v → v.length ≤ MAX_VALUE_LEN) :
    MAGIC.length + (codec.enc (.request (.v1 r))).length ≤ MAX_DGRAM := by
  have hmagic : MAGIC.length = 8 := rfl
  have hmax : MAX_DGRAM = 1200 := rfl
  have hmaxv : MAX_VALUE_LEN = 1024 := rfl
  rw [length_enc_request]
  cases r with
  | prepare tx pad =>
    have htx := Codec.length_enc_u64_le tx
    rw [length_enc_prepare]
    omega
  | put tx token v =>
    have htx := Codec.length_enc_u64_le tx
    have hv := hput tx token v rfl
    have hbytes := Codec.length_enc_bytes_le v
    rw [length_enc_put]
    omega
  | get tx addr =>
    have htx := Codec.length_enc_u64_le tx
    have haddr := length_enc_addr_le addr
    rw [length_enc_get]
    omega

/-! ## The framing laws -/

/-- Any packet read from the front of what was written is the packet written. -/
theorem dec_enc_append {m : Proto} (hfit : MAGIC.length + (codec.enc m).length ≤ MAX_DGRAM)
    (rest : List UInt8) : codec.dec (codec.enc m ++ rest) = some (m, rest) := by
  have hmax : MAX_DGRAM < sizeLimit := by decide
  exact codec.dec_enc m rest (by omega)

theorem length_frame {m : Proto} (hfit : MAGIC.length + (codec.enc m).length ≤ MAX_DGRAM) :
    (MAGIC ++ (codec.enc m ++ m.padding)).length ≤ MAX_DGRAM ∧
      (m.isPadded = true → (MAGIC ++ (codec.enc m ++ m.padding)).length = MAX_DGRAM) := by
  rw [List.length_append, List.length_append, padding]
  rcases hpad : m.isPadded with - | -
  · simpa using hfit
  · simp only [if_true, List.length_replicate]
    omega

/-- What is sent is received. -/
theorem decode_encode {m : Proto} {buf : List.Vector UInt8 MAX_DGRAM} {bytes : List UInt8}
    (h : encode m buf = some bytes) : decode bytes = some m := by
  rw [encode_eq] at h
  split at h
  swap
  · cases h
  rename_i hfit
  obtain rfl := Option.some.inj h
  obtain ⟨hle, hfull⟩ := length_frame hfit
  exact decode_eq_some.mpr ⟨hle, _, rfl, ⟨_, dec_enc_append hfit _⟩, hfull⟩

/-- A request is received as it was made. -/
theorem decode_request {r : RequestV1} {buf : List.Vector UInt8 MAX_DGRAM}
    (hput : ∀ tx token v, r = .put tx token v → v.length ≤ MAX_VALUE_LEN) :
    decode ((encode (.request (.v1 r)) buf).getD []) = some (.request (.v1 r)) := by
  have henc := (encode_eq (.request (.v1 r)) buf).trans (if_pos (request_fits hput))
  rw [henc]
  exact decode_encode henc

/-- A strict prefix of what was sent does not decode. -/
theorem decode_of_prefix {m : Proto} (hfit : MAGIC.length + (codec.enc m).length ≤ MAX_DGRAM)
    {pre suf : List UInt8} (h : MAGIC ++ (codec.enc m ++ m.padding) = pre ++ suf)
    (hsuf : suf ≠ []) : decode pre = none := by
  rcases hdec : decode pre with _ | m'
  · rfl
  obtain ⟨-, body, rfl, ⟨rest, hbody⟩, hfull⟩ := decode_eq_some.mp hdec
  rw [List.append_assoc] at h
  have hlong := codec.dec_append hbody suf
  rw [← List.append_cancel_left h, dec_enc_append hfit] at hlong
  obtain ⟨rfl, hrest⟩ := Prod.mk.inj (Option.some.inj hlong)
  have hpos : 0 < suf.length := List.length_pos_iff.mpr hsuf
  rcases hpad : m.isPadded with - | -
  · -- without padding the reading of the prefix would leave bytes behind
    rw [padding, hpad] at hrest
    exact absurd (List.append_eq_nil_iff.mp hrest.symm).2 hsuf
  · -- a padded packet is only accepted at full length
    have hlen := (length_frame hfit).2 hpad
    rw [h, ← List.append_assoc, List.length_append, hfull hpad] at hlen
    omega

/-- **Framing.** For every packet and whatever the buffer held before: encoding
succeeds exactly when the magic and the body fit a datagram; then the bytes
decode to the packet itself, and no strict prefix of them decodes to anything; a
get request fills the datagram with zeros, and its body is rejected in a datagram
of any other length. -/
theorem encode_decode_laws (m : Proto) (buf : List.Vector UInt8 MAX_DGRAM) :
    ((encode m buf).isSome ↔ MAGIC.length + (codec.enc m).length ≤ MAX_DGRAM) ∧
      ∀ bytes, encode m buf = some bytes →
        decode bytes = some m ∧
        (∀ pre, pre <+: bytes → pre ≠ bytes → decode pre = none) ∧
        (∀ tx addr, m = .request (.v1 (.get tx addr)) →
          bytes.length = MAX_DGRAM ∧
          (∃ n, bytes = MAGIC ++ codec.enc m ++ List.replicate n 0) ∧
          ∀ data, MAGIC ++ codec.enc m <+: data → data.length ≠ MAX_DGRAM →
            decode data = none) := by
  refine ⟨?_, fun bytes hbytes => ?_⟩
  · rw [encode_eq]
    split <;> simp_all
  have hdec := decode_encode hbytes
  rw [encode_eq] at hbytes
  split at hbytes
  swap
  · cases hbytes
  rename_i hfit
  obtain rfl := Option.some.inj hbytes
  refine ⟨hdec, ?_, ?_⟩
  · rintro pre ⟨suf, hsuf⟩ hne
    refine decode_of_prefix hfit hsuf.symm ?_
    rintro rfl
    exact hne (by rw [← hsuf, List.append_nil])
  · rintro tx addr rfl
    refine ⟨(length_frame hfit).2 rfl, ⟨_, (List.append_assoc ..).symm⟩, ?_⟩
    rintro data ⟨tail, rfl⟩ hlen
    rcases hdec : decode (MAGIC ++ codec.enc (.request (.v1 (.get tx addr))) ++ tail) with _ | m'
    · rfl
    · obtain ⟨-, body, heq, ⟨rest, hbody⟩, hfull⟩ := decode_eq_some.mp hdec
      rw [List.append_assoc] at heq
      rw [← List.append_cancel_left heq, dec_enc_append hfit] at hbody
      obtain ⟨rfl, -⟩ := Prod.mk.inj (Option.some.inj hbody)
      exact absurd (hfull rfl) hlen

end Proto

end ContentDiscovery
