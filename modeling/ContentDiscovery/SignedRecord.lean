import ContentDiscovery.Proto

/-!
# Signed endpoint records

The values that `iroh-mainline-endpoint-discovery/src/record.rs` stores on the index
servers. A record names an endpoint and the socket it was signed for. The keys and the
signatures are those of another crate; `Signing` is what this one uses of them.
-/

namespace ContentDiscovery

/-- The keys and signatures of `iroh_base`. -/
structure Signing (SecretKey EndpointId Signature : Type) where
  /-- `SecretKey::public` -/
  endpointId : SecretKey → EndpointId
  /-- `SecretKey::sign` -/
  sign : SecretKey → List UInt8 → Signature
  /-- `EndpointId::verify`: whether it is `Ok` -/
  verify : EndpointId → List UInt8 → Signature → Bool
  /-- the serialization of an endpoint id -/
  endpointIdCodec : Codec EndpointId
  /-- the serialization of a signature -/
  signatureCodec : Codec Signature

/-- `RecordPayloadV1`: initial signed endpoint-record payload. -/
structure RecordPayloadV1 where
  /-- the public socket an index server observed for the publisher -/
  addr : SocketAddrV4
  /-- unix seconds when the value was signed -/
  ts : UInt64
  deriving DecidableEq

namespace RecordPayloadV1

/-- A payload is its fields. -/
def pairEquiv : RecordPayloadV1 ≃ SocketAddrV4 × UInt64 where
  toFun p := (p.addr, p.ts)
  invFun p := ⟨p.1, p.2⟩
  left_inv _ := rfl
  right_inv _ := rfl

/-- Fields are written in declaration order. -/
def codec : Codec RecordPayloadV1 := (SocketAddrV4.codec.pair .u64).imap pairEquiv.symm

end RecordPayloadV1

/-- `RecordPayload`: versioned fields covered by an endpoint record's signature. -/
inductive RecordPayload where
  /-- initial payload format -/
  | v1 (payload : RecordPayloadV1)
  deriving DecidableEq

namespace RecordPayload

/-- `RecordPayload::v1`. -/
def getV1 : RecordPayload → RecordPayloadV1
  | .v1 payload => payload

/-- There are not too many versions. -/
theorem one_le_tags : 1 ≤ 2 ^ 32 := by decide

/-- The derived serialization. -/
def codec : Codec RecordPayload :=
  (Codec.variant (n := 1) (φ := fun _ => RecordPayloadV1) one_le_tags
    fun _ => RecordPayloadV1.codec).imap
    { toFun := fun v => .v1 v.2
      invFun := fun | .v1 payload => ⟨⟨0, Nat.one_pos⟩, payload⟩
      left_inv := fun ⟨0, _⟩ => rfl
      right_inv := fun | .v1 _ => rfl }

end RecordPayload

/-- `SignedRecord`: signed assertion that the publisher controls an endpoint identity. -/
structure SignedRecord (EndpointId Signature : Type) where
  /-- the endpoint whose key verifies `sig` -/
  endpointId : EndpointId
  /-- versioned fields covered by `sig` -/
  payload : RecordPayload
  /-- the signature over the serialized payload -/
  sig : Signature
  deriving DecidableEq

namespace SignedRecord

variable {SecretKey EndpointId Signature : Type}

/-- A record is its fields. -/
def tripleEquiv :
    SignedRecord EndpointId Signature ≃ EndpointId × RecordPayload × Signature where
  toFun r := (r.endpointId, r.payload, r.sig)
  invFun p := ⟨p.1, p.2.1, p.2.2⟩
  left_inv _ := rfl
  right_inv _ := rfl

variable (K : Signing SecretKey EndpointId Signature) (r : SignedRecord EndpointId Signature)

/-- Fields are written in declaration order. -/
def codec : Codec (SignedRecord EndpointId Signature) :=
  (K.endpointIdCodec.pair (RecordPayload.codec.pair K.signatureCodec)).imap tripleEquiv.symm

/-- `SignedRecord::sign`, with the clock it reads. -/
def sign (secret : SecretKey) (addr : SocketAddrV4) (ts : UInt64) :
    SignedRecord EndpointId Signature :=
  let payload := RecordPayload.v1 ⟨addr, ts⟩
  ⟨K.endpointId secret, payload, K.sign secret (RecordPayload.codec.enc payload)⟩

/-- `SignedRecord::addr`. -/
def addr : SocketAddrV4 := r.payload.getV1.addr

/-- `SignedRecord::verify`. -/
def verify : Bool := K.verify r.endpointId (RecordPayload.codec.enc r.payload) r.sig

/-- `SignedRecord::encode`. -/
def encode : List UInt8 := (codec K).enc r

/-- `SignedRecord::decode`: a record read from the slot of `addr`. -/
def decode (value : List UInt8) (addr : SocketAddrV4) :
    Option (SignedRecord EndpointId Signature) :=
  (Postcard.fromBytes (codec K) value).bind fun record =>
    if record.addr = addr ∧ record.verify K = true then some record else none

theorem decode_eq_some {value : List UInt8} {addr : SocketAddrV4}
    {r : SignedRecord EndpointId Signature} :
    decode K value addr = some r ↔
      Postcard.fromBytes (codec K) value = some r ∧ r.addr = addr ∧ r.verify K = true := by
  rw [decode, Option.bind_eq_some_iff]
  constructor
  · rintro ⟨record, hread, h⟩
    split at h
    · rename_i hvalid
      obtain rfl := Option.some.inj h
      exact ⟨hread, hvalid⟩
    · cases h
  · rintro ⟨hread, hvalid⟩
    exact ⟨r, hread, if_pos hvalid⟩

/-- What was stored is read back. -/
theorem fromBytes_encode (hlen : (r.encode K).length < sizeLimit) :
    Postcard.fromBytes (codec K) (r.encode K) = some r := by
  have hdec := (codec K).dec_enc r [] hlen
  rw [List.append_nil] at hdec
  rw [Postcard.fromBytes, encode, hdec]
  rfl

/-! ### A sample -/

namespace Sample

/-- A socket that two endpoints sign a record for. -/
def socket : SocketAddrV4 := ⟨⟨192, 0, 2, 1⟩, 4433⟩

/-- What they sign. -/
def payload : RecordPayload := .v1 ⟨socket, 1700000010⟩

/-- The endpoint id of the Ed25519 key of 32 ones, or of 32 twos. -/
def endpointId : Bool → List.Vector UInt8 32
  | true =>
    ⟨[138, 136, 227, 221, 116, 9, 241, 149, 253, 82, 219, 45, 60, 186, 93, 114, 202, 103, 9, 191,
      29, 148, 18, 27, 243, 116, 136, 1, 180, 15, 111, 92], rfl⟩
  | false =>
    ⟨[129, 57, 119, 14, 168, 125, 23, 95, 86, 163, 84, 102, 195, 76, 126, 204, 203, 141, 138,
      145, 180, 238, 55, 162, 93, 246, 15, 91, 143, 201, 179, 148], rfl⟩

/-- Their signatures of the payload. -/
def signature : Bool → List.Vector UInt8 64
  | true =>
    ⟨[193, 72, 216, 176, 151, 221, 11, 203, 75, 101, 125, 16, 184, 132, 151, 122, 233, 173, 148,
      118, 58, 198, 113, 242, 103, 172, 181, 185, 218, 225, 237, 33, 92, 219, 145, 107, 30, 231,
      118, 19, 124, 238, 216, 142, 87, 157, 127, 22, 76, 51, 51, 185, 242, 99, 217, 180, 15, 127,
      254, 188, 126, 134, 206, 10], rfl⟩
  | false =>
    ⟨[1, 149, 94, 12, 220, 107, 73, 243, 218, 8, 204, 88, 91, 199, 78, 2, 39, 178, 11, 199, 225,
      206, 123, 33, 125, 92, 121, 115, 113, 119, 235, 104, 162, 10, 55, 133, 205, 181, 233, 68,
      7, 221, 219, 240, 111, 59, 250, 144, 235, 242, 150, 165, 65, 42, 240, 228, 12, 27, 83, 187,
      201, 142, 166, 10], rfl⟩

/-- Ed25519 on these keys and this payload; elsewhere the end of the message stands for
its signature. -/
def signing : Signing Bool (List.Vector UInt8 32) (List.Vector UInt8 64) where
  endpointId := endpointId
  sign key message :=
    if message = RecordPayload.codec.enc payload then signature key
    else ⟨(message.reverse ++ List.replicate 64 0).take 64, by simp⟩
  verify id message sig :=
    decide (message = RecordPayload.codec.enc payload ∧
      ((id = endpointId true ∧ sig = signature true) ∨
        id = endpointId false ∧ sig = signature false))
  endpointIdCodec := .array 32
  signatureCodec := .array 64

/-- The record of an endpoint. -/
def record (key : Bool) : SignedRecord (List.Vector UInt8 32) (List.Vector UInt8 64) :=
  ⟨endpointId key, payload, signature key⟩

theorem decode_record (key : Bool) :
    decode signing ((record key).encode signing) socket = some (record key) := by
  cases key <;> decide +kernel

end Sample

end SignedRecord

end ContentDiscovery
