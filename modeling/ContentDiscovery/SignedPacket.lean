import ContentDiscovery.BigEndian
import ContentDiscovery.Dns

/-!
# Pkarr signed packets

`encode_signed_packet` and `decode_signed_packet` of
`iroh-mainline-endpoint-discovery/src/pkarr.rs`: the bytes that relays use, and the gateway
stores. What a signature is valid for is up to the crate of the keys.
-/

namespace ContentDiscovery

/-- A `MutableItem` with its signature. The sequence is an `i64`. -/
structure SignedItem extends MutableItem where
  /-- `signature` -/
  signature : Vector UInt8 64
  seq_ge : -2 ^ 63 ≤ seq
  seq_lt : seq < 2 ^ 63

/-- `PublicKey::verify`, of a key that is one: the key, the message and the signature. -/
abbrev Verify : Type := Vector UInt8 32 → List UInt8 → Vector UInt8 64 → Bool

/-- `<[T]>::split_first_chunk`. -/
def splitFirstChunk (n : ℕ) (bytes : List UInt8) : Option (Vector UInt8 n × List UInt8) :=
  if h : n ≤ bytes.length then
    some (⟨(bytes.take n).toArray, by rw [List.size_toArray, List.length_take_of_le h]⟩,
      bytes.drop n)
  else none

/-- What BEP 44 signs of an item without a salt: the bencoded sequence and value. -/
def signable (seq : ℕ) (value : List UInt8) : List UInt8 :=
  Str.bytes ("3:seqi".toList ++ Str.ofNat seq ++ "e1:v".toList ++ Str.ofNat value.length ++
    ":".toList) ++ value

/-- `encode_signed_packet`. -/
def encodeSignedPacket (item : SignedItem) : Option (List UInt8) :=
  if item.salt.isSome then none
  else if item.seq < 0 then none
  else
    some (item.key.toList ++ (item.signature.toList ++ (toBeBytes 8 item.seq.toNat ++ item.value)))

/-- `decode_signed_packet`. -/
def decodeSignedPacket (verify : Verify) (bytes : List UInt8) : Option SignedItem :=
  match splitFirstChunk 32 bytes with
  | none => none
  | some (key, rest) =>
    match splitFirstChunk 64 rest with
    | none => none
    | some (signature, rest) =>
      match splitFirstChunk 8 rest with
      | none => none
      | some (seq, value) =>
        if h : fromBeBytes seq.toList < 2 ^ 63 then
          if verify key (signable (fromBeBytes seq.toList) value) signature then
            some
              { key, signature, value
                seq := fromBeBytes seq.toList
                salt := none
                seq_ge := by omega
                seq_lt := by exact_mod_cast h }
          else none
        else none

/-- The signature of an item is valid for it. -/
def SignedItem.Verifies (verify : Verify) (item : SignedItem) : Prop :=
  verify item.key (signable item.seq.toNat item.value) item.signature = true

variable {verify : Verify} {item : SignedItem} {bytes : List UInt8}

/-! ## What is signed -/

/-- Text is cut at the first separator in one way. -/
theorem append_cons_inj {α : Type} {c : α} {x x' z z' : List α} (hx : c ∉ x) (hx' : c ∉ x')
    (h : x ++ c :: z = x' ++ c :: z') : x = x' ∧ z = z' := by
  induction x generalizing x' with
  | nil =>
    cases x' with
    | nil => exact ⟨rfl, (List.cons.inj h).2⟩
    | cons d x' =>
      obtain ⟨rfl, -⟩ := List.cons.inj h
      exact absurd List.mem_cons_self hx'
  | cons d x ih =>
    cases x' with
    | nil =>
      obtain ⟨rfl, -⟩ := List.cons.inj h
      exact absurd List.mem_cons_self hx
    | cons d' x' =>
      obtain ⟨rfl, htail⟩ := List.cons.inj h
      obtain ⟨rfl, hz⟩ :=
        ih (List.not_mem_of_not_mem_cons hx) (List.not_mem_of_not_mem_cons hx') htail
      exact ⟨rfl, hz⟩

/-- The bytes of a number are digits. -/
theorem le_of_mem_ofNat {n : ℕ} {b : UInt8} (h : b ∈ Str.bytes (Str.ofNat n)) : b ≤ 57 := by
  have hdigit : ∀ c ∈ Str.ofNat n, c.toNat ≤ 57 :=
    fun c hc => (Str.toNat_of_isDigit (Str.isDigit_of_mem_ofNat hc)).2
  rw [Str.bytes_ascii fun c hc => (hdigit c hc).trans_lt (by decide)] at h
  obtain ⟨c, hc, rfl⟩ := List.mem_map.mp h
  have hle := hdigit c hc
  rw [UInt8.le_iff_toNat_le, UInt8.toNat_ofNat', Nat.mod_eq_of_lt (by omega)]
  exact hle

/-- The signed bytes tell the sequence and the value. -/
theorem signable_inj {seq seq' : ℕ} {value value' : List UInt8}
    (h : signable seq value = signable seq' value') : seq = seq' ∧ value = value' := by
  have hcut (seq : ℕ) (value : List UInt8) :
      signable seq value = Str.bytes "3:seqi".toList ++ (Str.bytes (Str.ofNat seq) ++
        101 :: ([49, 58, 118] ++ (Str.bytes (Str.ofNat value.length) ++ 58 :: value))) := by
    have hvalue : Str.bytes "e1:v".toList = [101, 49, 58, 118] := by decide
    have hcolon : Str.bytes ":".toList = [58] := by decide
    rw [signable, Str.bytes_append, Str.bytes_append, Str.bytes_append, Str.bytes_append, hvalue,
      hcolon]
    simp only [List.append_assoc, List.cons_append, List.nil_append]
  have hnot (n : ℕ) (b : UInt8) (hb : 57 < b) : b ∉ Str.bytes (Str.ofNat n) :=
    fun hmem => absurd (le_of_mem_ofNat hmem) (not_le_of_gt hb)
  rw [hcut, hcut] at h
  obtain ⟨hseq, htail⟩ := append_cons_inj (hnot _ _ (by decide)) (hnot _ _ (by decide))
    (List.append_cancel_left h)
  obtain ⟨-, hvalue⟩ := append_cons_inj (hnot _ _ (by decide)) (hnot _ _ (by decide))
    (List.append_cancel_left htail)
  exact ⟨Str.ofNat_injective (Str.bytes_injective hseq), hvalue⟩

/-! ## The layout -/

theorem splitFirstChunk_append {n : ℕ} (v : Vector UInt8 n) (rest : List UInt8) :
    splitFirstChunk n (v.toList ++ rest) = some (v, rest) := by
  have hlen : v.toList.length = n := v.length_toList
  rw [splitFirstChunk, dif_pos (by rw [List.length_append, hlen]; exact Nat.le_add_right _ _)]
  simp only [List.take_left' hlen, List.drop_left' hlen, Vector.toArray_toList]

theorem splitFirstChunk_eq_some {n : ℕ} {v : Vector UInt8 n} {rest : List UInt8} :
    splitFirstChunk n bytes = some (v, rest) ↔ bytes = v.toList ++ rest := by
  constructor
  · intro h
    rw [splitFirstChunk] at h
    split at h
    · cases h
      exact (List.take_append_drop n bytes).symm
    · cases h
  · rintro rfl
    exact splitFirstChunk_append v rest

/-- The word of eight bytes is written as these bytes. -/
theorem toBeBytes_toList (v : Vector UInt8 8) : toBeBytes 8 (fromBeBytes v.toList) = v.toList := by
  have hlen : v.toList.length = 8 := v.length_toList
  have hback := toBeBytes_fromBeBytes v.toList
  rwa [hlen] at hback

/-- What is decoded is laid out this way, and verifies. -/
theorem decodeSignedPacket_eq_some :
    decodeSignedPacket verify bytes = some item ↔
      item.salt = none ∧ 0 ≤ item.seq ∧ item.Verifies verify ∧
        bytes = item.key.toList ++ (item.signature.toList ++
          (toBeBytes 8 item.seq.toNat ++ item.value)) := by
  constructor
  · intro h
    rw [decodeSignedPacket] at h
    split at h
    · cases h
    rename_i key rest hkey
    split at h
    · cases h
    rename_i signature rest' hsignature
    split at h
    · cases h
    rename_i seq value hseq
    split at h
    · rename_i hlt
      simp only [Option.ite_none_right_eq_some, Option.some.injEq] at h
      obtain ⟨hverify, rfl⟩ := h
      rw [splitFirstChunk_eq_some] at hkey hsignature hseq
      refine ⟨rfl, Int.natCast_nonneg _, ?_, ?_⟩
      · rw [SignedItem.Verifies, Int.toNat_natCast]
        exact hverify
      · rw [Int.toNat_natCast, toBeBytes_toList, hkey, hsignature, hseq]
    · cases h
  · rintro ⟨hsalt, hseq, hverify, rfl⟩
    rcases item with ⟨⟨key, seq, value, salt⟩, signature, hge, hseqLt⟩
    obtain rfl : salt = none := hsalt
    obtain ⟨n, rfl⟩ := Int.eq_ofNat_of_zero_le hseq
    have hlt : n < 2 ^ 63 := Int.ofNat_lt.mp hseqLt
    have hverify : verify key (signable n value) signature = true := hverify
    have hlen : (toBeBytes 8 n).length = 8 := length_toBeBytes _ _
    have hword : toBeBytes 8 n
        = (⟨(toBeBytes 8 n).toArray, by rw [List.size_toArray, hlen]⟩ : Vector UInt8 8).toList :=
      rfl
    have hread : fromBeBytes (toBeBytes 8 n) = n := by
      rw [fromBeBytes_toBeBytes, Nat.mod_eq_of_lt (hlt.trans (by decide))]
    simp only [decodeSignedPacket, splitFirstChunk_append, Int.toNat_natCast]
    rw [hword, splitFirstChunk_append]
    simp only [← hword, hread]
    rw [dif_pos hlt, if_pos hverify]

/-- Only items with a salt or a negative sequence cannot be encoded. -/
theorem encodeSignedPacket_eq_none :
    encodeSignedPacket item = none ↔ item.salt.isSome ∨ item.seq < 0 := by
  rw [encodeSignedPacket]
  split
  · rename_i hsalt
    exact iff_of_true rfl (.inl hsalt)
  · rename_i hsalt
    split
    · rename_i hseq
      exact iff_of_true rfl (.inr hseq)
    · rename_i hseq
      exact iff_of_false (fun h => by cases h) (not_or_intro hsalt hseq)

theorem encodeSignedPacket_of (hsalt : item.salt = none) (hseq : 0 ≤ item.seq) :
    encodeSignedPacket item = some (item.key.toList ++ (item.signature.toList ++
      (toBeBytes 8 item.seq.toNat ++ item.value))) := by
  rw [encodeSignedPacket, hsalt, if_neg (by simp), if_neg (not_lt_of_ge hseq)]

/-- The codec of signed packets, both ways: items that can be expressed and verify are read back,
what is read is written as it was, and only salted items and negative sequences are refused. The
signed bytes tell the sequence and the value, so a change to an accepted packet is accepted with
the same key and signature only if the signature is valid for two messages. -/
theorem signed_packet_codec (verify : Verify) :
    (∀ item : SignedItem, item.salt = none → 0 ≤ item.seq → item.Verifies verify →
      ∃ bytes, encodeSignedPacket item = some bytes ∧
        decodeSignedPacket verify bytes = some item) ∧
    (∀ bytes item, decodeSignedPacket verify bytes = some item →
      encodeSignedPacket item = some bytes ∧ item.Verifies verify) ∧
    (∀ item, encodeSignedPacket item = none ↔ item.salt.isSome ∨ item.seq < 0) ∧
    (∀ seq seq' value value', signable seq value = signable seq' value' →
      seq = seq' ∧ value = value') ∧
    ∀ bytes bytes' item item', decodeSignedPacket verify bytes = some item →
      decodeSignedPacket verify bytes' = some item' → item.key = item'.key →
        item.signature = item'.signature →
          (∀ m m', verify item.key m item.signature → verify item.key m' item.signature →
            m = m') → bytes = bytes' := by
  refine ⟨fun item hsalt hseq hverify => ?_, fun bytes item h => ?_,
    fun _ => encodeSignedPacket_eq_none, fun _ _ _ _ => signable_inj,
    fun bytes bytes' item item' h h' hkey hsignature hsound => ?_⟩
  · exact ⟨_, encodeSignedPacket_of hsalt hseq,
      decodeSignedPacket_eq_some.mpr ⟨hsalt, hseq, hverify, rfl⟩⟩
  · obtain ⟨hsalt, hseq, hverify, rfl⟩ := decodeSignedPacket_eq_some.mp h
    exact ⟨encodeSignedPacket_of hsalt hseq, hverify⟩
  · obtain ⟨-, -, hverify, rfl⟩ := decodeSignedPacket_eq_some.mp h
    obtain ⟨-, -, hverify', rfl⟩ := decodeSignedPacket_eq_some.mp h'
    rw [SignedItem.Verifies, ← hkey, ← hsignature] at hverify'
    obtain ⟨hseq, hvalue⟩ := signable_inj (hsound _ _ hverify hverify')
    rw [hkey, hsignature, hseq, hvalue]

end ContentDiscovery
