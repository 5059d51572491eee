import ContentDiscovery.Directories
import ContentDiscovery.Pages
import ContentDiscovery.Postcard

/-!
# Reading collections

`read_collection` and `read_collection_blob` of `iroh-link-gateway/src/lib.rs`: a collection is
a hash sequence, whose first hash is that of the names. Sizes and leaves come from the provider,
in any number and at any position; nothing here needs them to be verified. A collection is
stored as its metadata and its root, which `iroh-blobs` writes.
-/

namespace ContentDiscovery

namespace ReadCollection

/-- `MAX_COLLECTION_NAME_BYTES`: the budget of a name. -/
def MAX_COLLECTION_NAME_BYTES : ℕ := 256

/-! ## Responses -/

/-- Why a collection is not read. -/
inductive ReadError where
  /-- an error of the connection -/
  | connection (text : Str)
  /-- `postcard` rejects the names -/
  | postcard
  /-- an error of the reader -/
  | reader (text : Str)

/-- What waiting comes to. -/
inductive Await (α : Type) where
  /-- nothing, yet or ever -/
  | pending
  | failed (error : ReadError)
  | ready (value : α)

/-- `?`. -/
def Await.bind {α β : Type} (a : Await α) (f : α → Await β) : Await β :=
  match a with
  | .pending => .pending
  | .failed error => .failed error
  | .ready value => f value

/-- `Leaf`. -/
structure Leaf where
  /-- the position of the first byte -/
  offset : UInt64
  /-- the bytes -/
  data : List UInt8
  /-- a length is a `usize` -/
  length_lt : data.length < 2 ^ 64

/-- `BaoContentItem`. -/
inductive BaoContentItem where
  /-- hashes -/
  | parent
  /-- bytes -/
  | leaf (leaf : Leaf)

/-- `AtBlobContent`: what reading it comes to, step by step, before what is after the blob. -/
inductive AtBlobContent (End : Type) where
  /-- no step that comes back -/
  | pending
  /-- `BlobContentNext::More` -/
  | more (item : Except Str BaoContentItem) (next : AtBlobContent End)
  /-- `BlobContentNext::Done` -/
  | done (next : End)

/-- `AtBlobHeader`: the content, and the size that the provider claims. -/
abbrev AtBlobHeader (End : Type) : Type := Await (AtBlobContent End × UInt64)

/-- `EndBlobNext`. -/
inductive EndBlobNext (Child : Type) where
  /-- another blob follows -/
  | moreChildren (child : Child)
  /-- the end of the response, and what closing it comes to -/
  | closing (result : Await Unit)

/-- The metadata, once its hash is known. -/
abbrev AtStartChild : Type := Hash → AtBlobHeader (EndBlobNext Unit)

/-- `ConnectedNext`. -/
inductive ConnectedNext where
  | startRoot (root : AtBlobHeader (EndBlobNext AtStartChild))
  /-- something else is sent first -/
  | other

/-- `Connection`: what the provider makes of a request for a root and its first child. -/
abbrev Connection : Type := Hash → Await ConnectedNext

/-! ## Components -/

variable {End : Type}

/-- The checks of a leaf, and what is buffered after it. -/
def push (limit : UInt64) (bytes : List UInt8) (leaf : Leaf) : Except Str (List UInt8) :=
  if leaf.offset ≠ .ofNat bytes.length then .error "noncontiguous collection component".toList
  else if limit - .ofNat bytes.length < .ofNat leaf.data.length then
    .error ("collection component exceeds its ".toList ++ Str.ofNat limit.toNat ++
      " byte limit".toList)
  else .ok (bytes ++ leaf.data)

/-- The loop of `read_collection_blob`. -/
def readContent (limit size : UInt64) :
    List UInt8 → AtBlobContent End → Await (End × List UInt8)
  | _, .pending => .pending
  | _, .more (.error text) _ => .failed (.connection text)
  | bytes, .more (.ok .parent) next => readContent limit size bytes next
  | bytes, .more (.ok (.leaf leaf)) next =>
    match push limit bytes leaf with
    | .error text => .failed (.reader text)
    | .ok bytes => readContent limit size bytes next
  | bytes, .done next =>
    if .ofNat bytes.length ≠ size then
      .failed (.reader "incomplete collection component".toList)
    else .ready (next, bytes)

/-- `read_collection_blob`. -/
def readCollectionBlob (header : AtBlobHeader End) (limit : UInt64) : Await (End × List UInt8) :=
  header.bind fun (content, size) =>
    -- the size is untrusted: it rejects, but it does not admit
    if limit < size then
      .failed (.reader ("collection component is ".toList ++ Str.ofNat size.toNat ++
        " bytes, above its ".toList ++ Str.ofNat limit.toNat ++ " byte limit".toList))
    else readContent limit size [] content

/-- What the loop has buffered, turn by turn. -/
def turns (limit : UInt64) : List UInt8 → AtBlobContent End → List (List UInt8)
  | bytes, .more (.ok .parent) next => bytes :: turns limit bytes next
  | bytes, .more (.ok (.leaf leaf)) next =>
    bytes :: match push limit bytes leaf with
      | .error _ => []
      | .ok bytes => turns limit bytes next
  | bytes, _ => [bytes]

/-- What `read_collection_blob` has buffered, turn by turn. -/
def buffers (header : AtBlobHeader End) (limit : UInt64) : List (List UInt8) :=
  match header with
  | .ready (content, size) => if limit < size then [] else turns limit [] content
  | _ => []

/-! ## Collections -/

/-- The first hashes of a sequence of bytes. -/
def hashes : ℕ → List UInt8 → List Hash
  | 0, _ => []
  | n + 1, bytes => (Vector.ofFn fun i => bytes.getD i 0) :: hashes n (bytes.drop 32)

/-- `HashSeq::new`: hashes one after the other, in the order of `pop_front`. -/
def HashSeq.new (bytes : List UInt8) : Option (List Hash) :=
  if bytes.length % 32 = 0 then some (hashes (bytes.length / 32) bytes) else none

/-- A `String`. -/
def stringCodec : Codec Str :=
  Codec.bytes.filterMap Str.bytes Str.fromUtf8 (fun _ => Str.fromUtf8_bytes)
    fun h => Str.fromUtf8_eq_some.mp h

theorem stringCodec_ne_nil (s : Str) : stringCodec.enc s ≠ [] := by
  show putVarint 10 _ ++ _ ≠ []
  rw [putVarint]
  split
  · simp
  · simp

/-- `Collection::HEADER`. -/
def HEADER : List.Vector UInt8 13 := ⟨Str.bytes "CollectionV0.".toList, by decide⟩

/-- `CollectionMeta`: the header and the names. -/
def metaCodec : Codec (List.Vector UInt8 13 × List Str) :=
  (Codec.array 13).pair (Codec.vec stringCodec stringCodec_ne_nil)

/-- The header and the number of names. -/
def countCodec : Codec (List.Vector UInt8 13 × UInt64) := (Codec.array 13).pair Codec.u64

/-- `names_limit`: ten bytes for the count and for each length, and the names. -/
def namesLimit (links : List Hash) : ℕ :=
  HEADER.toList.length + 10 + links.length * (MAX_COLLECTION_NAME_BYTES + 10)

/-- `read_collection`, up to the request for the metadata. -/
def readLinks (root : AtBlobHeader (EndBlobNext AtStartChild)) :
    Await (AtBlobHeader (EndBlobNext Unit) × List Hash) :=
  (readCollectionBlob root (.ofNat MAX_COLLECTION_ROOT_BYTES)).bind fun (next, bytes) =>
    match HashSeq.new bytes with
    | none => .failed (.reader "invalid hash sequence".toList)
    | some [] => .failed (.reader "missing metadata hash".toList)
    | some (metaHash :: links) =>
      match next with
      | .moreChildren child => .ready (child metaHash, links)
      | .closing _ => .failed (.reader "expected collection metadata".toList)

/-- `read_collection`, from the metadata on. -/
def readNames (header : AtBlobHeader (EndBlobNext Unit)) (links : List Hash) : Await Collection :=
  (readCollectionBlob header (.ofNat (namesLimit links))).bind fun (next, bytes) =>
    -- the count is checked first: it says how much is allocated
    match Postcard.fromBytes countCodec bytes with
    | none => .failed .postcard
    | some (_, count) =>
      if count.toNat ≠ links.length then
        .failed (.reader "names and links length mismatch".toList)
      else
        match Postcard.fromBytes metaCodec bytes with
        | none => .failed .postcard
        | some (header, names) =>
          if header ≠ HEADER then
            .failed (.reader "invalid collection metadata header".toList)
          else
            match next with
            | .moreChildren _ => .failed (.reader "unexpected collection child".toList)
            | .closing result => result.bind fun _ => .ready (names.zip links)

/-- `read_collection`. -/
def readCollection (connection : Connection) (hash : Hash) : Await Collection :=
  (connection hash).bind fun
    | .other => .failed (.reader "expected collection root".toList)
    | .startRoot root => (readLinks root).bind fun (header, links) => readNames header links

/-! ## Stored collections -/

/-- The names of a collection, as they are stored. -/
def metadata (collection : Collection) : List UInt8 :=
  metaCodec.enc (HEADER, collection.map Prod.fst)

/-- The root of a collection, as it is stored: `hashOf` is BLAKE3. -/
def rootBytes (hashOf : List UInt8 → Hash) (collection : Collection) : List UInt8 :=
  (hashOf (metadata collection) :: collection.map Prod.snd).flatMap Vector.toList

/-- The content from a position on: its leaves are the bytes, in order. -/
inductive Delivers (next : End) : ℕ → List UInt8 → AtBlobContent End → Prop
  | done {position : ℕ} : Delivers next position [] (.done next)
  | parent {position : ℕ} {bytes : List UInt8} {content : AtBlobContent End}
      (h : Delivers next position bytes content) :
      Delivers next position bytes (.more (.ok .parent) content)
  | leaf {position : ℕ} {bytes : List UInt8} {content : AtBlobContent End} {leaf : Leaf}
      (hoffset : leaf.offset.toNat = position)
      (h : Delivers next (position + leaf.data.length) bytes content) :
      Delivers next position (leaf.data ++ bytes) (.more (.ok (.leaf leaf)) content)

/-- A component that is sent as it is, with what is after it. -/
def Sends (header : AtBlobHeader End) (bytes : List UInt8) (next : End) : Prop :=
  ∃ content size, header = .ready (content, size) ∧ size.toNat = bytes.length ∧
    Delivers next 0 bytes content

/-- A complete provider of a stored collection. -/
def Provides (hashOf : List UInt8 → Hash) (connection : Connection) (collection : Collection) :
    Prop :=
  ∃ root child, connection (hashOf (rootBytes hashOf collection)) = .ready (.startRoot root) ∧
    Sends root (rootBytes hashOf collection) (.moreChildren child) ∧
    Sends (child (hashOf (metadata collection))) (metadata collection) (.closing (.ready ()))

section

variable {limit size : UInt64} {bytes all rest : List UInt8} {leaf : Leaf} {next : End}
  {content : AtBlobContent End} {header : AtBlobHeader End}

/-! ## What is buffered -/

theorem Await.bind_eq_ready {α β : Type} {a : Await α} {f : α → Await β} {b : β} :
    a.bind f = .ready b ↔ ∃ value, a = .ready value ∧ f value = .ready b := by
  cases a with
  | pending => simp [Await.bind]
  | failed error => simp [Await.bind]
  | ready value => simp [Await.bind]

/-- A buffer within the limit is subtracted from it. -/
theorem toNat_limit_sub (h : bytes.length ≤ limit.toNat) :
    (limit - .ofNat bytes.length).toNat = limit.toNat - bytes.length := by
  have hlt : bytes.length < 2 ^ 64 := h.trans_lt limit.toNat_lt
  have hbytes : (UInt64.ofNat bytes.length).toNat = bytes.length := UInt64.toNat_ofNat_of_lt' hlt
  rw [UInt64.toNat_sub_of_le _ _ (by rwa [UInt64.le_iff_toNat_le, hbytes]), hbytes]

/-- A leaf is kept if it is the next one and fits. -/
theorem push_eq_ok (h : bytes.length ≤ limit.toNat) :
    push limit bytes leaf = .ok all ↔ leaf.offset.toNat = bytes.length ∧
      all = bytes ++ leaf.data ∧ all.length ≤ limit.toNat := by
  have hlt : bytes.length < 2 ^ 64 := h.trans_lt limit.toNat_lt
  have hoffset : leaf.offset = .ofNat bytes.length ↔ leaf.offset.toNat = bytes.length := by
    rw [← UInt64.toNat_inj, UInt64.toNat_ofNat_of_lt' hlt]
  have hfits : limit - .ofNat bytes.length < .ofNat leaf.data.length ↔
      limit.toNat < bytes.length + leaf.data.length := by
    rw [UInt64.lt_iff_toNat_lt, toNat_limit_sub h, UInt64.toNat_ofNat_of_lt' leaf.length_lt]
    omega
  rw [push, ← hoffset]
  split
  · rename_i hne
    exact iff_of_false nofun fun hall => hne hall.1
  · rename_i heq
    split
    · rename_i hlong
      refine iff_of_false nofun fun ⟨_, hall, hle⟩ => ?_
      rw [hall, List.length_append] at hle
      exact absurd (hfits.mp hlong) (by omega)
    · rename_i hshort
      rw [Except.ok.injEq]
      refine ⟨?_, fun hall => hall.2.1.symm⟩
      rintro rfl
      rw [List.length_append]
      have hle := hfits.not.mp hshort
      exact ⟨not_not.mp heq, rfl, by omega⟩

/-- No turn of the loop has more in the buffer than the limit. -/
theorem length_of_mem_turns (h : bytes.length ≤ limit.toNat) {buffer : List UInt8}
    (hmem : buffer ∈ turns limit bytes content) : buffer.length ≤ limit.toNat := by
  fun_induction turns limit bytes content with
  | case1 bytes content ih =>
    rcases List.mem_cons.mp hmem with rfl | hmem
    · exact h
    · exact ih h hmem
  | case2 bytes leaf content ih =>
    rcases List.mem_cons.mp hmem with rfl | hmem
    · exact h
    · split at hmem
      · cases hmem
      · rename_i all hpush
        exact ih all ((push_eq_ok h).mp hpush).2.2 hmem
  | case3 bytes content =>
    rw [List.mem_singleton.mp hmem]
    exact h

theorem length_of_mem_buffers {buffer : List UInt8} (hmem : buffer ∈ buffers header limit) :
    buffer.length ≤ limit.toNat := by
  rw [buffers.eq_def] at hmem
  split at hmem
  · split at hmem
    · cases hmem
    · exact length_of_mem_turns (Nat.zero_le _) hmem
  · cases hmem

/-! ## What is read -/

/-- A reading that succeeds has read what was delivered. -/
theorem readContent_eq_ready (h : bytes.length ≤ limit.toNat) (hsize : size ≤ limit) :
    readContent limit size bytes content = .ready (next, all) ↔
      ∃ rest, all = bytes ++ rest ∧ all.length = size.toNat ∧
        Delivers next bytes.length rest content := by
  have hsize' : size.toNat ≤ limit.toNat := UInt64.le_iff_toNat_le.mp hsize
  fun_induction readContent limit size bytes content with
  | case1 bytes =>
    exact iff_of_false nofun fun ⟨_, _, _, hdelivers⟩ => by cases hdelivers
  | case2 bytes text content =>
    exact iff_of_false nofun fun ⟨_, _, _, hdelivers⟩ => by cases hdelivers
  | case3 bytes content ih =>
    refine (ih h).trans ?_
    constructor
    · rintro ⟨rest, hall, hlength, hdelivers⟩
      exact ⟨rest, hall, hlength, .parent hdelivers⟩
    · rintro ⟨rest, hall, hlength, hdelivers⟩
      cases hdelivers with
      | parent hdelivers => exact ⟨rest, hall, hlength, hdelivers⟩
  | case4 bytes leaf content text hpush =>
    refine iff_of_false nofun fun ⟨rest, hall, hlength, hdelivers⟩ => ?_
    -- a leaf that is delivered is pushed
    cases hdelivers with
    | @leaf _ rest _ _ hoffset hdelivers =>
      have hok : push limit bytes leaf = .ok (bytes ++ leaf.data) := by
        rw [push_eq_ok h]
        refine ⟨hoffset, rfl, ?_⟩
        rw [hall, List.length_append, List.length_append] at hlength
        rw [List.length_append]
        omega
      rw [hok] at hpush
      cases hpush
  | case5 bytes leaf content bytes' hpush ih =>
    obtain ⟨hoffset, rfl, hle⟩ := (push_eq_ok h).mp hpush
    refine (ih hle).trans ?_
    constructor
    · rintro ⟨rest, hall, hlength, hdelivers⟩
      rw [List.length_append] at hdelivers
      exact ⟨leaf.data ++ rest, by rw [hall, List.append_assoc], hlength, .leaf hoffset hdelivers⟩
    · rintro ⟨rest, hall, hlength, hdelivers⟩
      cases hdelivers with
      | @leaf _ rest _ _ _ hdelivers =>
        refine ⟨rest, by rw [hall, List.append_assoc], hlength, ?_⟩
        rw [List.length_append]
        exact hdelivers
  | case6 bytes next' hne =>
    refine iff_of_false nofun fun ⟨rest, hall, hlength, hdelivers⟩ => ?_
    cases hdelivers with
    | done =>
      rw [List.append_nil] at hall
      rw [← hall, hlength, UInt64.ofNat_toNat] at hne
      exact hne rfl
  | case7 bytes next' heq =>
    have hlt : bytes.length < 2 ^ 64 := h.trans_lt limit.toNat_lt
    have hlength : bytes.length = size.toNat := by
      rw [← not_not.mp heq, UInt64.toNat_ofNat_of_lt' hlt]
    constructor
    · intro hready
      obtain ⟨rfl, rfl⟩ := Prod.mk.inj (Await.ready.inj hready)
      exact ⟨[], (List.append_nil _).symm, hlength, .done⟩
    · rintro ⟨rest, hall, -, hdelivers⟩
      cases hdelivers with
      | done => rw [hall, List.append_nil]

/-- `read_collection_blob` reads what is sent, if it is within the limit. -/
theorem readCollectionBlob_eq_ready : readCollectionBlob header limit = .ready (next, bytes) ↔
    Sends header bytes next ∧ bytes.length ≤ limit.toNat := by
  rw [readCollectionBlob, Await.bind_eq_ready]
  constructor
  · rintro ⟨⟨content, size⟩, hheader, hread⟩
    dsimp only at hread
    split at hread
    · cases hread
    · rename_i hsize
      have hsize : size ≤ limit := UInt64.not_lt.mp hsize
      obtain ⟨rest, rfl, hlength, hdelivers⟩ :=
        (readContent_eq_ready (Nat.zero_le _) hsize).mp hread
      refine ⟨⟨content, size, hheader, hlength.symm, hdelivers⟩, ?_⟩
      rw [hlength]
      exact UInt64.le_iff_toNat_le.mp hsize
  · rintro ⟨⟨content, size, hheader, hlength, hdelivers⟩, hle⟩
    have hsize : size ≤ limit := by rwa [UInt64.le_iff_toNat_le, hlength]
    refine ⟨(content, size), hheader, ?_⟩
    dsimp only
    rw [if_neg (UInt64.not_lt.mpr hsize), readContent_eq_ready (Nat.zero_le _) hsize]
    exact ⟨bytes, rfl, hlength.symm, hdelivers⟩

/-! ## Hash sequences -/

theorem hash_of_append (hash : Hash) (rest : List UInt8) :
    (Vector.ofFn fun i : Fin 32 => (hash.toList ++ rest).getD i 0) = hash := by
  refine Vector.ext fun i hi => ?_
  have hlt : i < hash.toList.length := by rwa [hash.length_toList]
  rw [Vector.getElem_ofFn, List.getD_eq_getElem?_getD, List.getElem?_append_left hlt]
  simp [hi]

theorem hashes_flatMap (links : List Hash) :
    hashes links.length (links.flatMap Vector.toList) = links := by
  induction links with
  | nil => rfl
  | cons hash links ih =>
    rw [List.flatMap_cons, List.length_cons, hashes, hash_of_append,
      List.drop_left' hash.length_toList, ih]

theorem flatMap_hashes {n : ℕ} (h : bytes.length = 32 * n) :
    (hashes n bytes).flatMap Vector.toList = bytes := by
  induction n generalizing bytes with
  | zero => exact (List.length_eq_zero_iff.mp h).symm
  | succ n ih =>
    have htake : (Vector.ofFn fun i : Fin 32 => bytes.getD i 0).toList = bytes.take 32 := by
      refine List.ext_getElem (by simp; omega) fun i hi hi' => ?_
      have hbytes : i < bytes.length := by
        rw [Vector.length_toList] at hi
        omega
      simp [hbytes]
    rw [hashes, List.flatMap_cons, htake, ih (by rw [List.length_drop]; omega),
      List.take_append_drop]

theorem length_flatMap_toList (links : List Hash) :
    (links.flatMap Vector.toList).length = 32 * links.length := by
  induction links with
  | nil => rfl
  | cons hash links ih =>
    rw [List.flatMap_cons, List.length_append, hash.length_toList, ih, List.length_cons]
    omega

/-- A hash sequence is its hashes, one after the other. -/
theorem hashSeq_eq_some {links : List Hash} :
    HashSeq.new bytes = some links ↔ bytes = links.flatMap Vector.toList := by
  rw [HashSeq.new]
  constructor
  · intro h
    split at h
    · rename_i hmod
      rw [← Option.some.inj h, flatMap_hashes (by omega)]
    · cases h
  · rintro rfl
    rw [length_flatMap_toList, if_pos (Nat.mul_mod_right ..), Nat.mul_div_cancel_left _ (by decide),
      hashes_flatMap]

/-! ## Names -/

/-- The names begin with their count. -/
theorem count_of_names {names : List Str} {head : List.Vector UInt8 13}
    (h : Postcard.fromBytes metaCodec bytes = some (head, names)) :
    ∃ count, Postcard.fromBytes countCodec bytes = some (head, count) ∧
      count.toNat = names.length := by
  obtain ⟨⟨_, rest⟩, hdec, rfl⟩ := Option.map_eq_some_iff.mp h
  obtain ⟨⟨head', mid⟩, hhead, hdec⟩ := Option.bind_eq_some_iff.mp hdec
  obtain ⟨⟨names', rest'⟩, hnames, hdec⟩ := Option.map_eq_some_iff.mp hdec
  obtain ⟨hpair, rfl⟩ := Prod.mk.inj hdec
  obtain ⟨rfl, rfl⟩ := Prod.mk.inj hpair
  obtain ⟨count, rest'', hcount, hlength⟩ := Codec.dec_u64_of_vec hnames
  refine ⟨count, ?_, hlength⟩
  have hpair : countCodec.dec bytes = some ((head', count), rest'') := by
    show ((Codec.array 13).dec bytes).bind _ = _
    rw [hhead, Option.bind_some]
    dsimp only
    rw [hcount, Option.map_some]
  rw [Postcard.fromBytes, hpair, Option.map_some]

theorem length_enc_string_le (s : Str) : (stringCodec.enc s).length ≤ 10 + (Str.bytes s).length :=
  Codec.length_enc_bytes_le _

/-- Names take their bytes, and ten more for each. -/
theorem length_enc_names_le (names : List Str) :
    (names.flatMap stringCodec.enc).length ≤
      10 * names.length + (names.map fun name => (Str.bytes name).length).sum := by
  induction names with
  | nil => exact le_rfl
  | cons name names ih =>
    have hname := length_enc_string_le name
    rw [List.flatMap_cons, List.length_append, List.length_cons, List.map_cons, List.sum_cons]
    omega

/-- The metadata of a collection whose names are within their budget. -/
theorem length_metadata_le {collection : Collection}
    (h : (collection.map fun entry => (Str.bytes entry.1).length).sum
      ≤ MAX_COLLECTION_NAME_BYTES * collection.length) :
    (metadata collection).length ≤ namesLimit (collection.map Prod.snd) := by
  have hnames := length_enc_names_le (collection.map Prod.fst)
  have hcount := Codec.length_putVarint_le 10 (collection.map Prod.fst).length
  rw [List.map_map, List.length_map] at hnames
  rw [List.length_map] at hcount
  have hlength : (metadata collection).length = 13 +
      ((putVarint 10 (collection.map Prod.fst).length).length +
        ((collection.map Prod.fst).flatMap stringCodec.enc).length) := by
    show (HEADER.toList ++ (putVarint 10 _ ++ _) : List UInt8).length = _
    rw [List.length_append, List.length_append]
    rfl
  have hlimit : namesLimit (collection.map Prod.snd)
      = 13 + 10 + collection.length * (MAX_COLLECTION_NAME_BYTES + 10) := by
    rw [namesLimit, List.length_map]
    rfl
  have hsum : (collection.map ((fun name => (Str.bytes name).length) ∘ Prod.fst)).sum
      = (collection.map fun entry => (Str.bytes entry.1).length).sum := rfl
  rw [hlength, hlimit, List.length_map, Nat.mul_add, Nat.mul_comm collection.length]
  omega

/-! ## Collections -/

theorem readLinks_eq_ready {root : AtBlobHeader (EndBlobNext AtStartChild)}
    {header : AtBlobHeader (EndBlobNext Unit)} {links : List Hash} :
    readLinks root = .ready (header, links) ↔ ∃ child metaHash, header = child metaHash ∧
      Sends root ((metaHash :: links).flatMap Vector.toList) (.moreChildren child) ∧
      32 * (links.length + 1) ≤ MAX_COLLECTION_ROOT_BYTES := by
  have hmax : (UInt64.ofNat MAX_COLLECTION_ROOT_BYTES).toNat = MAX_COLLECTION_ROOT_BYTES := by
    decide
  rw [readLinks, Await.bind_eq_ready]
  constructor
  · rintro ⟨⟨next, bytes⟩, hread, h⟩
    obtain ⟨hsends, hle⟩ := readCollectionBlob_eq_ready.mp hread
    rw [hmax] at hle
    dsimp only at h
    split at h
    · cases h
    · cases h
    · rename_i metaHash links' hlinks
      obtain rfl := hashSeq_eq_some.mp hlinks
      split at h
      · obtain ⟨rfl, rfl⟩ := Prod.mk.inj (Await.ready.inj h)
        rw [length_flatMap_toList, List.length_cons] at hle
        exact ⟨_, metaHash, rfl, hsends, hle⟩
      · cases h
  · rintro ⟨child, metaHash, rfl, hsends, hle⟩
    refine ⟨(_, _), readCollectionBlob_eq_ready.mpr ⟨hsends, ?_⟩, ?_⟩
    · rw [hmax, length_flatMap_toList, List.length_cons]
      exact hle
    · dsimp only
      rw [hashSeq_eq_some.mpr rfl]

/-- The names limit of a root within its own. -/
theorem toNat_namesLimit {links : List Hash}
    (h : 32 * (links.length + 1) ≤ MAX_COLLECTION_ROOT_BYTES) :
    (UInt64.ofNat (namesLimit links)).toNat = namesLimit links := by
  refine UInt64.toNat_ofNat_of_lt' ?_
  have hlimit : namesLimit links = 23 + links.length * 266 := rfl
  have hmax : MAX_COLLECTION_ROOT_BYTES = 1048576 := rfl
  have hsize : UInt64.size = 18446744073709551616 := rfl
  omega

/-- The metadata that a collection stores is read as its names. -/
theorem fromBytes_metadata {collection : Collection}
    (h : 32 * ((collection.map Prod.snd).length + 1) ≤ MAX_COLLECTION_ROOT_BYTES)
    (hnames : (collection.map fun entry => (Str.bytes entry.1).length).sum
      ≤ MAX_COLLECTION_NAME_BYTES * collection.length) :
    Postcard.fromBytes metaCodec (metadata collection)
      = some (HEADER, collection.map Prod.fst) := by
  have hlt : (metadata collection).length < sizeLimit := by
    have hlimit := UInt64.toNat_lt (.ofNat (namesLimit (collection.map Prod.snd)))
    rw [toNat_namesLimit h] at hlimit
    exact (length_metadata_le hnames).trans_lt hlimit
  have hread := metaCodec.dec_enc (HEADER, collection.map Prod.fst) [] hlt
  rw [List.append_nil] at hread
  rw [Postcard.fromBytes, metadata, hread]
  rfl

theorem readNames_eq_ready {header : AtBlobHeader (EndBlobNext Unit)} {links : List Hash}
    {collection : Collection} (h : 32 * (links.length + 1) ≤ MAX_COLLECTION_ROOT_BYTES) :
    readNames header links = .ready collection ↔ ∃ bytes names,
      Sends header bytes (.closing (.ready ())) ∧ bytes.length ≤ namesLimit links ∧
      Postcard.fromBytes metaCodec bytes = some (HEADER, names) ∧
      names.length = links.length ∧ collection = names.zip links := by
  rw [readNames, Await.bind_eq_ready]
  constructor
  · rintro ⟨⟨next, bytes⟩, hread, hready⟩
    obtain ⟨hsends, hle⟩ := readCollectionBlob_eq_ready.mp hread
    rw [toNat_namesLimit h] at hle
    dsimp only at hready
    split at hready
    · cases hready
    · rename_i head count hcount
      split at hready
      · cases hready
      · rename_i hlinks
        split at hready
        · cases hready
        · rename_i head' names hnames
          split at hready
          · cases hready
          · rename_i hheader
            obtain rfl := not_not.mp hheader
            -- both readings begin with the same count
            obtain ⟨count', hcount', hlength⟩ := count_of_names hnames
            rw [hcount] at hcount'
            obtain ⟨-, rfl⟩ := Prod.mk.inj (Option.some.inj hcount')
            split at hready
            · cases hready
            · obtain ⟨⟨⟩, rfl, hcollection⟩ := Await.bind_eq_ready.mp hready
              exact ⟨bytes, names, hsends, hle, hnames, hlength.symm.trans (not_not.mp hlinks),
                (Await.ready.inj hcollection).symm⟩
  · rintro ⟨bytes, names, hsends, hle, hnames, hlength, rfl⟩
    obtain ⟨count, hcount, hcount'⟩ := count_of_names hnames
    refine ⟨(_, bytes), readCollectionBlob_eq_ready.mpr ⟨hsends, ?_⟩, ?_⟩
    · rw [toNat_namesLimit h]
      exact hle
    · dsimp only
      rw [hcount]
      dsimp only
      rw [if_neg (not_not.mpr (hcount'.trans hlength)), hnames]
      rfl

/-- Lengths within a limit are so as numbers of 64 bits. -/
theorem ofNat_le_ofNat {n limit : ℕ} (hlimit : (UInt64.ofNat limit).toNat = limit)
    (hle : n ≤ limit) : UInt64.ofNat n ≤ UInt64.ofNat limit := by
  have hlt : n < 2 ^ 64 := by
    rw [← hlimit] at hle
    exact hle.trans_lt (UInt64.toNat_lt _)
  rw [UInt64.le_iff_toNat_le, hlimit, UInt64.toNat_ofNat_of_lt' hlt]
  exact hle

/-- Reading collections is bounded and faithful: no turn of a loop has buffered more than the
limit, what is read has a name for each hash of the root, in order, and a stored collection
within the documented limits is read back. -/
theorem read_collection_faithful (hashOf : List UInt8 → Hash) (connection : Connection) :
    (∀ root : AtBlobHeader (EndBlobNext AtStartChild),
      ∀ bytes ∈ buffers root (.ofNat MAX_COLLECTION_ROOT_BYTES),
        bytes.length ≤ MAX_COLLECTION_ROOT_BYTES ∧
          .ofNat bytes.length ≤ UInt64.ofNat MAX_COLLECTION_ROOT_BYTES) ∧
    (∀ root header links, readLinks root = .ready (header, links) →
      ∀ bytes ∈ buffers header (.ofNat (namesLimit links)),
        bytes.length ≤ namesLimit links ∧ .ofNat bytes.length ≤ UInt64.ofNat (namesLimit links)) ∧
    (∀ hash collection, readCollection connection hash = .ready collection →
      ∃ root child metaHash links bytes names, connection hash = .ready (.startRoot root) ∧
        Sends root ((metaHash :: links).flatMap Vector.toList) (.moreChildren child) ∧
        Sends (child metaHash) bytes (.closing (.ready ())) ∧
        Postcard.fromBytes metaCodec bytes = some (HEADER, names) ∧
        collection.map Prod.fst = names ∧ collection.map Prod.snd = links) ∧
    (∀ collection : Collection, (rootBytes hashOf collection).length ≤ MAX_COLLECTION_ROOT_BYTES →
      (collection.map fun entry => (Str.bytes entry.1).length).sum
        ≤ MAX_COLLECTION_NAME_BYTES * collection.length →
      Provides hashOf connection collection →
      readCollection connection (hashOf (rootBytes hashOf collection)) = .ready collection) := by
  refine ⟨?_, ?_, ?_, ?_⟩
  · intro root bytes hmem
    have hle : bytes.length ≤ MAX_COLLECTION_ROOT_BYTES := length_of_mem_buffers hmem
    exact ⟨hle, ofNat_le_ofNat (by decide) hle⟩
  · intro root header links hlinks bytes hmem
    obtain ⟨child, metaHash, -, -, hroot⟩ := readLinks_eq_ready.mp hlinks
    have hlimit := toNat_namesLimit hroot
    have hle := length_of_mem_buffers hmem
    rw [hlimit] at hle
    exact ⟨hle, ofNat_le_ofNat hlimit hle⟩
  · intro hash collection h
    obtain ⟨connected, hconnected, h⟩ := Await.bind_eq_ready.mp h
    cases connected with
    | other => cases h
    | startRoot root =>
      obtain ⟨⟨header, links⟩, hlinks, hnames⟩ := Await.bind_eq_ready.mp h
      obtain ⟨child, metaHash, rfl, hroot, hle⟩ := readLinks_eq_ready.mp hlinks
      obtain ⟨bytes, names, hsends, -, hdec, hlength, rfl⟩ := (readNames_eq_ready hle).mp hnames
      exact ⟨root, child, metaHash, links, bytes, names, hconnected, hroot, hsends, hdec,
        List.map_fst_zip hlength.le, List.map_snd_zip hlength.ge⟩
  · intro collection hroot hnames hprovides
    obtain ⟨root, child, hconnected, hsends, hmeta⟩ := hprovides
    have hle : 32 * ((collection.map Prod.snd).length + 1) ≤ MAX_COLLECTION_ROOT_BYTES := by
      rwa [rootBytes, length_flatMap_toList, List.length_cons] at hroot
    have hdec := fromBytes_metadata hle hnames
    rw [readCollection, Await.bind_eq_ready]
    refine ⟨.startRoot root, hconnected, ?_⟩
    rw [Await.bind_eq_ready]
    refine ⟨(_, _), readLinks_eq_ready.mpr ⟨child, _, rfl, hsends, hle⟩, ?_⟩
    refine (readNames_eq_ready hle).mpr ⟨_, _, hmeta, length_metadata_le hnames, hdec, ?_, ?_⟩
    · rw [List.length_map, List.length_map]
    · exact List.zip_of_prod rfl rfl

end

namespace Sample

/-- The hash of an empty file. -/
def file : Hash :=
  #v[175, 19, 73, 185, 245, 249, 161, 166, 160, 64, 77, 234, 54, 220, 201, 73, 155, 203, 37, 201,
    173, 193, 18, 183, 204, 154, 147, 202, 228, 31, 50, 98]

/-- The hash of `hi`. -/
def greeting : Hash :=
  #v[133, 5, 46, 154, 171, 27, 103, 182, 98, 45, 148, 160, 132, 65, 176, 159, 213, 183, 172, 166,
    30, 227, 96, 65, 109, 112, 222, 93, 166, 125, 134, 202]

def collection : Collection := [("a".toList, file), ("b".toList, greeting)]

/-- BLAKE3 of the metadata, and of the root. -/
def hashOf (bytes : List UInt8) : Hash :=
  if bytes = metadata collection then
    #v[6, 73, 46, 18, 128, 215, 186, 70, 167, 147, 28, 31, 236, 253, 87, 249, 253, 30, 163, 55, 236,
      193, 158, 75, 139, 109, 183, 203, 132, 129, 105, 96]
  else
    #v[99, 215, 101, 9, 80, 250, 94, 16, 179, 208, 61, 156, 240, 43, 211, 210, 31, 3, 250, 97, 8,
      140, 165, 58, 52, 219, 228, 147, 219, 40, 65, 222]

/-- The metadata, in one leaf. -/
def names : Leaf := ⟨0, metadata collection, by decide⟩

def child : AtStartChild := fun _ =>
  .ready (.more (.ok (.leaf names)) (.done (.closing (.ready ()))), 18)

/-- The root, in two leaves. -/
def first : Leaf := ⟨0, (rootBytes hashOf collection).take 40, by decide⟩

def second : Leaf := ⟨40, (rootBytes hashOf collection).drop 40, by decide⟩

def root : AtBlobHeader (EndBlobNext AtStartChild) :=
  .ready (.more (.ok .parent) (.more (.ok (.leaf first)) (.more (.ok (.leaf second))
    (.done (.moreChildren child)))), 96)

def connection : Connection := fun _ => .ready (.startRoot root)

theorem provides : Provides hashOf connection collection := by
  refine ⟨root, child, rfl, ⟨_, _, rfl, by decide, ?_⟩, ⟨_, _, rfl, by decide, ?_⟩⟩
  · have hbytes : first.data ++ (second.data ++ []) = rootBytes hashOf collection := by
      rw [List.append_nil]
      exact List.take_append_drop 40 _
    rw [← hbytes]
    exact .parent (.leaf rfl (.leaf (by decide) .done))
  · have hbytes : names.data ++ [] = metadata collection := List.append_nil _
    rw [← hbytes]
    exact .leaf rfl .done

end Sample

open Sample in
/-- A collection of two files is read. -/
theorem read_collection_faithful_sample :
    readCollection connection (hashOf (rootBytes hashOf collection)) = .ready collection :=
  (read_collection_faithful hashOf connection).2.2.2 collection (by decide) (by decide) provides

end ReadCollection

end ContentDiscovery
