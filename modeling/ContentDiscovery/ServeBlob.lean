import ContentDiscovery.Http
import ContentDiscovery.Ranges

/-!
# Serving a blob

`serve_blob` of `iroh-link-gateway/src/lib.rs`: the response to a request for a blob,
and the stream of its body. A provider may answer in any way, except that a leaf of a
Bao stream is verified: it holds the bytes of the blob at its offset.
-/

namespace ContentDiscovery

open Http

/-- A blob: its length is a `u64`. -/
structure Blob where
  /-- the bytes -/
  bytes : List UInt8
  length_lt : bytes.length < 2 ^ 64

/-- The bytes of a range. -/
def Blob.slice (blob : Blob) (range : HalfOpen UInt64) : List UInt8 :=
  (blob.bytes.drop range.start.toNat).take (range.stop.toNat - range.start.toNat)

/-- `Leaf`: verified bytes of the blob. -/
structure Leaf (blob : Blob) where
  /-- the position of the first one -/
  offset : UInt64
  /-- the bytes -/
  data : List UInt8
  verified : (blob.bytes.drop offset.toNat).take data.length = data

/-- `BaoContentItem`. -/
inductive BaoContentItem (blob : Blob) where
  /-- hashes -/
  | parent
  /-- bytes -/
  | leaf (leaf : Leaf blob)

/-- What a future with a deadline comes to. -/
inductive Timed (α : Type) where
  /-- the deadline passed -/
  | elapsed
  /-- the error or the result -/
  | returned (result : Except Str α)

/-- `EndBlobNext`. -/
inductive EndBlobNext where
  /-- another blob follows -/
  | moreChildren
  /-- the end of the response, and what closing it comes to -/
  | closing (result : Timed Unit)

/-- `AtBlobContent`: what reading it comes to, step by step. -/
inductive AtBlobContent (blob : Blob) where
  /-- the deadline of a read passes -/
  | elapsed
  /-- `BlobContentNext::More` -/
  | more (item : Except Str (BaoContentItem blob)) (next : AtBlobContent blob)
  /-- `BlobContentNext::Done` -/
  | done (next : EndBlobNext)
  /-- no read that comes back: the body is dropped, or goes on -/
  | pending

/-- The chunks of a request, from one number on, before another one. -/
abbrev ChunkRanges : Type := HalfOpen ℕ

/-- `Connection`: what the provider makes of each request for chunks, in turn. -/
abbrev Connection (blob : Blob) : Type :=
  ℕ → ChunkRanges → Timed (AtBlobContent blob × UInt64)

/-- `Source`. -/
structure Source (blob : Blob) where
  /-- the provider -/
  connection : Connection blob
  /-- the size of the blob -/
  size : UInt64
  /-- the content type -/
  mime : Str
  /-- a `String` has at most `isize::MAX` bytes -/
  mime_lt : (Str.bytes mime).length < 2 ^ 63

variable {blob : Blob}

/-! ## The bodies -/

/-- `chunks_for`: the chunks that cover a range. -/
def chunksFor (range : HalfOpen UInt64) : ChunkRanges :=
  ⟨range.start.toNat / 1024, (range.stop.toNat + 1023) / 1024⟩

/-- The bytes of a leaf that are in the range, by their positions. -/
def Leaf.clip (leaf : Leaf blob) (range : HalfOpen UInt64) : HalfOpen UInt64 :=
  ⟨max leaf.offset range.start, min (leaf.offset + .ofNat leaf.data.length) range.stop⟩

/-- `Bytes::slice`, of the data of a leaf. -/
def Leaf.slice (leaf : Leaf blob) (clip : HalfOpen UInt64) : List UInt8 :=
  (leaf.data.take (clip.stop - leaf.offset).toNat).drop (clip.start - leaf.offset).toNat

/-- The end of `stream_content`. -/
def streamEnd : EndBlobNext → Body
  | .moreChildren => .failed (.other "unexpected child blob".toList)
  | .closing .elapsed => .failed .elapsed
  | .closing (.returned (.error text)) => .failed (.other text)
  | .closing (.returned (.ok ())) => .ended

/-- The loop of `stream_content`, with the position of the next byte. -/
def streamFrom (range : HalfOpen UInt64) : UInt64 → AtBlobContent blob → Body
  | _, .pending => .unfinished
  | _, .elapsed => .failed .elapsed
  | _, .more (.error text) _ => .failed (.other text)
  | offset, .more (.ok .parent) next => streamFrom range offset next
  | offset, .more (.ok (.leaf leaf)) next =>
    let clip := leaf.clip range
    if clip.start < clip.stop then
      if clip.start ≠ offset then .failed (.other "noncontiguous blob data".toList)
      else .yield (leaf.slice clip) (streamFrom range clip.stop next)
    else streamFrom range offset next
  | offset, .done next =>
    if offset ≠ range.stop then .failed (.other "incomplete blob data".toList)
    else streamEnd next

/-- `stream_content`. -/
def streamContent (content : AtBlobContent blob) (range : HalfOpen UInt64) : Body :=
  streamFrom range range.start content

def CRLF : Str := ['\r', '\n']

/-- The value of `Content-Range`. -/
def contentRange (first last size : ℕ) : Str :=
  "bytes ".toList ++ Str.ofNat first ++ "-".toList ++ Str.ofNat last ++ "/".toList ++
    Str.ofNat size

/-- The header of a part, by the positions of its first and its last byte. -/
def partHead (source : Source blob) (boundary : Str) (first last : ℕ) : Str :=
  "--".toList ++ boundary ++ CRLF ++ "Content-Type: ".toList ++ source.mime ++ CRLF ++
    "Content-Range: ".toList ++ contentRange first last source.size.toNat ++ CRLF ++ CRLF

/-- `part_header`. -/
def partHeader (source : Source blob) (range : HalfOpen UInt64) (boundary : Str) : Str :=
  partHead source boundary range.start.toNat (range.stop - 1).toNat

/-- The closing boundary. -/
def closing (boundary : Str) : Str := "--".toList ++ boundary ++ "--".toList ++ CRLF

/-- `u64::checked_add`. -/
def checkedAdd (a b : UInt64) : Option UInt64 :=
  if a.toNat + b.toNat < 2 ^ 64 then some (a + b) else none

/-- The step of `multipart_length`. -/
def addPart (source : Source blob) (boundary : Str) (total : UInt64) (range : HalfOpen UInt64) :
    Option UInt64 := do
  let total ← checkedAdd total (.ofNat (Str.bytes (partHeader source range boundary)).length)
  let total ← checkedAdd total (range.stop - range.start)
  checkedAdd total 2

/-- `multipart_length`. -/
def multipartLength (source : Source blob) (ranges : List (HalfOpen UInt64)) (boundary : Str) :
    Option UInt64 :=
  ranges.foldlM (addPart source boundary) (.ofNat (Str.bytes (closing boundary)).length)

/-- `multipart_content`, from the request for the range number `index` on. -/
def multipartContent (source : Source blob) (boundary : Str) :
    (index : ℕ) → List (HalfOpen UInt64) → Body
  | _, [] => .yield (Str.bytes (closing boundary)) .ended
  | index, range :: ranges =>
    match source.connection index (chunksFor range) with
    | .elapsed => .failed .elapsed
    | .returned (.error text) => .failed (.other text)
    | .returned (.ok (content, size)) =>
      if size ≠ source.size then .failed (.other "provider changed blob size".toList)
      else
        .yield (Str.bytes (partHeader source range boundary))
          ((streamContent content range).andThen
            (.yield (Str.bytes CRLF) (multipartContent source boundary (index + 1) ranges)))

/-! ## The response -/

/-- `Caching`. -/
inductive Caching where
  /-- the URL names the bytes -/
  | Immutable
  /-- the URL names a key -/
  | Revalidate

/-- `Caching::header`. -/
def Caching.header : Caching → Str
  | Immutable => "public, max-age=31536000, immutable".toList
  | Revalidate => "public, no-cache".toList

/-- `ATTR_CHAR`: the bytes that are not escaped. -/
def ATTR_CHAR (b : UInt8) : Bool :=
  (48 ≤ b ∧ b ≤ 57) || (65 ≤ b ∧ b ≤ 90) || (97 ≤ b ∧ b ≤ 122) ||
    b ∈ [33, 35, 36, 38, 43, 45, 46, 94, 95, 96, 124, 126]

/-- `utf8_percent_encode`. -/
def percentEncode (s : Str) : Str :=
  (Str.bytes s).flatMap fun b =>
    if ATTR_CHAR b then [Char.ofNat b.toNat]
    else ['%', (b.toNat / 16).digitChar.toUpper, (b.toNat % 16).digitChar.toUpper]

/-- `attachment`. -/
def attachment (filename : Str) : Str :=
  let ascii := filename.map fun c =>
    if c.isAlphanum ∨ c ∈ ['.', '-', '_', ' '] then c else '_'
  "attachment; filename=\"".toList ++ ascii ++ "\"; filename*=UTF-8''".toList ++
    percentEncode filename

/-- A request for a blob. -/
structure BlobRequest where
  /-- the hash in the URL -/
  encoded : Str
  /-- the name to save it under -/
  download : Option Str
  caching : Caching
  method : Method
  headers : HeaderMap

namespace BlobRequest

variable (request : BlobRequest)

/-- The entity tag of the blob. -/
def etag : Str := ['"'] ++ request.encoded ++ ['"']

/-- The request names the tag of what it has. -/
def matchesEtag : Bool :=
  ((request.headers.getAll .ifNoneMatch).filterMap HeaderValue.toStr).any fun value =>
    (value.splitOn ',').any fun part =>
      Str.trim part = ['*'] ∨
        (Str.stripPrefix "W/".toList (Str.trim part)).getD (Str.trim part) = request.etag

/-- The range header, if there is one and it is alone. -/
def rangeHeader : Option Str :=
  if (request.headers.getAll .range).length = 1 then
    (request.headers.get .range).bind HeaderValue.toStr
  else none

/-- The range header does not count. -/
def wantsAll : Bool :=
  request.method = .HEAD ∨
    (request.headers.get .ifRange).any fun value => value ≠ Str.bytes request.etag

/-- The bytes to serve. -/
def selection (size : UInt64) : Ranges.Selection :=
  if request.wantsAll then .full else Ranges.select request.rangeHeader size

/-- The headers that a response starts with. -/
def baseHeaders (source : Source blob) : HeaderMap :=
  let headers : HeaderMap :=
    [(.contentType, Str.bytes source.mime), (.acceptRanges, Str.bytes "bytes".toList),
      (.etag, Str.bytes request.etag), (.cacheControl, Str.bytes request.caching.header),
      (.xContentTypeOptions, Str.bytes "nosniff".toList)]
  match request.download with
  | some filename => headers.append .contentDisposition (Str.bytes (attachment filename))
  | none => headers

end BlobRequest

/-- The boundary between the parts, from a random number. -/
def boundaryOf (random : BitVec 128) : Str :=
  let digits := Nat.toDigits 16 random.toNat
  "iroh-".toList ++ List.replicate (32 - digits.length) '0' ++ digits

/-- The response with one range, or with all of the blob. -/
def serveRange (source : Source blob) (request : BlobRequest) (range : HalfOpen UInt64)
    (status : StatusCode) (headers : HeaderMap) : Except HttpError Http.Response :=
  let headers := headers.append .contentLength
    (Str.bytes (Str.ofNat (range.stop - range.start).toNat))
  if request.method = .HEAD ∨ range.stop ≤ range.start then .ok ⟨status, headers, .ended⟩
  else
    match source.connection 0 (chunksFor range) with
    | .elapsed => .error .timeout
    | .returned (.error _) => .error .upstream
    | .returned (.ok (content, size)) =>
      if size ≠ source.size then
        .error ⟨StatusCode.BAD_GATEWAY, "provider changed blob size".toList⟩
      else .ok ⟨status, headers, streamContent content range⟩

/-- The response with several ranges. -/
def serveParts (source : Source blob) (ranges : List (HalfOpen UInt64))
    (boundary : Str) (headers : HeaderMap) : Except HttpError Http.Response :=
  match multipartLength source ranges boundary with
  | none => .error ⟨StatusCode.BAD_REQUEST, "multipart response too large".toList⟩
  | some length =>
    let headers := (headers.remove .contentType).append .contentType
      (Str.bytes ("multipart/byteranges; boundary=".toList ++ boundary))
    .ok ⟨StatusCode.PARTIAL_CONTENT,
      headers.append .contentLength (Str.bytes (Str.ofNat length.toNat)),
      multipartContent source boundary 0 ranges⟩

/-- `serve_blob`. -/
def serveBlob (source : Source blob) (request : BlobRequest) (random : BitVec 128) :
    Except HttpError Http.Response :=
  let headers := request.baseHeaders source
  if request.matchesEtag then .ok ⟨StatusCode.NOT_MODIFIED, headers, .ended⟩
  else
    match request.selection source.size with
    | .unsatisfiable =>
      .ok ⟨StatusCode.RANGE_NOT_SATISFIABLE,
        [(.contentRange, Str.bytes ("bytes */".toList ++ Str.ofNat source.size.toNat)),
          (.acceptRanges, Str.bytes "bytes".toList),
          (.cacheControl, Str.bytes "no-store".toList)], .ended⟩
    | .full => serveRange source request ⟨0, source.size⟩ StatusCode.OK headers
    | .part [range] =>
      serveRange source request range StatusCode.PARTIAL_CONTENT
        (headers.append .contentRange
          (Str.bytes (contentRange range.start.toNat (range.stop - 1).toNat source.size.toNat)))
    -- `select` never returns an empty list of ranges
    | .part ranges => serveParts source ranges (boundaryOf random) headers

/-! ## One range -/

section Range

variable {range : HalfOpen UInt64} {content : AtBlobContent blob} {offset : UInt64}
  {leaf : Leaf blob}

theorem Blob.slice_append (blob : Blob) {a b c : UInt64} (hab : a ≤ b) (hbc : b ≤ c) :
    blob.slice ⟨a, b⟩ ++ blob.slice ⟨b, c⟩ = blob.slice ⟨a, c⟩ := by
  rw [UInt64.le_iff_toNat_le] at hab hbc
  have hdrop : blob.bytes.drop b.toNat = (blob.bytes.drop a.toNat).drop (b.toNat - a.toNat) := by
    rw [List.drop_drop, Nat.add_sub_cancel' hab]
  have hlen : c.toNat - a.toNat = b.toNat - a.toNat + (c.toNat - b.toNat) := by omega
  simp only [Blob.slice, hdrop, hlen]
  exact (List.take_add ..).symm

theorem Blob.slice_self (blob : Blob) (a : UInt64) : blob.slice ⟨a, a⟩ = [] := by
  simp [Blob.slice]

/-- The end of a leaf does not overflow. -/
theorem Leaf.toNat_stop (leaf : Leaf blob) :
    (leaf.offset + .ofNat leaf.data.length).toNat = leaf.offset.toNat + leaf.data.length := by
  have hblob := blob.length_lt
  have hoffset := leaf.offset.toNat_lt
  have hlen := congrArg List.length leaf.verified
  rw [List.length_take, List.length_drop] at hlen
  have hdata : leaf.data.length < 2 ^ 64 := by omega
  rw [UInt64.toNat_add, UInt64.toNat_ofNat_of_lt' hdata, Nat.mod_eq_of_lt (by omega)]

/-- What is cut out of a leaf is that part of the blob. -/
theorem Leaf.slice_clip (h : (leaf.clip range).start < (leaf.clip range).stop) :
    leaf.slice (leaf.clip range) = blob.slice (leaf.clip range) ∧
      (leaf.slice (leaf.clip range)).length =
        (leaf.clip range).stop.toNat - (leaf.clip range).start.toNat := by
  have hfirst : leaf.offset ≤ (leaf.clip range).start := le_max_left _ _
  have hlast : (leaf.clip range).stop ≤ leaf.offset + .ofNat leaf.data.length := min_le_left _ _
  rw [UInt64.le_iff_toNat_le, leaf.toNat_stop] at hlast
  generalize leaf.clip range = clip at *
  have hle : leaf.offset ≤ clip.stop := hfirst.trans h.le
  have hlen : (leaf.slice clip).length = clip.stop.toNat - clip.start.toNat := by
    rw [Leaf.slice, List.length_drop, List.length_take, UInt64.toNat_sub_of_le _ _ hle,
      UInt64.toNat_sub_of_le _ _ hfirst]
    rw [UInt64.le_iff_toNat_le] at hfirst hle
    omega
  refine ⟨?_, hlen⟩
  rw [Leaf.slice, Blob.slice, ← leaf.verified, List.take_take, List.drop_take, List.drop_drop,
    UInt64.toNat_sub_of_le _ _ hle, UInt64.toNat_sub_of_le _ _ hfirst]
  rw [UInt64.le_iff_toNat_le] at hfirst hle
  rw [Nat.add_sub_cancel' hfirst]
  congr 1
  omega

/-- A stream that ends has the bytes from its position on. -/
theorem streamFrom_bytes (hstart : range.start ≤ offset) (hstop : offset ≤ range.stop)
    (h : (streamFrom range offset content).Ends) :
    (streamFrom range offset content).bytes = blob.slice ⟨offset, range.stop⟩ ∧
      (streamFrom range offset content).bytes.length = range.stop.toNat - offset.toNat := by
  induction content generalizing offset with
  | elapsed => exact h.elim
  | pending => exact h.elim
  | done next =>
    rw [streamFrom] at h ⊢
    split at h
    · exact h.elim
    · rename_i heq
      rw [ne_eq, not_not] at heq
      subst heq
      rw [if_neg (not_not.mpr rfl), Blob.slice_self, Nat.sub_self]
      obtain _ | (_ | (_ | ⟨⟩)) := next
      · exact h.elim
      · exact h.elim
      · exact h.elim
      · exact ⟨rfl, rfl⟩
  | more item next ih =>
    obtain text | (_ | leaf) := item
    · exact h.elim
    · exact ih hstart hstop h
    · rw [streamFrom] at h ⊢
      split at h
      · rename_i hlt
        split at h
        · exact h.elim
        · rename_i heq
          rw [ne_eq, not_not] at heq
          have hoffset : offset ≤ (leaf.clip range).stop := heq ▸ hlt.le
          have hrange : (leaf.clip range).stop ≤ range.stop := min_le_right _ _
          obtain ⟨hslice, hlen⟩ := Leaf.slice_clip hlt
          obtain ⟨hbytes, hrest⟩ := ih (hstart.trans hoffset) hrange h
          rw [if_pos hlt, if_neg (not_not.mpr heq), Body.bytes, List.length_append, hrest, hlen,
            hbytes, hslice]
          rw [UInt64.le_iff_toNat_le] at hoffset hrange
          have hclip : leaf.clip range = ⟨offset, (leaf.clip range).stop⟩ := by rw [← heq]
          refine ⟨?_, ?_⟩
          · rw [hclip]
            exact blob.slice_append hoffset hrange
          · rw [heq]
            omega
      · rename_i hnot
        rw [if_neg hnot]
        exact ih hstart hstop h

theorem streamContent_bytes (hlt : range.start ≤ range.stop)
    (h : (streamContent content range).Ends) :
    (streamContent content range).bytes = blob.slice range ∧
      (blob.slice range).length = range.stop.toNat - range.start.toNat := by
  obtain ⟨hbytes, hlen⟩ := streamFrom_bytes (UInt64.le_refl _) hlt h
  rw [hbytes] at hlen
  exact ⟨hbytes, hlen⟩

end Range

/-! ## Several ranges -/

section Multipart

variable {source : Source blob} {boundary : Str} {ranges : List (HalfOpen UInt64)}
  {range : HalfOpen UInt64}

/-- The part of a body for a range: its header, its bytes, and the end of a line. -/
def part (source : Source blob) (boundary : Str) (range : HalfOpen UInt64) : List UInt8 :=
  Str.bytes (partHead source boundary range.start.toNat (range.stop.toNat - 1)) ++
    blob.slice range ++ Str.bytes CRLF

/-- The body for several ranges. -/
def multipart (source : Source blob) (boundary : Str) (ranges : List (HalfOpen UInt64)) :
    List UInt8 :=
  ranges.flatMap (part source boundary) ++ Str.bytes (closing boundary)

/-- The number of bytes of a part. -/
def partSize (source : Source blob) (boundary : Str) (range : HalfOpen UInt64) : ℕ :=
  (Str.bytes (partHead source boundary range.start.toNat (range.stop.toNat - 1))).length +
    (range.stop.toNat - range.start.toNat) + 2

/-- The number of bytes of the body for several ranges. -/
def multipartSize (source : Source blob) (boundary : Str) (ranges : List (HalfOpen UInt64)) : ℕ :=
  (ranges.map (partSize source boundary)).sum + (Str.bytes (closing boundary)).length

/-- The last byte of a range that has one. -/
theorem toNat_last (h : range.start < range.stop) :
    (range.stop - 1).toNat = range.stop.toNat - 1 := by
  rw [UInt64.lt_iff_toNat_lt] at h
  rw [UInt64.toNat_sub_of_le, UInt64.toNat_one]
  rw [UInt64.le_iff_toNat_le, UInt64.toNat_one]
  omega

theorem partHeader_eq (h : range.start < range.stop) :
    partHeader source range boundary =
      partHead source boundary range.start.toNat (range.stop.toNat - 1) := by
  rw [partHeader, toNat_last h]

theorem multipartContent_bytes {index : ℕ} (hlt : ∀ r ∈ ranges, r.start < r.stop)
    (h : (multipartContent source boundary index ranges).Ends) :
    (multipartContent source boundary index ranges).bytes = multipart source boundary ranges ∧
      (multipart source boundary ranges).length = multipartSize source boundary ranges := by
  induction ranges generalizing index with
  | nil => simp [multipartContent, multipart, multipartSize, Body.bytes]
  | cons range ranges ih =>
    rw [List.forall_mem_cons] at hlt
    rw [multipartContent] at h ⊢
    generalize source.connection index (chunksFor range) = answer at h ⊢
    obtain _ | (text | ⟨content, size⟩) := answer
    · exact absurd h (Body.not_ends_failed _)
    · exact absurd h (Body.not_ends_failed _)
    · simp only at h ⊢
      split at h
      · exact absurd h (Body.not_ends_failed _)
      · rename_i hsize
        rw [if_neg hsize]
        rw [Body.ends_yield, Body.ends_andThen, Body.ends_yield] at h
        obtain ⟨hbytes, hlen⟩ := streamContent_bytes hlt.1.le h.1
        obtain ⟨hrest, hsum⟩ := ih hlt.2 h.2
        have hmultipart : multipart source boundary (range :: ranges) =
            part source boundary range ++ multipart source boundary ranges := by
          rw [multipart, List.flatMap_cons, List.append_assoc]
          rfl
        rw [hmultipart]
        refine ⟨?_, ?_⟩
        · rw [Body.bytes, Body.bytes_andThen _ h.1, Body.bytes, hbytes, hrest, partHeader_eq hlt.1]
          simp only [part, List.append_assoc]
        · have hcrlf : (Str.bytes CRLF).length = 2 := by decide
          rw [List.length_append, hsum, part, List.length_append, List.length_append, hlen, hcrlf,
            multipartSize, multipartSize, List.map_cons, List.sum_cons, partSize]
          omega

/-! ## The lengths of the texts -/

theorem length_bytes_le (s : Str) : (Str.bytes s).length ≤ 4 * s.length := by
  induction s with
  | nil => rfl
  | cons c s ih =>
    have hc : (String.utf8EncodeChar c).length ≤ 4 := by
      rw [String.length_utf8EncodeChar]
      exact c.utf8Size_le_four
    rw [Str.bytes, List.flatMap_cons, List.length_append, List.length_cons]
    rw [Str.bytes] at ih
    omega

theorem length_ofNat_le {n : ℕ} (h : n < 2 ^ 64) : (Str.ofNat n).length ≤ 20 :=
  (Nat.length_toDigits_le_iff (by decide) (by decide)).mpr (h.trans (by decide))

/-- The header of a part is far below the limit, whatever the content type. -/
theorem length_partHead_lt (hboundary : boundary.length ≤ 100) {first last : ℕ}
    (hfirst : first < 2 ^ 64) (hlast : last < 2 ^ 64) :
    (Str.bytes (partHead source boundary first last)).length < 2 ^ 64 := by
  have hmime := source.mime_lt
  have hb := length_bytes_le boundary
  have hnumbers := length_bytes_le (contentRange first last source.size.toNat)
  have h₁ := length_ofNat_le hfirst
  have h₂ := length_ofNat_le hlast
  have h₃ := length_ofNat_le source.size.toNat_lt
  have hdashes : (Str.bytes "--".toList).length = 2 := by decide
  have hline : (Str.bytes CRLF).length = 2 := by decide
  have htype := length_bytes_le "Content-Type: ".toList
  have hname := length_bytes_le "Content-Range: ".toList
  have htype' : ("Content-Type: ".toList).length = 14 := by decide
  have hname' : ("Content-Range: ".toList).length = 15 := by decide
  have hrange : (contentRange first last source.size.toNat).length =
      8 + (Str.ofNat first).length + (Str.ofNat last).length +
        (Str.ofNat source.size.toNat).length := by
    unfold contentRange
    simp only [List.length_append, String.reduceToList, List.length_cons, List.length_nil]
    omega
  unfold partHead
  simp only [Str.bytes_append, List.length_append]
  omega

theorem length_closing_lt (hboundary : boundary.length ≤ 100) :
    (Str.bytes (closing boundary)).length < 2 ^ 64 := by
  have hb := length_bytes_le boundary
  have hdashes : (Str.bytes "--".toList).length = 2 := by decide
  have hline : (Str.bytes CRLF).length = 2 := by decide
  unfold closing
  simp only [Str.bytes_append, List.length_append, hdashes, hline]
  omega

theorem length_boundaryOf_le (random : BitVec 128) : (boundaryOf random).length ≤ 100 := by
  have hdigits : (Nat.toDigits 16 random.toNat).length ≤ 32 :=
    (Nat.length_toDigits_le_iff (by decide) (by decide)).mpr random.isLt
  unfold boundaryOf
  simp only [List.length_append, List.length_replicate, String.reduceToList, List.length_cons,
    List.length_nil]
  omega

/-- A number of bytes, unless it overflows. -/
def checked (n : ℕ) : Option UInt64 := if n < 2 ^ 64 then some (.ofNat n) else none

theorem checkedAdd_eq {a b : UInt64} {m n : ℕ} (ha : a.toNat = m) (hb : b.toNat = n) :
    checkedAdd a b = checked (m + n) := by
  rw [checkedAdd, checked, ha, hb]
  split
  · rename_i hlt
    rw [Option.some_inj, ← UInt64.toNat_inj, UInt64.toNat_add, ha, hb,
      UInt64.toNat_ofNat_of_lt' hlt, Nat.mod_eq_of_lt hlt]
  · rfl

/-- Checked additions one after another check the sum. -/
theorem checked_bind {f : UInt64 → Option UInt64} {m n : ℕ}
    (h : ∀ a : UInt64, a.toNat = m → f a = checked (m + n)) :
    (checked m).bind f = checked (m + n) := by
  rw [checked]
  split
  · rename_i hlt
    exact h _ (UInt64.toNat_ofNat_of_lt' hlt)
  · rename_i hge
    rw [checked, if_neg (by omega), Option.bind_none]

theorem addPart_eq {total : UInt64} {n : ℕ} (hboundary : boundary.length ≤ 100)
    (hlt : range.start < range.stop) (htotal : total.toNat = n) :
    addPart source boundary total range = checked (n + partSize source boundary range) := by
  have hhead : (Str.bytes (partHead source boundary range.start.toNat
      (range.stop.toNat - 1))).length < 2 ^ 64 :=
    length_partHead_lt hboundary range.start.toNat_lt
      ((Nat.sub_le _ _).trans_lt range.stop.toNat_lt)
  rw [addPart, partHeader_eq hlt, checkedAdd_eq htotal (UInt64.toNat_ofNat_of_lt' hhead), partSize,
    Nat.add_assoc, ← Nat.add_assoc]
  refine checked_bind fun a ha => ?_
  rw [checkedAdd_eq ha (UInt64.toNat_sub_of_le _ _ hlt.le), ← Nat.add_assoc]
  refine checked_bind fun b hb => ?_
  exact checkedAdd_eq hb rfl

/-- The length of a multipart body, unless it overflows. -/
theorem multipartLength_eq (hboundary : boundary.length ≤ 100)
    (hlt : ∀ r ∈ ranges, r.start < r.stop) :
    multipartLength source ranges boundary = checked (multipartSize source boundary ranges) := by
  have hfold {total : UInt64} {n : ℕ} (htotal : total.toNat = n) (hn : n < 2 ^ 64) :
      ranges.foldlM (addPart source boundary) total =
        checked (n + (ranges.map (partSize source boundary)).sum) := by
    induction ranges generalizing total n with
    | nil =>
      rw [List.foldlM_nil, List.map_nil, List.sum_nil, Nat.add_zero, checked, if_pos hn, ← htotal,
        UInt64.ofNat_toNat]
      rfl
    | cons range ranges ih =>
      rw [List.forall_mem_cons] at hlt
      rw [List.foldlM_cons, addPart_eq hboundary hlt.1 htotal, List.map_cons, List.sum_cons,
        ← Nat.add_assoc]
      exact checked_bind fun a ha => ih hlt.2 ha (ha ▸ a.toNat_lt)
  have hclosing := length_closing_lt hboundary
  rw [multipartLength, hfold (UInt64.toNat_ofNat_of_lt' hclosing) hclosing, multipartSize,
    Nat.add_comm]

end Multipart

/-! ## The whole response -/

section Response

variable {source : Source blob} {request : BlobRequest} {boundary : Str}
  {ranges : List (HalfOpen UInt64)} {range : HalfOpen UInt64}

/-- The response announces `n` bytes, and these are its body if that ends; there is none
in the response to a `HEAD` request. -/
structure Delivers (request : BlobRequest) (response : Http.Response) (n : ℕ) (bytes : List UInt8) :
    Prop where
  /-- `Content-Length` -/
  announced : response.headers.get .contentLength = some (Str.bytes (Str.ofNat n))
  /-- only the headers -/
  head : request.method = .HEAD → response.body = .ended
  /-- the bytes announced -/
  body : request.method ≠ .HEAD → response.body.Ends →
    response.body.bytes = bytes ∧ bytes.length = n

/-- What a response, or the error instead of it, says of the selection. -/
inductive Consistent (source : Source blob) (request : BlobRequest) (boundary : Str) :
    Except HttpError Http.Response → Prop where
  /-- The reader has the blob. -/
  | notModified {response : Http.Response} (hmatches : request.matchesEtag)
      (hstatus : response.status = StatusCode.NOT_MODIFIED) (hbody : response.body = .ended) :
      Consistent source request boundary (.ok response)
  /-- No byte is asked for. -/
  | unsatisfiable {response : Http.Response} (hmatches : ¬ request.matchesEtag)
      (hwants : ¬ request.wantsAll)
      (hnothing : ∀ i, ¬ Ranges.Asks request.rangeHeader source.size.toNat i)
      (hstatus : response.status = StatusCode.RANGE_NOT_SATISFIABLE)
      (hrange : response.headers.get .contentRange =
        some (Str.bytes ("bytes */".toList ++ Str.ofNat source.size.toNat)))
      (hbody : response.body = .ended) :
      Consistent source request boundary (.ok response)
  /-- All of the blob. -/
  | full {response : Http.Response} (hmatches : ¬ request.matchesEtag)
      (hwants : request.wantsAll ∨ Ranges.Ignored request.rangeHeader)
      (hstatus : response.status = StatusCode.OK)
      (hrange : response.headers.get .contentRange = none)
      (hdelivers : Delivers request response source.size.toNat (blob.slice ⟨0, source.size⟩)) :
      Consistent source request boundary (.ok response)
  /-- One range. -/
  | single {response : Http.Response} {range : HalfOpen UInt64} (hmatches : ¬ request.matchesEtag)
      (hwants : ¬ request.wantsAll)
      (hserves : Ranges.Serves request.rangeHeader source.size [range])
      (hstatus : response.status = StatusCode.PARTIAL_CONTENT)
      (hrange : response.headers.get .contentRange =
        some (Str.bytes (contentRange range.start.toNat (range.stop.toNat - 1) source.size.toNat)))
      (hdelivers : Delivers request response (range.stop.toNat - range.start.toNat)
        (blob.slice range)) :
      Consistent source request boundary (.ok response)
  /-- Several ranges, as the parts of one body. -/
  | multipart {response : Http.Response} {ranges : List (HalfOpen UInt64)}
      (hmatches : ¬ request.matchesEtag) (hwants : ¬ request.wantsAll)
      (hserves : Ranges.Serves request.rangeHeader source.size ranges) (hmany : 1 < ranges.length)
      (hstatus : response.status = StatusCode.PARTIAL_CONTENT)
      (hrange : response.headers.get .contentRange = none)
      (htype : response.headers.get .contentType =
        some (Str.bytes ("multipart/byteranges; boundary=".toList ++ boundary)))
      (hlength : multipartLength source ranges boundary =
        some (.ofNat (multipartSize source boundary ranges)))
      (hdelivers : Delivers request response (multipartSize source boundary ranges)
        (ContentDiscovery.multipart source boundary ranges)) :
      Consistent source request boundary (.ok response)
  /-- The length of the parts is no `u64`. -/
  | tooLarge {error : HttpError} {ranges : List (HalfOpen UInt64)}
      (hmatches : ¬ request.matchesEtag) (hwants : ¬ request.wantsAll)
      (hserves : Ranges.Serves request.rangeHeader source.size ranges) (hmany : 1 < ranges.length)
      (hsize : 2 ^ 64 ≤ multipartSize source boundary ranges)
      (hstatus : error.status = StatusCode.BAD_REQUEST) :
      Consistent source request boundary (.error error)
  /-- The provider fails before there is a response. -/
  | upstream {error : HttpError} (hmatches : ¬ request.matchesEtag)
      (hmethod : request.method ≠ .HEAD)
      (hstatus : error.status = StatusCode.BAD_GATEWAY ∨
        error.status = StatusCode.GATEWAY_TIMEOUT) :
      Consistent source request boundary (.error error)

/-- The response with one range delivers it. -/
theorem serveRange_cases (hle : range.start ≤ range.stop) {status : StatusCode}
    {headers : HeaderMap} (hheaders : headers.get .contentLength = none) :
    (∃ response, serveRange source request range status headers = .ok response ∧
        response.status = status ∧
        response.headers.get .contentRange = headers.get .contentRange ∧
        Delivers request response (range.stop.toNat - range.start.toNat) (blob.slice range)) ∨
      ∃ error, serveRange source request range status headers = .error error ∧
        request.method ≠ .HEAD ∧
        (error.status = StatusCode.BAD_GATEWAY ∨ error.status = StatusCode.GATEWAY_TIMEOUT) := by
  have hlength : (range.stop - range.start).toNat = range.stop.toNat - range.start.toNat :=
    UInt64.toNat_sub_of_le _ _ hle
  rw [serveRange, hlength]
  split
  · rename_i hempty
    refine .inl ⟨_, rfl, rfl, by simp, by simp [hheaders], fun _ => rfl, fun hmethod _ => ?_⟩
    rw [or_iff_right hmethod, UInt64.le_iff_toNat_le] at hempty
    rw [Blob.slice, Nat.sub_eq_zero_of_le hempty]
    exact ⟨rfl, rfl⟩
  · rename_i hread
    rw [not_or] at hread
    generalize source.connection 0 (chunksFor range) = answer
    obtain _ | (text | ⟨content, size⟩) := answer
    · exact .inr ⟨_, rfl, hread.1, .inr rfl⟩
    · exact .inr ⟨_, rfl, hread.1, .inl rfl⟩
    · simp only
      split
      · exact .inr ⟨_, rfl, hread.1, .inl rfl⟩
      · refine .inl ⟨_, rfl, rfl, by simp, by simp [hheaders], fun h => absurd h hread.1,
          fun _ hends => streamContent_bytes hle hends⟩

theorem get_baseHeaders {name : HeaderName} (h : name = .contentLength ∨ name = .contentRange) :
    (request.baseHeaders source).get name = none := by
  rw [BlobRequest.baseHeaders]
  split
  · rcases h with rfl | rfl <;> simp [HeaderMap.get, HeaderMap.getAll, HeaderMap.append]
  · rcases h with rfl | rfl <;> simp [HeaderMap.get, HeaderMap.getAll]

/-- The arithmetic of ranges and leaves neither overflows nor underflows. -/
structure Exact (source : Source blob) (boundary : Str) : Prop where
  /-- the last byte and the length of a range -/
  ranges : ∀ range : HalfOpen UInt64, range.start < range.stop →
    (range.stop - 1).toNat + 1 = range.stop.toNat ∧
      (range.stop - range.start).toNat + range.start.toNat = range.stop.toNat
  /-- `multipart_length` -/
  length : ∀ ranges : List (HalfOpen UInt64), (∀ r ∈ ranges, r.start < r.stop) →
    (multipartLength source ranges boundary = none ↔ 2 ^ 64 ≤ multipartSize source boundary ranges)
  /-- the end of a leaf, and what is cut out of it -/
  leaves : ∀ (leaf : Leaf blob) (range : HalfOpen UInt64),
    (leaf.offset + .ofNat leaf.data.length).toNat = leaf.offset.toNat + leaf.data.length ∧
      ((leaf.clip range).start < (leaf.clip range).stop →
        leaf.offset ≤ (leaf.clip range).start ∧ leaf.offset ≤ (leaf.clip range).stop)

theorem exact_boundary (hboundary : boundary.length ≤ 100) : Exact source boundary := by
  refine ⟨fun range hlt => ?_, fun ranges hlt => ?_, fun leaf range => ⟨leaf.toNat_stop, ?_⟩⟩
  · rw [toNat_last hlt, UInt64.toNat_sub_of_le _ _ hlt.le]
    rw [UInt64.lt_iff_toNat_lt] at hlt
    omega
  · rw [multipartLength_eq hboundary hlt, checked]
    split <;> simp <;> omega
  · intro hlt
    have hfirst : leaf.offset ≤ (leaf.clip range).start := le_max_left _ _
    exact ⟨hfirst, hfirst.trans hlt.le⟩

theorem full_consistent (hmatches : ¬ request.matchesEtag)
    (hwants : request.wantsAll ∨ Ranges.Ignored request.rangeHeader) :
    Consistent source request boundary
      (serveRange source request ⟨0, source.size⟩ StatusCode.OK (request.baseHeaders source)) := by
  have hle : (⟨0, source.size⟩ : HalfOpen UInt64).start ≤ source.size := UInt64.zero_le
  rcases serveRange_cases hle (get_baseHeaders (.inl rfl)) with
    ⟨response, heq, hstatus, hrange, hdelivers⟩ | ⟨error, heq, hmethod, hstatus⟩
  · rw [heq]
    exact .full hmatches hwants hstatus (hrange.trans (get_baseHeaders (.inr rfl))) hdelivers
  · rw [heq]
    exact .upstream hmatches hmethod hstatus

theorem single_consistent (hmatches : ¬ request.matchesEtag) (hwants : ¬ request.wantsAll)
    (hserves : Ranges.Serves request.rangeHeader source.size [range]) :
    Consistent source request boundary
      (serveRange source request range StatusCode.PARTIAL_CONTENT
        ((request.baseHeaders source).append .contentRange
          (Str.bytes (contentRange range.start.toNat (range.stop - 1).toNat
            source.size.toNat)))) := by
  have hlt := hserves.merged.nonempty range (List.mem_singleton_self _)
  have hheaders : ((request.baseHeaders source).append .contentRange
      (Str.bytes (contentRange range.start.toNat (range.stop - 1).toNat
        source.size.toNat))).get .contentLength = none := by
    simp [get_baseHeaders]
  rcases serveRange_cases hlt.le hheaders with
    ⟨response, heq, hstatus, hrange, hdelivers⟩ | ⟨error, heq, hmethod, hstatus⟩
  · rw [heq]
    refine .single hmatches hwants hserves hstatus ?_ hdelivers
    rw [hrange, HeaderMap.get_append, get_baseHeaders (.inr rfl), if_pos rfl, toNat_last hlt,
      Option.none_or]
  · rw [heq]
    exact .upstream hmatches hmethod hstatus

theorem multipart_consistent (hmatches : ¬ request.matchesEtag) (hwants : ¬ request.wantsAll)
    (hserves : Ranges.Serves request.rangeHeader source.size ranges) (hmany : 1 < ranges.length)
    (hboundary : boundary.length ≤ 100) :
    Consistent source request boundary
      (serveParts source ranges boundary (request.baseHeaders source)) := by
  have hlt := hserves.merged.nonempty
  have hlength : multipartLength source ranges boundary =
      checked (multipartSize source boundary ranges) := multipartLength_eq hboundary hlt
  have hmethod : request.method ≠ .HEAD := by
    intro hhead
    exact hwants (decide_eq_true (.inl hhead))
  rw [serveParts]
  rw [checked] at hlength
  split at hlength
  · rename_i hsize
    rw [hlength]
    refine .multipart hmatches hwants hserves hmany rfl ?_ ?_ hlength ⟨?_, ?_, fun _ hends => ?_⟩
    · simp [get_baseHeaders]
    · simp
    · simp [get_baseHeaders, UInt64.toNat_ofNat_of_lt' hsize]
    · exact fun hhead => absurd hhead hmethod
    · exact multipartContent_bytes hlt hends
  · rename_i hsize
    rw [hlength]
    exact .tooLarge hmatches hwants hserves hmany (not_lt.mp hsize) rfl

end Response

end ContentDiscovery
