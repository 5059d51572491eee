import ContentDiscovery.Buffered
import ContentDiscovery.Collections
import ContentDiscovery.LruHistory
import ContentDiscovery.Machine
import ContentDiscovery.ReadCollection
import ContentDiscovery.Reassembly

/-!
# The caches of a gateway

`source`, `source_on_connection`, `size`, `sizes`, `collection` and `collection_on_connection` of
`iroh-link-gateway/src/lib.rs`, for any number of calls at once that share the caches. A call looks
into a cache first, and asks a provider otherwise; which providers are found, what they send, when
connections close and when a call is dropped is up to the environment. What is sent goes through
`sniff`, `verified_size` and `read_collection`.
-/

namespace ContentDiscovery

open Http

namespace SourceCache

/-- `SOURCE_SLOTS`: sources and collections that are kept. -/
def SOURCE_SLOTS : ℕ := 128

/-- `SIZE_SLOTS`: sizes that are kept for listings. -/
def SIZE_SLOTS : ℕ := 4096

/-- `SIZE_REQUESTS`: how many sizes of a listing are fetched at once. -/
def SIZE_REQUESTS : ℕ := 16

/-! ## Media types -/

/-- What is used of `mime_guess` and `mime_classifier`. -/
structure MimeTypes where
  /-- `from_ext(extension).first()` -/
  fromExt : Str → Option Str
  /-- `classify`, from the supplied type, if there is one, and the first bytes -/
  classify : Option Str → List UInt8 → Str

/-- `Path::file_name`. -/
def fileName (path : Str) : Option Str :=
  match ((path.splitOn '/').filter fun part => part ≠ [] ∧ part ≠ ['.']).getLast? with
  | some ['.', '.'] => none
  | name => name

/-- `Path::extension`: what is after the last dot, unless the name starts with it. -/
def extension (path : Str) : Option Str :=
  (fileName path).bind fun name =>
    match Str.rsplitOnce '.' name with
    | none => none
    | some (stem, extension) => if stem = [] then none else some extension

/-- `with_charset`. -/
def withCharset (mime : Str) (start : List UInt8) : Str :=
  if ¬ "text/".toList <+: mime ∨ "charset=".toList <:+: mime then mime
  else if [0xff, 0xfe] <+: start then mime ++ "; charset=utf-16le".toList
  else if [0xfe, 0xff] <+: start then mime ++ "; charset=utf-16be".toList
  else mime ++ "; charset=utf-8".toList

/-- The media type of content by its name, if it has one, and its first bytes. -/
def mimeOf (types : MimeTypes) (name : Option Str) (start : List UInt8) : Str :=
  withCharset (types.classify ((name.bind extension).bind types.fromExt) start) start

/-! ## Sizes -/

variable {blob : Hash → Blob}

/-- The loop of `verified_size`. Like that of `sniff`, it has no deadline. -/
def lastEnd {content : Blob} : AtBlobContent content → Option (Except Str EndBlobNext)
  | .pending => none
  | .elapsed => none
  | .more (.error text) _ => some (.error text)
  | .more (.ok _) next => lastEnd next
  | .done next => some (.ok next)

/-- `verified_size`, from what `start` returns for the last chunk. -/
def verifiedSize {content : Blob} (started : Except Str (AtBlobContent content × UInt64)) :
    Option (Except Str UInt64) :=
  match started with
  | .error text => some (.error text)
  | .ok (content, size) =>
    match lastEnd content with
    | none => none
    | some (.error text) => some (.error text)
    | some (.ok .moreChildren) => some (.error "unexpected child blob".toList)
    | some (.ok (.closing .elapsed)) => none
    | some (.ok (.closing (.returned (.error text)))) => some (.error text)
    | some (.ok (.closing (.returned (.ok ())))) => some (.ok size)

/-! ## Calls -/

/-- `Source`. -/
structure Source (C : Type) where
  /-- where the content is read from -/
  connection : C
  /-- its size -/
  size : UInt64
  /-- its media type -/
  mime : Str

/-- `CollectionSource`. -/
structure CollectionSource (C : Type) where
  /-- where the files are read from -/
  connection : C
  /-- the names and hashes of the files -/
  collection : Collection

/-- What waits for a connection. -/
inductive Item where
  /-- `source` -/
  | source
  /-- `collection` -/
  | collection
  deriving DecidableEq

/-- Where the size of a file is. -/
inductive Phase where
  /-- `size` begins -/
  | started
  /-- it is not that of a source -/
  | missed
  /-- it is fetched -/
  | fetching
  deriving DecidableEq

/-- Where a call is. -/
inductive Task (C : Type) where
  /-- it looks for a provider -/
  | connecting (item : Item) (hash : Hash)
  /-- it reads the start of a blob -/
  | sniffing (hash : Hash) (connection : C) (name : Option Str)
  /-- it reads a collection -/
  | reading (hash : Hash) (connection : C)
  /-- it fetches sizes -/
  | sizing (connection : C) (sizes : Buffered Hash Phase (Option UInt64))

/-- The caches of a `Gateway`, the connections and the calls. -/
structure State (κ C : Type) where
  /-- `cache` -/
  cache : LruCache Hash (Source C)
  /-- `collections` -/
  collections : LruCache Hash (CollectionSource C)
  /-- `sizes` -/
  sizes : LruCache Hash UInt64
  /-- the connections that have a `close_reason` -/
  closed : C → Bool
  /-- the calls in progress -/
  tasks : κ → Option (Task C)

/-- What may happen next. -/
inductive Event (blob : Hash → Blob) (κ C : Type) where
  /-- a call of `source` -/
  | source (call : κ) (hash : Hash)
  /-- a call of `collection` -/
  | collection (call : κ) (hash : Hash)
  /-- a call of `collection_on_connection` -/
  | collectionOnConnection (call : κ) (hash : Hash) (connection : C)
  /-- a call of `source_on_connection` for a file of a collection -/
  | file (call : κ) (hash : Hash) (connection : C) (name : Str)
  /-- a call of `sizes` -/
  | sizes (call : κ) (hashes : List Hash) (connection : C)
  /-- `connection` returns -/
  | connected (call : κ) (hash : Hash) (result : Except HttpError C)
  /-- a provider has answered a request for the start and the last chunk -/
  | sniffed (call : κ) (hash : Hash) (started : Except Str (AtBlobContent (blob hash) × UInt64))
  /-- a provider has answered a request for a collection -/
  | read (call : κ) (hash : Hash) (response : ReadCollection.Connection)
  /-- `size` of the next file is called -/
  | sizeStarted (call : κ)
  /-- `size` looks for a source -/
  | peeked (call : κ) (hash : Hash)
  /-- `size` looks for the size -/
  | lookedUp (call : κ) (hash : Hash)
  /-- a provider has answered a request for the last chunk -/
  | sized (call : κ) (hash : Hash) (started : Except Str (AtBlobContent (blob hash) × UInt64))
  /-- all sizes are there, or failed -/
  | collected (call : κ)
  /-- a call is dropped: its deadline passed, or nobody waits any more -/
  | dropped (call : κ)
  /-- a connection is closed -/
  | closed (connection : C)

/-- What a look-up in a cache comes to. -/
inductive Found (υ : Type) where
  /-- nothing is there -/
  | missing
  /-- the connection of what is there is closed -/
  | stale
  /-- it can be used -/
  | reused (value : υ)

/-- What a step tells. -/
inductive Output (C : Type) where
  /-- nothing -/
  | quiet
  /-- a look-up in `cache`: if the source can be used, the call is answered -/
  | source (hash : Hash) (found : Found (Source C))
  /-- a look-up in `collections`: if the collection can be used, the call is answered -/
  | collection (hash : Hash) (found : Found (CollectionSource C))
  /-- the call is answered with a source, and it is put in `cache` -/
  | newSource (hash : Hash) (source : Source C)
  /-- the call is answered with a collection, and it is put in `collections` -/
  | newCollection (hash : Hash) (source : CollectionSource C)
  /-- the call is answered with a source that is not kept -/
  | file (hash : Hash) (source : Source C)
  /-- the call is answered with the sizes -/
  | sizes (found : HashMap Hash UInt64)
  /-- the call is answered with an error -/
  | failed (error : HttpError)

/-- The call of an event. -/
def Event.call {κ C : Type} : Event blob κ C → Option κ
  | .source call _ | .collection call _ | .collectionOnConnection call .. | .file call ..
  | .sizes call .. | .connected call .. | .sniffed call .. | .read call .. | .sizeStarted call
  | .peeked call _ | .lookedUp call _ | .sized call .. | .collected call
  | .dropped call => some call
  | .closed _ => none

/-- `get`, and whether the connection is open. -/
def lookUp {C υ : Type} (closed : C → Bool) (connection : υ → C) (m : LruCache Hash υ)
    (hash : Hash) : LruCache Hash υ × Found υ :=
  match m.get hash with
  | (m, none) => (m, .missing)
  | (m, some value) => (m, if closed (connection value) then .stale else .reused value)

/-- `collect`: the sizes that are there. -/
def collect (results : List (Hash × Option UInt64)) : HashMap Hash UInt64 :=
  results.foldl (fun m x => match x.2 with
    | none => m
    | some size => Finmap.insert x.1 size m) ∅

namespace State

variable {κ C : Type} [DecidableEq κ] (s : State κ C)

/-- A call goes on, or ends. -/
def setTask (call : κ) (task : Option (Task C)) : State κ C :=
  { s with tasks := Function.update s.tasks call task }

/-- `source`, up to the connection. -/
def source (call : κ) (hash : Hash) : State κ C × Output C :=
  match lookUp s.closed Source.connection s.cache hash with
  | (cache, .reused source) => ({ s with cache }.setTask call none, .source hash (.reused source))
  | (cache, found) =>
    ({ s with cache }.setTask call (some (.connecting .source hash)), .source hash found)

/-- `collection`, up to the connection. -/
def collection (call : κ) (hash : Hash) : State κ C × Output C :=
  match lookUp s.closed CollectionSource.connection s.collections hash with
  | (collections, .reused source) =>
    ({ s with collections }.setTask call none, .collection hash (.reused source))
  | (collections, found) =>
    ({ s with collections }.setTask call (some (.connecting .collection hash)),
      .collection hash found)

/-- `collection_on_connection`, up to `read_collection`. -/
def collectionOnConnection (call : κ) (hash : Hash) (connection : C) : State κ C × Output C :=
  match lookUp s.closed CollectionSource.connection s.collections hash with
  | (collections, .reused source) =>
    ({ s with collections }.setTask call none, .collection hash (.reused source))
  | (collections, found) =>
    ({ s with collections }.setTask call (some (.reading hash connection)), .collection hash found)

/-- `source` and `collection` after the connection. -/
def connected (call : κ) (hash : Hash) (result : Except HttpError C) : State κ C × Output C :=
  match s.tasks call, result with
  | some (.connecting ..), .error error => (s.setTask call none, .failed error)
  | some (.connecting .source _), .ok connection =>
    (s.setTask call (some (.sniffing hash connection none)), .quiet)
  -- another call may have read the collection meanwhile: it is looked up again
  | some (.connecting .collection _), .ok connection =>
    s.collectionOnConnection call hash connection
  | _, _ => (s, .quiet)

/-- `source_on_connection` after `sniff`. Only `source` calls it without a name. -/
def sniffed (types : MimeTypes) (call : κ) (hash : Hash)
    (result : Option (Except Str (UInt64 × List UInt8))) : State κ C × Output C :=
  match s.tasks call, result with
  | some (.sniffing ..), some (.error _) => (s.setTask call none, .failed .upstream)
  | some (.sniffing _ connection none), some (.ok (size, start)) =>
    let source : Source C := ⟨connection, size, mimeOf types none start⟩
    ({ s with cache := s.cache.put hash source }.setTask call none, .newSource hash source)
  | some (.sniffing _ connection (some name)), some (.ok (size, start)) =>
    (s.setTask call none, .file hash ⟨connection, size, mimeOf types (some name) start⟩)
  | _, _ => (s, .quiet)

/-- `collection_on_connection` after `read_collection`. -/
def read (call : κ) (hash : Hash) (result : ReadCollection.Await Collection) :
    State κ C × Output C :=
  match s.tasks call, result with
  | some (.reading ..), .failed _ => (s.setTask call none, .failed ⟨422, "not a collection".toList⟩)
  | some (.reading _ connection), .ready collection =>
    let source : CollectionSource C := ⟨connection, collection⟩
    ({ s with collections := s.collections.put hash source }.setTask call none,
      .newCollection hash source)
  | _, _ => (s, .quiet)

/-- `size`, for a source that is there. -/
def peeked (call : κ) (hash : Hash) : State κ C × Output C :=
  match s.tasks call with
  | some (.sizing connection b) =>
    match s.cache.peek hash with
    | some source =>
      (s.setTask call (some (.sizing connection (b.finish (hash, .started) (some source.size)))),
        .quiet)
    | none =>
      (s.setTask call (some (.sizing connection (b.advance (hash, .started) .missed))), .quiet)
  | _ => (s, .quiet)

/-- `size`, for a size that is there. -/
def lookedUp (call : κ) (hash : Hash) : State κ C × Output C :=
  match s.tasks call with
  | some (.sizing connection b) =>
    match s.sizes.get hash with
    | (sizes, some size) =>
      ({ s with sizes }.setTask call
        (some (.sizing connection (b.finish (hash, .missed) (some size)))), .quiet)
    | (sizes, none) =>
      ({ s with sizes }.setTask call
        (some (.sizing connection (b.advance (hash, .missed) .fetching))), .quiet)
  | _ => (s, .quiet)

/-- `size` after `verified_size`. -/
def sized (call : κ) (hash : Hash) (result : Option (Except Str UInt64)) : State κ C × Output C :=
  match s.tasks call, result with
  | some (.sizing connection b), some (.error _) =>
    (s.setTask call (some (.sizing connection (b.finish (hash, .fetching) none))), .quiet)
  | some (.sizing connection b), some (.ok size) =>
    ({ s with sizes := s.sizes.put hash size }.setTask call
      (some (.sizing connection (b.finish (hash, .fetching) (some size)))), .quiet)
  | _, _ => (s, .quiet)

variable [DecidableEq C]

/-- One step. -/
def step (types : MimeTypes) (s : State κ C) : Event blob κ C → State κ C × Output C
  | .source call hash => s.source call hash
  | .collection call hash => s.collection call hash
  | .collectionOnConnection call hash connection => s.collectionOnConnection call hash connection
  | .file call hash connection name =>
    (s.setTask call (some (.sniffing hash connection (some name))), .quiet)
  | .sizes call hashes connection =>
    (s.setTask call (some (.sizing connection (.new hashes))), .quiet)
  | .connected call hash result => s.connected call hash result
  | .sniffed call hash started => s.sniffed types call hash (sniff started)
  | .read call hash response => s.read call hash (ReadCollection.readCollection response hash)
  | .sizeStarted call =>
    match s.tasks call with
    | some (.sizing connection b) =>
      (s.setTask call (some (.sizing connection (b.start .started))), .quiet)
    | _ => (s, .quiet)
  | .peeked call hash => s.peeked call hash
  | .lookedUp call hash => s.lookedUp call hash
  | .sized call hash started => s.sized call hash (verifiedSize started)
  | .collected call =>
    match s.tasks call with
    | some (.sizing _ b) => (s.setTask call none, .sizes (collect b.results))
    | _ => (s, .quiet)
  | .dropped call => (s.setTask call none, .quiet)
  | .closed connection => ({ s with closed := Function.update s.closed connection true }, .quiet)

end State

/-! ## Runs -/

section

variable {κ C : Type}

/-- The call is answered with a source for the hash. -/
def Output.IsSource (hash : Hash) (source : Source C) (out : Output C) : Prop :=
  out = .source hash (.reused source) ∨ out = .newSource hash source

/-- The call is answered with a collection for the hash. -/
def Output.IsCollection (hash : Hash) (source : CollectionSource C) (out : Output C) : Prop :=
  out = .collection hash (.reused source) ∨ out = .newCollection hash source

/-- The content of a response with a collection is verified. -/
structure Verified (blob : Hash → Blob) (hash : Hash) (response : ReadCollection.Connection) :
    Prop where
  /-- the root -/
  root : ∀ root bytes next, response hash = .ready (.startRoot root) →
    ReadCollection.Sends root bytes next → bytes = (blob hash).bytes
  /-- the blob that is asked for after it -/
  child : ∀ root bytes child, response hash = .ready (.startRoot root) →
    ReadCollection.Sends root bytes (.moreChildren child) → ∀ hash bytes next,
      ReadCollection.Sends (child hash) bytes next → bytes = (blob hash).bytes

/-- The last chunk comes with the size that the hash is for. -/
def HasSize (content : Blob) (result : Option (Except Str UInt64)) : Prop :=
  ∀ size, result = some (.ok size) → size.toNat = content.bytes.length

/-- What may happen next. Connections come from answers: `serve_root` tries a collection with the
connection of the source, `collection_entry` reads files and sizes with that of the collection. -/
def Enabled (t : List (Event blob κ C × Output C)) (s : State κ C) : Event blob κ C → Prop
  | .source call _ | .collection call _ => s.tasks call = none
  | .collectionOnConnection call hash connection => s.tasks call = none ∧
    ∃ y ∈ t, ∃ source, y.2.IsSource hash source ∧ source.connection = connection
  | .file call hash connection name => s.tasks call = none ∧
    ∃ y ∈ t, ∃ root source, y.2.IsCollection root source ∧ source.connection = connection ∧
      (name, hash) ∈ source.collection
  | .sizes call hashes connection => s.tasks call = none ∧
    ∃ y ∈ t, ∃ root source, y.2.IsCollection root source ∧ source.connection = connection ∧
      ∃ dir entries, Entries.new dir source.collection = some entries ∧
        hashes = entries.files.map Prod.snd
  | .connected call hash _ => ∃ item, s.tasks call = some (.connecting item hash)
  | .sniffed call hash started =>
    (∃ connection name, s.tasks call = some (.sniffing hash connection name)) ∧
      HasSize (blob hash) ((sniff started).map fun result => result.map Prod.fst)
  | .read call hash response =>
    (∃ connection, s.tasks call = some (.reading hash connection)) ∧ Verified blob hash response
  | .sizeStarted call => ∃ connection b, s.tasks call = some (.sizing connection b) ∧
    b.waiting ≠ [] ∧ b.running.length < SIZE_REQUESTS
  | .peeked call hash => ∃ connection b, s.tasks call = some (.sizing connection b) ∧
    (hash, .started) ∈ b.running
  | .lookedUp call hash => ∃ connection b, s.tasks call = some (.sizing connection b) ∧
    (hash, .missed) ∈ b.running
  | .sized call hash started => (∃ connection b, s.tasks call = some (.sizing connection b) ∧
    (hash, .fetching) ∈ b.running) ∧ HasSize (blob hash) (verifiedSize started)
  | .collected call => ∃ connection b, s.tasks call = some (.sizing connection b) ∧ b.Done
  | .dropped call => s.tasks call ≠ none
  | .closed _ => True

/-- `Gateway::new`: the caches are empty. -/
def new : State κ C where
  cache := .new SOURCE_SLOTS
  collections := .new SOURCE_SLOTS
  sizes := .new SIZE_SLOTS
  closed := fun _ => false
  tasks := fun _ => none

/-- The caches with the calls that use them. -/
def machine (types : MimeTypes) (blob : Hash → Blob) [DecidableEq κ] [DecidableEq C] :
    Machine (State κ C) (Event blob κ C) (Output C) where
  init s := s = new
  enabled := Enabled
  step := State.step types

end

end SourceCache

end ContentDiscovery
