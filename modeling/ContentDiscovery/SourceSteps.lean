import ContentDiscovery.SourceCache

/-!
# Steps of the caches of a gateway

What one step of the calls that share the caches can do (`effect_step`): what it puts is genuine,
and it uses each cache at most once, as it tells. So the caches are told by the history
(`cache_run`, `collections_run`), and so are the connections that are closed.
-/

namespace ContentDiscovery

open Http

namespace SourceCache

/-! ## Steps -/

section

variable {κ C υ : Type}

/-- How a look-up uses the cache. -/
def Found.use (hash : Hash) : Found υ → Option (LruCache.Use Hash υ)
  | .missing => none
  | .stale | .reused _ => some (.hit hash)

/-- How a step uses `cache`. -/
def Output.sourceUse : Output C → Option (LruCache.Use Hash (Source C))
  | .source hash found => found.use hash
  | .newSource hash value => some (.put hash value)
  | _ => none

/-- How a step uses `collections`. -/
def Output.collectionUse : Output C → Option (LruCache.Use Hash (CollectionSource C))
  | .collection hash found => found.use hash
  | .newCollection hash value => some (.put hash value)
  | _ => none

/-- A look-up by what is in the cache. -/
inductive LookUp (closed : C → Bool) (connection : υ → C) (m : LruCache Hash υ) (hash : Hash) :
    LruCache Hash υ × Found υ → Prop where
  | missing (h : m.peek hash = none) : LookUp closed connection m hash (m, .missing)
  | stale {value : υ} (h : m.peek hash = some value) (hclosed : closed (connection value) = true) :
    LookUp closed connection m hash ((m.get hash).1, .stale)
  | reused {value : υ} (h : m.peek hash = some value)
    (hopen : closed (connection value) = false) :
    LookUp closed connection m hash ((m.get hash).1, .reused value)

theorem lookUp_cases (closed : C → Bool) (connection : υ → C) (m : LruCache Hash υ)
    (hash : Hash) : LookUp closed connection m hash (lookUp closed connection m hash) := by
  have hget := m.snd_get hash
  have hsame : m.peek hash = none → (m.get hash).1 = m := by
    intro h
    rw [LruCache.get]
    split
    · rfl
    · rename_i value hvalue
      cases h.symm.trans hvalue
  rw [lookUp]
  generalize hr : m.get hash = r at hget hsame
  obtain ⟨m', found⟩ := r
  cases found with
  | none =>
    obtain rfl := hsame hget.symm
    exact .missing hget.symm
  | some value =>
    have hfirst : m' = (m.get hash).1 := by rw [hr]
    dsimp only
    rw [hfirst]
    split
    · rename_i hclosed
      exact .stale hget.symm hclosed
    · rename_i hopen
      exact .reused hget.symm (eq_false_of_ne_true hopen)

theorem LookUp.touch {closed : C → Bool} {connection : υ → C} {m : LruCache Hash υ} {hash : Hash}
    {r : LruCache Hash υ × Found υ} (h : LookUp closed connection m hash r) :
    LruCache.Touch m (r.2.use hash) r.1 := by
  cases h with
  | missing h => exact .none
  | stale h _ => exact .hit h
  | reused h _ => exact .hit h

/-- What can be used is there, and its connection is open. -/
theorem LookUp.reused_iff {closed : C → Bool} {connection : υ → C} {m : LruCache Hash υ}
    {hash : Hash} {r : LruCache Hash υ × Found υ} (h : LookUp closed connection m hash r)
    {value : υ} :
    r.2 = .reused value ↔ m.peek hash = some value ∧ ¬ closed (connection value) = true := by
  cases h with
  | missing h => simp [h]
  | stale h hclosed =>
    refine iff_of_false (by simp) ?_
    rintro ⟨hvalue, hopen⟩
    rw [Option.some.inj (h.symm.trans hvalue)] at hclosed
    exact hopen hclosed
  | reused h hopen =>
    rw [Found.reused.injEq]
    constructor
    · rintro rfl
      exact ⟨h, by rw [hopen]; simp⟩
    · exact fun hvalue => Option.some.inj (h.symm.trans hvalue.1)

/-- Where a call is after a look-up. -/
def Found.next (task : Task C) : Found υ → Option (Task C)
  | .missing | .stale => some task
  | .reused _ => none

/-- A call that looks something up goes on unless it is found. -/
theorem Found.next_eq_some {found : Found υ} {task task' : Task C}
    (h : found.next task = some task') : task' = task := by
  cases found with
  | missing => exact (Option.some.inj h).symm
  | stale => exact (Option.some.inj h).symm
  | reused value => cases h

end

/-- The blob of the hash is the root of a collection. -/
def Stores (blob : Hash → Blob) (hash : Hash) (collection : Collection) : Prop :=
  ∃ metaHash, (blob hash).bytes = (metaHash :: collection.map Prod.snd).flatMap Vector.toList ∧
    Postcard.fromBytes ReadCollection.metaCodec (blob metaHash).bytes
      = some (ReadCollection.HEADER, collection.map Prod.fst)

/-- What a component sends is determined. -/
theorem sends_unique {End : Type} {header : ReadCollection.AtBlobHeader End}
    {bytes bytes' : List UInt8} {next next' : End} (h : ReadCollection.Sends header bytes next)
    (h' : ReadCollection.Sends header bytes' next') : bytes = bytes' ∧ next = next' := by
  obtain ⟨content, size, heq, hsize, -⟩ := id h
  obtain ⟨content', size', heq', hsize', -⟩ := id h'
  cases heq.symm.trans heq'
  have hread := ReadCollection.readCollectionBlob_eq_ready.mpr ⟨h, hsize.ge⟩
  have hread' := ReadCollection.readCollectionBlob_eq_ready.mpr ⟨h', hsize'.ge⟩
  cases hread.symm.trans hread'
  exact ⟨rfl, rfl⟩

/-- What is read of verified content is the collection that the hash is the root of. -/
theorem stores_of_read {blob : Hash → Blob} {hash : Hash} {response : ReadCollection.Connection}
    {collection : Collection} (h : Verified blob hash response)
    (hread : ReadCollection.readCollection response hash = .ready collection) :
    Stores blob hash collection := by
  obtain ⟨connected, hconnected, hread⟩ := ReadCollection.Await.bind_eq_ready.mp hread
  cases connected with
  | other => cases hread
  | startRoot root =>
    obtain ⟨⟨header, links⟩, hlinks, hnames⟩ := ReadCollection.Await.bind_eq_ready.mp hread
    obtain ⟨child, metaHash, rfl, hroot, hle⟩ := ReadCollection.readLinks_eq_ready.mp hlinks
    obtain ⟨bytes, names, hsends, -, hdec, hlength, rfl⟩ :=
      (ReadCollection.readNames_eq_ready hle).mp hnames
    refine ⟨metaHash, ?_, ?_⟩
    · rw [List.map_snd_zip hlength.ge, ← h.root _ _ _ hconnected hroot]
    · rw [List.map_fst_zip hlength.le, ← h.child _ _ _ hconnected hroot _ _ _ hsends, hdec]

variable {blob : Hash → Blob} {κ C : Type}

/-- A source has the size of the blob, and the media type of its first bytes and its name. -/
structure Genuine (types : MimeTypes) (blob : Hash → Blob) (name : Option Str) (hash : Hash)
    (source : Source C) : Prop where
  size_eq : source.size.toNat = (blob hash).bytes.length
  mime_eq : source.mime = mimeOf types name ((blob hash).bytes.take SNIFF_BYTES.toNat)

/-- What is sniffed makes a genuine source. -/
theorem genuine_of_sniff {types : MimeTypes} {name : Option Str} {hash : Hash} {connection : C}
    {started : Except Str (AtBlobContent (blob hash) × UInt64)} {size : UInt64}
    {start : List UInt8} (hsniff : sniff started = some (.ok (size, start)))
    (hsize : HasSize (blob hash) ((sniff started).map fun result => result.map Prod.fst)) :
    Genuine types blob name hash ⟨connection, size, mimeOf types name start⟩ := by
  have hlength : size.toNat = (blob hash).bytes.length := hsize size (by rw [hsniff]; rfl)
  refine ⟨hlength, ?_⟩
  obtain ⟨hstart, -⟩ := sniff_ok hsniff
  rw [hstart, hlength]
  rcases le_total (blob hash).bytes.length SNIFF_BYTES.toNat with hle | hle
  · rw [min_eq_left hle, List.take_length, List.take_of_length_le hle]
  · rw [min_eq_right hle]

/-- The event starts a call. -/
def Event.Starts (call : κ) : Event blob κ C → Prop
  | .source c _ | .collection c _ | .collectionOnConnection c .. | .file c .. | .sizes c .. =>
    c = call
  | _ => False

variable [DecidableEq κ]

/-- A size that is there, or fetched. -/
def Known (blob : Hash → Blob) (s : State κ C) (hash : Hash) (size : UInt64) : Prop :=
  (∃ source, s.cache.peek hash = some source ∧ source.size = size) ∨
    s.sizes.peek hash = some size ∨ size.toNat = (blob hash).bytes.length

variable [DecidableEq C]

/-- A result of a step: a size, or a fetch that failed. -/
def Sized (s : State κ C) (e : Event blob κ C) (call : κ) (hash : Hash) : Option UInt64 → Prop
  | some size => Known blob s hash size
  | none => ∃ started text, e = .sized call hash started ∧
    verifiedSize started = some (.error text)

/-- What a step does. -/
inductive Effect (types : MimeTypes) (s : State κ C) :
    Event blob κ C → State κ C × Output C → Prop where
  /-- nothing has come back -/
  | idle {e : Event blob κ C} (hstarts : ∀ call, ¬ e.Starts call)
    (hclosed : ∀ connection, e ≠ .closed connection) : Effect types s e (s, .quiet)
  | source {call : κ} {hash : Hash} {r : LruCache Hash (Source C) × Found (Source C)}
    (h : LookUp s.closed Source.connection s.cache hash r) :
    Effect types s (.source call hash)
      ({ s with cache := r.1 }.setTask call (r.2.next (.connecting .source hash)),
        .source hash r.2)
  | collection {call : κ} {hash : Hash}
    {r : LruCache Hash (CollectionSource C) × Found (CollectionSource C)}
    (h : LookUp s.closed CollectionSource.connection s.collections hash r) :
    Effect types s (.collection call hash)
      ({ s with collections := r.1 }.setTask call (r.2.next (.connecting .collection hash)),
        .collection hash r.2)
  | collectionOnConnection {call : κ} {hash : Hash} {connection : C}
    {r : LruCache Hash (CollectionSource C) × Found (CollectionSource C)}
    (h : LookUp s.closed CollectionSource.connection s.collections hash r) :
    Effect types s (.collectionOnConnection call hash connection)
      ({ s with collections := r.1 }.setTask call (r.2.next (.reading hash connection)),
        .collection hash r.2)
  | file {call : κ} {hash : Hash} {connection : C} {name : Str} :
    Effect types s (.file call hash connection name)
      (s.setTask call (some (.sniffing hash connection (some name))), .quiet)
  | sizes {call : κ} {hashes : List Hash} {connection : C} :
    Effect types s (.sizes call hashes connection)
      (s.setTask call (some (.sizing connection (.new hashes))), .quiet)
  | failed {e : Event blob κ C} {call : κ} {error : HttpError} (hstarts : ∀ call, ¬ e.Starts call)
    (hcall : e.call = some call) : Effect types s e (s.setTask call none, .failed error)
  | connectedSource {call : κ} {hash : Hash} {connection : C}
    (htask : s.tasks call = some (.connecting .source hash)) :
    Effect types s (.connected call hash (.ok connection))
      (s.setTask call (some (.sniffing hash connection none)), .quiet)
  | connectedCollection {call : κ} {hash : Hash} {connection : C}
    {r : LruCache Hash (CollectionSource C) × Found (CollectionSource C)}
    (htask : s.tasks call = some (.connecting .collection hash))
    (h : LookUp s.closed CollectionSource.connection s.collections hash r) :
    Effect types s (.connected call hash (.ok connection))
      ({ s with collections := r.1 }.setTask call (r.2.next (.reading hash connection)),
        .collection hash r.2)
  | newSource {call : κ} {hash : Hash} {source : Source C}
    {started : Except Str (AtBlobContent (blob hash) × UInt64)}
    (htask : s.tasks call = some (.sniffing hash source.connection none))
    (h : Genuine types blob none hash source) :
    Effect types s (.sniffed call hash started)
      ({ s with cache := s.cache.put hash source }.setTask call none, .newSource hash source)
  | newFile {call : κ} {hash : Hash} {source : Source C} {name : Str}
    {started : Except Str (AtBlobContent (blob hash) × UInt64)}
    (htask : s.tasks call = some (.sniffing hash source.connection (some name)))
    (h : Genuine types blob (some name) hash source) :
    Effect types s (.sniffed call hash started) (s.setTask call none, .file hash source)
  | newCollection {call : κ} {hash : Hash} {source : CollectionSource C}
    {response : ReadCollection.Connection}
    (htask : s.tasks call = some (.reading hash source.connection))
    (h : Stores blob hash source.collection) :
    Effect types s (.read call hash response)
      ({ s with collections := s.collections.put hash source }.setTask call none,
        .newCollection hash source)
  | sizing {e : Event blob κ C} {call : κ} {connection : C} {sizes : LruCache Hash UInt64}
    {b b' : Buffered Hash Phase (Option UInt64)} (hstarts : ∀ call, ¬ e.Starts call)
    (hcall : e.call = some call) (htask : s.tasks call = some (.sizing connection b))
    (hkept : ∀ hashes, b.Kept SIZE_REQUESTS hashes → b'.Kept SIZE_REQUESTS hashes)
    (hresults : ∀ x ∈ b'.results, x ∈ b.results ∨ Sized s e call x.1 x.2)
    (hsizes : ∀ x ∈ sizes.entries, x ∈ s.sizes.entries ∨ x.2.toNat = (blob x.1).bytes.length) :
    Effect types s e ({ s with sizes }.setTask call (some (.sizing connection b')), .quiet)
  | collected {call : κ} {connection : C} {b : Buffered Hash Phase (Option UInt64)}
    (htask : s.tasks call = some (.sizing connection b)) (hdone : b.Done) :
    Effect types s (.collected call) (s.setTask call none, .sizes (collect b.results))
  | dropped {call : κ} : Effect types s (.dropped call) (s.setTask call none, .quiet)
  | closed {connection : C} :
    Effect types s (.closed connection)
      ({ s with closed := Function.update s.closed connection true }, .quiet)

omit [DecidableEq C] in
theorem source_eq (s : State κ C) (call : κ) (hash : Hash) :
    ∃ r, LookUp s.closed Source.connection s.cache hash r ∧
      s.source call hash =
        ({ s with cache := r.1 }.setTask call (r.2.next (.connecting .source hash)),
          .source hash r.2) := by
  refine ⟨_, lookUp_cases s.closed Source.connection s.cache hash, ?_⟩
  rw [State.source]
  generalize lookUp s.closed Source.connection s.cache hash = r
  obtain ⟨cache, found⟩ := r
  cases found <;> rfl

omit [DecidableEq C] in
theorem collection_eq (s : State κ C) (call : κ) (hash : Hash) :
    ∃ r, LookUp s.closed CollectionSource.connection s.collections hash r ∧
      s.collection call hash =
        ({ s with collections := r.1 }.setTask call (r.2.next (.connecting .collection hash)),
          .collection hash r.2) := by
  refine ⟨_, lookUp_cases s.closed CollectionSource.connection s.collections hash, ?_⟩
  rw [State.collection]
  generalize lookUp s.closed CollectionSource.connection s.collections hash = r
  obtain ⟨collections, found⟩ := r
  cases found <;> rfl

omit [DecidableEq C] in
theorem collectionOnConnection_eq (s : State κ C) (call : κ) (hash : Hash) (connection : C) :
    ∃ r, LookUp s.closed CollectionSource.connection s.collections hash r ∧
      s.collectionOnConnection call hash connection =
        ({ s with collections := r.1 }.setTask call (r.2.next (.reading hash connection)),
          .collection hash r.2) := by
  refine ⟨_, lookUp_cases s.closed CollectionSource.connection s.collections hash, ?_⟩
  rw [State.collectionOnConnection]
  generalize lookUp s.closed CollectionSource.connection s.collections hash = r
  obtain ⟨collections, found⟩ := r
  cases found <;> rfl

/-- A step of the sizes that only goes on with them. -/
theorem sizing_step {types : MimeTypes} {s : State κ C} {e : Event blob κ C} {call : κ}
    {connection : C} {b b' : Buffered Hash Phase (Option UInt64)}
    (hstarts : ∀ call, ¬ e.Starts call) (hcall : e.call = some call)
    (htask : s.tasks call = some (.sizing connection b))
    (hkept : ∀ hashes, b.Kept SIZE_REQUESTS hashes → b'.Kept SIZE_REQUESTS hashes)
    (hresults : ∀ x ∈ b'.results, x ∈ b.results ∨ Sized s e call x.1 x.2) :
    Effect types s e (s.setTask call (some (.sizing connection b')), .quiet) :=
  .sizing hstarts hcall htask hkept hresults fun _ hx => .inl hx

/-- The result of a job is the last one, or there was before. -/
theorem mem_finish {b : Buffered Hash Phase (Option UInt64)} {x : Hash × Phase}
    {result : Option UInt64} {P : Hash → Option UInt64 → Prop} (h : P x.1 result) :
    ∀ y ∈ (b.finish x result).results, y ∈ b.results ∨ P y.1 y.2 := by
  intro y hy
  rcases List.mem_append.mp hy with hy | hy
  · exact .inl hy
  · rw [List.mem_singleton.mp hy]
    exact .inr h

/-- What a step does, from what may happen next. -/
theorem effect_step (types : MimeTypes) {t : List (Event blob κ C × Output C)} {s : State κ C}
    {e : Event blob κ C} (h : Enabled t s e) : Effect types s e (s.step types e) := by
  cases e with
  | source call hash =>
    obtain ⟨r, hr, heq⟩ := source_eq s call hash
    rw [State.step, heq]
    exact .source hr
  | collection call hash =>
    obtain ⟨r, hr, heq⟩ := collection_eq s call hash
    rw [State.step, heq]
    exact .collection hr
  | collectionOnConnection call hash connection =>
    obtain ⟨r, hr, heq⟩ := collectionOnConnection_eq s call hash connection
    rw [State.step, heq]
    exact .collectionOnConnection hr
  | file call hash connection name => exact .file
  | sizes call hashes connection => exact .sizes
  | connected call hash result =>
    obtain ⟨item, htask⟩ := h
    rw [State.step, State.connected.eq_def, htask]
    cases result with
    | error error => cases item <;> exact .failed (fun _ => id) rfl
    | ok connection =>
      cases item with
      | source => exact .connectedSource htask
      | collection =>
        obtain ⟨r, hr, heq⟩ := collectionOnConnection_eq s call hash connection
        dsimp only
        rw [heq]
        exact .connectedCollection htask hr
  | sniffed call hash started =>
    obtain ⟨⟨connection, name, htask⟩, hsize⟩ := h
    rw [State.step, State.sniffed.eq_def, htask]
    cases hsniff : sniff started with
    | none => cases name <;> exact .idle (fun _ => id) (by simp)
    | some result =>
      obtain error | ⟨size, start⟩ := result
      · cases name <;> exact .failed (fun _ => id) rfl
      · cases name with
        | none => exact .newSource htask (genuine_of_sniff hsniff hsize)
        | some name => exact .newFile htask (genuine_of_sniff hsniff hsize)
  | read call hash response =>
    obtain ⟨⟨connection, htask⟩, hverified⟩ := h
    rw [State.step, State.read.eq_def, htask]
    cases hread : ReadCollection.readCollection response hash with
    | pending => exact .idle (fun _ => id) (by simp)
    | failed error => exact .failed (fun _ => id) rfl
    | ready collection => exact .newCollection htask (stores_of_read hverified hread)
  | sizeStarted call =>
    obtain ⟨connection, b, htask, hwaiting, hlt⟩ := h
    rw [State.step, htask]
    refine sizing_step (fun _ => id) rfl htask (fun hashes hb => hb.start hlt) fun x hx => .inl ?_
    rw [Buffered.start] at hx
    split at hx <;> exact hx
  | peeked call hash =>
    obtain ⟨connection, b, htask, hmem⟩ := h
    rw [State.step, State.peeked, htask]
    dsimp only
    split
    · rename_i source hsource
      refine sizing_step (fun _ => id) rfl htask (fun hashes hb => hb.finish hmem)
        (mem_finish (.inl ⟨source, hsource, rfl⟩))
    · exact sizing_step (fun _ => id) rfl htask (fun hashes hb => hb.advance hmem) fun x => .inl
  | lookedUp call hash =>
    obtain ⟨connection, b, htask, hmem⟩ := h
    rw [State.step, State.lookedUp, htask]
    have hfound := s.sizes.snd_get hash
    have hsizes : ∀ x ∈ (s.sizes.get hash).1.entries, x ∈ s.sizes.entries := fun x =>
      LruCache.mem_get
    dsimp only
    generalize s.sizes.get hash = r at hfound hsizes
    obtain ⟨sizes, _ | size⟩ := r
    · exact .sizing (fun _ => id) rfl htask (fun hashes hb => hb.advance hmem) (fun x => .inl)
        fun x hx => .inl (hsizes x hx)
    · exact .sizing (fun _ => id) rfl htask (fun hashes hb => hb.finish hmem)
        (mem_finish (.inr (.inl hfound.symm))) fun x hx => .inl (hsizes x hx)
  | sized call hash started =>
    obtain ⟨⟨connection, b, htask, hmem⟩, hsize⟩ := h
    rw [State.step, State.sized.eq_def, htask]
    cases hresult : verifiedSize started with
    | none => exact .idle (fun _ => id) (by simp)
    | some result =>
      obtain error | size := result
      · exact sizing_step (fun _ => id) rfl htask (fun hashes hb => hb.finish hmem)
          (mem_finish ⟨started, error, rfl, hresult⟩)
      · have hlength := hsize size hresult
        refine .sizing (fun _ => id) rfl htask (fun hashes hb => hb.finish hmem)
          (mem_finish (.inr (.inr hlength))) fun x hx => ?_
        rcases LruCache.mem_put hx with rfl | hx
        · exact .inr hlength
        · exact .inl hx
  | collected call =>
    obtain ⟨connection, b, htask, hdone⟩ := h
    rw [State.step, htask]
    exact .collected htask hdone
  | dropped call => exact .dropped
  | closed connection => exact .closed

/-! ## Uses -/

section

variable {types : MimeTypes} {s : State κ C} {e : Event blob κ C} {r : State κ C × Output C}
  {t : List (Event blob κ C × Output C)}

/-- The uses of `cache`. -/
def sourceUses (t : List (Event blob κ C × Output C)) : List (LruCache.Use Hash (Source C)) :=
  t.filterMap fun y => y.2.sourceUse

/-- The uses of `collections`. -/
def collectionUses (t : List (Event blob κ C × Output C)) :
    List (LruCache.Use Hash (CollectionSource C)) :=
  t.filterMap fun y => y.2.collectionUse

omit [DecidableEq κ] [DecidableEq C] in
theorem sourceUses_concat (y : Event blob κ C × Output C) :
    sourceUses (t ++ [y]) = sourceUses t ++ y.2.sourceUse.toList := by
  rw [sourceUses, List.filterMap_append, List.filterMap_cons, List.filterMap_nil]
  cases y.2.sourceUse <;> rfl

omit [DecidableEq κ] [DecidableEq C] in
theorem collectionUses_concat (y : Event blob κ C × Output C) :
    collectionUses (t ++ [y]) = collectionUses t ++ y.2.collectionUse.toList := by
  rw [collectionUses, List.filterMap_append, List.filterMap_cons, List.filterMap_nil]
  cases y.2.collectionUse <;> rfl

/-- A step uses `cache` as it tells. -/
theorem Effect.touch (h : Effect types s e r) :
    LruCache.Touch s.cache r.2.sourceUse r.1.cache := by
  cases h with
  | source h => exact h.touch
  | newSource htask h => exact .put _ _
  | _ => exact .none

/-- A step uses `collections` as it tells. -/
theorem Effect.touch_collections (h : Effect types s e r) :
    LruCache.Touch s.collections r.2.collectionUse r.1.collections := by
  cases h with
  | collection h | collectionOnConnection h | connectedCollection _ h => exact h.touch
  | newCollection htask h => exact .put _ _
  | _ => exact .none

theorem cache_run (h : (machine types blob).Run t s) :
    LruCache.Uses SOURCE_SLOTS (sourceUses t) s.cache := by
  induction h with
  | start hs =>
    rw [hs]
    exact .new
  | step hrun ha ih =>
    rw [sourceUses_concat]
    exact ih.touch (effect_step types ha).touch

theorem collections_run (h : (machine types blob).Run t s) :
    LruCache.Uses SOURCE_SLOTS (collectionUses t) s.collections := by
  induction h with
  | start hs =>
    rw [hs]
    exact .new
  | step hrun ha ih =>
    rw [collectionUses_concat]
    exact ih.touch (effect_step types ha).touch_collections

/-- The connection was closed. -/
def Closed (t : List (Event blob κ C × Output C)) (connection : C) : Prop :=
  ∃ y ∈ t, y.1 = .closed connection

/-- Only closing a connection closes it. -/
theorem Effect.closed_iff (h : Effect types s e r) (connection : C) :
    r.1.closed connection = true ↔ s.closed connection = true ∨ e = .closed connection := by
  cases h with
  | @closed c =>
    rw [Event.closed.injEq]
    by_cases hc : connection = c
    · subst hc
      exact iff_of_true (Function.update_self connection true s.closed) (.inr rfl)
    · rw [or_iff_left fun heq => hc heq.symm]
      change Function.update s.closed c true connection = true ↔ _
      rw [Function.update_of_ne hc]
  | idle hstarts hclosed => exact (or_iff_left (hclosed connection)).symm
  | failed hstarts hcall =>
    exact (or_iff_left (by rintro rfl; cases hcall)).symm
  | sizing hstarts hcall => exact (or_iff_left (by rintro rfl; cases hcall)).symm
  | _ => exact (or_iff_left (by simp)).symm

theorem closed_run (h : (machine types blob).Run t s) (connection : C) :
    s.closed connection = true ↔ Closed t connection := by
  induction h with
  | start hs =>
    rw [hs]
    exact iff_of_false (by simp [new]) (by simp [Closed])
  | @step t s e hrun ha ih =>
    have heffect := (effect_step types ha).closed_iff connection
    refine heffect.trans ?_
    rw [ih, Closed, Closed]
    constructor
    · rintro (⟨y, hy, heq⟩ | rfl)
      · exact ⟨y, List.mem_append_left _ hy, heq⟩
      · exact ⟨_, List.mem_append_right _ List.mem_cons_self, rfl⟩
    · rintro ⟨y, hy, heq⟩
      rcases List.mem_append.mp hy with hy | hy
      · exact .inl ⟨y, hy, heq⟩
      · rw [List.mem_singleton.mp hy] at heq
        exact .inr heq

end

end SourceCache

end ContentDiscovery
