import ContentDiscovery.SourceSteps

/-!
# What the caches of a gateway answer

Sources, collections and sizes are those of the content, in any interleaving of the calls that share
the caches (`answers_genuine`). A source or a collection is answered from the cache exactly if it is
the last one for its hash, the hash is one of the 128 that were used last, and its connection is
open (`sources_reused`). A listing has the sizes that could be fetched (`sizes_complete`).
-/

namespace ContentDiscovery

open Http

namespace SourceCache

section

variable {blob : Hash → Blob} {κ C : Type} [DecidableEq κ] [DecidableEq C] {types : MimeTypes}
  {s : State κ C} {e : Event blob κ C} {r : State κ C × Output C}
  {t : List (Event blob κ C × Output C)}

/-! ## Provenance -/

/-- A provider of the hash was found, and this is a connection to it. -/
def Connected (t : List (Event blob κ C × Output C)) (hash : Hash) (connection : C) : Prop :=
  ∃ y ∈ t, ∃ call, y.1 = .connected call hash (.ok connection)

/-- The event started the call. -/
def Asked (t : List (Event blob κ C × Output C)) (call : κ) (e : Event blob κ C) : Prop :=
  ∃ out, Latest (Event.Starts call) (e, out) t

/-- The call was started to get the collection. -/
def AskedCollection (t : List (Event blob κ C × Output C)) (call : κ) (hash : Hash) : Prop :=
  Asked t call (.collection call hash) ∨
    ∃ connection, Asked t call (.collectionOnConnection call hash connection)

/-- A source that a call was answered with was put. -/
def Served (t : List (Event blob κ C × Output C)) : Prop :=
  ∀ y ∈ t, ∀ hash source, y.2.IsSource hash source → .put hash source ∈ sourceUses t

/-- A collection that a call was answered with was put. -/
def ServedCollections (t : List (Event blob κ C × Output C)) : Prop :=
  ∀ y ∈ t, ∀ hash source, y.2.IsCollection hash source → .put hash source ∈ collectionUses t

/-- What was put is right. -/
structure Right (types : MimeTypes) (t : List (Event blob κ C × Output C)) : Prop where
  source : ∀ hash source, .put hash source ∈ sourceUses t →
    Genuine types blob none hash source ∧ Connected t hash source.connection
  collection : ∀ hash source, .put hash source ∈ collectionUses t →
    Stores blob hash source.collection ∧ Connected t hash source.connection

/-- The connection of a collection that has the file. -/
def Listed (t : List (Event blob κ C × Output C)) (name : Str) (hash : Hash) (connection : C) :
    Prop :=
  ∃ root collection, Connected t root connection ∧ Stores blob root collection ∧
    (name, hash) ∈ collection

/-- A fetch of the size failed since the call was started. -/
def Failed (t : List (Event blob κ C × Output C)) (call : κ) (hash : Hash) : Prop :=
  ∃ before x after, t = before ++ x :: after ∧ x.1.Starts call ∧ (∀ y ∈ after, ¬ y.1.Starts call) ∧
    ∃ y ∈ after, ∃ started text, y.1 = .sized call hash started ∧
      verifiedSize started = some (.error text)

/-- A result: the size of the blob, or a fetch that failed. -/
def Settled (t : List (Event blob κ C × Output C)) (call : κ) (hash : Hash) :
    Option UInt64 → Prop
  | some size => size.toNat = (blob hash).bytes.length
  | none => Failed t call hash

/-- What a call in progress was asked for, and what it has so far. -/
def Doing (t : List (Event blob κ C × Output C)) (call : κ) : Task C → Prop
  | .connecting .source hash => Asked t call (.source call hash)
  | .connecting .collection hash => Asked t call (.collection call hash)
  | .sniffing hash connection none =>
    Asked t call (.source call hash) ∧ Connected t hash connection
  | .sniffing hash connection (some name) =>
    Asked t call (.file call hash connection name) ∧ Listed t name hash connection
  | .reading hash connection => AskedCollection t call hash ∧ Connected t hash connection
  | .sizing connection b => ∃ hashes, Asked t call (.sizes call hashes connection) ∧
    b.Kept SIZE_REQUESTS hashes ∧ ∀ x ∈ b.results, Settled t call x.1 x.2

variable {y : Event blob κ C × Output C} {call : κ} {hash : Hash} {connection : C}

omit [DecidableEq κ] [DecidableEq C] in
theorem Connected.concat (h : Connected t hash connection) :
    Connected (t ++ [y]) hash connection := by
  obtain ⟨z, hz, hcall⟩ := h
  exact ⟨z, List.mem_append_left _ hz, hcall⟩

omit [DecidableEq κ] [DecidableEq C] in
theorem Listed.concat {name : Str} (h : Listed t name hash connection) :
    Listed (t ++ [y]) name hash connection := by
  obtain ⟨root, collection, hconnected, hstores⟩ := h
  exact ⟨root, collection, hconnected.concat, hstores⟩

omit [DecidableEq κ] [DecidableEq C] in
theorem Asked.concat {e' : Event blob κ C} (h : Asked t call e') (hy : ¬ y.1.Starts call) :
    Asked (t ++ [y]) call e' := by
  obtain ⟨out, hlatest⟩ := h
  exact ⟨out, hlatest.concat hy⟩

omit [DecidableEq κ] [DecidableEq C] in
theorem AskedCollection.concat (h : AskedCollection t call hash) (hy : ¬ y.1.Starts call) :
    AskedCollection (t ++ [y]) call hash :=
  h.imp (fun h => h.concat hy) fun ⟨connection, h⟩ => ⟨connection, h.concat hy⟩

omit [DecidableEq κ] [DecidableEq C] in
theorem Asked.self (h : e.Starts call) (out : Output C) : Asked (t ++ [(e, out)]) call e :=
  ⟨out, .self h⟩

omit [DecidableEq κ] [DecidableEq C] in
theorem Failed.concat (h : Failed t call hash) (hy : ¬ y.1.Starts call) :
    Failed (t ++ [y]) call hash := by
  obtain ⟨before, x, after, rfl, hx, hafter, z, hz, hfailed⟩ := h
  refine ⟨before, x, after ++ [y], by simp, hx, fun z hz => ?_, z, List.mem_append_left _ hz,
    hfailed⟩
  rcases List.mem_append.mp hz with hz | hz
  · exact hafter z hz
  · rw [List.mem_singleton.mp hz]
    exact hy

omit [DecidableEq κ] [DecidableEq C] in
theorem Settled.concat {result : Option UInt64} (h : Settled t call hash result)
    (hy : ¬ y.1.Starts call) : Settled (t ++ [y]) call hash result := by
  cases result with
  | none => exact Failed.concat h hy
  | some size => exact h

omit [DecidableEq κ] [DecidableEq C] in
/-- A fetch fails, for a call that was started. -/
theorem Asked.failed {e' : Event blob κ C} (h : Asked t call e') (hy : ¬ y.1.Starts call)
    (hfailed : ∃ started text, y.1 = .sized call hash started ∧
      verifiedSize started = some (.error text)) : Failed (t ++ [y]) call hash := by
  obtain ⟨out, before, after, rfl, hstarts, hafter⟩ := h
  refine ⟨before, (e', out), after ++ [y], by simp, hstarts, fun z hz => ?_, y, by simp, hfailed⟩
  rcases List.mem_append.mp hz with hz | hz
  · exact hafter z hz
  · rw [List.mem_singleton.mp hz]
    exact hy

omit [DecidableEq κ] [DecidableEq C] in
theorem Doing.concat {task : Task C} (h : Doing t call task) (hy : ¬ y.1.Starts call) :
    Doing (t ++ [y]) call task := by
  match task, h with
  | .connecting .source hash, h => exact Asked.concat h hy
  | .connecting .collection hash, h => exact Asked.concat h hy
  | .sniffing hash connection none, h => exact ⟨h.1.concat hy, h.2.concat⟩
  | .sniffing hash connection (some name), h => exact ⟨h.1.concat hy, h.2.concat⟩
  | .reading hash connection, h => exact ⟨h.1.concat hy, h.2.concat⟩
  | .sizing connection b, h =>
    obtain ⟨hashes, hasked, hb, hresults⟩ := h
    exact ⟨hashes, hasked.concat hy, hb, fun x hx => (hresults x hx).concat hy⟩

/-- What holds of the calls and of what was put. -/
structure Inv (types : MimeTypes) (t : List (Event blob κ C × Output C)) (s : State κ C) :
    Prop where
  right : Right types t
  served : Served t
  servedCollections : ServedCollections t
  sizes : ∀ x ∈ s.sizes.entries, x.2.toNat = (blob x.1).bytes.length
  doing : ∀ call task, s.tasks call = some task → Doing t call task

/-- What is put in `cache` has just been sniffed. -/
theorem Effect.source_put {source : Source C} (h : Effect types s e r)
    (hput : r.2.sourceUse = some (.put hash source)) :
    Genuine types blob none hash source ∧
      ∃ call started, e = .sniffed call hash started ∧
        s.tasks call = some (.sniffing hash source.connection none) := by
  cases h with
  | source h => cases h <;> cases hput
  | newSource htask h =>
    cases hput
    exact ⟨h, _, _, rfl, htask⟩
  | _ => cases hput

/-- What is put in `collections` has just been read. -/
theorem Effect.collection_put {source : CollectionSource C} (h : Effect types s e r)
    (hput : r.2.collectionUse = some (.put hash source)) :
    Stores blob hash source.collection ∧
      ∃ call response, e = .read call hash response ∧
        s.tasks call = some (.reading hash source.connection) := by
  cases h with
  | collection h | collectionOnConnection h | connectedCollection _ h => cases h <;> cases hput
  | newCollection htask h =>
    cases hput
    exact ⟨h, _, _, rfl, htask⟩
  | _ => cases hput

/-- A source that answers a call was in `cache`, or is put there. -/
theorem Effect.served {source : Source C} (h : Effect types s e r)
    (hsource : r.2.IsSource hash source) :
    s.cache.peek hash = some source ∧ (∃ call, e = .source call hash) ∨
      r.2.sourceUse = some (.put hash source) := by
  rcases hsource with heq | heq
  · cases h with
    | source h =>
      cases h with
      | reused h hopen =>
        cases heq
        exact .inl ⟨h, _, rfl⟩
      | _ => cases heq
    | _ => cases heq
  · exact .inr (by rw [heq]; rfl)

/-- A collection that answers a call was in `collections`, or is put there. -/
theorem Effect.servedCollections {source : CollectionSource C} (h : Effect types s e r)
    (hsource : r.2.IsCollection hash source) :
    s.collections.peek hash = some source ∧
        (∃ call, e = .collection call hash ∨
          (∃ connection, e = .collectionOnConnection call hash connection) ∨
          e.call = some call ∧ (∀ c, ¬ e.Starts c) ∧
            s.tasks call = some (.connecting .collection hash)) ∨
      r.2.collectionUse = some (.put hash source) := by
  rcases hsource with heq | heq
  · cases h with
    | collection h =>
      cases h with
      | reused h hopen =>
        cases heq
        exact .inl ⟨h, _, .inl rfl⟩
      | _ => cases heq
    | collectionOnConnection h =>
      cases h with
      | reused h hopen =>
        cases heq
        exact .inl ⟨h, _, .inr (.inl ⟨_, rfl⟩)⟩
      | _ => cases heq
    | connectedCollection htask h =>
      cases h with
      | reused h hopen =>
        cases heq
        exact .inl ⟨h, _, .inr (.inr ⟨rfl, fun _ => id, htask⟩)⟩
      | _ => cases heq
    | _ => cases heq
  · exact .inr (by rw [heq]; rfl)

/-- What is in `cache` was put there. -/
theorem put_of_peek {source : Source C} (h : (machine types blob).Run t s)
    (hpeek : s.cache.peek hash = some source) : .put hash source ∈ sourceUses t := by
  obtain ⟨⟨before, after, heq, -⟩, -⟩ := (cache_run h).peek_iff.mp hpeek
  rw [heq]
  exact List.mem_append_right _ List.mem_cons_self

/-- What is in `collections` was put there. -/
theorem put_of_peek_collections {source : CollectionSource C} (h : (machine types blob).Run t s)
    (hpeek : s.collections.peek hash = some source) : .put hash source ∈ collectionUses t := by
  obtain ⟨⟨before, after, heq, -⟩, -⟩ := (collections_run h).peek_iff.mp hpeek
  rw [heq]
  exact List.mem_append_right _ List.mem_cons_self

/-- What was put stays right, if what is put is. -/
theorem Inv.right_step (hinv : Inv types t s) (h : Effect types s e r) :
    Right types (t ++ [(e, r.2)]) where
  source hash source hput := by
    rw [sourceUses_concat] at hput
    rcases List.mem_append.mp hput with hput | hput
    · exact (hinv.right.source hash source hput).imp_right Connected.concat
    · obtain ⟨hgenuine, call, -, -, htask⟩ := h.source_put (Option.mem_toList.mp hput)
      exact ⟨hgenuine, (hinv.doing call _ htask).2.concat⟩
  collection hash source hput := by
    rw [collectionUses_concat] at hput
    rcases List.mem_append.mp hput with hput | hput
    · exact (hinv.right.collection hash source hput).imp_right Connected.concat
    · obtain ⟨hstores, call, -, -, htask⟩ := h.collection_put (Option.mem_toList.mp hput)
      exact ⟨hstores, (hinv.doing call _ htask).2.concat⟩

theorem served_step (hrun : (machine types blob).Run t s) (hinv : Inv types t s)
    (h : Effect types s e r) : Served (t ++ [(e, r.2)]) := by
  intro y hy hash source hsource
  rw [sourceUses_concat]
  rcases List.mem_append.mp hy with hy | hy
  · exact List.mem_append_left _ (hinv.served y hy hash source hsource)
  · rw [List.mem_singleton.mp hy] at hsource
    rcases h.served hsource with ⟨hpeek, -⟩ | hput
    · exact List.mem_append_left _ (put_of_peek hrun hpeek)
    · exact List.mem_append_right _ (Option.mem_toList.mpr hput)

theorem servedCollections_step (hrun : (machine types blob).Run t s) (hinv : Inv types t s)
    (h : Effect types s e r) : ServedCollections (t ++ [(e, r.2)]) := by
  intro y hy hash source hsource
  rw [collectionUses_concat]
  rcases List.mem_append.mp hy with hy | hy
  · exact List.mem_append_left _ (hinv.servedCollections y hy hash source hsource)
  · rw [List.mem_singleton.mp hy] at hsource
    rcases h.servedCollections hsource with ⟨hpeek, -⟩ | hput
    · exact List.mem_append_left _ (put_of_peek_collections hrun hpeek)
    · exact List.mem_append_right _ (Option.mem_toList.mpr hput)

/-- Only verified sizes are put in `sizes`. -/
theorem Effect.sizes_step (h : Effect types s e r)
    (hsizes : ∀ x ∈ s.sizes.entries, x.2.toNat = (blob x.1).bytes.length) :
    ∀ x ∈ r.1.sizes.entries, x.2.toNat = (blob x.1).bytes.length := by
  cases h with
  | sizing _ _ _ _ _ hnew =>
    intro x hx
    exact (hnew x hx).elim (hsizes x) id
  | _ => exact hsizes

/-- A size that is there is that of the blob. -/
theorem Inv.known (hrun : (machine types blob).Run t s) (hinv : Inv types t s) {size : UInt64}
    (h : Known blob s hash size) : size.toNat = (blob hash).bytes.length := by
  rcases h with ⟨source, hpeek, rfl⟩ | hpeek | hsize
  · exact (hinv.right.source hash source (put_of_peek hrun hpeek)).1.size_eq
  · exact hinv.sizes _ (LruCache.mem_of_peek hpeek)
  · exact hsize

omit [DecidableEq C] in
/-- One call goes on, and the others are where they were. -/
theorem doing_setTask {s' : State κ C} {next : Option (Task C)}
    (hdoing : ∀ call task, s.tasks call = some task → Doing t call task)
    (hs : s'.tasks = s.tasks) (hother : ∀ c, c ≠ call → ¬ y.1.Starts c)
    (hnext : ∀ task, next = some task → Doing (t ++ [y]) call task) :
    ∀ c task, (s'.setTask call next).tasks c = some task → Doing (t ++ [y]) c task := by
  intro c task htask
  change Function.update s'.tasks call next c = some task at htask
  by_cases hc : c = call
  · subst hc
    rw [Function.update_self] at htask
    exact hnext task htask
  · rw [Function.update_of_ne hc, hs] at htask
    exact (hdoing c task htask).concat (hother c hc)

omit [DecidableEq κ] [DecidableEq C] in
/-- The connection of an answer was found for its hash. -/
theorem Inv.connected_source (hinv : Inv types t s) {source : Source C} (hy : y ∈ t)
    (hsource : y.2.IsSource hash source) : Connected t hash source.connection :=
  (hinv.right.source hash source (hinv.served y hy hash source hsource)).2

omit [DecidableEq κ] [DecidableEq C] in
/-- The connection of a collection is one for its files. -/
theorem Inv.listed (hinv : Inv types t s) {root : Hash} {source : CollectionSource C} {name : Str}
    (hy : y ∈ t) (hsource : y.2.IsCollection root source)
    (hname : (name, hash) ∈ source.collection) : Listed t name hash source.connection := by
  obtain ⟨hstores, hconnected⟩ :=
    hinv.right.collection root source (hinv.servedCollections y hy root source hsource)
  exact ⟨root, source.collection, hconnected, hstores, hname⟩

/-- A call is asked for something and goes on with it. -/
theorem doing_step (hrun : (machine types blob).Run t s) (hinv : Inv types t s)
    (ha : Enabled t s e) (h : Effect types s e r) :
    ∀ call task, r.1.tasks call = some task → Doing (t ++ [(e, r.2)]) call task := by
  have hdoing := hinv.doing
  cases h with
  | idle hstarts hclosed =>
    intro c task htask
    exact (hdoing c task htask).concat (hstarts c)
  | @source call hash r hr =>
    refine doing_setTask hdoing rfl (fun c hc heq => hc heq.symm) fun task htask => ?_
    rw [Found.next_eq_some htask]
    exact Asked.self (e := .source call hash) rfl _
  | @collection call hash r hr =>
    refine doing_setTask hdoing rfl (fun c hc heq => hc heq.symm) fun task htask => ?_
    rw [Found.next_eq_some htask]
    exact Asked.self (e := .collection call hash) rfl _
  | @collectionOnConnection call hash connection r hr =>
    obtain ⟨-, y, hy, source, hsource, rfl⟩ := ha
    refine doing_setTask hdoing rfl (fun c hc heq => hc heq.symm) fun task htask => ?_
    rw [Found.next_eq_some htask]
    have hasked := Asked.self (t := t)
      (e := .collectionOnConnection call hash source.connection) rfl (.collection hash r.2)
    exact ⟨.inr ⟨_, hasked⟩, (hinv.connected_source hy hsource).concat⟩
  | @file call hash connection name =>
    obtain ⟨-, y, hy, root, source, hsource, rfl, hname⟩ := ha
    refine doing_setTask hdoing rfl (fun c hc heq => hc heq.symm) fun task htask => ?_
    cases htask
    exact ⟨Asked.self (e := .file call hash source.connection name) rfl _,
      (hinv.listed hy hsource hname).concat⟩
  | @sizes call hashes connection =>
    refine doing_setTask hdoing rfl (fun c hc heq => hc heq.symm) fun task htask => ?_
    cases htask
    exact ⟨hashes, Asked.self (e := .sizes call hashes connection) rfl _, .new,
      fun x hx => by cases hx⟩
  | failed hstarts hcall =>
    exact doing_setTask hdoing rfl (fun c _ => hstarts c) fun task htask => by cases htask
  | @connectedSource call hash connection htask =>
    refine doing_setTask hdoing rfl (fun c _ => id) fun task hnext => ?_
    cases hnext
    exact ⟨Asked.concat (hdoing call _ htask) id,
      _, List.mem_append_right _ List.mem_cons_self, call, rfl⟩
  | @connectedCollection call hash connection r htask hr =>
    refine doing_setTask hdoing rfl (fun c _ => id) fun task hnext => ?_
    rw [Found.next_eq_some hnext]
    exact ⟨.inl (Asked.concat (hdoing call _ htask) id),
      _, List.mem_append_right _ List.mem_cons_self, call, rfl⟩
  | newSource htask hgenuine =>
    exact doing_setTask hdoing rfl (fun c _ => id) fun task hnext => by cases hnext
  | newFile htask hgenuine =>
    exact doing_setTask hdoing rfl (fun c _ => id) fun task hnext => by cases hnext
  | newCollection htask hstores =>
    exact doing_setTask hdoing rfl (fun c _ => id) fun task hnext => by cases hnext
  | @sizing e call connection sizes b b' hstarts hcall htask hkept hresults hsizes =>
    refine doing_setTask hdoing rfl (fun c _ => hstarts c) fun task hnext => ?_
    cases hnext
    obtain ⟨hashes, hasked, hb, hold⟩ := hdoing call _ htask
    refine ⟨hashes, hasked.concat (hstarts call), hkept hashes hb, fun x hx => ?_⟩
    rcases hresults x hx with hx | hsized
    · exact (hold x hx).concat (hstarts call)
    · obtain ⟨hash, _ | size⟩ := x
      · exact hasked.failed (hstarts call) hsized
      · exact hinv.known hrun hsized
  | collected htask hdone =>
    exact doing_setTask hdoing rfl (fun c _ => id) fun task hnext => by cases hnext
  | dropped => exact doing_setTask hdoing rfl (fun c _ => id) fun task hnext => by cases hnext
  | closed =>
    intro c task htask
    exact (hdoing c task htask).concat id

theorem inv_run (h : (machine types blob).Run t s) : Inv types t s := by
  induction h with
  | start hs =>
    rw [hs]
    refine ⟨⟨?_, ?_⟩, ?_, ?_, ?_, ?_⟩
    · exact fun hash source hput => by cases hput
    · exact fun hash source hput => by cases hput
    · exact fun y hy => by cases hy
    · exact fun y hy => by cases hy
    · exact fun x hx => by cases hx
    · exact fun call task htask => by cases htask
  | step hrun ha ih =>
    have heffect := effect_step types ha
    exact ⟨ih.right_step heffect, served_step hrun ih heffect,
      servedCollections_step hrun ih heffect, heffect.sizes_step ih.sizes,
      doing_step hrun ih ha heffect⟩

/-! ## Answers -/

/-- Who is answered with a source has asked for it. -/
theorem asked_source {source : Source C} (hinv : Inv types t s) (h : Effect types s e r)
    (hcall : e.call = some call) (hsource : r.2.IsSource hash source) :
    Asked (t ++ [(e, r.2)]) call (.source call hash) := by
  rcases h.served hsource with ⟨-, c, rfl⟩ | hput
  · cases hcall
    exact Asked.self (e := .source call hash) rfl r.2
  · obtain ⟨-, c, started, rfl, htask⟩ := h.source_put hput
    cases hcall
    exact Asked.concat (hinv.doing call _ htask).1 id

/-- Who is answered with a collection has asked for it. -/
theorem asked_collection {source : CollectionSource C} (hinv : Inv types t s)
    (h : Effect types s e r) (hcall : e.call = some call) (hsource : r.2.IsCollection hash source) :
    AskedCollection (t ++ [(e, r.2)]) call hash := by
  rcases h.servedCollections hsource with ⟨-, c, hasked⟩ | hput
  · rcases hasked with rfl | ⟨connection, rfl⟩ | ⟨hc, hstarts, htask⟩
    · cases hcall
      exact .inl (Asked.self (e := .collection call hash) rfl r.2)
    · cases hcall
      exact .inr ⟨connection,
        Asked.self (e := .collectionOnConnection call hash connection) rfl r.2⟩
    · obtain rfl := Option.some.inj (hc.symm.trans hcall)
      exact .inl (Asked.concat (hinv.doing c _ htask) (hstarts c))
  · obtain ⟨-, c, response, rfl, htask⟩ := h.collection_put hput
    cases hcall
    exact AskedCollection.concat (hinv.doing call _ htask).1 id

/-- A file is answered by its name and content. -/
theorem Effect.file_eq {source : Source C} (h : Effect types s e r)
    (hfile : r.2 = .file hash source) :
    ∃ call started name, e = .sniffed call hash started ∧
      s.tasks call = some (.sniffing hash source.connection (some name)) ∧
      Genuine types blob (some name) hash source := by
  cases h with
  | newFile htask h =>
    cases hfile
    exact ⟨_, _, _, rfl, htask, h⟩
  | _ => cases hfile

/-- **What a gateway answers is that of the content.** In every run of the calls that share the
caches, however they interleave, whichever are dropped and whichever connections close: who is
answered with a source has asked for it, and has its size, the media type of its first bytes without
any name, and a connection that was found for it; who is answered with a collection has asked for
it, and has the names and hashes that it stores; who is answered with a file has the media type by
the name that he asked for, over the connection of a collection with this name and hash. -/
theorem answers_genuine {w : State κ C} (h : (machine types blob).Run t w)
    {before after : List (Event blob κ C × Output C)} (ht : t = before ++ y :: after)
    (hcall : y.1.call = some call) (hash : Hash) :
    (∀ source, y.2.IsSource hash source → Asked (before ++ [y]) call (.source call hash) ∧
      Genuine types blob none hash source ∧ Connected (before ++ [y]) hash source.connection) ∧
    (∀ source, y.2.IsCollection hash source → AskedCollection (before ++ [y]) call hash ∧
      Stores blob hash source.collection ∧ Connected (before ++ [y]) hash source.connection) ∧
    ∀ source, y.2 = .file hash source → ∃ name,
      Asked (before ++ [y]) call (.file call hash source.connection name) ∧
        Genuine types blob (some name) hash source ∧
        Listed (before ++ [y]) name hash source.connection := by
  obtain ⟨s, hrun, ha, hout⟩ := h.stepAt ht
  obtain ⟨e, out⟩ := y
  have hinv := inv_run hrun
  have heffect := effect_step types ha
  change out = (s.step types e).2 at hout
  subst hout
  have hright := hinv.right_step heffect
  refine ⟨fun source hsource => ⟨asked_source hinv heffect hcall hsource, ?_⟩,
    fun source hsource => ⟨asked_collection hinv heffect hcall hsource, ?_⟩,
    fun source hfile => ?_⟩
  · have hserved := served_step hrun hinv heffect
    exact hright.source hash source (hserved _ (by simp) hash source hsource)
  · have hserved := servedCollections_step hrun hinv heffect
    exact hright.collection hash source (hserved _ (by simp) hash source hsource)
  · obtain ⟨c, started, name, heq, htask, hgenuine⟩ := heffect.file_eq hfile
    obtain ⟨hasked, hlisted⟩ := hinv.doing c _ htask
    change e = .sniffed c hash started at heq
    subst heq
    cases hcall
    exact ⟨name, Asked.concat hasked id, hgenuine, hlisted.concat⟩

omit [DecidableEq κ] [DecidableEq C] in
/-- A call was started once. -/
theorem Asked.unique {e' : Event blob κ C} (h : Asked t call e) (h' : Asked t call e') :
    e = e' := by
  obtain ⟨out, h⟩ := h
  obtain ⟨out', h'⟩ := h'
  exact (Prod.mk.inj (h.unique h')).1

/-- A call for a collection that has a connection looks the collection up again. -/
theorem connected_eq (hrun : (machine types blob).Run t s)
    (ha : Enabled t s (.connected call hash (.ok connection)))
    (hasked : Asked t call (.collection call hash)) :
    s.connected call hash (.ok connection) = s.collectionOnConnection call hash connection := by
  obtain ⟨item, htask⟩ := ha
  have hdoing := (inv_run hrun).doing call _ htask
  cases item with
  | source => cases Asked.unique hasked hdoing
  | collection => rw [State.connected.eq_def, htask]

/-- **What a gateway reuses.** In every run, a call that asks for a source is answered from the
cache exactly with the source that was put last for the hash, if fewer than 128 other hashes were
used since the last use of the hash, and if its connection was not closed. So it is for collections,
also when a blob is probed for one, and when a call for one has found a provider: what another call
has read meanwhile is used. -/
theorem sources_reused {w : State κ C} (h : (machine types blob).Run t w)
    {before after : List (Event blob κ C × Output C)} (ht : t = before ++ y :: after) :
    (∀ call hash, y.1 = .source call hash → ∀ source, y.2 = .source hash (.reused source) ↔
      LruCache.LastPut (sourceUses before) hash source ∧
        LruCache.Recent SOURCE_SLOTS (sourceUses before) hash ∧
        ¬ Closed before source.connection) ∧
    ∀ call hash, (y.1 = .collection call hash ∨
        (∃ connection, y.1 = .collectionOnConnection call hash connection) ∨
        Asked before call (.collection call hash) ∧
          ∃ connection, y.1 = .connected call hash (.ok connection)) →
      ∀ source, y.2 = .collection hash (.reused source) ↔
        LruCache.LastPut (collectionUses before) hash source ∧
          LruCache.Recent SOURCE_SLOTS (collectionUses before) hash ∧
          ¬ Closed before source.connection := by
  obtain ⟨s, hrun, ha, hout⟩ := h.stepAt ht
  obtain ⟨e, out⟩ := y
  change out = (s.step types e).2 at hout
  subst hout
  have hfound {υ : Type} {connection : υ → C} {m : LruCache Hash υ} {uses hash}
      {r : LruCache Hash υ × Found υ} (hm : LruCache.Uses SOURCE_SLOTS uses m)
      (hr : LookUp s.closed connection m hash r) {value : υ} :
      r.2 = .reused value ↔ LruCache.LastPut uses hash value ∧
        LruCache.Recent SOURCE_SLOTS uses hash ∧ ¬ Closed before (connection value) := by
    rw [hr.reused_iff, hm.peek_iff, closed_run hrun, and_assoc]
  refine ⟨fun call hash he source => ?_, fun call hash he source => ?_⟩
  · obtain ⟨r, hr, heq⟩ := source_eq s call hash
    change e = .source call hash at he
    subst he
    rw [← hfound (cache_run hrun) hr, State.step, heq, Output.source.injEq]
    exact and_iff_right rfl
  · obtain ⟨r, hr, hout⟩ : ∃ r, LookUp s.closed CollectionSource.connection s.collections hash r ∧
        (s.step types e).2 = .collection hash r.2 := by
      rcases he with he | ⟨connection, he⟩ | ⟨hasked, connection, he⟩
      · obtain ⟨r, hr, heq⟩ := collection_eq s call hash
        change e = .collection call hash at he
        subst he
        exact ⟨r, hr, by rw [State.step, heq]⟩
      · obtain ⟨r, hr, heq⟩ := collectionOnConnection_eq s call hash connection
        change e = .collectionOnConnection call hash connection at he
        subst he
        exact ⟨r, hr, by rw [State.step, heq]⟩
      · obtain ⟨r, hr, heq⟩ := collectionOnConnection_eq s call hash connection
        change e = .connected call hash (.ok connection) at he
        subst he
        exact ⟨r, hr, by rw [State.step, connected_eq hrun ha hasked, heq]⟩
    rw [← hfound (collections_run hrun) hr, hout, Output.collection.injEq]
    exact and_iff_right rfl

/-! ## Sizes -/

omit [DecidableEq κ] [DecidableEq C] in
/-- A size of the map is one of the results, and every result with a size leaves one there. -/
theorem lookup_collect (results : List (Hash × Option UInt64)) (hash : Hash) :
    (∀ size, (collect results).lookup hash = some size → (hash, some size) ∈ results) ∧
      ((collect results).lookup hash = none → ∀ size, (hash, some size) ∉ results) := by
  induction results using List.reverseRecOn with
  | nil =>
    refine ⟨fun size h => ?_, fun _ size h => ?_⟩
    · cases h
    · cases h
  | append_singleton results x ih =>
    obtain ⟨hash', _ | size'⟩ := x
    · have heq : collect (results ++ [(hash', none)]) = collect results := by
        rw [collect, List.foldl_concat, collect]
      rw [heq]
      refine ⟨fun size h => List.mem_append_left _ (ih.1 size h), fun h size hmem => ?_⟩
      rcases List.mem_append.mp hmem with hmem | hmem
      · exact ih.2 h size hmem
      · cases List.mem_singleton.mp hmem
    · have heq : collect (results ++ [(hash', some size')]) =
          Finmap.insert hash' size' (collect results) := by
        rw [collect, List.foldl_concat, collect]
      rw [heq, HashMap.lookup_insert_eq]
      by_cases hh : hash = hash'
      · subst hh
        rw [if_pos rfl]
        refine ⟨fun size h => ?_, fun h => by cases h⟩
        cases h
        simp
      · rw [if_neg hh]
        refine ⟨fun size h => List.mem_append_left _ (ih.1 size h), fun h size hmem => ?_⟩
        rcases List.mem_append.mp hmem with hmem | hmem
        · exact ih.2 h size hmem
        · exact hh (Prod.mk.inj (List.mem_singleton.mp hmem)).1

/-- Sizes are answered when all are there. -/
theorem Effect.sizes_eq {sizes : HashMap Hash UInt64} (h : Effect types s e r)
    (hsizes : r.2 = .sizes sizes) : ∃ call connection b, e = .collected call ∧
      s.tasks call = some (.sizing connection b) ∧ b.Done ∧ sizes = collect b.results := by
  cases h with
  | collected htask hdone =>
    cases hsizes
    exact ⟨_, _, _, rfl, htask, hdone, rfl⟩
  | _ => cases hsizes

/-- **Sizes of a listing.** In every run, at most 16 sizes of a listing are fetched at once, and
each of its files is waiting, at work or done as often as it is listed. The answer has the verified
size of each file, or none if a fetch of it failed, and nothing else: a failure costs no other file
its size. -/
theorem sizes_complete {w : State κ C} (h : (machine types blob).Run t w) :
    (∀ call connection b, w.tasks call = some (.sizing connection b) →
      b.running.length ≤ SIZE_REQUESTS ∧ ∃ hashes, Asked t call (.sizes call hashes connection) ∧
        (b.waiting ++ b.running.map Prod.fst ++ b.results.map Prod.fst).Perm hashes) ∧
    ∀ before after y call sizes, t = before ++ y :: after → y.1.call = some call →
      y.2 = .sizes sizes → ∃ hashes connection, Asked before call (.sizes call hashes connection) ∧
        ∀ hash, match sizes.lookup hash with
          | some size => hash ∈ hashes ∧ size.toNat = (blob hash).bytes.length
          | none => hash ∉ hashes ∨ Failed before call hash := by
  refine ⟨fun call connection b htask => ?_, fun before after y call sizes ht hcall hsizes => ?_⟩
  · obtain ⟨hashes, hasked, hkept, -⟩ := (inv_run h).doing call _ htask
    exact ⟨hkept.length_le, hashes, hasked, hkept.perm⟩
  · obtain ⟨s, hrun, ha, hout⟩ := h.stepAt ht
    obtain ⟨c, connection, b, heq, htask, hdone, rfl⟩ :=
      (effect_step types ha).sizes_eq (hout.symm.trans hsizes)
    rw [heq] at hcall
    obtain rfl := Option.some.inj hcall
    obtain ⟨hashes, hasked, hkept, hresults⟩ := (inv_run hrun).doing c _ htask
    refine ⟨hashes, connection, hasked, fun hash => ?_⟩
    obtain ⟨hsome, hnone⟩ := lookup_collect b.results hash
    split
    · rename_i size hsize
      have hmem := hsome size hsize
      exact ⟨hkept.mem hmem, hresults _ hmem⟩
    · rename_i hlookup
      by_cases hmem : hash ∈ hashes
      · obtain ⟨x, hx, rfl⟩ := List.mem_map.mp ((hkept.done hdone).mem_iff.mpr hmem)
        obtain ⟨hash, _ | size⟩ := x
        · exact .inr (hresults _ hx)
        · exact absurd hx (hnone hlookup size)
      · exact .inl hmem

end

namespace Sample

open ReadCollection (Sends)
open ReadCollection.Sample (hashOf file greeting collection)

/-- The hash of a collection with an empty file and one that is not. -/
def root : Hash := hashOf (ReadCollection.rootBytes hashOf collection)

/-- The hash of its names. -/
def names : Hash := hashOf (ReadCollection.metadata collection)

def blobs (hash : Hash) : Blob :=
  if hash = root then ⟨ReadCollection.rootBytes hashOf collection, by decide⟩
  else if hash = names then
    ⟨ReadCollection.metadata collection, ReadCollection.Sample.names.length_lt⟩
  else if hash = greeting then ⟨[104, 105], by decide⟩
  else ⟨[], Nat.two_pow_pos 64⟩

def types : MimeTypes := ⟨fun _ => none, fun _ _ => "text/plain".toList⟩

/-- The names, for their hash. -/
def child : ReadCollection.AtStartChild := fun hash =>
  if hash = names then ReadCollection.Sample.child hash else .pending

/-- The root, for any hash. -/
def header : ReadCollection.AtBlobHeader (ReadCollection.EndBlobNext ReadCollection.AtStartChild) :=
  .ready (.more (.ok (.leaf ReadCollection.Sample.first))
    (.more (.ok (.leaf ReadCollection.Sample.second)) (.done (.moreChildren child))), 96)

def response : ReadCollection.Connection := fun _ => .ready (.startRoot header)

theorem sends_root : Sends header (blobs root).bytes (.moreChildren child) := by
  refine ⟨_, _, rfl, by decide +kernel, ?_⟩
  have hbytes : ReadCollection.Sample.first.data ++ (ReadCollection.Sample.second.data ++ []) =
      (blobs root).bytes := by
    rw [List.append_nil]
    exact List.take_append_drop 40 _
  rw [← hbytes]
  exact .leaf rfl (.leaf (by decide) .done)

theorem sends_names : Sends (child names) (blobs names).bytes (.closing (.ready ())) := by
  refine ⟨_, _, rfl, by decide +kernel, ?_⟩
  have hbytes : ReadCollection.Sample.names.data ++ [] = (blobs names).bytes := by
    decide +kernel
  rw [← hbytes]
  exact .leaf rfl .done

theorem verified : Verified blobs root response where
  root header' bytes next hheader hsends := by
    cases hheader
    exact (sends_unique hsends sends_root).1
  child header' bytes child' hheader hroot hash bytes' next hsends := by
    cases hheader
    cases (sends_unique hroot sends_root).2
    by_cases hh : hash = names
    · rw [hh] at hsends ⊢
      exact (sends_unique hsends sends_names).1
    · obtain ⟨content, size, hready, -⟩ := hsends
      rw [child, if_neg hh] at hready
      cases hready

/-- An empty blob. -/
def started : Except Str (AtBlobContent (blobs file) × UInt64) :=
  .ok (.done (.closing (.returned (.ok ()))), 0)

/-- A blob of two bytes. -/
def startedGreeting : Except Str (AtBlobContent (blobs greeting) × UInt64) :=
  .ok (.done (.closing (.returned (.ok ()))), 2)

/-- Two calls ask for a collection. One reads it, and the other one finds it when it has a provider.
Then one of its files is read, the collection is asked for again, and the sizes of both files are
fetched at once. -/
def reads : List (Event blobs ℕ ℕ) :=
  [.collection 0 root, .collection 2 root, .connected 0 root (.ok 7), .read 0 root response,
    .connected 2 root (.ok 8), .file 0 file 7 "a".toList, .sniffed 0 file started,
    .collection 1 root,
    .sizes 0 [file, greeting] 7, .sizeStarted 0, .sizeStarted 0, .peeked 0 file,
    .peeked 0 greeting, .lookedUp 0 greeting, .sized 0 greeting startedGreeting,
    .lookedUp 0 file, .sized 0 file started, .collected 0]

/-- The sizes of the files. -/
def sizes : HashMap Hash UInt64 := Finmap.insert file 0 (Finmap.insert greeting 2 ∅)

/-- What the steps tell. -/
def told : List (Output ℕ) :=
  [.collection root .missing, .collection root .missing, .collection root .missing,
    .newCollection root ⟨7, collection⟩, .collection root (.reused ⟨7, collection⟩), .quiet,
    .file file ⟨7, 0, "text/plain; charset=utf-8".toList⟩,
    .collection root (.reused ⟨7, collection⟩), .quiet, .quiet, .quiet, .quiet, .quiet, .quiet,
    .quiet, .quiet, .quiet, .sizes sizes]

theorem exec_reads : ((machine types blobs).exec new reads).1 = reads.zip told := rfl

theorem hasSize {hash : Hash} {n : UInt64} {result : Option (Except Str UInt64)}
    (h : result = some (.ok n)) (hn : n.toNat = (blobs hash).bytes.length) :
    HasSize (blobs hash) result := by
  intro size hsize
  rw [h] at hsize
  cases hsize
  exact hn

/-- The answer with the collection. -/
def answer : Event blobs ℕ ℕ × Output ℕ :=
  (.read 0 root response, .newCollection root ⟨7, collection⟩)

theorem follows : (machine types blobs).Follows [] new reads := by
  have hfile : (0 : UInt64).toNat = (blobs file).bytes.length := by decide +kernel
  have hgreeting : (2 : UInt64).toNat = (blobs greeting).bytes.length := by decide +kernel
  refine ⟨rfl, rfl, ⟨_, rfl⟩, ⟨⟨_, rfl⟩, verified⟩, ⟨_, rfl⟩,
    ⟨rfl, answer, ?_, root, _, .inr rfl, rfl, ?_⟩,
    ⟨⟨_, _, rfl⟩, hasSize rfl hfile⟩, rfl, ⟨rfl, answer, ?_, root, _, .inr rfl, rfl, [], ?_⟩,
    ⟨_, _, rfl, ?_, ?_⟩, ⟨_, _, rfl, ?_, ?_⟩, ⟨_, _, rfl, ?_⟩, ⟨_, _, rfl, ?_⟩, ⟨_, _, rfl, ?_⟩,
    ⟨⟨_, _, rfl, ?_⟩, hasSize rfl hgreeting⟩, ⟨_, _, rfl, ?_⟩,
    ⟨⟨_, _, rfl, ?_⟩, hasSize rfl hfile⟩, ⟨_, _, rfl, rfl, rfl⟩, trivial⟩
  · exact List.mem_append_left _ (List.mem_append_right _ List.mem_cons_self)
  · exact List.mem_cons_self
  · exact List.mem_append_left _ (List.mem_append_left _ (List.mem_append_left _
      (List.mem_append_left _ (List.mem_append_right _ List.mem_cons_self))))
  · exact ⟨⟨∅, [("a".toList, file), ("b".toList, greeting)]⟩, rfl, rfl⟩
  · exact List.cons_ne_nil _ _
  · exact Nat.zero_lt_succ _
  · exact List.cons_ne_nil _ _
  · decide
  · decide +kernel
  · decide +kernel
  · decide +kernel
  · decide +kernel
  · decide +kernel
  · decide +kernel

theorem run :
    (machine types blobs).Run (reads.zip told) ((machine types blobs).exec new reads).2 := by
  have hrun := (Machine.Run.start (M := machine types blobs) rfl).follows follows
  rwa [List.nil_append, exec_reads] at hrun

/-- The history up to an event. -/
def before (n : ℕ) : List (Event blobs ℕ ℕ × Output ℕ) := (reads.zip told).take n

/-- The answer with the file. -/
def theFile : Event blobs ℕ ℕ × Output ℕ :=
  (.sniffed 0 file started, .file file ⟨7, 0, "text/plain; charset=utf-8".toList⟩)

end Sample

open ReadCollection.Sample (file collection)

/-- An empty file of a collection is read. -/
theorem answers_genuine_sample : ∃ name,
    Asked (Sample.before 6 ++ [Sample.theFile]) 0 (.file 0 file 7 name) ∧
      Genuine Sample.types Sample.blobs (some name) file
        (⟨7, 0, "text/plain; charset=utf-8".toList⟩ : Source ℕ) ∧
      Listed (Sample.before 6 ++ [Sample.theFile]) name file 7 := by
  have ht : Sample.reads.zip Sample.told =
      Sample.before 6 ++ Sample.theFile :: (Sample.reads.zip Sample.told).drop 7 := rfl
  exact (answers_genuine Sample.run ht rfl file).2.2 _ rfl

/-- The collection is there when another call has found a provider, and for a later call. -/
theorem sources_reused_sample :
    (LruCache.LastPut (collectionUses (Sample.before 4)) Sample.root
        (⟨7, collection⟩ : CollectionSource ℕ) ∧
      LruCache.Recent SOURCE_SLOTS (collectionUses (Sample.before 4)) Sample.root ∧
      ¬ Closed (Sample.before 4) 7) ∧
    LruCache.LastPut (collectionUses (Sample.before 7)) Sample.root
        (⟨7, collection⟩ : CollectionSource ℕ) ∧
      LruCache.Recent SOURCE_SLOTS (collectionUses (Sample.before 7)) Sample.root ∧
      ¬ Closed (Sample.before 7) 7 := by
  have hfound : Sample.reads.zip Sample.told = Sample.before 4 ++
      (.connected 2 Sample.root (.ok 8), .collection Sample.root (.reused ⟨7, collection⟩)) ::
        (Sample.reads.zip Sample.told).drop 5 := rfl
  have hasked : Asked (Sample.before 4) 2 (.collection 2 Sample.root) :=
    ⟨_, [_], [_, _], rfl, rfl, by simp [Event.Starts]⟩
  have hlater : Sample.reads.zip Sample.told = Sample.before 7 ++
      (.collection 1 Sample.root, .collection Sample.root (.reused ⟨7, collection⟩)) ::
        (Sample.reads.zip Sample.told).drop 8 := rfl
  refine ⟨?_, ((sources_reused Sample.run hlater).2 1 Sample.root (.inl rfl) _).mp rfl⟩
  have hreused := (sources_reused Sample.run hfound).2 2 Sample.root (.inr (.inr ⟨hasked, 8, rfl⟩))
  exact (hreused _).mp rfl

/-- The sizes of both files are listed. -/
theorem sizes_complete_sample : ∃ hashes connection,
    Asked (Sample.before 17) 0 (.sizes 0 hashes connection) ∧
      ∀ hash, match Sample.sizes.lookup hash with
        | some size => hash ∈ hashes ∧ size.toNat = (Sample.blobs hash).bytes.length
        | none => hash ∉ hashes ∨ Failed (Sample.before 17) 0 hash := by
  have ht : Sample.reads.zip Sample.told =
      Sample.before 17 ++ [(.collected 0, .sizes Sample.sizes)] := rfl
  exact (sizes_complete Sample.run).2 _ _ _ 0 _ ht rfl rfl

end SourceCache

end ContentDiscovery
