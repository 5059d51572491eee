import ContentDiscovery.IndexBuilder
import ContentDiscovery.SignedPacket

/-!
# The stored server list

`serve`, `load_index_list` and `store_index_list` of `iroh-link-gateway/src/main.rs`: a gateway with
a state directory stores the signed list of its index, and the next one starts from it when Mainline
has none. A gateway can stop anywhere, also in the middle of a write, and file operations can fail.
-/

namespace ContentDiscovery

/-- `Args`: where the command line says to look for servers. -/
structure Args where
  /-- a server to use instead of discovering one -/
  indexServer : Option SocketAddrV4
  /-- who signs the server list -/
  indexListKey : Option PkarrKey
  /-- where servers announce themselves -/
  rendezvousHash : Option (Vector UInt8 20)

/-- `Args::index`. -/
def Args.index (args : Args) : AddrIndexBuilder :=
  let builder := AddrIndexBuilder.builder.n0Defaults
  let builder := args.indexServer.elim builder builder.server
  let builder := args.indexListKey.elim builder builder.listKey
  args.rendezvousHash.elim builder builder.rendezvousHash

namespace StoredList

/-- The files of the list in a state directory. -/
structure Files where
  /-- `index-list.pkarr` -/
  list : Option (List UInt8)
  /-- `index-list.tmp` -/
  temporary : Option (List UInt8)

/-- `load_index_list`. -/
def loadIndexList (verify : Verify) (files : Files) : Option SignedItem :=
  files.list.bind (decodeSignedPacket verify)

/-- A gateway, until it serves. -/
inductive Process where
  /-- there is none -/
  | down
  /-- it finds index servers -/
  | building (builder : AddrIndexBuilder)
  /-- it has an index, which may discover its servers -/
  | built (builder : AddrIndexBuilder) (index : Discovery) (discovers : Bool)
  /-- it opens the temporary file -/
  | opening (item : SignedItem) (bytes : List UInt8)
  /-- it has bytes left to write to it -/
  | writing (item : SignedItem) (rest : List UInt8)
  /-- it serves -/
  | serving

/-- A state directory and its gateway. -/
structure State where
  /-- the files -/
  files : Files
  /-- the gateway -/
  process : Process

/-- What may happen. -/
inductive Event where
  /-- a gateway starts -/
  | start (args : Args)
  /-- it tries to build its index -/
  | build (attached : Bool) (answers : Answers)
  /-- its index goes on -/
  | index (e : Discovery.Event)
  /-- `signed_list` returns this item -/
  | signedList (item : Option SignedItem)
  /-- the temporary file is created, or emptied -/
  | create
  /-- some more bytes reach it -/
  | write (n : ℕ)
  /-- it takes the place of the list -/
  | rename
  /-- a file operation fails -/
  | failed
  /-- the gateway stops -/
  | stop

/-- What a step shows. -/
inductive Output where
  /-- nothing -/
  | quiet
  /-- the item that was loaded -/
  | loaded (item : Option SignedItem)
  /-- why the index is not built, if it is not -/
  | built (result : Except DiscoveryError Unit)
  /-- the item that was stored -/
  | stored (item : SignedItem)

section Runs

variable {Name : Type} [BEq Name] (dns : Dns Name) (z : Z32) (verify : Verify)

/-- `serve`, which starts from the stored list. -/
def start (files : Files) (args : Args) : AddrIndexBuilder :=
  (loadIndexList verify files).elim args.index fun item =>
    args.index.fallbackList item.toMutableItem

/-- One step. A step that is not enabled does nothing. -/
def step (s : State) : Event → State × Output
  | .start args =>
    ({ s with process := .building (start verify s.files args) },
      .loaded (loadIndexList verify s.files))
  | .build attached answers =>
    match s.process with
    | .building builder =>
      match builder.build dns z attached answers with
      | .error error => (s, .built (.error error))
      | .ok (index, discovers) =>
        ({ s with process := .built builder index discovers }, .built (.ok ()))
    | _ => (s, .quiet)
  | .index e =>
    match s.process with
    | .built builder index discovers =>
      let next := (index.step dns z builder.sources e).1
      ({ s with process := .built builder next discovers }, .quiet)
    | _ => (s, .quiet)
  | .signedList none => ({ s with process := .serving }, .quiet)
  | .signedList (some item) =>
    match encodeSignedPacket item with
    | none => ({ s with process := .serving }, .quiet)
    | some bytes => ({ s with process := .opening item bytes }, .quiet)
  | .create =>
    match s.process with
    | .opening item bytes =>
      (⟨{ s.files with temporary := some [] }, .writing item bytes⟩, .quiet)
    | _ => (s, .quiet)
  | .write n =>
    match s.process, s.files.temporary with
    | .writing item rest, some written =>
      (⟨{ s.files with temporary := some (written ++ rest.take n) }, .writing item (rest.drop n)⟩,
        .quiet)
    | _, _ => (s, .quiet)
  | .rename =>
    match s.process with
    | .writing item _ => (⟨⟨s.files.temporary, none⟩, .serving⟩, .stored item)
    | _ => (s, .quiet)
  | .failed => ({ s with process := .serving }, .quiet)
  | .stop => ({ s with process := .down }, .quiet)

/-- When a step can happen. What an index holds was verified, by Mainline or when it was loaded. -/
def State.Enabled (s : State) : Event → Prop
  | .start _ => s.process = .down
  | .build _ _ => ∃ builder, s.process = .building builder
  | .index e =>
    (∃ builder index, s.process = .built builder index true) ∧ Discovery.Enabled e
  | .signedList item =>
    ∃ builder index discovers, s.process = .built builder index discovers ∧
      item.map (·.toMutableItem) = (if discovers then index.state.signed else none) ∧
      ∀ i ∈ item, i.Verifies verify
  | .create => ∃ item bytes, s.process = .opening item bytes
  | .write _ => ∃ item rest, s.process = .writing item rest
  | .rename => ∃ item, s.process = .writing item []
  | .failed =>
    (∃ item bytes, s.process = .opening item bytes) ∨ ∃ item rest, s.process = .writing item rest
  | .stop => s.process ≠ .down

/-- A state directory, from when it is empty. -/
def machine : Machine State Event Output where
  init s := s = ⟨⟨none, none⟩, .down⟩
  enabled _ s e := s.Enabled verify e
  step := step dns z verify

/-! ## Runs -/

/-- The item that a step stores. -/
def storedOf : Event × Output → Option SignedItem
  | (_, .stored item) => some item
  | _ => none

/-- The item that was stored last. -/
def stored (t : List (Event × Output)) : Option SignedItem := (t.filterMap storedOf).getLast?

/-- An item that an index can hold. -/
structure Held (t : List (Event × Output)) (item : SignedItem) : Prop where
  /-- it is a list that discovery accepts -/
  acceptable : Discovery.Acceptable dns z item.toMutableItem
  /-- it is signed -/
  verifies : item.Verifies verify
  /-- it was the list of an index -/
  held : .signedList (some item) ∈ t.map Prod.fst

/-- What holds of a gateway. -/
inductive Keeps (t : List (Event × Output)) (files : Files) : Process → Prop
  | down : Keeps t files .down
  | building {builder : AddrIndexBuilder}
    (hfallback : builder.sources.fallbackList = (stored t).map (·.toMutableItem)) :
    Keeps t files (.building builder)
  | built {builder : AddrIndexBuilder} {index : Discovery} {discovers : Bool}
    (hnewest : discovers = true → ∃ items, Discovery.IsNewest dns z items index.state.signed) :
    Keeps t files (.built builder index discovers)
  | opening {item : SignedItem} {bytes : List UInt8} (hheld : Held dns z verify t item)
    (hbytes : encodeSignedPacket item = some bytes) : Keeps t files (.opening item bytes)
  | writing {item : SignedItem} {written rest : List UInt8} (hheld : Held dns z verify t item)
    (hbytes : encodeSignedPacket item = some (written ++ rest))
    (hfile : files.temporary = some written) : Keeps t files (.writing item rest)
  | serving : Keeps t files .serving

/-- What holds of a state directory. -/
structure Kept (t : List (Event × Output)) (s : State) : Prop where
  /-- the file has the item that was stored last, and nothing else -/
  file : s.files.list = (stored t).bind encodeSignedPacket
  /-- which was the list of an index -/
  held : ∀ item, stored t = some item → Held dns z verify t item
  /-- and so will be the next one -/
  process : Keeps dns z verify t s.files s.process

variable {dns z verify} {t : List (Event × Output)} {s : State}

theorem stored_concat_quiet (e : Event) {out : Output} (hout : storedOf (e, out) = none) :
    stored (t ++ [(e, out)]) = stored t := by
  rw [stored, List.filterMap_append, List.filterMap_cons_none hout, List.filterMap_nil,
    List.append_nil]
  rfl

theorem stored_concat_stored (e : Event) (item : SignedItem) :
    stored (t ++ [(e, .stored item)]) = some item := by
  rw [stored, List.filterMap_append]
  exact List.getLast?_concat

/-- An item that was held stays one that was. -/
theorem Held.concat {item : SignedItem} (h : Held dns z verify t item) (x : Event × Output) :
    Held dns z verify (t ++ [x]) item := by
  refine ⟨h.acceptable, h.verifies, ?_⟩
  rw [List.map_append]
  exact List.mem_append_left _ h.held

/-- What an index holds is read back as it was written. -/
theorem Held.decode {item : SignedItem} (h : Held dns z verify t item) :
    ∃ bytes, encodeSignedPacket item = some bytes ∧
      decodeSignedPacket verify bytes = some item :=
  (signed_packet_codec verify).1 item h.acceptable.1 h.acceptable.2.1 h.verifies

/-- What is loaded is what was stored last. -/
theorem Kept.load (h : Kept dns z verify t s) : loadIndexList verify s.files = stored t := by
  rw [loadIndexList, h.file]
  cases hstored : stored t with
  | none => rfl
  | some item =>
    obtain ⟨bytes, hbytes, hdecode⟩ := (h.held item hstored).decode
    rw [Option.bind_some, hbytes, Option.bind_some, hdecode]

/-- A gateway starts with what was stored last. -/
theorem fallbackList_start (args : Args) (files : Files) :
    (start verify files args).sources.fallbackList =
      (loadIndexList verify files).map (·.toMutableItem) := by
  have hnone : args.index.sources.fallbackList = none := by
    rcases args with ⟨- | server, - | key, - | hash⟩ <;> rfl
  rw [start]
  cases loadIndexList verify files with
  | none => exact hnone
  | some item => rfl

/-- A first refresh finds the newest list. -/
theorem isNewest_build {builder : AddrIndexBuilder} {attached discovers : Bool} {answers : Answers}
    {index : Discovery} (h : builder.build dns z attached answers = .ok (index, discovers))
    (hdiscovers : discovers = true) :
    ∃ items, Discovery.IsNewest dns z items index.state.signed := by
  have hfresh : Discovery.IsNewest dns z [] builder.unbuilt.state.signed := nofun
  have hrefresh : index = (builder.unbuilt.refresh dns z builder.sources answers).1 := by
    subst hdiscovers
    rw [AddrIndexBuilder.build] at h
    split at h
    · split at h
      · cases h
      · split at h <;> cases h
    split at h
    · cases h
    split at h
    · cases h
    simp only at h
    split at h
    · exact (Prod.mk.inj (Except.ok.inj h)).1.symm
    · cases h
    · cases h
  rw [hrefresh]
  exact ⟨_, hfresh.refresh⟩

/-- A step that stores nothing. -/
theorem Kept.quiet (h : Kept dns z verify t s) {s' : State} {e : Event} {out : Output}
    (hout : storedOf (e, out) = none) (hlist : s'.files.list = s.files.list)
    (hprocess : Keeps dns z verify (t ++ [(e, out)]) s'.files s'.process) :
    Kept dns z verify (t ++ [(e, out)]) s' := by
  refine ⟨?_, fun item hitem => ?_, hprocess⟩
  · rw [hlist, stored_concat_quiet e hout, h.file]
  · rw [stored_concat_quiet e hout] at hitem
    exact (h.held item hitem).concat _

theorem kept_step (h : Kept dns z verify t s) {e : Event} (hen : s.Enabled verify e) :
    Kept dns z verify (t ++ [(e, (step dns z verify s e).2)]) (step dns z verify s e).1 := by
  cases e with
  | start args =>
    refine h.quiet rfl rfl (.building ?_)
    rw [fallbackList_start, h.load, stored_concat_quiet _ rfl]
  | stop => exact h.quiet rfl rfl .down
  | failed => exact h.quiet rfl rfl .serving
  | build attached answers =>
    obtain ⟨builder, hbuilder⟩ := hen
    have hprocess := h.process
    rw [hbuilder] at hprocess
    simp only [step, hbuilder]
    split
    · refine h.quiet rfl rfl ?_
      cases hprocess with
      | building hfallback => 
        simp only [hbuilder]
        exact .building (by rw [stored_concat_quiet _ rfl, hfallback])
    · rename_i index discovers hbuild
      exact h.quiet rfl rfl (.built (isNewest_build hbuild))
  | index e =>
    obtain ⟨⟨builder, index, hbuilt⟩, hen⟩ := hen
    have hprocess := h.process
    rw [hbuilt] at hprocess
    simp only [step, hbuilt]
    cases hprocess with
    | built hnewest =>
      obtain ⟨items, hitems⟩ := hnewest rfl
      refine h.quiet rfl rfl (.built fun _ => ?_)
      by_cases he : ∃ answers, e = .refresh answers
      · obtain ⟨answers, rfl⟩ := he
        exact ⟨_, hitems.refresh⟩
      · rw [(Discovery.step_of_ne dns z builder.sources hen fun a ha => he ⟨a, ha⟩).1]
        exact ⟨items, hitems⟩
  | signedList item =>
    obtain ⟨builder, index, discovers, hbuilt, hitem, hverifies⟩ := hen
    cases item with
    | none => exact h.quiet rfl rfl .serving
    | some item =>
      have hprocess := h.process
      rw [hbuilt] at hprocess
      cases hprocess with
      | built hnewest =>
        cases discovers with
        | false => cases hitem
        | true =>
          obtain ⟨items, hitems⟩ := hnewest rfl
          rw [if_pos rfl, Option.map_some] at hitem
          rw [← hitem] at hitems
          have hheld : Held dns z verify
              (t ++ [(.signedList (some item), (step dns z verify s (.signedList (some item))).2)])
              item := by
            refine ⟨hitems.2.1, hverifies item rfl, ?_⟩
            rw [List.map_append]
            exact List.mem_append_right _ (List.mem_singleton_self _)
          obtain ⟨bytes, hbytes, -⟩ := hheld.decode
          simp only [step, hbytes] at hheld ⊢
          exact h.quiet rfl rfl (.opening hheld hbytes)
  | create =>
    obtain ⟨item, bytes, hopening⟩ := hen
    have hprocess := h.process
    rw [hopening] at hprocess
    simp only [step, hopening]
    cases hprocess with
    | opening hheld hbytes =>
      rw [← List.nil_append bytes] at hbytes
      exact h.quiet rfl rfl (.writing (hheld.concat _) hbytes rfl)
  | write n =>
    obtain ⟨item, rest, hwriting⟩ := hen
    have hprocess := h.process
    rw [hwriting] at hprocess
    cases hprocess with
    | writing hheld hbytes hfile =>
      simp only [step, hwriting, hfile]
      refine h.quiet rfl rfl (.writing (hheld.concat _) ?_ rfl)
      rw [List.append_assoc, List.take_append_drop]
      exact hbytes
  | rename =>
    obtain ⟨item, hwriting⟩ := hen
    have hprocess := h.process
    rw [hwriting] at hprocess
    cases hprocess with
    | writing hheld hbytes hfile =>
      simp only [step, hwriting]
      rw [List.append_nil] at hbytes
      refine ⟨?_, fun item' hitem' => ?_, .serving⟩
      · rw [stored_concat_stored, Option.bind_some, hbytes, hfile]
      · rw [stored_concat_stored] at hitem'
        obtain rfl := Option.some.inj hitem'
        exact hheld.concat _

theorem kept_run (h : (machine dns z verify).Run t s) : Kept dns z verify t s := by
  refine h.invariant (I := Kept dns z verify) ?_ fun t s e _ hen ih => kept_step ih hen
  rintro s rfl
  have hnone : stored [] = none := rfl
  refine ⟨by rw [hnone, Option.bind_none], fun item hitem => ?_, .down⟩
  rw [hnone] at hitem
  cases hitem

/-! ## Starting without Mainline -/

/-- Items that do not count leave no list. -/
theorem foldl_accept_eq {items : List MutableItem}
    (hnone : ∀ item ∈ items, ¬ Discovery.Acceptable dns z item) :
    items.foldl (Discovery.accept dns z) ⟨none⟩ = ⟨none⟩ := by
  have hnewest : Discovery.IsNewest dns z [] (⟨none⟩ : DiscoveryState).signed := nofun
  have hfold := hnewest.foldl items
  rw [List.nil_append] at hfold
  rcases hstate : items.foldl (Discovery.accept dns z) ⟨none⟩ with ⟨- | newest⟩
  · rfl
  · rw [hstate] at hfold
    exact absurd hfold.2.1 (hnone newest hfold.1)

/-- With no list in Mainline, an index uses the servers of the stored one. -/
theorem build_fallback {builder : AddrIndexBuilder} {item : MutableItem} {list : ServerList}
    {answers : Answers} (hservers : builder.servers = ∅)
    (hkey : builder.sources.listKey = some item.key)
    (hfallback : builder.sources.fallbackList = some item)
    (hitem : Discovery.Acceptable dns z item) (hlist : Discovery.listOf dns z item = some list)
    (hne : list.addresses ≠ []) (hup : answers.bootstrapped.isSome = true)
    (hlive : answers.live = true)
    (hnone : ∀ other ∈ (Discovery.lookUpList builder.sources answers.mutable).1,
      ¬ Discovery.Acceptable dns z other) :
    ∃ index, builder.build dns z true answers = .ok (index, true) ∧
      index.state.signed = some item ∧ index.servers = list.addresses.toFinset ∧
        index.clientServers = list.addresses.toFinset := by
  have hafter : Discovery.afterLookup dns z builder.sources builder.unbuilt.state answers.mutable =
      ⟨some item⟩ := by
    rw [Discovery.afterLookup, AddrIndexBuilder.unbuilt, foldl_accept_eq hnone,
      Discovery.useFallback, hfallback]
    simp only
    rw [if_pos ⟨trivial, hkey⟩, Discovery.accept_of hitem, if_pos (by simp)]
  have hfinset : list.addresses.toFinset ≠ ∅ := fun h => hne (List.toFinset_eq_empty_iff _ |>.mp h)
  have hchoose (result : Except DiscoveryError Unit) :
      Discovery.choose builder.sources (some list) result answers.peers =
        .ok list.addresses.toFinset := by
    have hfind : Discovery.findPeers builder.sources (some list) result answers.peers =
        (list.addresses.toFinset, .ok ()) := by
      rw [Discovery.findPeers]
      exact if_pos hfinset
    rw [Discovery.choose, hfind]
    exact if_neg fun h => hfinset h.1
  obtain ⟨up, hup⟩ := Option.isSome_iff_exists.mp hup
  have hrefresh : builder.unbuilt.refresh dns z builder.sources answers =
      ({ builder.unbuilt with
          state := ⟨some item⟩
          inbox := [.replaceServers list.addresses.toFinset]
          servers := list.addresses.toFinset }, .ok ()) := by
    have hsigned : Discovery.signedList dns z ⟨some item⟩ = some list := hlist
    simp only [Discovery.refresh, hup, hafter, hsigned, hchoose, hlive]
    rfl
  refine ⟨(builder.unbuilt.refresh dns z builder.sources answers).1, ?_, ?_⟩
  · rw [AddrIndexBuilder.build, if_neg (not_not.mpr hservers), if_neg (by simp [hkey]),
      if_neg (by simp)]
    simp only [hrefresh, AddrIndexBuilder.first, if_neg hfinset]
  · rw [hrefresh]
    exact ⟨rfl, rfl, rfl⟩

end Runs

namespace Sample

/-- The public key of the signing key of bytes 42. -/
def key : PkarrKey :=
  #v[25, 127, 107, 35, 225, 108, 133, 50, 198, 171, 200, 56, 250, 205, 94, 167, 137, 190, 12, 118,
    178, 146, 3, 52, 3, 155, 250, 139, 61, 54, 141, 97]

/-- A list of one server. -/
def text : Str := "203.0.113.1:60125".toList

/-- Its packet. -/
def packet : Dns.Packet Str := ⟨[⟨pkarrName Z32.standard key, .IN, 300, .TXT (some text)⟩]⟩

/-- The bytes of the packet. -/
def wire : List UInt8 :=
  [0, 0, 0x80, 0, 0, 0, 0, 1, 0, 0, 0, 0, 52] ++ Str.bytes (pkarrName Z32.standard key) ++
    [0, 0, 16, 0, 1, 0, 0, 1, 44, 0, 18, 17] ++ Str.bytes text

/-- What the crate does with this packet. -/
def dns : Dns Str where
  newName s := some (withoutRoot s)
  toStr := id
  parse bytes := if bytes = wire then some packet else none
  build p := if p = packet then some wire else none

/-- Its signature at sequence 1. -/
def signature : Vector UInt8 64 :=
  #v[225, 109, 141, 159, 186, 23, 120, 15, 50, 236, 223, 113, 198, 152, 77, 208, 87, 192, 85, 61,
    151, 109, 55, 245, 193, 252, 156, 224, 106, 182, 133, 183, 111, 49, 47, 106, 165, 151, 20, 1,
    217, 255, 222, 244, 192, 72, 142, 174, 181, 52, 59, 92, 132, 62, 86, 217, 206, 120, 197, 214,
    113, 108, 21, 1]

/-- What the crate does with this signature. -/
def verify : Verify := fun k m s => decide (k = key ∧ m = signable 1 wire ∧ s = signature)

/-- The signed list. -/
def item : SignedItem := ⟨⟨key, 1, wire, none⟩, signature, by decide, by decide⟩

/-- A gateway that looks for the list of the key. -/
def args : Args := ⟨none, some key, none⟩

/-- Its builder, when nothing is stored. -/
def builder : AddrIndexBuilder := start verify ⟨none, none⟩ args

/-- Mainline has the list. -/
def found : Answers := ⟨some true, .items [item.toMutableItem] true, .failed, true⟩

/-- Mainline does not have it any more. -/
def expired : Answers := ⟨some true, .items [] true, .failed, true⟩

theorem build_found : ∃ index, builder.build dns Z32.standard true found = .ok (index, true) ∧
    index.state.signed = some item.toMutableItem := by
  have hbuilt : (builder.build dns Z32.standard true found).map
      (fun r => (r.1.state.signed, r.2)) = .ok (some item.toMutableItem, true) := by
    decide +kernel
  rcases hbuild : builder.build dns Z32.standard true found with error | ⟨index, discovers⟩
  · rw [hbuild] at hbuilt
    cases hbuilt
  · rw [hbuild] at hbuilt
    obtain ⟨hsigned, rfl⟩ := Prod.mk.inj (Except.ok.inj hbuilt)
    exact ⟨index, rfl, hsigned⟩

theorem verifies_item : item.Verifies verify := by
  rw [SignedItem.Verifies]
  decide +kernel

variable {t : List (Event × Output)} {bytes : List UInt8}

/-- One more step of a sampled run. -/
theorem run_step {s s' : State} {e : Event} {out : Output}
    (h : (machine dns Z32.standard verify).Run t s) (hen : s.Enabled verify e)
    (hstep : step dns Z32.standard verify s e = (s', out)) :
    (machine dns Z32.standard verify).Run (t ++ [(e, out)]) s' := by
  have hnext := h.step (a := e) hen
  rwa [show (machine dns Z32.standard verify).step s e = (s', out) from hstep] at hnext

/-- A gateway that finds the list begins to store it. -/
theorem run_create (hbytes : encodeSignedPacket item = some bytes) {files : Files}
    (h : (machine dns Z32.standard verify).Run t ⟨files, .building builder⟩) :
    ∃ t', (machine dns Z32.standard verify).Run t'
      ⟨{ files with temporary := some [] }, .writing item bytes⟩ := by
  obtain ⟨index, hbuild, hsigned⟩ := build_found
  have hbuilt := run_step (e := .build true found) h ⟨builder, rfl⟩ (by
    simp only [step, hbuild]
    rfl)
  have hstep : step dns Z32.standard verify ⟨files, .built builder index true⟩
      (.signedList (some item)) = (⟨files, .opening item bytes⟩, .quiet) := by
    simp only [step, hbytes]
  have hlist := run_step (e := .signedList (some item)) hbuilt
    ⟨builder, index, true, rfl, hsigned.symm, by rintro i ⟨⟩; exact verifies_item⟩ hstep
  exact ⟨_, run_step (e := .create) hlist ⟨item, bytes, rfl⟩ rfl⟩

end Sample

end StoredList

end ContentDiscovery
