import ContentDiscovery.ServerList
import ContentDiscovery.Transactions

/-!
# The discovery of index servers

`Discovery::refresh` of `iroh-mainline-endpoint-discovery/src/addr_index.rs`: it tries the
signed list, then the stored copy, then rendezvous, and hands what it finds to the client
and to those who watch the servers. What Mainline answers is up to the environment, and
the client goes on with its own events in between; what it is sent waits in its channel.
-/

namespace ContentDiscovery

/-- `Sources`: where servers are looked for. -/
structure Sources where
  /-- who signs the list -/
  listKey : Option PkarrKey
  /-- a stored list -/
  fallbackList : Option MutableItem
  /-- where servers announce themselves -/
  rendezvousHash : Option (Vector UInt8 20)

/-- Why a refresh fails. -/
inductive DiscoveryError where
  | udp (error : UdpError)
  /-- an error of the Mainline node -/
  | dht
  /-- the client has stopped -/
  | closed
  deriving DecidableEq

/-- What Mainline makes of `get_mutable`. -/
inductive MutableAnswer where
  | failed
  /-- the items of the stream, and whether it ended in time -/
  | items (items : List MutableItem) (ended : Bool)

/-- What Mainline makes of `get_peers`. -/
inductive PeersAnswer where
  | failed
  /-- the batches of the stream, and whether it ended in time -/
  | batches (batches : List (List SocketAddrV4)) (ended : Bool)

/-- The peers of an answer. -/
def PeersAnswer.peers : PeersAnswer → List SocketAddrV4
  | .failed => []
  | .batches found _ => found.flatten

/-- What a refresh finds around it. -/
structure Answers where
  /-- whether Mainline is bootstrapped, unless its node fails -/
  bootstrapped : Option Bool
  /-- the answer to `get_mutable` -/
  mutable : MutableAnswer
  /-- the answer to `get_peers` -/
  peers : PeersAnswer
  /-- whether the client still runs -/
  live : Bool

/-- `DiscoveryState`. -/
structure DiscoveryState where
  /-- the newest signed list -/
  signed : Option MutableItem

namespace Discovery

/-- `(new.seq(), new.value()) > (old.seq(), old.value())`. -/
def Newer (new old : MutableItem) : Prop :=
  old.seq < new.seq ∨ old.seq = new.seq ∧ old.value < new.value

instance {new old : MutableItem} : Decidable (Newer new old) :=
  inferInstanceAs (Decidable (_ ∨ _))

variable {Name : Type} [BEq Name] (dns : Dns Name) (z : Z32)

/-- The list of an item. -/
def listOf (item : MutableItem) : Option ServerList :=
  ServerList.decode dns z item.value item.key

/-- `DiscoveryState::accept`. -/
def accept (state : DiscoveryState) (item : MutableItem) : DiscoveryState :=
  if item.salt.isSome ∨ item.seq < 0 ∨ (listOf dns z item).isNone then state
  else if ∀ old ∈ state.signed, Newer item old then ⟨some item⟩
  else state

/-- The loop over a batch of peers, and whether it has found enough. -/
def addPeers (peers : HashSet SocketAddrV4) : List SocketAddrV4 → HashSet SocketAddrV4 × Bool
  | [] => (peers, false)
  | peer :: batch =>
    if validAddress peer then
      if (insert peer peers).card = 2 then (insert peer peers, true)
      else addPeers (insert peer peers) batch
    else addPeers peers batch

/-- The loop over the batches. -/
def addBatches (peers : HashSet SocketAddrV4) :
    List (List SocketAddrV4) → HashSet SocketAddrV4 × Bool
  | [] => (peers, false)
  | batch :: batches =>
    let r := addPeers peers batch
    if r.2 then r else addBatches r.1 batches

/-- The rendezvous: the peers, and what became of the lookup. -/
def rendezvous (peers : HashSet SocketAddrV4) :
    PeersAnswer → HashSet SocketAddrV4 × Except DiscoveryError Unit
  | .failed => (peers, .error .dht)
  | .batches batches ended =>
    let r := addBatches peers batches
    if r.2 ∨ ended then (r.1, .ok ())
    else if r.1 = ∅ then (r.1, .error (.udp .timeout))
    else (r.1, .ok ())

variable (sources : Sources)

/-- The items that `get_mutable` finds, and what became of the lookup. -/
def lookUpList (answer : MutableAnswer) : List MutableItem × Except DiscoveryError Unit :=
  match sources.listKey with
  | none => ([], .ok ())
  | some _ =>
    match answer with
    | .failed => ([], .error .dht)
    | .items items ended => (items, if ended then .ok () else .error (.udp .timeout))

/-- The stored copy is used if there is no other list. -/
def useFallback (state : DiscoveryState) : DiscoveryState :=
  match sources.fallbackList with
  | none => state
  | some item =>
    if state.signed = none ∧ sources.listKey = some item.key then accept dns z state item else state

/-- The state after the signed list was looked up. -/
def afterLookup (state : DiscoveryState) (answer : MutableAnswer) : DiscoveryState :=
  useFallback dns z sources ((lookUpList sources answer).1.foldl (accept dns z) state)

/-- The list in use. -/
def signedList (state : DiscoveryState) : Option ServerList := state.signed.bind (listOf dns z)

/-- A signed empty list is an answer: the authority withdrew its servers. -/
def withdrawn (list : Option ServerList) : Bool := list.any fun list => list.addresses = []

/-- The servers of the list, or those found by rendezvous, and what became of the lookup. -/
def findPeers (list : Option ServerList) (signedResult : Except DiscoveryError Unit)
    (answer : PeersAnswer) : HashSet SocketAddrV4 × Except DiscoveryError Unit :=
  let peers : HashSet SocketAddrV4 := (list.map fun list => list.addresses.toFinset).getD ∅
  if peers ≠ ∅ then (peers, .ok ())
  else if sources.rendezvousHash.isSome then
    let r := rendezvous peers answer
    -- after a withdrawal, the withdrawn servers are not kept either
    (r.1, if withdrawn list then .ok () else r.2)
  else (peers, if withdrawn list then .ok () else signedResult)

/-- The servers of a refresh. -/
def choose (list : Option ServerList) (signedResult : Except DiscoveryError Unit)
    (answer : PeersAnswer) : Except DiscoveryError (HashSet SocketAddrV4) :=
  let r := findPeers sources list signedResult answer
  match r.2 with
  | .error error => .error error
  | .ok () => if r.1 = ∅ ∧ ¬ withdrawn list then .error (.udp .noServers) else .ok r.1

end Discovery

/-- The client of an index that discovers its servers. -/
structure Discovery where
  /-- `state` -/
  state : DiscoveryState
  /-- `servers`: what those see who watch the servers in use -/
  servers : BTreeSet SocketAddrV4
  /-- what the client has been sent and not yet handled -/
  inbox : List ActorMsg
  /-- the client -/
  client : Actor

namespace Discovery

section Runs

variable {Name : Type} [BEq Name] (dns : Dns Name) (z : Z32) (sources : Sources)

/-- `Discovery::refresh`. -/
def refresh (d : Discovery) (answers : Answers) : Discovery × Except DiscoveryError Unit :=
  match answers.bootstrapped with
  | none => (d, .error .dht)
  | some _ =>
    let signedResult := (lookUpList sources answers.mutable).2
    let state := afterLookup dns z sources d.state answers.mutable
    let d := { d with state := state }
    match choose sources (signedList dns z state) signedResult answers.peers with
    | .error error => (d, .error error)
    | .ok peers =>
      if answers.live then
        ({ d with inbox := d.inbox ++ [.replaceServers peers], servers := peers }, .ok ())
      else (d, .error .closed)

/-- What may happen next. -/
inductive Event where
  /-- the servers are looked for -/
  | refresh (answers : Answers)
  /-- a caller publishes or resolves -/
  | call (message : ActorMsg)
  /-- the client takes a command, with the id `next_id` draws for it -/
  | handle (tx : TransactionId) (now : Instant)
  /-- the client receives a datagram -/
  | packet (data : List UInt8) (src : SocketAddrV4) (unixSecs : UInt64)
  /-- the timer of the client -/
  | flush (now : Instant)

/-- What an event comes to: the result of a refresh, and what the client does. -/
structure Outcome where
  /-- the result of a refresh -/
  refreshed : Option (Except DiscoveryError Unit)
  /-- what the client does -/
  actions : List Action

/-- An event of the client. -/
def stepClient (d : Discovery) (e : Actor.Event) : Discovery × Outcome :=
  ({ d with client := (d.client.step e).1 }, ⟨none, (d.client.step e).2⟩)

/-- What an event does. -/
def step (d : Discovery) : Event → Discovery × Outcome
  | .refresh answers =>
    let r := d.refresh dns z sources answers
    (r.1, ⟨some r.2, []⟩)
  | .call message => ({ d with inbox := d.inbox ++ [message] }, ⟨none, []⟩)
  | .handle tx now =>
    match d.inbox with
    | [] => (d, ⟨none, []⟩)
    | message :: inbox => stepClient { d with inbox := inbox } (.message message tx now)
  | .packet data src unixSecs => d.stepClient (.packet data src unixSecs)
  | .flush now => d.stepClient (.flush now)

/-- Those who use an index publish and resolve; they do not change its servers. -/
def Enabled : Event → Prop
  | .call message =>
    (∃ value, message = .publish value) ∨ ∃ addr accept, message = .resolve addr accept
  | _ => True

/-- The servers of a client after it has handled what it was sent. -/
def handled (servers : HashSet SocketAddrV4) : List ActorMsg → HashSet SocketAddrV4
  | [] => servers
  | .replaceServers servers :: inbox => handled servers inbox
  | .addServer addr :: inbox => handled (insert addr servers) inbox
  | .removeServer addr :: inbox => handled (servers.erase addr) inbox
  | .publish _ :: inbox => handled servers inbox
  | .resolve _ _ :: inbox => handled servers inbox

/-- The server set of the client: what it uses, once it has handled what it was sent. -/
def clientServers (d : Discovery) : HashSet SocketAddrV4 := handled d.client.servers d.inbox

/-- An index, from any servers, before its first refresh. -/
def machine : Machine Discovery Event Outcome where
  init d := d.state.signed = none
  enabled _ _ e := Enabled e
  step := step dns z sources

/-! ## The newest list -/

/-- An item that counts: unsalted, with a sequence number, and a list. -/
def Acceptable (item : MutableItem) : Prop :=
  item.salt = none ∧ 0 ≤ item.seq ∧ (listOf dns z item).isSome

instance {item : MutableItem} : Decidable (Acceptable dns z item) :=
  inferInstanceAs (Decidable (_ ∧ _ ∧ _))

/-- The items that an event offers: those that Mainline finds, and the stored one if there
has been no other that counts. -/
def offeredBy (before : List MutableItem) : Event → List MutableItem
  | .refresh answers =>
    match answers.bootstrapped with
    | none => []
    | some _ =>
      let items := (lookUpList sources answers.mutable).1
      items ++ sources.fallbackList.toList.filter fun item =>
        (∀ other ∈ before ++ items, ¬ Acceptable dns z other) ∧ sources.listKey = some item.key
  | _ => []

/-- What has happened so far. -/
abbrev History : Type := List (Event × Outcome)

/-- The items offered so far. -/
def offered (t : History) : List MutableItem :=
  t.foldl (fun before x => before ++ offeredBy dns z sources before x.1) []

/-- The newest of the items that count, if there are any. -/
def IsNewest (items : List MutableItem) : Option MutableItem → Prop
  | none => ∀ item ∈ items, ¬ Acceptable dns z item
  | some newest => newest ∈ items ∧ Acceptable dns z newest ∧
      ∀ item ∈ items, Acceptable dns z item → ¬ Newer item newest

/-- The lists that count name the server no more: an empty one has replaced each that did. -/
def Superseded (items : List MutableItem) (a : SocketAddrV4) : Prop :=
  ∀ item ∈ items, Acceptable dns z item → ∀ list, listOf dns z item = some list →
    a ∈ list.addresses → ∃ empty ∈ items, Acceptable dns z empty ∧ Newer empty item ∧
      ∃ list, listOf dns z empty = some list ∧ list.addresses = []

variable {dns z sources} {items : List MutableItem} {state : DiscoveryState} {t : History}
  {d : Discovery}

theorem offered_concat (x : Event × Outcome) :
    offered dns z sources (t ++ [x])
      = offered dns z sources t ++ offeredBy dns z sources (offered dns z sources t) x.1 := by
  rw [offered, List.foldl_append]
  rfl

theorem Newer.trans {a b c : MutableItem} (hab : Newer a b) (hbc : Newer b c) : Newer a c := by
  obtain hab | ⟨hab, hab'⟩ := hab
  · obtain hbc | ⟨hbc, -⟩ := hbc
    · exact .inl (hbc.trans hab)
    · exact .inl (hbc ▸ hab)
  · obtain hbc | ⟨hbc, hbc'⟩ := hbc
    · exact .inl (hab ▸ hbc)
    · exact .inr ⟨hbc.trans hab, hbc'.trans hab'⟩

theorem Newer.irrefl (a : MutableItem) : ¬ Newer a a := by
  rintro (h | ⟨-, h⟩)
  · exact lt_irrefl _ h
  · exact lt_irrefl _ h

theorem accept_of_not {item : MutableItem} (h : ¬ Acceptable dns z item) :
    Discovery.accept dns z state item = state := by
  rw [Discovery.accept, if_pos]
  rw [Acceptable, not_and_or, not_and_or, not_le, Bool.not_eq_true, Option.isSome_eq_false_iff] at h
  exact h.imp_left Option.isSome_iff_ne_none.mpr

theorem accept_of {item : MutableItem} (h : Acceptable dns z item) :
    Discovery.accept dns z state item
      = if ∀ old ∈ state.signed, Newer item old then ⟨some item⟩ else state := by
  rw [Discovery.accept, if_neg]
  rintro (hsalt | hseq | hlist)
  · rw [h.1] at hsalt
    cases hsalt
  · exact absurd h.2.1 (not_le_of_gt hseq)
  · rw [Option.isNone_iff_eq_none] at hlist
    rw [Acceptable, hlist] at h
    cases h.2.2

/-- One more item. -/
theorem IsNewest.accept (h : IsNewest dns z items state.signed) (item : MutableItem) :
    IsNewest dns z (items ++ [item]) (accept dns z state item).signed := by
  by_cases haccept : Acceptable dns z item
  · rw [accept_of haccept]
    cases hsigned : state.signed with
    | none =>
      rw [hsigned] at h
      rw [if_pos (by simp)]
      refine ⟨by simp, haccept, List.forall_mem_append.mpr ⟨fun other hother hcounts => ?_,
        List.forall_mem_singleton.mpr fun _ => Newer.irrefl item⟩⟩
      exact absurd hcounts (h other hother)
    | some old =>
      rw [hsigned] at h
      obtain ⟨hmem, hcounts, hnewest⟩ := h
      by_cases hnewer : Newer item old
      · rw [if_pos (by simpa using hnewer)]
        refine ⟨by simp, haccept, List.forall_mem_append.mpr
          ⟨fun other hother hcounts' hnewer' => ?_,
            List.forall_mem_singleton.mpr fun _ => Newer.irrefl item⟩⟩
        exact hnewest other hother hcounts' (hnewer'.trans hnewer)
      · rw [if_neg (by simpa using hnewer), hsigned]
        exact ⟨List.mem_append_left _ hmem, hcounts, List.forall_mem_append.mpr
          ⟨hnewest, List.forall_mem_singleton.mpr fun _ => hnewer⟩⟩
  · rw [accept_of_not haccept]
    cases hsigned : state.signed with
    | none =>
      rw [hsigned] at h
      exact List.forall_mem_append.mpr ⟨h, List.forall_mem_singleton.mpr haccept⟩
    | some old =>
      rw [hsigned] at h
      obtain ⟨hmem, hcounts, hnewest⟩ := h
      refine ⟨List.mem_append_left _ hmem, hcounts, List.forall_mem_append.mpr
        ⟨hnewest, List.forall_mem_singleton.mpr fun hcounts' => ?_⟩⟩
      exact absurd hcounts' haccept

/-- Any number of items. -/
theorem IsNewest.foldl (h : IsNewest dns z items state.signed) (found : List MutableItem) :
    IsNewest dns z (items ++ found) (found.foldl (Discovery.accept dns z) state).signed := by
  induction found generalizing items state with
  | nil =>
    rw [List.append_nil]
    exact h
  | cons item found ih =>
    have hrest := ih (h.accept item)
    rw [List.append_assoc] at hrest
    exact hrest

/-- The stored copy counts like any other item. -/
theorem IsNewest.useFallback (h : IsNewest dns z items state.signed) :
    IsNewest dns z
      (items ++ sources.fallbackList.toList.filter fun item =>
        (∀ other ∈ items, ¬ Acceptable dns z other) ∧ sources.listKey = some item.key)
      (useFallback dns z sources state).signed := by
  have hnone : (∀ other ∈ items, ¬ Acceptable dns z other) ↔ state.signed = none := by
    cases hsigned : state.signed with
    | none =>
      rw [hsigned] at h
      exact iff_of_true h rfl
    | some newest =>
      rw [hsigned] at h
      exact iff_of_false (fun hall => hall newest h.1 h.2.1) (nomatch ·)
  rw [Discovery.useFallback]
  cases hstored : sources.fallbackList with
  | none => simpa using h
  | some item =>
    simp only [hnone, Option.toList_some]
    split
    · rename_i huse
      rw [List.filter_singleton, decide_eq_true huse]
      exact h.accept item
    · rename_i huse
      rw [List.filter_singleton, decide_eq_false huse, cond_false, List.append_nil]
      exact h

variable (sources) in
/-- What a lookup leaves is the newest of all items. -/
theorem IsNewest.afterLookup {answers : Answers} {bootstrapped : Bool}
    (h : IsNewest dns z items state.signed) (hup : answers.bootstrapped = some bootstrapped) :
    IsNewest dns z (items ++ offeredBy dns z sources items (.refresh answers))
      (afterLookup dns z sources state answers.mutable).signed := by
  simp only [offeredBy, hup]
  rw [← List.append_assoc]
  exact (h.foldl _).useFallback

/-! ## The servers of a refresh -/

/-- A batch adds valid peers, up to two. -/
theorem addPeers_spec {peers : HashSet SocketAddrV4} (batch : List SocketAddrV4)
    (h : peers.card ≤ 1) :
    (addPeers peers batch).1.card ≤ 2 ∧
      ((addPeers peers batch).2 = false → (addPeers peers batch).1.card ≤ 1) ∧
      ∀ a ∈ (addPeers peers batch).1, a ∈ peers ∨ a ∈ batch ∧ validAddress a := by
  induction batch generalizing peers with
  | nil => exact ⟨h.trans one_le_two, fun _ => h, fun a ha => .inl ha⟩
  | cons peer batch ih =>
    rw [addPeers]
    split
    · rename_i hvalid
      have hcard := Finset.card_insert_le peer peers
      have hmem : ∀ a ∈ insert peer peers, a ∈ peers ∨ a ∈ peer :: batch ∧ validAddress a := by
        intro a ha
        obtain rfl | ha := Finset.mem_insert.mp ha
        · exact .inr ⟨List.mem_cons_self, hvalid⟩
        · exact .inl ha
      split
      · rename_i htwo
        exact ⟨htwo.le, fun hmore => (nomatch hmore), hmem⟩
      · rename_i htwo
        obtain ⟨hle, hmore, hfound⟩ := @ih (insert peer peers) (by omega)
        refine ⟨hle, hmore, fun a ha => ?_⟩
        obtain ha | ⟨ha, hok⟩ := hfound a ha
        · exact hmem a ha
        · exact .inr ⟨List.mem_cons_of_mem _ ha, hok⟩
    · obtain ⟨hle, hmore, hfound⟩ := ih h
      refine ⟨hle, hmore, fun a ha => (hfound a ha).imp_right fun hok => ?_⟩
      exact ⟨List.mem_cons_of_mem _ hok.1, hok.2⟩

theorem addBatches_spec {peers : HashSet SocketAddrV4} (batches : List (List SocketAddrV4))
    (h : peers.card ≤ 1) :
    (addBatches peers batches).1.card ≤ 2 ∧
      ∀ a ∈ (addBatches peers batches).1, a ∈ peers ∨ a ∈ batches.flatten ∧ validAddress a := by
  induction batches generalizing peers with
  | nil => exact ⟨h.trans one_le_two, fun a ha => .inl ha⟩
  | cons batch batches ih =>
    obtain ⟨hle, hmore, hfound⟩ := addPeers_spec batch h
    have hfirst : ∀ a ∈ (addPeers peers batch).1,
        a ∈ peers ∨ a ∈ (batch :: batches).flatten ∧ validAddress a := by
      intro a ha
      rw [List.flatten_cons]
      exact (hfound a ha).imp_right fun hok => ⟨List.mem_append_left _ hok.1, hok.2⟩
    simp only [addBatches]
    split
    · exact ⟨hle, hfirst⟩
    · rename_i hend
      obtain ⟨hle', hfound'⟩ := ih (hmore (Bool.not_eq_true _ ▸ hend))
      refine ⟨hle', fun a ha => ?_⟩
      obtain ha | ⟨ha, hok⟩ := hfound' a ha
      · exact hfirst a ha
      · rw [List.flatten_cons]
        exact .inr ⟨List.mem_append_right _ ha, hok⟩

/-- A rendezvous finds at most two valid peers among those of the answer. -/
theorem rendezvous_spec (answer : PeersAnswer) :
    (rendezvous ∅ answer).1.card ≤ 2 ∧
      ∀ a ∈ (rendezvous ∅ answer).1, a ∈ answer.peers ∧ validAddress a := by
  cases answer with
  | failed => simp [rendezvous]
  | batches batches ended =>
    have hsame : (rendezvous ∅ (.batches batches ended)).1 = (addBatches ∅ batches).1 := by
      simp only [rendezvous]
      split
      · rfl
      · split <;> rfl
    rw [hsame]
    obtain ⟨hle, hfound⟩ := @addBatches_spec ∅ batches (by simp)
    refine ⟨hle, fun a ha => ?_⟩
    obtain ha | hok := hfound a ha
    · exact absurd ha (Finset.notMem_empty a)
    · exact hok

variable (dns z) in
/-- The servers that a refresh puts in use, given the newest list. -/
structure Chosen (signed : Option MutableItem) (answer : PeersAnswer)
    (servers : HashSet SocketAddrV4) : Prop where
  card_le : servers.card ≤ 2
  valid : ∀ a ∈ servers, a.port ≠ 0 ∧ a.ip.isUnspecified = false ∧ a.ip.isMulticast = false ∧
    a.ip.isBroadcast = false
  /-- a list that names servers decides -/
  listed : ∀ list, signed.bind (listOf dns z) = some list → list.addresses ≠ [] →
    servers = list.addresses.toFinset
  /-- if there is none, the servers announced themselves -/
  announced : (∀ list, signed.bind (listOf dns z) = some list → list.addresses = []) →
    ∀ a ∈ servers, a ∈ answer.peers
  /-- there are no servers only if the authority withdrew them -/
  withdrawn : servers = ∅ → ∃ list, signed.bind (listOf dns z) = some list ∧ list.addresses = []
  /-- a server that the newest list does not name announced itself -/
  kept : ∀ a ∈ servers, (∀ list, signed.bind (listOf dns z) = some list → a ∉ list.addresses) →
    a ∈ answer.peers

theorem validAddress_iff {a : SocketAddrV4} :
    validAddress a ↔ a.port ≠ 0 ∧ a.ip.isUnspecified = false ∧ a.ip.isMulticast = false ∧
      a.ip.isBroadcast = false := by
  simp [validAddress, and_assoc]

theorem withdrawn_iff {list : Option ServerList} :
    withdrawn list ↔ ∃ l, list = some l ∧ l.addresses = [] := by
  cases list <;> simp [Discovery.withdrawn]

variable (sources) in
/-- The peers are those of the list, or found by rendezvous. -/
theorem findPeers_spec (list : Option ServerList) (signedResult : Except DiscoveryError Unit)
    (answer : PeersAnswer) :
    (∃ l, list = some l ∧ l.addresses ≠ [] ∧
        findPeers sources list signedResult answer = (l.addresses.toFinset, .ok ())) ∨
      (∀ l, list = some l → l.addresses = []) ∧
        ((findPeers sources list signedResult answer).1 = ∅ ∨
          (findPeers sources list signedResult answer).1 = (rendezvous ∅ answer).1) := by
  by_cases hlist : ∀ l, list = some l → l.addresses = []
  · right
    have hpeers : (list.map fun list => list.addresses.toFinset).getD ∅ = ∅ := by
      cases list with
      | none => rfl
      | some l => simp [hlist l rfl]
    refine ⟨hlist, ?_⟩
    simp only [findPeers, hpeers, ne_eq, not_true_eq_false, if_false]
    split
    · exact .inr rfl
    · exact .inl rfl
  · left
    push Not at hlist
    obtain ⟨l, rfl, hne⟩ := hlist
    refine ⟨l, rfl, hne, ?_⟩
    simp [findPeers, hne]

theorem choose_ok {list : Option ServerList} {signedResult : Except DiscoveryError Unit}
    {answer : PeersAnswer} {servers : HashSet SocketAddrV4}
    (h : choose sources list signedResult answer = .ok servers) :
    servers = (findPeers sources list signedResult answer).1 ∧
      (servers = ∅ → withdrawn list) := by
  simp only [choose] at h
  split at h
  · cases h
  · split at h
    · cases h
    · rename_i hwithdrawn
      obtain rfl := Except.ok.inj h
      refine ⟨rfl, fun hempty => ?_⟩
      by_contra hnot
      exact hwithdrawn ⟨hempty, hnot⟩

/-- With a list at hand, empty or not, there is something to choose, whatever becomes of the
rendezvous. -/
theorem choose_of_list (sources : Sources) (list : ServerList)
    (signedResult : Except DiscoveryError Unit) (answer : PeersAnswer) :
    ∃ servers, choose sources (some list) signedResult answer = .ok servers := by
  by_cases hempty : list.addresses = []
  · have hwithdrawn : withdrawn (some list) = true := withdrawn_iff.mpr ⟨list, rfl, hempty⟩
    refine ⟨(findPeers sources (some list) signedResult answer).1, ?_⟩
    have hok : (findPeers sources (some list) signedResult answer).2 = .ok () := by
      simp only [findPeers, hwithdrawn, if_true]
      split
      · rfl
      · split <;> rfl
    simp [choose, hok, hwithdrawn]
  · refine ⟨list.addresses.toFinset, ?_⟩
    simp [choose, findPeers, hempty]

/-- What a refresh chooses. -/
theorem choose_chosen {signedResult : Except DiscoveryError Unit} {answer : PeersAnswer}
    {servers : HashSet SocketAddrV4}
    (h : choose sources (signedList dns z state) signedResult answer = .ok servers) :
    Chosen dns z state.signed answer servers := by
  obtain ⟨hservers, hempty⟩ := choose_ok h
  obtain ⟨list, hlist, hne, hfound⟩ | ⟨hlist, hfound⟩ :=
    findPeers_spec sources (signedList dns z state) signedResult answer
  · obtain rfl : servers = list.addresses.toFinset := hservers.trans (congrArg Prod.fst hfound)
    exact
      { card_le := (List.toFinset_card_le _).trans list.length_le
        valid := fun a ha => validAddress_iff.mp (list.valid a (List.mem_toFinset.mp ha))
        listed := fun l hl _ => by rw [Option.some.inj (hlist.symm.trans hl)]
        announced := fun hall => absurd (hall list hlist) hne
        withdrawn := fun h => withdrawn_iff.mp (hempty h)
        kept := fun a ha hnot => absurd (List.mem_toFinset.mp ha) (hnot list hlist) }
  · obtain ⟨hle, hpeers⟩ := rendezvous_spec answer
    have hall : servers.card ≤ 2 ∧ ∀ a ∈ servers, a ∈ answer.peers ∧ validAddress a := by
      obtain hfound | hfound := hfound
      · rw [hservers, hfound]
        simp
      · rw [hservers, hfound]
        exact ⟨hle, hpeers⟩
    exact
      { card_le := hall.1
        valid := fun a ha => validAddress_iff.mp (hall.2 a ha).2
        listed := fun l hl hne => absurd (hlist l hl) hne
        announced := fun _ a ha => (hall.2 a ha).1
        withdrawn := fun h => withdrawn_iff.mp (hempty h)
        kept := fun a ha _ => (hall.2 a ha).1 }

/-! ## Runs -/

theorem handled_append (servers : HashSet SocketAddrV4) (inbox inbox' : List ActorMsg) :
    handled servers (inbox ++ inbox') = handled (handled servers inbox) inbox' := by
  induction inbox generalizing servers with
  | nil => rfl
  | cons message inbox ih =>
    cases message with
    | replaceServers servers' => exact ih servers'
    | addServer addr => exact ih _
    | removeServer addr => exact ih _
    | publish value => exact ih servers
    | resolve addr accept => exact ih servers

variable (dns z sources) in
/-- A refresh changes the servers of the client and of those who watch them together, or
not at all. -/
theorem refresh_cases (d : Discovery) (answers : Answers) :
    (∃ error, (d.refresh dns z sources answers).2 = .error error ∧
        (d.refresh dns z sources answers).1.clientServers = d.clientServers ∧
        (d.refresh dns z sources answers).1.servers = d.servers) ∨
      (d.refresh dns z sources answers).2 = .ok () ∧
        (d.refresh dns z sources answers).1.clientServers
          = (d.refresh dns z sources answers).1.servers ∧
        Chosen dns z (d.refresh dns z sources answers).1.state.signed answers.peers
          (d.refresh dns z sources answers).1.servers := by
  rw [refresh]
  split
  · exact .inl ⟨_, rfl, rfl, rfl⟩
  · simp only
    split
    · exact .inl ⟨_, rfl, rfl, rfl⟩
    · rename_i servers hchoose
      split
      · refine .inr ⟨rfl, ?_, choose_chosen hchoose⟩
        exact handled_append _ _ [.replaceServers servers]
      · exact .inl ⟨_, rfl, rfl, rfl⟩

/-- A refresh that has a list succeeds, whatever becomes of the rendezvous. -/
theorem refresh_of_list {answers : Answers} {list : ServerList}
    (hup : answers.bootstrapped ≠ none) (hlive : answers.live = true)
    (hlist : (d.refresh dns z sources answers).1.state.signed.bind (listOf dns z) = some list) :
    (d.refresh dns z sources answers).2 = .ok () := by
  obtain ⟨bootstrapped, hup⟩ := Option.ne_none_iff_exists'.mp hup
  simp only [refresh, hup] at hlist ⊢
  have hstate : signedList dns z (afterLookup dns z sources d.state answers.mutable) =
      some list := by
    split at hlist
    · exact hlist
    · rw [if_pos hlive] at hlist
      exact hlist
  obtain ⟨servers, hchoose⟩ := choose_of_list sources list
    (lookUpList sources answers.mutable).2 answers.peers
  simp only [hstate, hchoose, hlive, if_true]

/-- Where one list counts, the newest is a list. -/
theorem IsNewest.exists_list {signed : Option MutableItem} (h : IsNewest dns z items signed)
    {item : MutableItem} (hmem : item ∈ items) (hcounts : Acceptable dns z item) :
    ∃ list, signed.bind (listOf dns z) = some list := by
  cases signed with
  | none => exact absurd hcounts (h item hmem)
  | some newest => exact Option.isSome_iff_exists.mp h.2.1.2.2

/-- The newest list names no server that was withdrawn. -/
theorem IsNewest.not_superseded {signed : Option MutableItem} (h : IsNewest dns z items signed)
    {a : SocketAddrV4} (ha : Superseded dns z items a) {list : ServerList}
    (hlist : signed.bind (listOf dns z) = some list) : a ∉ list.addresses := by
  intro hnamed
  cases signed with
  | none => cases hlist
  | some newest =>
    obtain ⟨hmem, hcounts, hnewest⟩ := h
    obtain ⟨empty, hempty, hcounts', hnewer, -⟩ := ha newest hmem hcounts list hlist hnamed
    exact hnewest empty hempty hcounts' hnewer

/-- The newest list stays the newest. -/
theorem IsNewest.refresh {answers : Answers} (h : IsNewest dns z items d.state.signed) :
    IsNewest dns z (items ++ offeredBy dns z sources items (.refresh answers))
      (d.refresh dns z sources answers).1.state.signed := by
  rw [Discovery.refresh]
  split
  · rename_i hup
    simp only [offeredBy, hup, List.append_nil]
    exact h
  · rename_i bootstrapped hup
    have hafter := h.afterLookup sources hup
    simp only
    split
    · exact hafter
    · split
      · exact hafter
      · exact hafter

variable (dns z sources) in
/-- Other events change neither the newest list nor the servers. -/
theorem step_of_ne {e : Event} (hen : Enabled e) (he : ∀ answers, e ≠ .refresh answers) :
    (d.step dns z sources e).1.state = d.state ∧
      (d.step dns z sources e).1.clientServers = d.clientServers ∧
      (d.step dns z sources e).1.servers = d.servers ∧
      (d.step dns z sources e).2.refreshed = none := by
  cases e with
  | refresh answers => exact absurd rfl (he answers)
  | call message =>
    refine ⟨rfl, ?_, rfl, rfl⟩
    refine (handled_append _ _ [message]).trans ?_
    obtain ⟨value, rfl⟩ | ⟨addr, accept, rfl⟩ := hen
    · rfl
    · rfl
  | handle tx now =>
    simp only [step]
    split
    · exact ⟨rfl, rfl, rfl, rfl⟩
    · rename_i message inbox hinbox
      refine ⟨rfl, ?_, rfl, rfl⟩
      simp only [clientServers, stepClient, hinbox, (d.client.step_config _).1]
      cases message <;> rfl
  | packet data src unixSecs =>
    refine ⟨rfl, ?_, rfl, rfl⟩
    simp only [clientServers, step, stepClient, (d.client.step_config _).1]
    rfl
  | flush now =>
    refine ⟨rfl, ?_, rfl, rfl⟩
    simp only [clientServers, step, stepClient, (d.client.step_config _).1]
    rfl

/-- The state holds the newest list offered. -/
theorem newest_run (h : (machine dns z sources).Run t d) :
    IsNewest dns z (offered dns z sources t) d.state.signed := by
  refine h.invariant (I := fun t d => IsNewest dns z (offered dns z sources t) d.state.signed)
    ?_ ?_
  · intro d hd
    rw [show d.state.signed = none from hd]
    exact fun item hitem => (nomatch hitem)
  · intro t d e _ hen hnewest
    rw [offered_concat]
    by_cases he : ∃ answers, e = .refresh answers
    · obtain ⟨answers, rfl⟩ := he
      exact hnewest.refresh
    · have hne : ∀ answers, e ≠ .refresh answers := fun answers heq => he ⟨answers, heq⟩
      have hnone : offeredBy dns z sources (offered dns z sources t) e = [] := by
        cases e with
        | refresh answers => exact absurd rfl (hne answers)
        | _ => rfl
      rw [hnone, List.append_nil]
      change IsNewest dns z _ (d.step dns z sources e).1.state.signed
      rw [(step_of_ne dns z sources hen hne).1]
      exact hnewest

/-- An event that is no successful refresh leaves the servers in use as they are. -/
theorem step_unrefreshed {e : Event} (hen : Enabled e)
    (he : (d.step dns z sources e).2.refreshed ≠ some (.ok ())) :
    (d.step dns z sources e).1.clientServers = d.clientServers ∧
      (d.step dns z sources e).1.servers = d.servers := by
  by_cases hrefresh : ∃ answers, e = .refresh answers
  · obtain ⟨answers, rfl⟩ := hrefresh
    obtain ⟨error, -, hclient, hservers⟩ | ⟨hok, -⟩ :=
      refresh_cases dns z sources d answers
    · exact ⟨hclient, hservers⟩
    · exact absurd (congrArg some hok) he
  · have hne : ∀ answers, e ≠ .refresh answers := fun answers heq => hrefresh ⟨answers, heq⟩
    obtain ⟨-, hclient, hservers, -⟩ := step_of_ne dns z sources hen hne
    exact ⟨hclient, hservers⟩

/-- After a refresh that succeeds, and until the next one does, the client uses the servers
that it chose, and those who watch them see the same. -/
theorem chosen_run {pre post : History} {answers : Answers} {out : Outcome}
    (h : (machine dns z sources).Run (pre ++ (.refresh answers, out) :: post) d)
    (hok : out.refreshed = some (.ok ())) (hpost : ∀ x ∈ post, x.2.refreshed ≠ some (.ok ())) :
    ∃ signed, IsNewest dns z (offered dns z sources (pre ++ [(.refresh answers, out)])) signed ∧
      d.clientServers = d.servers ∧ Chosen dns z signed answers.peers d.servers := by
  refine h.since (I := fun _ d => ∃ signed,
    IsNewest dns z (offered dns z sources (pre ++ [(.refresh answers, out)])) signed ∧
      d.clientServers = d.servers ∧ Chosen dns z signed answers.peers d.servers) hpost ?_ ?_
  · intro d hrun _ hout
    obtain ⟨error, herror, -⟩ | ⟨-, hsame, hchosen⟩ := refresh_cases dns z sources d answers
    · rw [show out = ⟨some _, []⟩ from hout] at hok
      cases herror.symm.trans (Option.some.inj hok)
    · refine ⟨_, ?_, hsame, hchosen⟩
      rw [offered_concat]
      exact (newest_run hrun).refresh
  · rintro post d e _ hen he ⟨signed, hnewest, hsame, hchosen⟩
    obtain ⟨hclient, hservers⟩ := step_unrefreshed hen he
    exact ⟨signed, hnewest, hclient.trans (hsame.trans hservers.symm), hservers.symm ▸ hchosen⟩

/-- A refresh that fails leaves the servers in use as they are. One that has a list, an empty
one too, fails only if Mainline does not bootstrap or the client has stopped, whatever
rendezvous comes to. After one that succeeds, and until the next one does, the client uses the
servers that it chose, by the newest list offered so far, and those who watch them see the
same; no server that was withdrawn is among them, unless it announced itself. -/
theorem refresh_servers (h : (machine dns z sources).Run t d) :
    (∀ answers error, (d.refresh dns z sources answers).2 = .error error →
        (d.refresh dns z sources answers).1.clientServers = d.clientServers ∧
          (d.refresh dns z sources answers).1.servers = d.servers) ∧
      (∀ pre answers out post, t = pre ++ (.refresh answers, out) :: post →
        answers.bootstrapped ≠ none → answers.live = true →
          (∃ item ∈ offered dns z sources (pre ++ [(.refresh answers, out)]),
            Acceptable dns z item) → out.refreshed = some (.ok ())) ∧
      ∀ pre answers out post, t = pre ++ (.refresh answers, out) :: post →
        out.refreshed = some (.ok ()) → (∀ x ∈ post, x.2.refreshed ≠ some (.ok ())) →
          ∃ signed,
            IsNewest dns z (offered dns z sources (pre ++ [(.refresh answers, out)])) signed ∧
            d.clientServers = d.servers ∧ Chosen dns z signed answers.peers d.servers ∧
            ∀ a ∈ d.servers,
              Superseded dns z (offered dns z sources (pre ++ [(.refresh answers, out)])) a →
                a ∈ answers.peers.peers := by
  refine ⟨?_, ?_, ?_⟩
  · intro answers error herror
    apply step_unrefreshed (e := .refresh answers) trivial
    intro hok
    cases herror.symm.trans (Option.some.inj hok)
  · rintro pre answers out post rfl hup hlive ⟨item, hmem, hcounts⟩
    obtain ⟨d₁, hrun, -, hout⟩ := h.stepAt rfl
    rw [offered_concat] at hmem
    obtain ⟨list, hlist⟩ := (newest_run hrun).refresh.exists_list hmem hcounts
    rw [show out = ⟨some _, []⟩ from hout, refresh_of_list hup hlive hlist]
  · rintro pre answers out post rfl hok hpost
    obtain ⟨signed, hnewest, hsame, hchosen⟩ := chosen_run h hok hpost
    refine ⟨signed, hnewest, hsame, hchosen, fun a ha hsuperseded => ?_⟩
    exact hchosen.kept a ha fun list hlist => hnewest.not_superseded hsuperseded hlist

end Runs

namespace Sample

open Z32 (standard)

def key : PkarrKey := .replicate 32 9

/-- A packet of the key with one text. -/
def packet (text : Str) : Dns.Packet Str :=
  ⟨[⟨pkarrName standard key, .IN, 300, .TXT (some text)⟩]⟩

/-- Its bytes. -/
def wire (text : Str) : List UInt8 :=
  [0, 0, 0x80, 0, 0, 0, 0, 1, 0, 0, 0, 0, 52] ++ Str.bytes (pkarrName standard key) ++
    [0, 0, 16, 0, 1, 0, 0, 1, 44, 0, .ofNat (text.length + 1), .ofNat text.length] ++
      Str.bytes text

def listed : Str := "203.0.113.1:60125".toList

/-- What the crate does with a list of one server and an empty list. -/
def dns : Dns Str where
  newName s := some (withoutRoot s)
  toStr := id
  parse bytes :=
    if bytes = wire listed then some (packet listed)
    else if bytes = wire [] then some (packet []) else none
  build p :=
    if p = packet listed then some (wire listed)
    else if p = packet [] then some (wire []) else none

def sources : Sources := ⟨some key, none, some (.replicate 20 45)⟩

def start : Discovery := ⟨⟨none⟩, ∅, [], .new DEFAULT_TIMEOUT⟩

/-- A list of one server. -/
def first : Answers := ⟨some true, .items [⟨key, 1, wire listed, none⟩] true, .failed, true⟩

/-- The withdrawal, while the rendezvous fails. -/
def second : Answers := ⟨some true, .items [⟨key, 2, wire [], none⟩] true, .failed, true⟩

/-- The server of the list. -/
def server : SocketAddrV4 := ⟨⟨203, 0, 113, 1⟩, 60125⟩

/-- What both find. -/
def items : List MutableItem := [⟨key, 1, wire listed, none⟩, ⟨key, 2, wire [], none⟩]

theorem offered_eq (x y : Outcome) :
    offered dns standard sources [(.refresh first, x), (.refresh second, y)] = items := by
  simp [offered, offeredBy, lookUpList, first, second, sources, items]

theorem superseded : Superseded dns standard items server := by
  intro item hmem _ list hlist hserver
  have hempty : (listOf dns standard ⟨key, 2, wire [], none⟩).map (·.addresses) = some [] := by
    decide +kernel
  obtain ⟨empty, hlist', haddresses⟩ := Option.map_eq_some_iff.mp hempty
  obtain rfl | rfl : item = ⟨key, 1, wire listed, none⟩ ∨ item = ⟨key, 2, wire [], none⟩ := by
    simpa [items] using hmem
  · exact ⟨⟨key, 2, wire [], none⟩, by simp [items], by decide +kernel, by decide +kernel, empty,
      hlist', haddresses⟩
  · obtain rfl := Option.some.inj (hlist'.symm.trans hlist)
    rw [haddresses] at hserver
    cases hserver

theorem not_in_use {d : Discovery}
    (h : ∀ a ∈ d.servers, Superseded dns standard items a → a ∈ second.peers.peers) :
    server ∉ d.servers :=
  fun hserver => List.not_mem_nil (h server hserver superseded)

end Sample

/-- The authority withdraws its server while the rendezvous fails: the server is in use no
more. -/
theorem refresh_servers_sample : ∃ t d,
    (machine Sample.dns Z32.standard Sample.sources).Run t d ∧
      (∃ pre out, t = pre ++ [(.refresh Sample.second, out)] ∧
        out.refreshed = some (.ok ())) ∧
      (Sample.start.refresh Sample.dns Z32.standard Sample.sources Sample.first).1.servers =
        {Sample.server} ∧
      d.clientServers = d.servers ∧ Sample.server ∉ d.servers := by
  have h₀ : (machine Sample.dns Z32.standard Sample.sources).Run [] Sample.start := .start rfl
  have h₁ := h₀.step (a := .refresh Sample.first) (by trivial)
  have h₂ := h₁.step (a := .refresh Sample.second) (by trivial)
  obtain ⟨-, hcompletes, hservers⟩ := refresh_servers h₂
  have hok := hcompletes _ Sample.second _ [] rfl (by decide) rfl
    ⟨⟨Sample.key, 2, Sample.wire [], none⟩, by decide +kernel, by decide +kernel⟩
  obtain ⟨signed, -, hsame, -, hwithdrawn⟩ := hservers _ Sample.second _ [] rfl hok nofun
  simp only [List.nil_append, List.cons_append, Sample.offered_eq] at hwithdrawn
  exact ⟨_, _, h₂, ⟨_, _, rfl, hok⟩, by decide +kernel, hsame, Sample.not_in_use hwithdrawn⟩

end Discovery

end ContentDiscovery
