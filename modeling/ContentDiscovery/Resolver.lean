import ContentDiscovery.Machine
import ContentDiscovery.SignedRecord
import Mathlib.Data.Finset.Sort

/-!
# Resolving an infohash

`Resolver` of `iroh-mainline-endpoint-discovery/src/resolver.rs`: Mainline finds peers in
batches, and each peer is looked up in the address index. `resolve_stream` yields endpoints as
they are found; it keeps a queue of peers and a bounded pool of lookups, and waits for a batch or
for a lookup, whichever it has room or use for. `resolve` collects the peers first.

The batches, and the order in which lookups end, are up to the environment. What the index says
of a peer is a function of the peer here, so that the two can be compared
(`resolve_stream_agrees`).
-/

namespace ContentDiscovery

/-- `MAX_INDEX_LOOKUPS`. -/
def MAX_INDEX_LOOKUPS : ℕ := 16

/-- `MAX_QUEUED_PEERS`. -/
def MAX_QUEUED_PEERS : ℕ := 64

/-- `AddrIndex::lookup`, for each peer. -/
abbrev IndexLookup (EndpointId Signature ε : Type) : Type :=
  SocketAddrV4 → Except ε (List (SignedRecord EndpointId Signature))

variable {EndpointId Signature ε : Type}

/-- The endpoints in what a lookup returns. -/
def endpointsOf : Except ε (List (SignedRecord EndpointId Signature)) → List EndpointId
  | .ok records => records.map SignedRecord.endpointId
  | .error _ => []

/-- `resolve_stream`, where it waits. -/
structure ResolveStream where
  /-- the peers not yet looked up -/
  pendingPeers : List SocketAddrV4
  /-- the peers that are looked up -/
  lookups : List SocketAddrV4
  /-- Mainline has no more batches -/
  peersDone : Bool
  /-- the stream has ended -/
  ended : Bool

namespace ResolveStream

/-- The loop that starts lookups while there is room for them. -/
def fill : List SocketAddrV4 → List SocketAddrV4 → List SocketAddrV4 × List SocketAddrV4
  | [], lookups => ([], lookups)
  | peer :: pendingPeers, lookups =>
    if lookups.length < MAX_INDEX_LOOKUPS then fill pendingPeers (lookups ++ [peer])
    else (peer :: pendingPeers, lookups)

/-- The head of the loop, up to the `select`. -/
def head (s : ResolveStream) : ResolveStream :=
  let filled := fill s.pendingPeers s.lookups
  { s with
    pendingPeers := filled.1
    lookups := filled.2
    ended := s.peersDone && filled.1.isEmpty && filled.2.isEmpty }

/-- The stream once `get_peers` returned. -/
def start : Except ε Unit → ResolveStream
  | .ok () => head ⟨[], [], false, false⟩
  | .error _ => ⟨[], [], false, true⟩

/-- The condition of the first branch. -/
def pollPeers (s : ResolveStream) : Bool :=
  !s.peersDone && decide (s.pendingPeers.length < MAX_QUEUED_PEERS)

/-- The condition of the second branch. -/
def pollLookups (s : ResolveStream) : Bool := !s.lookups.isEmpty

/-- What the `select` may wait for. -/
inductive Event where
  /-- a batch of peers, or none -/
  | peers (batch : Option (List SocketAddrV4))
  /-- the lookup of a peer returns -/
  | looked (peer : SocketAddrV4)

/-- A branch runs only if its condition holds. -/
def Enabled (s : ResolveStream) : Event → Prop
  | .peers _ => s.ended = false ∧ s.pollPeers = true
  | .looked peer => s.ended = false ∧ s.pollLookups = true ∧ peer ∈ s.lookups

instance (s : ResolveStream) : DecidablePred s.Enabled
  | .peers _ => inferInstanceAs (Decidable (_ ∧ _))
  | .looked _ => inferInstanceAs (Decidable (_ ∧ _ ∧ _))

/-- The branches of the `select`, with what they yield. -/
def select (index : IndexLookup EndpointId Signature ε) (s : ResolveStream) :
    Event → ResolveStream × List EndpointId
  | .peers (some batch) => ({ s with pendingPeers := s.pendingPeers ++ batch }, [])
  | .peers none => ({ s with peersDone := true }, [])
  | .looked peer => ({ s with lookups := s.lookups.erase peer }, endpointsOf (index peer))

/-- A branch, and the head of the next iteration. -/
def step (index : IndexLookup EndpointId Signature ε) (s : ResolveStream) (e : Event) :
    ResolveStream × List EndpointId :=
  ((s.select index e).1.head, (s.select index e).2)

/-- `resolve_stream`, of a Mainline lookup that could start. -/
def machine (index : IndexLookup EndpointId Signature ε) :
    Machine ResolveStream Event (List EndpointId) where
  init s := s = start (.ok () : Except ε Unit)
  enabled _ s e := s.Enabled e
  step s e := s.step index e

instance (index : IndexLookup EndpointId Signature ε) (t) (s : ResolveStream) (e : Event) :
    Decidable ((machine index).enabled t s e) :=
  inferInstanceAs (Decidable (s.Enabled e))

/-- What has happened. -/
abbrev History (EndpointId : Type) : Type := List (Event × List EndpointId)

/-- The batches of peers. -/
def batches (t : History EndpointId) : List (List SocketAddrV4) :=
  t.filterMap fun x =>
    match x.1 with
    | .peers batch => batch
    | .looked _ => none

/-- The peers whose lookups returned. -/
def looked (t : History EndpointId) : List SocketAddrV4 :=
  t.filterMap fun x =>
    match x.1 with
    | .peers _ => none
    | .looked peer => some peer

/-- What was yielded. -/
def yields (t : History EndpointId) : List EndpointId := t.flatMap Prod.snd

/-! ## One iteration -/

/-- What is known where the stream waits. -/
structure Waits (index : IndexLookup EndpointId Signature ε) (t : History EndpointId)
    (s : ResolveStream) : Prop where
  /-- no peer is lost -/
  peers : (batches t).flatten.Perm (looked t ++ (s.lookups ++ s.pendingPeers))
  bounded : s.lookups.length ≤ MAX_INDEX_LOOKUPS
  /-- a peer waits only while there is no room -/
  filled : s.pendingPeers = [] ∨ MAX_INDEX_LOOKUPS ≤ s.lookups.length
  ended : s.ended = true ↔ s.peersDone = true ∧ s.lookups = [] ∧ s.pendingPeers = []
  yields : yields t = (looked t).flatMap fun peer => endpointsOf (index peer)
  /-- a step takes a batch, the end of the batches, or the result of a lookup -/
  length : t.length = (batches t).length + s.peersDone.toNat + (looked t).length

section Step

variable {index : IndexLookup EndpointId Signature ε} {t : History EndpointId}
  {s : ResolveStream} {e : Event} {x : Event × List EndpointId}
  {lookups : List SocketAddrV4}

/-- Peers are taken from the queue in turn, until there is none or no room. -/
theorem fill_spec (pendingPeers : List SocketAddrV4)
    (h : lookups.length ≤ MAX_INDEX_LOOKUPS) :
    (fill pendingPeers lookups).2 ++ (fill pendingPeers lookups).1 = lookups ++ pendingPeers ∧
      (fill pendingPeers lookups).2.length ≤ MAX_INDEX_LOOKUPS ∧
      ((fill pendingPeers lookups).1 = [] ∨
        MAX_INDEX_LOOKUPS ≤ (fill pendingPeers lookups).2.length) := by
  induction pendingPeers generalizing lookups with
  | nil => exact ⟨rfl, h, .inl rfl⟩
  | cons peer pendingPeers ih =>
    rw [fill]
    split
    · rename_i hroom
      have hle : (lookups ++ [peer]).length ≤ MAX_INDEX_LOOKUPS := by
        rw [List.length_append, List.length_singleton]
        exact hroom
      obtain ⟨heq, hbounded, hfilled⟩ := ih hle
      rw [List.append_assoc] at heq
      exact ⟨heq, hbounded, hfilled⟩
    · rename_i hfull
      exact ⟨rfl, h, .inr (not_lt.mp hfull)⟩

@[simp] theorem batches_concat : batches (t ++ [x]) = batches t ++
    (match x.1 with | .peers batch => batch | .looked _ => none).toList := by
  rw [batches, List.filterMap_append, batches]
  obtain ⟨(_ | batch) | peer, found⟩ := x <;> rfl

@[simp] theorem looked_concat : looked (t ++ [x]) = looked t ++
    (match x.1 with | .peers _ => none | .looked peer => some peer).toList := by
  rw [looked, List.filterMap_append, looked]
  obtain ⟨batch | peer, found⟩ := x <;> rfl

@[simp] theorem yields_concat : yields (t ++ [x]) = yields t ++ x.2 := by
  rw [yields, List.flatMap_append, List.flatMap_singleton, yields]

/-- Where the stream waits after the head of the loop. -/
theorem waits_head (hpeers : (batches t).flatten.Perm (looked t ++ (s.lookups ++ s.pendingPeers)))
    (hbounded : s.lookups.length ≤ MAX_INDEX_LOOKUPS)
    (hyields : yields t = (looked t).flatMap fun peer => endpointsOf (index peer))
    (hlength : t.length = (batches t).length + s.peersDone.toNat + (looked t).length) :
    Waits index t s.head := by
  obtain ⟨heq, hle, hfilled⟩ := fill_spec s.pendingPeers hbounded
  refine ⟨?_, hle, hfilled, ?_, hyields, hlength⟩
  · rw [← heq] at hpeers
    exact hpeers
  · simp only [head, Bool.and_eq_true, List.isEmpty_iff]
    tauto

theorem Waits.step (h : Waits index t s) (hen : s.Enabled e) :
    Waits index (t ++ [(e, (s.step index e).2)]) (s.step index e).1 := by
  cases e with
  | peers batch =>
    obtain ⟨-, hpoll⟩ := hen
    cases batch with
    | none =>
      have hdone : s.peersDone = false := by
        rw [pollPeers, Bool.and_eq_true, Bool.not_eq_true'] at hpoll
        exact hpoll.1
      refine waits_head ?_ h.bounded ?_ ?_
      · simpa [select] using h.peers
      · simpa [step, select] using h.yields
      -- the end of the batches counts as one step
      · simp [step, select, h.length, hdone]
        omega
    | some batch =>
      refine waits_head ?_ h.bounded ?_ ?_
      · have hperm := h.peers.append_right batch
        simpa [select, List.append_assoc] using hperm
      · simpa [step, select] using h.yields
      · simp [step, select, h.length]
        omega
  | looked peer =>
    obtain ⟨-, -, hmem⟩ := hen
    refine waits_head ?_ ((List.length_erase_le ..).trans h.bounded) ?_ ?_
    -- the peer goes from the running lookups to those that returned
    · have hperm := (List.perm_cons_erase hmem).append_right s.pendingPeers
      have hall := h.peers.trans (hperm.append_left (looked t))
      simpa [select] using hall
    · simp [step, select, h.yields]
    · simp [step, select, h.length]
      omega

theorem waits_of_run (h : (machine index).Run t s) : Waits index t s := by
  refine h.invariant (fun s hs => ?_) fun t s e _ hen hwaits => hwaits.step hen
  rw [show s = start (.ok () : Except ε Unit) from hs]
  exact waits_head (by simp [batches, looked]) (Nat.zero_le _) rfl rfl

/-- A stream that has not ended waits for something. -/
theorem Waits.selects (h : Waits index t s) (hopen : s.ended = false) :
    s.pollPeers = true ∨ s.pollLookups = true := by
  rw [pollLookups, Bool.not_eq_true']
  cases hlookups : s.lookups with
  | cons peer lookups => exact .inr rfl
  | nil =>
    have hpending : s.pendingPeers = [] := by
      refine h.filled.resolve_right ?_
      rw [hlookups]
      decide
    have hdone : s.peersDone = false := by
      rw [Bool.eq_false_iff]
      intro hdone
      have hended := h.ended.mpr ⟨hdone, hlookups, hpending⟩
      exact absurd (hopen.symm.trans hended) (by decide)
    left
    rw [pollPeers, hdone, hpending]
    rfl

/-- It ends once all batches have come and all lookups have returned. -/
theorem Waits.ended_iff (h : Waits index t s) :
    s.ended = true ↔ s.peersDone = true ∧ (looked t).Perm (batches t).flatten := by
  rw [h.ended]
  refine and_congr_right fun _ => ⟨?_, fun hperm => ?_⟩
  · rintro ⟨hlookups, hpending⟩
    have hpeers := h.peers
    rw [hlookups, hpending, List.append_nil, List.append_nil] at hpeers
    exact hpeers.symm
  · have hlength := (hperm.trans h.peers).length_eq
    rw [List.length_append, List.length_append] at hlength
    exact ⟨List.length_eq_zero_iff.mp (by omega), List.length_eq_zero_iff.mp (by omega)⟩

/-- Each peer comes to its endpoints, as often as it was found. -/
theorem Waits.yields_perm (h : Waits index t s) (hended : s.ended = true) :
    (ResolveStream.yields t).Perm
      ((batches t).flatten.flatMap fun peer => endpointsOf (index peer)) := by
  rw [h.yields]
  exact (h.ended_iff.mp hended).2.flatMap_right _

/-- No run takes longer than its batches and peers. -/
theorem Waits.length_le (h : Waits index t s) :
    t.length ≤ (batches t).length + 1 + (batches t).flatten.length := by
  have hlooked := h.peers.length_eq
  have hdone := Bool.toNat_le s.peersDone
  rw [List.length_append] at hlooked
  rw [h.length]
  omega

end Step

end ResolveStream

/-! ## Collecting the peers first -/

/-- What `resolve` has collected. -/
structure Joined (EndpointId ε : Type) where
  /-- the endpoints found -/
  endpointIds : Finset EndpointId
  /-- a lookup succeeded -/
  anyOk : Bool
  /-- the error of the last one that failed -/
  lastErr : Option ε

section Resolve

variable [LinearOrder EndpointId] (index : IndexLookup EndpointId Signature ε)

/-- A lookup of `resolve` returns. -/
def join (joined : Joined EndpointId ε) (peer : SocketAddrV4) : Joined EndpointId ε :=
  match index peer with
  | .ok records =>
    { joined with
      anyOk := true
      endpointIds := joined.endpointIds ∪ (records.map SignedRecord.endpointId).toFinset }
  | .error err => { joined with lastErr := some err }

/-- The peers that `resolve` collects. -/
def peerSet (batches : List (List SocketAddrV4)) : Finset SocketAddrV4 :=
  batches.foldl (fun peers batch => peers ∪ batch.toFinset) ∅

/-- `resolve`, from what `get_peers` comes to; `order` says in which order the lookups of a set
of peers return. -/
def resolve (order : Finset SocketAddrV4 → List SocketAddrV4)
    (getPeers : Except ε (List (List SocketAddrV4))) : Except ε (List EndpointId) :=
  match getPeers with
  | .error err => .error err
  | .ok batches =>
    let joined := (order (peerSet batches)).foldl (join index) ⟨∅, false, none⟩
    match joined.anyOk, joined.lastErr with
    | false, some err => .error err
    | _, _ => .ok (joined.endpointIds.sort (· ≤ ·))

/-- The lookups of a set of peers return, each once. -/
structure Completes (order : Finset SocketAddrV4 → List SocketAddrV4) : Prop where
  nodup : ∀ peers, (order peers).Nodup
  mem : ∀ peers peer, peer ∈ order peers ↔ peer ∈ peers

variable {index} {found : List (List SocketAddrV4)}
  {order : Finset SocketAddrV4 → List SocketAddrV4}

theorem mem_peerSet {peer : SocketAddrV4} : peer ∈ peerSet found ↔ peer ∈ found.flatten := by
  have hfold (set : Finset SocketAddrV4) :
      peer ∈ found.foldl (fun peers batch => peers ∪ batch.toFinset) set ↔
        peer ∈ set ∨ peer ∈ found.flatten := by
    induction found generalizing set with
    | nil => simp
    | cons batch found ih =>
      rw [List.foldl_cons, ih, List.flatten_cons, List.mem_append, Finset.mem_union,
        List.mem_toFinset, or_assoc]
  rw [peerSet, hfold]
  simp

variable (index) in
/-- What is collected from the lookups of some peers. -/
theorem foldl_join (joined : Joined EndpointId ε) (peers : List SocketAddrV4) :
    (∀ id, id ∈ (peers.foldl (join index) joined).endpointIds ↔
      id ∈ joined.endpointIds ∨ id ∈ peers.flatMap fun peer => endpointsOf (index peer)) ∧
    ((peers.foldl (join index) joined).anyOk = true ↔
      joined.anyOk = true ∨ ∃ peer ∈ peers, ∃ records, index peer = .ok records) ∧
    ∀ err, (peers.foldl (join index) joined).lastErr = some err →
      joined.lastErr = some err ∨ ∃ peer ∈ peers, index peer = .error err := by
  induction peers generalizing joined with
  | nil => simp
  | cons peer peers ih =>
    obtain ⟨hids, hok, herr⟩ := ih (join index joined peer)
    rw [List.foldl_cons]
    cases hpeer : index peer with
    | ok records =>
      have hjoin : join index joined peer = { joined with
          anyOk := true
          endpointIds := joined.endpointIds ∪ (records.map SignedRecord.endpointId).toFinset } := by
        rw [join, hpeer]
      rw [hjoin] at hids hok herr ⊢
      refine ⟨fun id => ?_, ?_, fun err h => ?_⟩
      · rw [hids, List.flatMap_cons, List.mem_append, hpeer, Finset.mem_union, List.mem_toFinset,
          or_assoc]
        rfl
      · rw [hok]
        simp [hpeer]
      · rcases herr err h with h | ⟨other, hother, heq⟩
        · exact .inl h
        · exact .inr ⟨other, List.mem_cons_of_mem _ hother, heq⟩
    | error failed =>
      have hjoin : join index joined peer = { joined with lastErr := some failed } := by
        rw [join, hpeer]
      rw [hjoin] at hids hok herr ⊢
      refine ⟨fun id => ?_, ?_, fun err h => ?_⟩
      · rw [hids, List.flatMap_cons, hpeer]
        rfl
      · rw [hok]
        simp [hpeer]
      · rcases herr err h with h | ⟨other, hother, heq⟩
        · cases h
          exact .inr ⟨peer, List.mem_cons_self, hpeer⟩
        · exact .inr ⟨other, List.mem_cons_of_mem _ hother, heq⟩

variable (index found) in
/-- What `resolve` returns has the endpoints of all peers, and it fails only if a lookup failed
and none succeeded. -/
theorem resolve_spec (horder : Completes order) :
    (∀ ids, resolve index order (.ok found) = .ok ids → ids.Nodup ∧ ids.Pairwise (· ≤ ·) ∧
      ∀ id, id ∈ ids ↔ id ∈ found.flatten.flatMap fun peer => endpointsOf (index peer)) ∧
    ∀ err, resolve index order (.ok found) = .error err →
      (∃ peer ∈ found.flatten, index peer = .error err) ∧
        ¬ ∃ peer ∈ found.flatten, ∃ records, index peer = .ok records := by
  obtain ⟨hids, hok, herr⟩ := foldl_join index ⟨∅, false, none⟩ (order (peerSet found))
  have hmem (peer : SocketAddrV4) : peer ∈ order (peerSet found) ↔ peer ∈ found.flatten :=
    (horder.mem _ _).trans mem_peerSet
  generalize hjoined : (order (peerSet found)).foldl (join index) ⟨∅, false, none⟩ = joined
    at hids hok herr
  have hreturns : resolve index order (.ok found) =
      match joined.anyOk, joined.lastErr with
      | false, some err => .error err
      | _, _ => .ok (joined.endpointIds.sort (· ≤ ·)) := by
    rw [resolve, hjoined]
  -- only a failure without any success is an error; everything else returns the sorted set
  obtain ⟨endpointIds, anyOk, lastErr⟩ := joined
  have hsorted : (endpointIds.sort (· ≤ ·)).Nodup ∧ (endpointIds.sort (· ≤ ·)).Pairwise (· ≤ ·) ∧
      ∀ id, id ∈ endpointIds.sort (· ≤ ·) ↔
        id ∈ found.flatten.flatMap fun peer => endpointsOf (index peer) := by
    refine ⟨endpointIds.sort_nodup _, endpointIds.pairwise_sort _, fun id => ?_⟩
    rw [Finset.mem_sort, hids, or_iff_right (Finset.notMem_empty id), List.mem_flatMap,
      List.mem_flatMap]
    simp only [hmem]
  rw [hreturns]
  constructor
  · intro ids hids
    cases anyOk with
    | true =>
      cases hids
      exact hsorted
    | false =>
      cases lastErr with
      | none =>
        cases hids
        exact hsorted
      | some err => cases hids
  · intro err hfailed
    cases anyOk with
    | true => cases hfailed
    | false =>
      cases lastErr with
      | none => cases hfailed
      | some last =>
        cases hfailed
        obtain ⟨peer, hpeer, heq⟩ := (herr err rfl).resolve_left nofun
        refine ⟨⟨peer, (hmem peer).mp hpeer, heq⟩, ?_⟩
        rintro ⟨other, hother, hrecords⟩
        exact absurd (hok.mpr (.inr ⟨other, (hmem other).mpr hother, hrecords⟩)) Bool.false_ne_true

open ResolveStream in
/-- Up to 16 lookups run, the stream always waits for something until it has ended, and it ends
exactly when all batches have come and all lookups have returned. Then it has yielded the
endpoints of every peer, as often as the peer was found. They are the ones that `resolve`
returns; it fails only if a lookup failed and none succeeded. -/
theorem resolve_stream_agrees {t : History EndpointId} {s : ResolveStream}
    (h : (machine index).Run t s) (horder : Completes order) :
    s.lookups.length ≤ 16 ∧
    (s.ended = false → s.pollPeers = true ∨ s.pollLookups = true) ∧
    (s.ended = true ↔ s.peersDone = true ∧ (looked t).Perm (batches t).flatten) ∧
    t.length ≤ (batches t).length + 1 + (batches t).flatten.length ∧
    (s.ended = true →
      (yields t).Perm
        ((batches t).flatten.flatMap fun peer => endpointsOf (index peer)) ∧
      (∀ ids, resolve index order (.ok (batches t)) = .ok ids →
        ids.Nodup ∧ ids.Pairwise (· ≤ ·) ∧ ∀ id, id ∈ ids ↔ id ∈ yields t) ∧
      ∀ err, resolve index order (.ok (batches t)) = .error err →
        (∃ peer ∈ (batches t).flatten, index peer = .error err) ∧
          ¬ ∃ peer ∈ (batches t).flatten, ∃ records, index peer = .ok records) := by
  have hwaits := waits_of_run h
  refine ⟨hwaits.bounded, hwaits.selects, hwaits.ended_iff, hwaits.length_le, fun hended => ?_⟩
  have hyields := hwaits.yields_perm hended
  obtain ⟨hok, herr⟩ := resolve_spec index (batches t) horder
  refine ⟨hyields, fun ids hids => ?_, herr⟩
  obtain ⟨hnodup, hsorted, hmem⟩ := hok ids hids
  exact ⟨hnodup, hsorted, fun id => (hmem id).trans hyields.mem_iff.symm⟩

end Resolve

namespace ResolveStream.Sample

/-- The number of its port is the endpoint of a peer. -/
def peer (port : UInt16) : SocketAddrV4 := ⟨⟨127, 0, 0, 1⟩, port⟩

/-- One record for each peer, but an error for the first one. -/
def index : IndexLookup ℕ Unit Unit := fun addr =>
  if addr.port = 1 then .error () else .ok [⟨addr.port.toNat, .v1 ⟨addr, 0⟩, ()⟩]

/-- Two batches that share a peer. -/
def events : List ResolveStream.Event :=
  [.peers (some [peer 1, peer 2]), .looked (peer 2), .peers (some [peer 2]), .peers none,
    .looked (peer 1), .looked (peer 2)]

end ResolveStream.Sample

open ResolveStream in
/-- A peer that was found twice is yielded twice, and returned once. -/
theorem resolve_stream_agrees_sample :
    ∃ s, (machine Sample.index).Run ((machine Sample.index).exec
        (start (.ok () : Except Unit Unit)) Sample.events).1 s ∧ s.ended = true ∧
      yields ((machine Sample.index).exec
        (start (.ok () : Except Unit Unit)) Sample.events).1 = [2, 2] ∧
      s.lookups.length ≤ 16 := by
  have hstart : (machine Sample.index).Run [] (start (.ok () : Except Unit Unit)) := .start rfl
  have hevents : (machine Sample.index).Follows [] (start (.ok () : Except Unit Unit))
      Sample.events :=
    ⟨by decide, by decide, by decide, by decide, by decide, by decide, trivial⟩
  have hrun := hstart.follows hevents
  have horder : Completes fun peers => peers.sort (· ≤ ·) :=
    ⟨fun peers => peers.sort_nodup _, fun peers _ => peers.mem_sort _⟩
  exact ⟨_, hrun, by decide, by decide, (resolve_stream_agrees hrun horder).1⟩

end ContentDiscovery
