import ContentDiscovery.Demux
import ContentDiscovery.LookupCache
import ContentDiscovery.SignedRecord
import Mathlib.Logic.Function.Basic

/-!
# Publishing and looking up records

`iroh-mainline-endpoint-discovery/src/addr_index.rs`: an endpoint publishes its record
through the client, and looks up the records of a socket, with or without the cache. A
lookup is asynchronous; a step is what it does between two points where it waits.
Discovery only shows as changes of the servers.

`Vouched` is what an index keeps when every value that reaches it satisfies a
predicate: so do the values behind every record that it returns or remembers, and
these records were decoded for the socket they are returned for.
-/

namespace ContentDiscovery

/-- Where a call of `AddrIndex::lookup` or `AddrIndex::lookup_uncached` stands. -/
inductive Lookup where
  /-- not called, or returned -/
  | idle
  /-- waits for the lock of its socket -/
  | locking (addr : SocketAddrV4)
  /-- waits for the client; `cached` if it holds the lock -/
  | resolving (addr : SocketAddrV4) (tx : TransactionId) (cached : Bool)
  /-- has the answer of the client -/
  | answered (addr : SocketAddrV4) (cached : Bool) (result : Except UdpError (List (List UInt8)))

namespace Lookup

/-- The call holds the lock of `addr`. -/
def Holds (addr : SocketAddrV4) : Lookup → Prop
  | .resolving addr' _ true => addr' = addr
  | .answered addr' true _ => addr' = addr
  | _ => False

/-- The client answers the calls whose transactions it finished. -/
def settle (actions : List Action) : Lookup → Lookup
  | .resolving addr tx cached =>
    match actions.findSome? (Actor.resolvedOf tx) with
    | some result => .answered addr cached result
    | none => .resolving addr tx cached
  | l => l

end Lookup

/-- `AddrIndex`, with the calls under way. -/
structure AddrIndex (EndpointId Signature κ : Type) where
  /-- the client -/
  client : Actor
  /-- the lookup cache, if it is enabled -/
  cache : Option (LookupCache (SignedRecord EndpointId Signature))
  /-- where the calls of `lookup` stand -/
  lookups : κ → Lookup

namespace AddrIndex

/-- A step of an address index. -/
inductive Event (κ : Type) where
  /-- discovery adds a server -/
  | addServer (addr : SocketAddrV4)
  /-- discovery replaces the servers -/
  | replaceServers (servers : HashSet SocketAddrV4)
  /-- discovery removes a server -/
  | removeServer (addr : SocketAddrV4)
  /-- `AddrIndex::publish` is called -/
  | publish (tx : TransactionId) (now : Instant)
  /-- `AddrIndex::lookup` is called -/
  | lookup (c : κ) (addr : SocketAddrV4) (tx : TransactionId) (now : Instant)
  /-- it got the lock -/
  | locked (c : κ) (tx : TransactionId) (now : Instant)
  /-- `AddrIndex::lookup_uncached` is called -/
  | lookupUncached (c : κ) (addr : SocketAddrV4) (tx : TransactionId) (now : Instant)
  /-- a lookup goes on with the answer of the client -/
  | finish (c : κ) (now : Instant)
  /-- its caller gives up -/
  | cancel (c : κ)
  /-- a datagram arrives at the client -/
  | packet (data : List UInt8) (src : SocketAddrV4) (unixSecs : UInt64)
  /-- the timer of the client -/
  | flush (now : Instant)

/-- What a step shows: what the client does, and what a lookup of a socket returns. -/
structure Output (EndpointId Signature : Type) where
  /-- what the client does -/
  actions : List Action
  /-- what a lookup returns -/
  found : Option (SocketAddrV4 × Except UdpError (List (SignedRecord EndpointId Signature)))
  deriving DecidableEq

variable {SecretKey EndpointId Signature κ : Type}

/-- `AddrIndex` as it is built: no operation is under way, and nothing is remembered. -/
def Initial (s : AddrIndex EndpointId Signature κ) : Prop :=
  (∃ timeout, s.client = .new timeout) ∧ (s.cache = none ∨ ∃ ttl, s.cache = some (.new ttl)) ∧
    ∀ c, s.lookups c = .idle

/-- The transaction id that a step draws, if it calls the client. -/
def Event.tx : Event κ → Option TransactionId
  | .publish tx _ | .lookup _ _ tx _ | .locked _ tx _ | .lookupUncached _ _ tx _ => some tx
  | _ => none

/-- The client takes a step. -/
def command (s : AddrIndex EndpointId Signature κ) (e : Actor.Event) :
    AddrIndex EndpointId Signature κ × Output EndpointId Signature :=
  let r := s.client.step e
  ({ s with client := r.1, lookups := fun c => (s.lookups c).settle r.2 }, ⟨r.2, none⟩)

variable (K : Signing SecretKey EndpointId Signature)

/-- The value that `AddrIndex::publish` has a server store. -/
def valueFor (secret : SecretKey) : ValueFor :=
  fun addr ts => (SignedRecord.sign K secret addr ts).encode K

variable [DecidableEq κ] (s : AddrIndex EndpointId Signature κ)

/-- The call `c` moves. -/
def move (c : κ) (l : Lookup) : AddrIndex EndpointId Signature κ :=
  { s with lookups := Function.update s.lookups c l }

/-- `AddrIndex::lookup_uncached`, until it waits. -/
def resolve (c : κ) (addr : SocketAddrV4) (cached : Bool) (tx : TransactionId) (now : Instant) :
    AddrIndex EndpointId Signature κ × Output EndpointId Signature :=
  let accept : Accept := fun value => (SignedRecord.decode K value addr).isSome
  (s.move c (.resolving addr tx cached)).command (.message (.resolve addr (some accept)) tx now)

/-- One step. A step that is not enabled does nothing. -/
def step (secret : SecretKey) :
    Event κ → AddrIndex EndpointId Signature κ × Output EndpointId Signature
  | .addServer addr => s.command (.message (.addServer addr) 0 0)
  | .replaceServers servers => s.command (.message (.replaceServers servers) 0 0)
  | .removeServer addr => s.command (.message (.removeServer addr) 0 0)
  | .publish tx now => s.command (.message (.publish (valueFor K secret)) tx now)
  | .lookup c addr tx now =>
    match s.cache with
    | none => s.resolve K c addr false tx now
    | some cache =>
      let r := cache.get addr now
      let s := { s with cache := some r.1 }
      match r.2 with
      | some records => (s, ⟨[], some (addr, .ok records)⟩)
      | none => (s.move c (.locking addr), ⟨[], none⟩)
  | .locked c tx now =>
    match s.lookups c, s.cache with
    | .locking addr, some cache =>
      -- a concurrent caller may have finished the same lookup
      let r := cache.get addr now
      let s := { s with cache := some r.1 }
      match r.2 with
      | some records => (s.move c .idle, ⟨[], some (addr, .ok records)⟩)
      | none => s.resolve K c addr true tx now
    | _, _ => (s, ⟨[], none⟩)
  | .lookupUncached c addr tx now => s.resolve K c addr false tx now
  | .finish c now =>
    match s.lookups c with
    | .answered addr _ (.error e) => (s.move c .idle, ⟨[], some (addr, .error e)⟩)
    | .answered addr cached (.ok values) =>
      let records := values.filterMap fun value => SignedRecord.decode K value addr
      let cache := if cached then s.cache.map fun cache => cache.insert addr records now
        else s.cache
      ({ s.move c .idle with cache := cache }, ⟨[], some (addr, .ok records)⟩)
    | _ => (s, ⟨[], none⟩)
  | .cancel c => (s.move c .idle, ⟨[], none⟩)
  | .packet data src unixSecs => s.command (.packet data src unixSecs)
  | .flush now => s.command (.flush now)

/-- When a step can happen. -/
def Enabled : Event κ → Prop
  | .lookup c _ _ _ => s.lookups c = .idle
  | .locked c _ _ => ∃ addr, s.lookups c = .locking addr ∧ ∀ c', ¬ (s.lookups c').Holds addr
  | .lookupUncached c _ _ _ => s.lookups c = .idle
  | .finish c _ => ∃ addr cached result, s.lookups c = .answered addr cached result
  | .flush now => ∃ deadline, s.client.nextDeadline = some deadline ∧ deadline ≤ now
  | _ => True

/-! ## What the client sees -/

/-- What a step asks of the client. -/
inductive Commands (secret : SecretKey) : Event κ → Actor.Event → Prop
  /-- another server -/
  | addServer (addr : SocketAddrV4) :
    Commands secret (.addServer addr) (.message (.addServer addr) 0 0)
  /-- other servers -/
  | replaceServers (servers : HashSet SocketAddrV4) :
    Commands secret (.replaceServers servers) (.message (.replaceServers servers) 0 0)
  /-- a server less -/
  | removeServer (addr : SocketAddrV4) :
    Commands secret (.removeServer addr) (.message (.removeServer addr) 0 0)
  /-- to publish -/
  | publish (tx : TransactionId) (now : Instant) :
    Commands secret (.publish tx now) (.message (.publish (valueFor K secret)) tx now)
  /-- to resolve, without a cache -/
  | lookup (c : κ) (addr : SocketAddrV4) (accept : Option Accept) (tx : TransactionId)
    (now : Instant) :
    Commands secret (.lookup c addr tx now) (.message (.resolve addr accept) tx now)
  /-- to resolve, under the lock -/
  | locked (c : κ) (addr : SocketAddrV4) (accept : Option Accept) (tx : TransactionId)
    (now : Instant) : Commands secret (.locked c tx now) (.message (.resolve addr accept) tx now)
  /-- to resolve, past the cache -/
  | lookupUncached (c : κ) (addr : SocketAddrV4) (accept : Option Accept) (tx : TransactionId)
    (now : Instant) :
    Commands secret (.lookupUncached c addr tx now) (.message (.resolve addr accept) tx now)
  /-- to handle a datagram -/
  | packet (data : List UInt8) (src : SocketAddrV4) (unixSecs : UInt64) :
    Commands secret (.packet data src unixSecs) (.packet data src unixSecs)
  /-- to flush what expired -/
  | flush (now : Instant) : Commands secret (.flush now) (.flush now)

/-- A step leaves the client alone, or is one of its steps. -/
theorem step_client (secret : SecretKey) (e : Event κ) :
    (s.step K secret e).1.client = s.client ∧ (s.step K secret e).2.actions = [] ∨
      ∃ ce, Commands K secret e ce ∧ (s.step K secret e).1.client = (s.client.step ce).1 ∧
        (s.step K secret e).2.actions = (s.client.step ce).2 := by
  cases e with
  | addServer addr => exact .inr ⟨_, .addServer addr, rfl, rfl⟩
  | replaceServers servers => exact .inr ⟨_, .replaceServers servers, rfl, rfl⟩
  | removeServer addr => exact .inr ⟨_, .removeServer addr, rfl, rfl⟩
  | publish tx now => exact .inr ⟨_, .publish tx now, rfl, rfl⟩
  | lookup c addr tx now =>
    simp only [step]
    split
    · exact .inr ⟨_, .lookup c addr _ tx now, rfl, rfl⟩
    · split <;> exact .inl ⟨rfl, rfl⟩
  | locked c tx now =>
    simp only [step]
    split
    · split
      · exact .inl ⟨rfl, rfl⟩
      · exact .inr ⟨_, .locked c _ _ tx now, rfl, rfl⟩
    · exact .inl ⟨rfl, rfl⟩
  | lookupUncached c addr tx now => exact .inr ⟨_, .lookupUncached c addr _ tx now, rfl, rfl⟩
  | finish c now =>
    simp only [step]
    split <;> exact .inl ⟨rfl, rfl⟩
  | cancel c => exact .inl ⟨rfl, rfl⟩
  | packet data src unixSecs => exact .inr ⟨_, .packet data src unixSecs, rfl, rfl⟩
  | flush now => exact .inr ⟨_, .flush now, rfl, rfl⟩

end AddrIndex

/-! ## The values that reach a client -/

/-- The message carries the value. -/
inductive Carries : Proto → List UInt8 → Prop
  /-- to a server -/
  | put (tx : TransactionId) (token : Token) (v : List UInt8) :
    Carries (.request (.v1 (.put tx token v))) v
  /-- to a client -/
  | value (tx : TransactionId) (addr : SocketAddrV4) (v : List UInt8) :
    Carries (.response (.v1 (.value tx addr (some v)))) v

/-- The values the datagram of an event carries, if it is one, satisfy `G`. -/
def Actor.Event.Brings (G : List UInt8 → Prop) (e : Actor.Event) : Prop :=
  ∀ data src unixSecs m v, e = .packet data src unixSecs → Proto.decode data = some m →
    Carries m v → G v

/-- The values that the resolves of a client collected satisfy `G`. -/
def Actor.Collected (G : List UInt8 → Prop) (s : Actor) : Prop :=
  ∀ tx p, s.resolves.lookup tx = some p → ∀ v ∈ p.values, G v

theorem Actor.ResolveUpdate.values {G : List UInt8 → Prop} {tx : TransactionId}
    {p p' : PendingResolve} {e : Actor.Event} {accepted : Bool}
    (h : Actor.ResolveUpdate tx p e p' accepted) (hp : ∀ v ∈ p.values, G v) (he : e.Brings G) :
    ∀ v ∈ p'.values, G v := by
  intro v hv
  cases h with
  | value hdec hawait =>
    rcases PendingResolve.mem_values_receive.mp hv with hv | ⟨rfl, -⟩
    · exact hp v hv
    · exact he _ _ _ _ v rfl hdec (.value ..)

theorem PendingResolve.mem_of_result {p : PendingResolve} {values : List (List UInt8)}
    (h : p.result = .ok values) {v : List UInt8} (hv : v ∈ values) : v ∈ p.values := by
  rw [result] at h
  split at h
  · cases h
  · obtain rfl := Except.ok.inj h
    exact (Finset.mem_sort _).mp hv

/-- A client collects and returns only values that satisfy `G`, if all that arrive do. -/
theorem Actor.Collected.step {G : List UInt8 → Prop} {s : Actor} (hs : s.Collected G)
    {e : Actor.Event} (he : e.Brings G) :
    (s.step e).1.Collected G ∧ ∀ tx values,
      .ok values ∈ (s.step e).2.filterMap (Actor.resolvedOf tx) → ∀ v ∈ values, G v := by
  have hresult {p : PendingResolve} (hp : ∀ v ∈ p.values, G v) {values : List (List UInt8)}
      (hvalues : .ok values ∈ [p.result]) : ∀ v ∈ values, G v := by
    intro v hv
    exact hp v (PendingResolve.mem_of_result (List.mem_singleton.mp hvalues).symm hv)
  constructor
  · intro tx p hp
    have hstep := Actor.resolve_step s tx e
    rw [Actor.ResolveSees, hp] at hstep
    generalize hold : s.resolves.lookup tx = o at hstep
    generalize (s.step e).2.filterMap (Actor.resolvedOf tx) = out at hstep
    cases hstep with
    | idle | noServers => exact hs tx p hold
    | start => exact fun v hv => absurd hv (Finset.notMem_empty v)
    | update h hawait => exact h.values (hs tx _ hold) he
  · intro tx values hvalues
    have hstep := Actor.resolve_step s tx e
    rw [Actor.ResolveSees] at hstep
    generalize hold : s.resolves.lookup tx = o at hstep
    generalize (s.step e).1.resolves.lookup tx = o' at hstep
    generalize (s.step e).2.filterMap (Actor.resolvedOf tx) = out at hstep hvalues
    cases hstep with
    | idle | start | update => cases hvalues
    | noServers => cases List.mem_singleton.mp hvalues
    | finish h hdone => exact hresult (h.values (hs tx _ hold) he) hvalues
    | expire h => exact hresult (hs tx _ hold) hvalues

/-! ## The records that an index returns -/

namespace AddrIndex

variable {SecretKey EndpointId Signature κ : Type}
variable (K : Signing SecretKey EndpointId Signature)

/-- The records were decoded, for `addr`, from values that satisfy `G`. -/
def DecodedFrom (G : List UInt8 → Prop) (addr : SocketAddrV4)
    (records : List (SignedRecord EndpointId Signature)) : Prop :=
  ∀ r ∈ records, ∃ v, G v ∧ SignedRecord.decode K v addr = some r

theorem decodedFrom_filterMap {G : List UInt8 → Prop} (addr : SocketAddrV4)
    {values : List (List UInt8)} (h : ∀ v ∈ values, G v) :
    DecodedFrom K G addr (values.filterMap fun value => SignedRecord.decode K value addr) := by
  intro r hr
  obtain ⟨v, hv, hdec⟩ := List.mem_filterMap.mp hr
  exact ⟨v, h v hv, hdec⟩

/-- Every value that an index holds on to, or decoded a record from, satisfies `G`. -/
structure Vouched (G : List UInt8 → Prop) (s : AddrIndex EndpointId Signature κ) : Prop where
  /-- what its client collected -/
  collected : s.client.Collected G
  /-- what its client answered -/
  answered : ∀ c addr cached values, s.lookups c = .answered addr cached (.ok values) →
    ∀ v ∈ values, G v
  /-- what its cache remembers -/
  cached : ∀ cache addr records, s.cache = some cache → cache.Remembers addr records →
    DecodedFrom K G addr records

variable {K} {G : List UInt8 → Prop} {s : AddrIndex EndpointId Signature κ}

theorem DecodedFrom.mono {G' : List UInt8 → Prop} (hG : ∀ v, G v → G' v) {addr : SocketAddrV4}
    {records : List (SignedRecord EndpointId Signature)} (h : DecodedFrom K G addr records) :
    DecodedFrom K G' addr records := by
  intro r hr
  obtain ⟨v, hv, hdec⟩ := h r hr
  exact ⟨v, hG v hv, hdec⟩

theorem Vouched.mono {G' : List UInt8 → Prop} (hG : ∀ v, G v → G' v) (h : Vouched K G s) :
    Vouched K G' s where
  collected tx p hp v hv := hG v (h.collected tx p hp v hv)
  answered c addr cached values hc v hv := hG v (h.answered c addr cached values hc v hv)
  cached cache addr records hcache hrecords := (h.cached cache addr records hcache hrecords).mono hG

/-- The client takes a step. -/
theorem Vouched.command (h : Vouched K G s) {e : Actor.Event} (he : e.Brings G) :
    Vouched K G (s.command e).1 where
  collected := (h.collected.step he).1
  answered c addr cached values hc := by
    simp only [AddrIndex.command] at hc
    rcases hold : s.lookups c with - | addr' | ⟨addr', tx, cached'⟩ | ⟨addr', cached', result⟩
    · rw [hold] at hc
      cases hc
    · rw [hold] at hc
      cases hc
    · -- the client finished the transaction of this call
      rw [hold, Lookup.settle] at hc
      split at hc
      · rename_i result hresult
        obtain ⟨rfl, rfl, rfl⟩ := Lookup.answered.inj hc
        obtain ⟨action, hmem, haction⟩ := List.exists_of_findSome?_eq_some hresult
        exact (h.collected.step he).2 tx values (List.mem_filterMap.mpr ⟨action, hmem, haction⟩)
      · cases hc
    · rw [hold] at hc
      exact h.answered c addr cached values (hold.trans hc)
  cached := h.cached

/-- The cache is looked at. -/
theorem Vouched.get (h : Vouched K G s) {cache : LookupCache (SignedRecord EndpointId Signature)}
    (hcache : s.cache = some cache) (addr : SocketAddrV4) (now : Instant) :
    Vouched K G { s with cache := some (cache.get addr now).1 } where
  collected := h.collected
  answered := h.answered
  cached := by
    rintro _ addr' records ⟨⟩ hrecords
    exact h.cached cache addr' records hcache (LookupCache.remembers_get hrecords)

variable [DecidableEq κ]

theorem Vouched.move (h : Vouched K G s) (c : κ) {l : Lookup}
    (hl : ∀ addr cached values, l = .answered addr cached (.ok values) → ∀ v ∈ values, G v) :
    Vouched K G (s.move c l) where
  collected := h.collected
  answered c' addr cached values hc := by
    simp only [AddrIndex.move] at hc
    by_cases hcc : c' = c
    · rw [hcc, Function.update_self] at hc
      exact hl addr cached values hc
    · rw [Function.update_of_ne hcc] at hc
      exact h.answered c' addr cached values hc
  cached := h.cached

theorem Vouched.resolve (h : Vouched K G s) (c : κ) (addr : SocketAddrV4) (cached : Bool)
    (tx : TransactionId) (now : Instant) : Vouched K G (s.resolve K c addr cached tx now).1 := by
  refine (h.move c (l := .resolving addr tx cached) fun _ _ _ hl => nomatch hl).command ?_
  intro data src unixSecs m v he
  cases he

/-- **What an index returns.** If every value that arrives satisfies `G`, so do the values
that it holds on to, and those behind the records that it returns for a socket, which
were decoded for this socket. -/
theorem Vouched.step (h : Vouched K G s) (secret : SecretKey) {e : Event κ}
    (he : ∀ ce, Commands K secret e ce → ce.Brings G) :
    Vouched K G (s.step K secret e).1 ∧ ∀ addr records,
      (s.step K secret e).2.found = some (addr, .ok records) → DecodedFrom K G addr records := by
  cases e with
  | addServer addr => exact ⟨h.command (he _ (.addServer addr)), fun _ _ hf => nomatch hf⟩
  | replaceServers servers =>
    exact ⟨h.command (he _ (.replaceServers servers)), fun _ _ hf => nomatch hf⟩
  | removeServer addr => exact ⟨h.command (he _ (.removeServer addr)), fun _ _ hf => nomatch hf⟩
  | publish tx now => exact ⟨h.command (he _ (.publish tx now)), fun _ _ hf => nomatch hf⟩
  | lookup c addr tx now =>
    simp only [AddrIndex.step]
    split
    · exact ⟨h.resolve c addr false tx now, fun _ _ hf => nomatch hf⟩
    · rename_i cache hcache
      split
      · rename_i records hrecords
        refine ⟨h.get hcache addr now, ?_⟩
        rintro _ _ ⟨⟩
        exact h.cached cache addr records hcache (LookupCache.remembers_of_get hrecords)
      · exact ⟨(h.get hcache addr now).move c fun _ _ _ hl => (nomatch hl),
          fun _ _ hf => nomatch hf⟩
  | locked c tx now =>
    simp only [AddrIndex.step]
    split
    · rename_i addr cache hlookup hcache
      split
      · rename_i records hrecords
        refine ⟨(h.get hcache addr now).move c fun _ _ _ hl => (nomatch hl), ?_⟩
        rintro _ _ ⟨⟩
        exact h.cached cache addr records hcache (LookupCache.remembers_of_get hrecords)
      · exact ⟨(h.get hcache addr now).resolve c addr true tx now, fun _ _ hf => nomatch hf⟩
    · exact ⟨h, fun _ _ hf => nomatch hf⟩
  | lookupUncached c addr tx now =>
    exact ⟨h.resolve c addr false tx now, fun _ _ hf => nomatch hf⟩
  | finish c now =>
    have hidle := h.move c (l := .idle) fun _ _ _ hl => nomatch hl
    simp only [AddrIndex.step]
    split
    · exact ⟨hidle, fun _ _ hf => nomatch hf⟩
    · rename_i addr cached values hlookup
      have hrecords := decodedFrom_filterMap K addr (h.answered c addr cached values hlookup)
      constructor
      · refine ⟨hidle.collected, hidle.answered, fun m addr' records hm hremembers => ?_⟩
        dsimp only at hm
        split at hm
        · -- the cache remembers what this call returns
          obtain ⟨cache, hcache, rfl⟩ := Option.map_eq_some_iff.mp hm
          rcases LookupCache.remembers_insert hremembers with heq | hremembers
          · obtain ⟨rfl, rfl⟩ := Prod.mk.inj heq
            exact hrecords
          · exact h.cached cache addr' records hcache hremembers
        · exact h.cached m addr' records hm hremembers
      · rintro _ _ ⟨⟩
        exact hrecords
    · exact ⟨h, fun _ _ hf => nomatch hf⟩
  | cancel c => exact ⟨h.move c fun _ _ _ hl => (nomatch hl), fun _ _ hf => nomatch hf⟩
  | packet data src unixSecs =>
    exact ⟨h.command (he _ (.packet data src unixSecs)), fun _ _ hf => nomatch hf⟩
  | flush now => exact ⟨h.command (he _ (.flush now)), fun _ _ hf => nomatch hf⟩

/-- A call that returns something was ready to. -/
theorem enabled_of_found (K : Signing SecretKey EndpointId Signature) (secret : SecretKey)
    {c : κ} {now : Instant}
    {f : SocketAddrV4 × Except UdpError (List (SignedRecord EndpointId Signature))}
    (h : (s.step K secret (.finish c now)).2.found = some f) : s.Enabled (.finish c now) := by
  simp only [step] at h
  split at h
  · rename_i heq
    exact ⟨_, _, _, heq⟩
  · rename_i heq
    exact ⟨_, _, _, heq⟩
  · cases h

end AddrIndex

end ContentDiscovery
