import ContentDiscovery.AddrIndex
import ContentDiscovery.Transactions

/-!
# What a lookup finds

A lookup asks every server, and finishes with the first valid record for its socket.
A server answers it with its first reply. So a valid record that reaches the lookup
in time is returned unless another one came first (`lookup_finds`): no other reply
can hide it, whatever it says and whenever it comes. A valid record of another
endpoint can (`lookup_hides`).
-/

namespace ContentDiscovery

/-- What a call makes of the actions of the client depends on its own transaction. -/
theorem Lookup.settle_resolving (actions : List Action) (addr : SocketAddrV4)
    (tx : TransactionId) (cached : Bool) :
    (Lookup.resolving addr tx cached).settle actions =
      match actions.filterMap (Actor.resolvedOf tx) with
      | [] => .resolving addr tx cached
      | result :: _ => .answered addr cached result := by
  rw [settle, ← List.head?_filterMap]
  cases actions.filterMap (Actor.resolvedOf tx) <;> rfl

/-- A resolve heeds a reply of a server that it awaits. -/
theorem Actor.ResolveUpdate.inv {tx : TransactionId} {p p' : PendingResolve} {e : Actor.Event}
    {accepted : Bool} (h : Actor.ResolveUpdate tx p e p' accepted) :
    ∃ src v, src ∈ p.awaiting ∧ Actor.IsReply tx p.addr src v e ∧
      p' = (p.receive src v).1 ∧ accepted = (p.receive src v).2 := by
  obtain @⟨data, src, unixSecs, v, hdec, hawait⟩ := h
  exact ⟨src, v, hawait, ⟨data, unixSecs, rfl, hdec⟩, rfl, rfl⟩

namespace AddrIndex

variable {SecretKey EndpointId Signature κ : Type}

/-- The events of an index so far. -/
abbrev History (EndpointId Signature κ : Type) : Type :=
  List (Event κ × Output EndpointId Signature)

/-- An address index with distinct transaction ids. -/
def machine [DecidableEq κ] (K : Signing SecretKey EndpointId Signature) (secret : SecretKey)
    (timeout : ℕ) :
    Machine (AddrIndex EndpointId Signature κ) (Event κ) (Output EndpointId Signature) where
  init s := s.Initial ∧ s.client.timeout = timeout
  enabled t s e := s.Enabled e ∧ ∀ tx, e.tx = some tx → ∀ x ∈ t, x.1.tx ≠ some tx
  step s e := s.step K secret e

/-- The call that takes a step. -/
def Event.caller : Event κ → Option κ
  | .lookup c _ _ _ | .locked c _ _ | .lookupUncached c _ _ _ | .finish c _ | .cancel c => some c
  | _ => none

/-- The event is a reply of `q` to resolve `tx` of `addr`. -/
def Event.Replies (tx : TransactionId) (addr q : SocketAddrV4) (v : Option (List UInt8)) :
    Event κ → Prop
  | .packet data src unixSecs => Actor.IsReply tx addr q v (.packet data src unixSecs)
  | _ => False

/-- Server `q` was asked for the value of `addr`. -/
def Asked (actions : List Action) (tx : TransactionId) (addr q : SocketAddrV4) : Prop :=
  ∃ bytes, .send ⟨bytes, q⟩ ∈ actions ∧
    Proto.decode bytes = some (.request (.v1 (.get tx addr)))

variable (K : Signing SecretKey EndpointId Signature)

/-- After the events `before`, a server that was asked answers a lookup, for the first
time, with a valid record. -/
structure Answers (actions : List Action) (tx : TransactionId) (addr : SocketAddrV4)
    (before : History EndpointId Signature κ) (e : Event κ) (q : SocketAddrV4)
    (r : SignedRecord EndpointId Signature) : Prop where
  /-- it was asked -/
  asked : Asked actions tx addr q
  /-- it did not reply before -/
  first : ∀ y ∈ before, ∀ v, ¬ y.1.Replies tx addr q v
  /-- its value is a record for the socket that was looked up -/
  valid : ∃ v, e.Replies tx addr q (some v) ∧ v.length ≤ MAX_VALUE_LEN ∧
    SignedRecord.decode K v addr = some r

variable {K} {secret : SecretKey} {timeout : ℕ} {s : AddrIndex EndpointId Signature κ}
  {t : History EndpointId Signature κ} {e : Event κ} {c : κ} {addr : SocketAddrV4}
  {tx : TransactionId}

/-- A step that calls the client draws the id of its command. -/
theorem Commands.event {ce : Actor.Event} (h : Commands K secret e ce) (tx : TransactionId)
    (addr : SocketAddrV4) :
    (∀ addr' accept tx' now, ce = .message (.resolve addr' accept) tx' now → e.tx = some tx') ∧
      (∀ q v, Actor.IsReply tx addr q v ce → e.Replies tx addr q v) ∧
      ∀ q v, e.Replies tx addr q v → Actor.IsReply tx addr q v ce := by
  cases h with
  | packet data src unixSecs => exact ⟨fun _ _ _ _ h => (nomatch h), fun _ _ h => h, fun _ _ h => h⟩
  | lookup | locked | lookupUncached =>
    refine ⟨?_, fun _ _ ⟨_, _, h, _⟩ => (nomatch h), fun _ _ h => h.elim⟩
    rintro _ _ _ _ ⟨⟩
    rfl
  | _ =>
    exact ⟨fun _ _ _ _ h => (nomatch h), fun _ _ ⟨_, _, h, _⟩ => (nomatch h), fun _ _ h => h.elim⟩

variable [DecidableEq κ]

/-- A step that leaves the client alone is no reply. -/
theorem step_client_or (s : AddrIndex EndpointId Signature κ) (secret : SecretKey) (e : Event κ) :
    ((s.step K secret e).1.client = s.client ∧ (s.step K secret e).2.actions = [] ∧
        ∀ q v, ¬ e.Replies tx addr q v) ∨
      ∃ ce, Commands K secret e ce ∧ (s.step K secret e).1.client = (s.client.step ce).1 ∧
        (s.step K secret e).2.actions = (s.client.step ce).2 := by
  rcases step_client K s secret e with ⟨hclient, hactions⟩ | hcommand
  · cases e with
    | packet data src unixSecs => exact .inr ⟨_, .packet data src unixSecs, rfl, rfl⟩
    | _ => exact .inl ⟨hclient, hactions, fun _ _ h => h⟩
  · exact .inr hcommand

/-- Another call only moves when the client finishes its transaction. -/
theorem step_lookups (K : Signing SecretKey EndpointId Signature) (secret : SecretKey)
    (s : AddrIndex EndpointId Signature κ) (h : e.caller ≠ some c) :
    (s.step K secret e).1.lookups c =
      (s.lookups c).settle (s.step K secret e).2.actions := by
  have hsettle (l : Lookup) : l.settle [] = l := by
    cases l <;> rfl
  have hmove {c' : κ} (hc : some c' ≠ some c) (l : Lookup) :
      (s.move c' l).lookups c = s.lookups c :=
    Function.update_of_ne (fun heq => hc (congrArg some heq.symm)) _ _
  have hresolve {s' : AddrIndex EndpointId Signature κ} (hs : s'.lookups = s.lookups) {c' : κ}
      (hc : some c' ≠ some c) (addr : SocketAddrV4) (cached : Bool) (tx : TransactionId)
      (now : Instant) : (s'.resolve K c' addr cached tx now).1.lookups c =
        (s.lookups c).settle (s'.resolve K c' addr cached tx now).2.actions := by
    simp only [resolve, command, move, hs]
    rw [Function.update_of_ne fun heq => hc (congrArg some heq.symm)]
  cases e with
  | addServer | replaceServers | removeServer | publish | packet | flush => rfl
  | lookup c' addr tx now =>
    simp only [step]
    split
    · exact hresolve rfl h ..
    · split
      · exact (hsettle _).symm
      · exact (Function.update_of_ne (fun heq => h (congrArg some heq.symm)) _ _).trans
          (hsettle _).symm
  | locked c' tx now =>
    simp only [step]
    split
    · split
      · exact (Function.update_of_ne (fun heq => h (congrArg some heq.symm)) _ _).trans
          (hsettle _).symm
      · exact hresolve rfl h ..
    · exact (hsettle _).symm
  | lookupUncached c' addr tx now => exact hresolve rfl h ..
  | finish c' now =>
    simp only [step]
    split
    · exact (hmove h _).trans (hsettle _).symm
    · exact (hmove h _).trans (hsettle _).symm
    · exact (hsettle _).symm
  | cancel c' => exact (hmove h _).trans (hsettle _).symm

/-! ## While the lookup waits -/

/-- A call of `lookup_uncached` that waits for the client, `since` it asked `servers`. -/
structure Waiting (K : Signing SecretKey EndpointId Signature) (servers : HashSet SocketAddrV4)
    (addr : SocketAddrV4) (tx : TransactionId) (deadline : Instant) (c : κ)
    (since : History EndpointId Signature κ) (s : AddrIndex EndpointId Signature κ)
    (p : PendingResolve) : Prop where
  /-- the call waits -/
  lookup : s.lookups c = .resolving addr tx false
  /-- for this resolve -/
  pending : s.client.resolves.lookup tx = some p
  /-- of the socket -/
  addr_eq : p.addr = addr
  /-- which accepts valid records -/
  accept_eq : p.accept = some fun value => (SignedRecord.decode K value addr).isSome
  /-- the deadline does not move -/
  deadline_eq : p.deadline = deadline
  /-- the servers awaited are those asked that did not reply -/
  mem_awaiting : ∀ q, q ∈ p.awaiting ↔ q ∈ servers ∧ ∀ y ∈ since, ∀ v, ¬ y.1.Replies tx addr q v

variable {servers : HashSet SocketAddrV4} {deadline : Instant}
  {since : History EndpointId Signature κ} {p : PendingResolve}
  {out : Output EndpointId Signature}

/-- The resolve of a lookup that starts. -/
def pendingLookup (K : Signing SecretKey EndpointId Signature) (client : Actor)
    (addr : SocketAddrV4) (now : Instant) : PendingResolve :=
  ⟨addr, some fun value => (SignedRecord.decode K value addr).isSome, client.servers, ∅, false,
    now + client.timeout⟩

/-- A lookup starts: the servers are asked, and the call waits. -/
theorem resolve_eq (s : AddrIndex EndpointId Signature κ) (cached : Bool) (now : Instant)
    (hservers : s.client.servers ≠ ∅) {bytes : List UInt8}
    (hbytes : encode (.get tx addr) = some bytes) :
    s.resolve K c addr cached tx now =
      ({ s.move c (.resolving addr tx cached) with
          client := { s.client with
            resolves := s.client.resolves.insert tx (pendingLookup K s.client addr now) } },
        ⟨sendAll s.client.servers bytes, none⟩) := by
  have hsettle (l : Lookup) : l.settle (sendAll s.client.servers bytes) = l := by
    cases l with
    | resolving addr' tx' cached' =>
      rw [Lookup.settle_resolving, Actor.filterMap_resolvedOf_sendAll]
    | _ => rfl
  have hstep : s.client.step (.message (.resolve addr
      (some fun value => (SignedRecord.decode K value addr).isSome)) tx now) =
        ({ s.client with
            resolves := s.client.resolves.insert tx (pendingLookup K s.client addr now) },
          sendAll s.client.servers bytes) := by
    simp only [Actor.step, Actor.handleMessage, if_neg hservers, hbytes, pendingLookup]
  simp only [resolve, command, move, hstep, hsettle]

omit [DecidableEq κ] in
theorem asked_sendAll {servers : HashSet SocketAddrV4} {bytes : List UInt8}
    (hbytes : encode (.get tx addr) = some bytes) (q : SocketAddrV4) :
    Asked (sendAll servers bytes) tx addr q ↔ q ∈ servers := by
  simp only [Asked, sendAll, List.mem_map, Finset.mem_sort]
  constructor
  · rintro ⟨_, ⟨server, hserver, heq⟩, -⟩
    cases heq
    exact hserver
  · intro hq
    exact ⟨bytes, ⟨q, hq, rfl⟩, Actor.decode_encode hbytes⟩

/-- It starts to wait for the servers that it asks. -/
theorem waiting_start (s : AddrIndex EndpointId Signature κ) (secret : SecretKey) (now : Instant)
    (hservers : s.client.servers ≠ ∅) :
    (∃ p, Waiting K s.client.servers addr tx (now + s.client.timeout) c []
        (s.step K secret (.lookupUncached c addr tx now)).1 p) ∧
      ∀ q, Asked (s.step K secret (.lookupUncached c addr tx now)).2.actions tx addr q ↔
        q ∈ s.client.servers := by
  have hget : ∀ tx' token v, RequestV1.get tx addr = .put tx' token v →
      v.length ≤ MAX_VALUE_LEN := by
    rintro tx' token v ⟨⟩
  obtain ⟨bytes, hbytes⟩ := Actor.encode_eq_some hget
  rw [step, resolve_eq s false now hservers hbytes]
  refine ⟨⟨pendingLookup K s.client addr now, Function.update_self .., Finmap.lookup_insert _, rfl,
    rfl, rfl, fun q => ⟨fun hq => ⟨hq, ?_⟩, (·.1)⟩⟩, ?_⟩
  · intro _ hy
    cases hy
  exact asked_sendAll hbytes

/-- No server answers the lookup, and its time is not up: it waits on. -/
theorem Waiting.step (h : Waiting K servers addr tx deadline c since s p)
    (hcaller : e.caller ≠ some c) (htx : e.tx ≠ some tx)
    (hanswer : ∀ q ∈ servers, ∀ v r, (∀ y ∈ since, ∀ v, ¬ y.1.Replies tx addr q v) →
      e.Replies tx addr q (some v) → v.length ≤ MAX_VALUE_LEN →
      SignedRecord.decode K v addr ≠ some r)
    (htime : ∀ now, e = .flush now → now < deadline) {q : SocketAddrV4} (hq : q ∈ servers)
    (hsilent : ∀ y ∈ since ++ [(e, out)], ∀ v, ¬ y.1.Replies tx addr q v) :
    ∃ p', Waiting K servers addr tx deadline c (since ++ [(e, out)]) (s.step K secret e).1 p' := by
  have hlookup := step_lookups K secret s hcaller
  rw [h.lookup, Lookup.settle_resolving] at hlookup
  -- a reply that the resolve does not heed comes from a server that replied before
  have hkeeps {ce : Actor.Event}
      (hreplies : ∀ q v, e.Replies tx addr q v → Actor.IsReply tx addr q v ce)
      (hidle : ∀ p' accepted, ¬ Actor.ResolveUpdate tx p ce p' accepted) (q : SocketAddrV4) :
      q ∈ p.awaiting ↔ q ∈ servers ∧
        ∀ y ∈ since ++ [(e, out)], ∀ v, ¬ y.1.Replies tx addr q v := by
    rw [h.mem_awaiting, List.forall_mem_append, List.forall_mem_singleton]
    refine and_congr_right fun hserver => ⟨fun hnone => ⟨hnone, fun v hv => ?_⟩, (·.1)⟩
    obtain ⟨data, unixSecs, rfl, hdec⟩ := hreplies q v hv
    rw [← h.addr_eq] at hdec
    exact hidle _ _ (.value hdec ((h.mem_awaiting q).mpr ⟨hserver, hnone⟩))
  rcases step_client_or (K := K) s secret e with
    ⟨hclient, hactions, hno⟩ | ⟨ce, hce, hclient, hactions⟩
  · rw [hactions] at hlookup
    refine ⟨p, hlookup, hclient ▸ h.pending, h.addr_eq, h.accept_eq, h.deadline_eq, fun q => ?_⟩
    rw [h.mem_awaiting, List.forall_mem_append, List.forall_mem_singleton]
    exact and_congr_right fun _ => ⟨fun hnone => ⟨hnone, hno q⟩, (·.1)⟩
  obtain ⟨hstarts, hreply, hreplies⟩ := hce.event tx addr
  -- a reply that it heeds is no valid record, and settles the server that sent it
  have hheeded {p' : PendingResolve} {accepted : Bool}
      (hu : Actor.ResolveUpdate tx p ce p' accepted) :
      accepted = false ∧ p'.addr = addr ∧ p'.accept = p.accept ∧ p'.deadline = p.deadline ∧
        ∀ q, q ∈ p'.awaiting ↔ q ∈ servers ∧
          ∀ y ∈ since ++ [(e, out)], ∀ v, ¬ y.1.Replies tx addr q v := by
    obtain ⟨src, v, hawait, hsrc, rfl, rfl⟩ := hu.inv
    obtain ⟨haddr, haccept, hdeadline, hawaiting, -⟩ := p.receive_frame src v
    obtain ⟨hserver, hfirst⟩ := (h.mem_awaiting src).mp hawait
    rw [h.addr_eq] at hsrc haddr
    refine ⟨?_, haddr, haccept, hdeadline, fun q => ?_⟩
    · rw [← Bool.not_eq_true, PendingResolve.snd_receive, h.accept_eq]
      rintro ⟨w, rfl, hfit, haccepted⟩
      obtain ⟨r, hr⟩ := Option.isSome_iff_exists.mp haccepted
      exact hanswer src hserver w r hfirst (hreply src _ hsrc) hfit hr
    · rw [hawaiting, Finset.mem_erase, h.mem_awaiting, List.forall_mem_append,
        List.forall_mem_singleton]
      constructor
      · rintro ⟨hne, hserver', hnone⟩
        refine ⟨hserver', hnone, fun v' hv' => ?_⟩
        exact hne ((hreplies q v' hv').unique hsrc).1
      · rintro ⟨hserver', hnone, hnew⟩
        refine ⟨?_, hserver', hnone⟩
        rintro rfl
        exact hnew v (hreply q v hsrc)
  have hstep := Actor.resolve_step s.client tx ce
  rw [Actor.ResolveSees, h.pending, ← hclient] at hstep
  rw [hactions] at hlookup
  generalize hp' : (s.step K secret e).1.client.resolves.lookup tx = o at hstep
  generalize (s.client.step ce).2.filterMap (Actor.resolvedOf tx) = results at hstep hlookup
  cases hstep with
  | idle hidle =>
    exact ⟨p, hlookup, hp', h.addr_eq, h.accept_eq, h.deadline_eq,
      hkeeps hreplies (hidle p rfl).1⟩
  | noServers => exact absurd (hstarts _ _ _ _ rfl) htx
  | start => exact absurd (hstarts _ _ _ _ rfl) htx
  | @update p p' _ hu hawait =>
    obtain ⟨-, haddr, haccept, hdeadline, hmem⟩ := hheeded hu
    exact ⟨p', hlookup, hp', haddr, haccept.trans h.accept_eq, hdeadline.trans h.deadline_eq, hmem⟩
  | @finish p p' _ accepted hu hdone =>
    obtain ⟨rfl, -, -, -, hmem⟩ := hheeded hu
    have hawait : q ∈ p'.awaiting := (hmem q).mpr ⟨hq, hsilent⟩
    rw [hdone.resolve_left Bool.false_ne_true] at hawait
    cases hawait
  | @expire p now hle =>
    cases hce
    rw [h.deadline_eq] at hle
    exact absurd (htime now rfl) (not_lt.mpr hle)

/-- A server answers: the call has its value, and maybe those of others. -/
theorem Waiting.answer (h : Waiting K servers addr tx deadline c since s p)
    (hcaller : e.caller ≠ some c) {q : SocketAddrV4} (hq : q ∈ servers)
    (hfirst : ∀ y ∈ since, ∀ v, ¬ y.1.Replies tx addr q v) {v : List UInt8}
    (hreplies : e.Replies tx addr q (some v)) (hfit : v.length ≤ MAX_VALUE_LEN)
    {r : SignedRecord EndpointId Signature} (hr : SignedRecord.decode K v addr = some r) :
    ∃ values, (s.step K secret e).1.lookups c = .answered addr false (.ok values) ∧ v ∈ values := by
  have hlookup := step_lookups K secret s hcaller
  rw [h.lookup, Lookup.settle_resolving] at hlookup
  rcases step_client_or (K := K) s secret e with ⟨-, -, hno⟩ | ⟨ce, hce, -, hactions⟩
  · exact absurd hreplies (hno q _)
  have hreply := (hce.event tx addr).2.2 q _ hreplies
  have hawait : q ∈ p.awaiting := (h.mem_awaiting q).mpr ⟨hq, hfirst⟩
  have haccepts : (p.receive q (some v)).2 = true := by
    rw [PendingResolve.snd_receive, h.accept_eq]
    refine ⟨v, rfl, hfit, ?_⟩
    simp only [Option.any_some, hr, Option.isSome_some]
  have hstep := Actor.resolve_step s.client tx ce
  rw [Actor.ResolveSees, h.pending] at hstep
  rw [hactions] at hlookup
  generalize (s.client.step ce).1.resolves.lookup tx = o at hstep
  generalize (s.client.step ce).2.filterMap (Actor.resolvedOf tx) = results at hstep hlookup
  -- what the resolve heeds in this event is this reply
  have hthis {p' : PendingResolve} {accepted : Bool}
      (hu : Actor.ResolveUpdate tx p ce p' accepted) :
      p' = (p.receive q (some v)).1 ∧ accepted = true := by
    obtain ⟨src, v', -, hsrc, rfl, rfl⟩ := hu.inv
    rw [h.addr_eq] at hsrc
    obtain ⟨rfl, rfl⟩ := hsrc.unique hreply
    exact ⟨rfl, haccepts⟩
  cases hstep with
  | idle hidle =>
    obtain ⟨data, unixSecs, rfl, hdec⟩ := hreply
    rw [← h.addr_eq] at hdec
    exact absurd (.value hdec hawait) ((hidle p rfl).1 _ _)
  | noServers =>
    obtain ⟨_, _, heq, -⟩ := hreply
    cases heq
  | start =>
    obtain ⟨_, _, heq, -⟩ := hreply
    cases heq
  | update hu => cases (hthis hu).2
  | @finish p p' _ accepted hu hdone =>
    obtain ⟨rfl, -⟩ := hthis hu
    refine ⟨(p.receive q (some v)).1.values.sort, ?_, ?_⟩
    · rw [hlookup]
      dsimp only
      rw [PendingResolve.result, (p.receive_frame q (some v)).2.2.2.2]
      rfl
    · rw [Finset.mem_sort, PendingResolve.mem_values_receive]
      exact .inr ⟨rfl, hfit⟩
  | expire =>
    obtain ⟨_, _, heq, -⟩ := hreply
    cases heq

/-! ## Over a run -/

theorem timeout_run (h : (machine K secret timeout).Run t s) : s.client.timeout = timeout := by
  refine h.invariant (I := fun _ s => s.client.timeout = timeout) ?_ ?_
  · intro s hs
    exact hs.2
  · intro t s e _ _ htimeout
    rcases step_client K s secret e with ⟨hclient, -⟩ | ⟨ce, -, hclient, -⟩
    · exact (congrArg Actor.timeout hclient).trans htimeout
    · exact (congrArg Actor.timeout hclient).trans ((s.client.step_config ce).2.trans htimeout)

variable {pre before : History EndpointId Signature κ} {now : Instant}
  {asked : Output EndpointId Signature}

/-- A lookup waits as long as a server that it asked keeps silent, none answers, and its
time is not up. -/
theorem waiting_run
    (h : (machine K secret timeout).Run
      (pre ++ (.lookupUncached c addr tx now, asked) :: before) s)
    (hcaller : ∀ y ∈ before, y.1.caller ≠ some c)
    (htime : ∀ y ∈ before, ∀ now', y.1 = .flush now' → now' < now + timeout)
    (hnone : ∀ l y l', before = l ++ y :: l' → ∀ q r, ¬ Answers K asked.actions tx addr l y.1 q r)
    {q : SocketAddrV4} (hq : Asked asked.actions tx addr q)
    (hsilent : ∀ y ∈ before, ∀ v, ¬ y.1.Replies tx addr q v) :
    ∃ servers p, Waiting K servers addr tx (now + timeout) c before s p ∧
      ∀ q, Asked asked.actions tx addr q ↔ q ∈ servers := by
  induction before using List.reverseRecOn generalizing s with
  | nil =>
    obtain ⟨s₁, hrun, -, hstep⟩ := h.of_concat
    obtain ⟨rfl, rfl⟩ := Prod.mk.inj hstep
    rw [← timeout_run hrun]
    have hservers : s₁.client.servers ≠ ∅ := by
      intro hempty
      obtain ⟨bytes, hsend, -⟩ := hq
      simp [move, Actor.step, Actor.handleMessage, hempty] at hsend
    obtain ⟨⟨p, hwaiting⟩, hasked⟩ := waiting_start s₁ secret now hservers
    exact ⟨s₁.client.servers, p, hwaiting, hasked⟩
  | append_singleton before x ih =>
    rw [← List.cons_append, ← List.append_assoc] at h
    obtain ⟨s₁, hrun, hen, hstep⟩ := h.of_concat
    rw [List.forall_mem_append, List.forall_mem_singleton] at hcaller htime
    obtain ⟨servers, p, hwaiting, hservers⟩ := ih hrun hcaller.1 htime.1
      (fun l y l' heq => hnone l y (l' ++ [x]) (by rw [heq]; simp))
      (fun y hy => hsilent y (List.mem_append_left _ hy))
    have hs : s = (s₁.step K secret x.1).1 := (congrArg Prod.fst hstep).symm
    have hwaits : ∃ p', Waiting K servers addr tx (now + timeout) c (before ++ [x])
        (s₁.step K secret x.1).1 p' := by
      refine hwaiting.step hcaller.2 ?_ ?_ htime.2 ((hservers q).mp hq) hsilent
      · intro htx
        exact hen.2 tx htx _ (List.mem_append_right _ List.mem_cons_self) rfl
      · intro q' hq' v r hfirst hreplies hfit hr
        exact hnone before x [] rfl q' r ⟨(hservers q').mpr hq', hfirst, v, hreplies, hfit, hr⟩
    obtain ⟨p', hp'⟩ := hwaits
    rw [hs]
    exact ⟨servers, p', hp', hservers⟩

/-- A call that has its values keeps them until it goes on. -/
theorem answered_run {after : History EndpointId Signature κ} {v : List UInt8}
    (h : (machine K secret timeout).Run (t ++ after) s)
    (hstart : ∀ s, (machine K secret timeout).Run t s →
      ∃ values, s.lookups c = .answered addr false (.ok values) ∧ v ∈ values)
    (hcaller : ∀ y ∈ after, y.1.caller ≠ some c) :
    ∃ values, s.lookups c = .answered addr false (.ok values) ∧ v ∈ values := by
  induction after using List.reverseRecOn generalizing s with
  | nil => exact hstart s (by rwa [List.append_nil] at h)
  | append_singleton after x ih =>
    rw [← List.append_assoc] at h
    obtain ⟨s₁, hrun, -, hstep⟩ := h.of_concat
    rw [List.forall_mem_append, List.forall_mem_singleton] at hcaller
    obtain ⟨values, hvalues, hv⟩ := ih hrun hcaller.1
    have hs : s = (s₁.step K secret x.1).1 := (congrArg Prod.fst hstep).symm
    rw [hs, step_lookups K secret s₁ hcaller.2, hvalues]
    exact ⟨values, rfl, hv⟩

omit [DecidableEq κ] in
/-- Of the servers that answer, one is the first. -/
theorem exists_first {asked : List Action} (before after : History EndpointId Signature κ)
    {x : Event κ × Output EndpointId Signature}
    {q : SocketAddrV4} {r : SignedRecord EndpointId Signature}
    (h : Answers K asked tx addr before x.1 q r) :
    ∃ first y rest q' r', before ++ x :: after = first ++ y :: rest ∧ first <+: before ∧
      Answers K asked tx addr first y.1 q' r' ∧
      ∀ l z l', first = l ++ z :: l' → ∀ q r, ¬ Answers K asked tx addr l z.1 q r := by
  induction hn : before.length using Nat.strong_induction_on generalizing before after x q r with
  | _ n ih =>
    by_cases hnone : ∀ l z l', before = l ++ z :: l' → ∀ q r, ¬ Answers K asked tx addr l z.1 q r
    · exact ⟨before, x, after, q, r, rfl, List.prefix_rfl, h, hnone⟩
    · simp only [not_forall, not_not] at hnone
      obtain ⟨l, z, l', rfl, q', r', hanswer⟩ := hnone
      obtain ⟨first, y, rest, q'', r'', heq, hwithin, hfirst⟩ :=
        ih l.length (by rw [← hn]; simp) l (l' ++ x :: after) hanswer rfl
      refine ⟨first, y, rest, q'', r'', ?_, hwithin.trans (List.prefix_append _ _), hfirst⟩
      rw [List.append_assoc, List.cons_append, heq]

/-- **What a lookup finds.** In every run, whatever datagrams arrive: if a server that a
call of `lookup_uncached` asked answers it, before its deadline, with a valid record,
then the call is ready to return, with a valid record for its socket; and with this very
one if no other server has answered it with a valid record before. -/
theorem lookup_finds {K : Signing SecretKey EndpointId Signature} {secret : SecretKey}
    {timeout : ℕ} {t : History EndpointId Signature κ} {s : AddrIndex EndpointId Signature κ}
    (h : (machine K secret timeout).Run t s)
    {pre before after : History EndpointId Signature κ} {c : κ} {addr : SocketAddrV4}
    {tx : TransactionId} {now : Instant} {asked : Output EndpointId Signature}
    {x : Event κ × Output EndpointId Signature}
    (ht : t = pre ++ (.lookupUncached c addr tx now, asked) :: before ++ x :: after)
    (hcaller : ∀ y ∈ before ++ x :: after, y.1.caller ≠ some c)
    (htime : ∀ y ∈ before, ∀ n, y.1 = .flush n → n < now + timeout)
    {q : SocketAddrV4} {r : SignedRecord EndpointId Signature}
    (hanswer : Answers K asked.actions tx addr before x.1 q r) :
    ∃ records,
      (∀ now', s.Enabled (.finish c now') ∧
        (s.step K secret (.finish c now')).2.found = some (addr, .ok records)) ∧
      (∃ r' ∈ records, ∃ v, SignedRecord.decode K v addr = some r') ∧
      ((∀ l y l', before = l ++ y :: l' → ∀ q' r', ¬ Answers K asked.actions tx addr l y.1 q' r') →
        r ∈ records) := by
  -- what the call returns if the record `r₁` came first
  have hfinds {first rest : History EndpointId Signature κ}
      {y : Event κ × Output EndpointId Signature} {q₁ : SocketAddrV4}
      {r₁ : SignedRecord EndpointId Signature}
      (heq : before ++ x :: after = first ++ y :: rest) (hwithin : first <+: before)
      (hfirst : Answers K asked.actions tx addr first y.1 q₁ r₁)
      (hnone : ∀ l z l', first = l ++ z :: l' →
        ∀ q r, ¬ Answers K asked.actions tx addr l z.1 q r) :
      ∃ records, (∀ now', s.Enabled (.finish c now') ∧
          (s.step K secret (.finish c now')).2.found = some (addr, .ok records)) ∧
        r₁ ∈ records ∧ ∃ v, SignedRecord.decode K v addr = some r₁ := by
    rw [heq, List.forall_mem_append, List.forall_mem_cons] at hcaller
    obtain ⟨hcaller₁, hcallery, hcaller₂⟩ := hcaller
    obtain ⟨v, hreplies, hfit, hr⟩ := hfirst.valid
    have hy (s : AddrIndex EndpointId Signature κ)
        (hs : (machine K secret timeout).Run
          (pre ++ (.lookupUncached c addr tx now, asked) :: (first ++ [y])) s) :
        ∃ values, s.lookups c = .answered addr false (.ok values) ∧ v ∈ values := by
      rw [← List.cons_append, ← List.append_assoc] at hs
      obtain ⟨s₁, hrun, -, hstep⟩ := hs.of_concat
      obtain ⟨servers, p, hwaiting, hservers⟩ := waiting_run hrun hcaller₁
        (fun z hz => htime z (hwithin.subset hz)) hnone hfirst.asked hfirst.first
      have hs : s = (s₁.step K secret y.1).1 := (congrArg Prod.fst hstep).symm
      rw [hs]
      exact hwaiting.answer hcallery ((hservers q₁).mp hfirst.asked) hfirst.first hreplies hfit hr
    have hrest : (machine K secret timeout).Run
        (pre ++ (.lookupUncached c addr tx now, asked) :: (first ++ [y]) ++ rest) s := by
      rw [ht, List.append_assoc, List.cons_append, heq] at h
      simpa using h
    obtain ⟨values, hvalues, hv⟩ := answered_run hrest hy hcaller₂
    refine ⟨values.filterMap fun value => SignedRecord.decode K value addr, fun now' => ⟨?_, ?_⟩,
      List.mem_filterMap.mpr ⟨v, hv, hr⟩, v, hr⟩
    · exact ⟨addr, false, .ok values, hvalues⟩
    · simp only [step, hvalues]
  obtain ⟨first, y, rest, q₁, r₁, heq, hwithin, hfirst, hnone⟩ := exists_first before after hanswer
  obtain ⟨records, hfound, hmem, hvalid⟩ := hfinds heq hwithin hfirst hnone
  refine ⟨records, hfound, ⟨r₁, hmem, hvalid⟩, fun hnone' => ?_⟩
  obtain ⟨records', hfound', hmem', -⟩ := hfinds rfl List.prefix_rfl hanswer hnone'
  have heq' := (hfound 0).2.symm.trans (hfound' 0).2
  cases heq'
  exact hmem'

/-! ### Sample runs -/

namespace Sample

open SignedRecord.Sample (socket signing record)

/-- One server. -/
def server : SocketAddrV4 := ⟨⟨192, 0, 2, 53⟩, 6881⟩

/-- Another one. -/
def server₂ : SocketAddrV4 := ⟨⟨198, 51, 100, 53⟩, 6881⟩

/-- An address index whose signatures are Ed25519's on the sampled records. -/
def index : Machine (AddrIndex (List.Vector UInt8 32) (List.Vector UInt8 64) Unit) (Event Unit)
    (Output (List.Vector UInt8 32) (List.Vector UInt8 64)) :=
  machine signing true DEFAULT_TIMEOUT

/-- It is built. -/
def start : AddrIndex (List.Vector UInt8 32) (List.Vector UInt8 64) Unit :=
  ⟨.new DEFAULT_TIMEOUT, none, fun _ => .idle⟩

/-- Both servers are configured. -/
def configure : Event Unit := .replaceServers {server, server₂}

/-- The socket is looked up. -/
def lookup : Event Unit := .lookupUncached () socket 1 0

/-- The datagram with which a server replies. -/
def reply (v : List UInt8) : List UInt8 :=
  MAGIC ++ Proto.codec.enc (.response (.v1 (.value 1 socket (some v))))

/-- A server replies with the record of an endpoint. -/
def answer (q : SocketAddrV4) (key : Bool) : Event Unit :=
  .packet (reply ((record key).encode signing)) q 0

/-- A server replies with anything. -/
def garbage : Event Unit := .packet (reply [7]) server₂ 0

theorem decode_reply (key : Bool) : Proto.decode (reply ((record key).encode signing)) =
    some (.response (.v1 (.value 1 socket (some ((record key).encode signing))))) := by
  cases key <;> decide +kernel

theorem decode_garbage :
    Proto.decode (reply [7]) = some (.response (.v1 (.value 1 socket (some [7])))) := by
  decide +kernel

/-- The request to the servers. -/
def get : List UInt8 := (encode (.get 1 socket)).getD []

/-- The state when the lookup waits. -/
def waiting : AddrIndex (List.Vector UInt8 32) (List.Vector UInt8 64) Unit :=
  let client : Actor := { Actor.new DEFAULT_TIMEOUT with servers := {server, server₂} }
  ⟨{ client with resolves := client.resolves.insert 1 (pendingLookup signing client socket 0) },
    none, fun _ => .resolving socket 1 false⟩

/-- What the start of the lookup shows. -/
def asks : Output (List.Vector UInt8 32) (List.Vector UInt8 64) :=
  ⟨sendAll {server, server₂} get, none⟩

theorem encode_get : encode (.get 1 socket) = some get := by
  decide +kernel

theorem run_waiting : ∃ out, index.Run [(configure, out), (lookup, asks)] waiting := by
  have h₀ : index.Run [] start := .start ⟨⟨⟨_, rfl⟩, .inl rfl, fun _ => rfl⟩, rfl⟩
  have h₁ := h₀.step (a := configure) ⟨trivial, fun _ htx => nomatch htx⟩
  have h₂ := h₁.step (a := lookup) ⟨rfl, by
    rintro _ - x hx heq
    obtain rfl := List.mem_singleton.mp hx
    cases heq⟩
  have hstep : index.step (index.step start configure).1 lookup = (waiting, asks) := by
    have hservers : (index.step start configure).1.client.servers ≠ ∅ :=
      Finset.insert_ne_empty _ _
    refine (resolve_eq _ false 0 hservers encode_get).trans ?_
    have hlookups : Function.update (index.step start configure).1.lookups ()
        (.resolving socket 1 false) = fun _ => .resolving socket 1 false :=
      funext fun _ => Function.update_self ..
    simp only [move, hlookups]
    rfl
  rw [hstep] at h₂
  exact ⟨_, h₂⟩

theorem both_asked (q : SocketAddrV4) (hq : q = server ∨ q = server₂) :
    Asked asks.actions 1 socket q :=
  (asked_sendAll encode_get q).mpr (by rcases hq with rfl | rfl <;> simp)

/-- The first reply of a server is the record of an endpoint. -/
theorem answers {q : SocketAddrV4} (hq : q = server ∨ q = server₂) (key : Bool)
    (before : History (List.Vector UInt8 32) (List.Vector UInt8 64) Unit)
    (hfirst : ∀ y ∈ before, ∀ v, ¬ y.1.Replies 1 socket q v) :
    Answers signing asks.actions 1 socket before (answer q key) q (record key) where
  asked := both_asked q hq
  first := hfirst
  valid := by
    refine ⟨(record key).encode signing, ⟨_, _, rfl, decode_reply key⟩, ?_,
      SignedRecord.Sample.decode_record key⟩
    cases key <;> decide +kernel

/-- A datagram is no reply of a server that did not send it. -/
theorem not_replies {data : List UInt8} {src q : SocketAddrV4} (hne : src ≠ q)
    {v : Option (List UInt8)} : ¬ Event.Replies (κ := Unit) 1 socket q v (.packet data src 0) := by
  rintro ⟨_, _, heq, -⟩
  exact hne (Actor.Event.packet.inj heq).2.1

end Sample

/-- One server replies with anything, then the other one with a record. It is returned. -/
theorem lookup_finds_sample : ∃ t s, Sample.index.Run t s ∧ ∃ records,
    (s.step SignedRecord.Sample.signing true (.finish () 0)).2.found =
        some (SignedRecord.Sample.socket, .ok records) ∧
      SignedRecord.Sample.record true ∈ records := by
  obtain ⟨out, h₀⟩ := Sample.run_waiting
  have h₁ := h₀.step (a := Sample.garbage) ⟨trivial, fun _ htx => nomatch htx⟩
  have h₂ := h₁.step (a := Sample.answer Sample.server true) ⟨trivial, fun _ htx => nomatch htx⟩
  have hanswer := Sample.answers (.inl rfl) true
    [(Sample.garbage, (Sample.index.step Sample.waiting Sample.garbage).2)] (by
      intro y hy v
      rw [List.mem_singleton.mp hy]
      exact Sample.not_replies (by decide))
  obtain ⟨records, hready, -, hmem⟩ := lookup_finds h₂ (rfl : _ = [_] ++ _ :: [_] ++ _ :: [])
    (by simp [Sample.garbage, Sample.answer, Event.caller]) (by simp [Sample.garbage]) hanswer
  refine ⟨_, _, h₂, records, (hready 0).2, hmem ?_⟩
  -- the reply that came first is no record
  intro l y l' heq q r hbefore
  obtain ⟨v, hreplies, -, hr⟩ := hbefore.valid
  cases l with
  | nil =>
    obtain ⟨rfl, -⟩ := List.cons.inj heq
    obtain ⟨_, _, hpacket, hdec⟩ := hreplies
    obtain ⟨rfl, rfl, rfl⟩ := Actor.Event.packet.inj hpacket
    rw [Sample.decode_garbage] at hdec
    cases hdec
    have hnone : SignedRecord.decode SignedRecord.Sample.signing [7] SignedRecord.Sample.socket =
        none := by
      decide +kernel
    rw [hnone] at hr
    cases hr
  | cons z l => simp at heq

/-- One server replies with the record of another endpoint first. The lookup is ready to
return this record alone when the reply with the record of the endpoint arrives, before
the deadline. -/
theorem lookup_hides : ∃ t s, Sample.index.Run t s ∧ ∃ pre before after c addr tx now asked x q r,
    t = pre ++ (.lookupUncached c addr tx now, asked) :: before ++ x :: after ∧
      (∀ y ∈ before ++ x :: after, y.1.caller ≠ some c) ∧
      (∀ y ∈ before, ∀ n, y.1 = .flush n → n < now + DEFAULT_TIMEOUT) ∧
      Answers SignedRecord.Sample.signing asked.actions tx addr before x.1 q r ∧
      s.Enabled (.finish c 0) ∧ ∃ records,
        (s.step SignedRecord.Sample.signing true (.finish c 0)).2.found = some (addr, .ok records) ∧
          ∀ r' ∈ records, r'.endpointId ≠ r.endpointId := by
  obtain ⟨out, h₀⟩ := Sample.run_waiting
  have h₁ := h₀.step (a := Sample.answer Sample.server₂ false) ⟨trivial, fun _ htx => nomatch htx⟩
  have h₂ := h₁.step (a := Sample.answer Sample.server true) ⟨trivial, fun _ htx => nomatch htx⟩
  have hanswer := Sample.answers (.inl rfl) true [(Sample.answer Sample.server₂ false,
      (Sample.index.step Sample.waiting (Sample.answer Sample.server₂ false)).2)] (by
    intro y hy v
    rw [List.mem_singleton.mp hy]
    exact Sample.not_replies (by decide))
  have hfound : ((Sample.index.step (Sample.index.step Sample.waiting
      (Sample.answer Sample.server₂ false)).1 (Sample.answer Sample.server true)).1.step
        SignedRecord.Sample.signing true (.finish () 0)).2.found =
      some (SignedRecord.Sample.socket, .ok [SignedRecord.Sample.record false]) := by
    decide +kernel
  refine ⟨_, _, h₂, [_], _, [], _, _, _, _, _, _, _, _, rfl, ?_, ?_, hanswer,
    enabled_of_found _ _ hfound, _, hfound, ?_⟩
  · simp [Sample.answer, Event.caller]
  · simp [Sample.answer]
  · decide +kernel

end AddrIndex

end ContentDiscovery
