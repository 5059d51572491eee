import ContentDiscovery.Collections
import ContentDiscovery.Machine
import ContentDiscovery.Proto
import Mathlib.Data.Finset.Sort
import Mathlib.Data.List.Lex

/-!
# The client of the index servers

The actor of `iroh-mainline-endpoint-discovery/src/udp.rs`. It runs any number of
publishes and resolves at a time, each under a transaction id, and its inputs are
the commands of its callers, the datagrams that arrive, and its timer.

Results leave through the channel of the call; here the transaction id names it.
The source visits a hash set in any order, this model in ascending order. The clock
that a value builder reads is passed to it.
-/

namespace ContentDiscovery

/-- `DEFAULT_TIMEOUT`: two seconds. -/
def DEFAULT_TIMEOUT : ℕ := 2 * 10 ^ 9

/-- `UdpError`, less the failures of the channels around the actor. -/
inductive UdpError where
  /-- no matching response arrived before the deadline -/
  | timeout
  /-- the opaque value exceeds `MAX_VALUE_LEN` or the UDP datagram limit -/
  | tooLarge
  /-- no server addresses are configured -/
  | noServers
  deriving DecidableEq, Repr

/-- `Accept`: decides whether a looked-up value is good enough to stop waiting. -/
abbrev Accept : Type := List UInt8 → Bool

/-- `ValueFor`: builds the value to store from the public socket a server observed,
at a time in unix seconds. -/
abbrev ValueFor : Type := SocketAddrV4 → UInt64 → List UInt8

/-- `ActorMsg`, less the channels the results go to. -/
inductive ActorMsg where
  /-- adds a server used by subsequent operations -/
  | addServer (addr : SocketAddrV4)
  /-- replaces all servers -/
  | replaceServers (servers : HashSet SocketAddrV4)
  /-- removes a configured server -/
  | removeServer (addr : SocketAddrV4)
  /-- publishes a value to every responsive server -/
  | publish (value : ValueFor)
  /-- reads values, returning as soon as one is accepted -/
  | resolve (addr : SocketAddrV4) (accept : Option Accept)

/-- `PendingPublish`. -/
structure PendingPublish where
  /-- builds the value for a server -/
  value : ValueFor
  /-- whether a built value was too large, so the failure is not a timeout -/
  tooLarge : Bool
  /-- servers that have not answered -/
  awaiting : HashSet SocketAddrV4
  /-- servers already sent a put -/
  prepared : HashSet SocketAddrV4
  /-- the sockets under which servers stored the value -/
  stored : HashSet SocketAddrV4
  /-- when to stop waiting -/
  deadline : Instant

/-- `PendingResolve`. -/
structure PendingResolve where
  /-- the socket looked up -/
  addr : SocketAddrV4
  /-- finishes the lookup early on the first value it accepts -/
  accept : Option Accept
  /-- servers that have not answered -/
  awaiting : HashSet SocketAddrV4
  /-- the values received -/
  values : HashSet (List UInt8)
  /-- whether any server answered -/
  responded : Bool
  /-- when to stop waiting -/
  deadline : Instant

/-- `Actor`. -/
structure Actor where
  /-- the servers new operations use -/
  servers : HashSet SocketAddrV4
  /-- the publishes in flight -/
  publishes : HashMap TransactionId PendingPublish
  /-- the resolves in flight -/
  resolves : HashMap TransactionId PendingResolve
  /-- how long an operation may take -/
  timeout : ℕ

/-- What the actor does. -/
inductive Action where
  /-- sends a datagram -/
  | send (d : Datagram)
  /-- finishes a publish -/
  | published (tx : TransactionId) (result : Except UdpError (List SocketAddrV4))
  /-- finishes a resolve -/
  | resolved (tx : TransactionId) (result : Except UdpError (List (List UInt8)))
  deriving DecidableEq

/-- `PendingPublish` to its result: the sorted sockets, or why there are none. -/
def PendingPublish.result (pending : PendingPublish) : Except UdpError (List SocketAddrV4) :=
  if pending.stored = ∅ then
    if pending.tooLarge then .error .tooLarge else .error .timeout
  else .ok pending.stored.sort

/-- `PendingResolve` to its result: the sorted values, or a timeout. -/
def PendingResolve.result (pending : PendingResolve) : Except UdpError (List (List UInt8)) :=
  if !pending.responded then .error .timeout else .ok pending.values.sort

/-- What a `Value` makes of a resolve, and whether its value was accepted. -/
def PendingResolve.receive (pending : PendingResolve) (src : SocketAddrV4)
    (value : Option (List UInt8)) : PendingResolve × Bool :=
  let pending := { pending with awaiting := pending.awaiting.erase src, responded := true }
  match value with
  | none => (pending, false)
  | some value =>
    if value.length ≤ MAX_VALUE_LEN then
      ({ pending with values := insert value pending.values },
        pending.accept.any fun accept => accept value)
    else (pending, false)

/-- What a reply leaves as it is, and what it settles. -/
theorem PendingResolve.receive_frame (p : PendingResolve) (src : SocketAddrV4)
    (v : Option (List UInt8)) :
    (p.receive src v).1.addr = p.addr ∧ (p.receive src v).1.accept = p.accept ∧
      (p.receive src v).1.deadline = p.deadline ∧
      (p.receive src v).1.awaiting = p.awaiting.erase src ∧
      (p.receive src v).1.responded = true := by
  cases v with
  | none => exact ⟨rfl, rfl, rfl, rfl, rfl⟩
  | some w =>
    simp only [receive]
    split <;> exact ⟨rfl, rfl, rfl, rfl, rfl⟩

theorem PendingResolve.mem_values_receive {p : PendingResolve} {src : SocketAddrV4}
    {v : Option (List UInt8)} {w : List UInt8} :
    w ∈ (p.receive src v).1.values ↔ w ∈ p.values ∨ v = some w ∧ w.length ≤ MAX_VALUE_LEN := by
  cases v with
  | none => simp [receive]
  | some value =>
    simp only [receive]
    split
    · rename_i hfit
      rw [Finset.mem_insert, Option.some_inj, or_comm]
      refine or_congr_right ⟨?_, fun h => h.1.symm⟩
      rintro rfl
      exact ⟨rfl, hfit⟩
    · rename_i hlong
      refine ⟨.inl, fun h => h.resolve_right ?_⟩
      rintro ⟨⟨⟩, hfit⟩
      exact hlong hfit

theorem PendingResolve.snd_receive {p : PendingResolve} {src : SocketAddrV4}
    {v : Option (List UInt8)} :
    (p.receive src v).2 = true ↔ ∃ w, v = some w ∧ w.length ≤ MAX_VALUE_LEN ∧
      p.accept.any (fun accept => accept w) = true := by
  cases v with
  | none => simp [receive]
  | some value =>
    simp only [receive]
    split
    · rename_i hfit
      simp [hfit]
    · rename_i hlong
      simp [hlong]

/-- `encode`: frames a request for sending, or `none` if it does not fit a datagram. -/
def encode (value : RequestV1) : Option (List UInt8) :=
  Proto.encode (.request (.v1 value)) (.replicate _ 0)

/-- The same bytes to every server. -/
def sendAll (servers : HashSet SocketAddrV4) (bytes : List UInt8) : List Action :=
  servers.sort.map fun server => .send ⟨bytes, server⟩

namespace Actor

/-- `Actor::new`. -/
def new (timeout : ℕ) : Actor := ⟨∅, ∅, ∅, timeout⟩

/-- `Actor::finish_publish`. -/
def finishPublish (s : Actor) (tx : TransactionId) : Actor × List Action :=
  match s.publishes.lookup tx with
  | none => (s, [])
  | some pending => ({ s with publishes := s.publishes.erase tx }, [.published tx pending.result])

/-- `Actor::finish_resolve`. -/
def finishResolve (s : Actor) (tx : TransactionId) : Actor × List Action :=
  match s.resolves.lookup tx with
  | none => (s, [])
  | some pending => ({ s with resolves := s.resolves.erase tx }, [.resolved tx pending.result])

/-- `Actor::handle_message`, with the id that `next_id` draws and the clock. -/
def handleMessage (s : Actor) (message : ActorMsg) (tx : TransactionId) (now : Instant) :
    Actor × List Action :=
  match message with
  | .replaceServers servers => ({ s with servers := servers }, [])
  | .addServer addr => ({ s with servers := insert addr s.servers }, [])
  | .removeServer addr => ({ s with servers := s.servers.erase addr }, [])
  | .publish value =>
    if s.servers = ∅ then (s, [.published tx (.error .noServers)])
    else
      match encode (.prepare tx (.replicate _ 0)) with
      | none => (s, [.published tx (.error .tooLarge)])
      | some bytes =>
        let pending : PendingPublish :=
          { value := value, tooLarge := false, awaiting := s.servers, prepared := ∅, stored := ∅,
            deadline := now + s.timeout }
        ({ s with publishes := s.publishes.insert tx pending }, sendAll s.servers bytes)
  | .resolve addr accept =>
    if s.servers = ∅ then (s, [.resolved tx (.error .noServers)])
    else
      match encode (.get tx addr) with
      | none => (s, [.resolved tx (.error .tooLarge)])
      | some bytes =>
        let pending : PendingResolve :=
          { addr := addr, accept := accept, awaiting := s.servers, values := ∅, responded := false,
            deadline := now + s.timeout }
        ({ s with resolves := s.resolves.insert tx pending }, sendAll s.servers bytes)

/-- The publish `tx` becomes `pending`, and finishes if nobody is awaited. -/
def updatePublish (s : Actor) (tx : TransactionId) (pending : PendingPublish) :
    Actor × List Action :=
  let s := { s with publishes := s.publishes.insert tx pending }
  if pending.awaiting = ∅ then s.finishPublish tx else (s, [])

/-- The `Prepared` branch of `Actor::handle_packet`. -/
def handlePrepared (s : Actor) (tx : TransactionId) (addr : SocketAddrV4) (token : Token)
    (src : SocketAddrV4) (unixSecs : UInt64) : Actor × List Action :=
  match s.publishes.lookup tx with
  | none => (s, [])
  | some pending =>
    -- one put per server per transaction
    if src ∉ pending.awaiting ∨ src ∈ pending.prepared then (s, [])
    else
      let pending := { pending with prepared := insert src pending.prepared }
      let value := pending.value addr unixSecs
      if value.length > MAX_VALUE_LEN then
        s.updatePublish tx
          { pending with tooLarge := true, awaiting := pending.awaiting.erase src }
      else
        let s := { s with publishes := s.publishes.insert tx pending }
        match encode (.put tx token value) with
        | none => (s, [])
        | some bytes => (s, [.send ⟨bytes, src⟩])

/-- The `Stored` branch of `Actor::handle_packet`. -/
def handleStored (s : Actor) (tx : TransactionId) (addr src : SocketAddrV4) :
    Actor × List Action :=
  match s.publishes.lookup tx with
  | none => (s, [])
  | some pending =>
    if src ∉ pending.awaiting then (s, [])
    else
      s.updatePublish tx
        { pending with
          awaiting := pending.awaiting.erase src, stored := insert addr pending.stored }

/-- The `Value` branch of `Actor::handle_packet`. -/
def handleValue (s : Actor) (tx : TransactionId) (addr : SocketAddrV4)
    (value : Option (List UInt8)) (src : SocketAddrV4) : Actor × List Action :=
  match s.resolves.lookup tx with
  | none => (s, [])
  | some pending =>
    if pending.addr ≠ addr ∨ src ∉ pending.awaiting then (s, [])
    else
      let r := pending.receive src value
      let s := { s with resolves := s.resolves.insert tx r.1 }
      if r.2 ∨ r.1.awaiting = ∅ then s.finishResolve tx else (s, [])

/-- `Actor::handle_packet`, with the clock a value builder reads. -/
def handlePacket (s : Actor) (data : List UInt8) (src : SocketAddrV4) (unixSecs : UInt64) :
    Actor × List Action :=
  match Proto.decode data with
  | some (.response (.v1 (.prepared tx addr token))) => s.handlePrepared tx addr token src unixSecs
  | some (.response (.v1 (.stored tx addr))) => s.handleStored tx addr src
  | some (.response (.v1 (.value tx addr value))) => s.handleValue tx addr value src
  | _ => (s, [])

/-- `Actor::next_deadline`: when the next operation has waited long enough. -/
def nextDeadline (s : Actor) : Option Instant :=
  BTreeSet.first
    ((s.publishes.keys.biUnion fun tx =>
        ((s.publishes.lookup tx).map PendingPublish.deadline).toFinset) ∪
      s.resolves.keys.biUnion fun tx =>
        ((s.resolves.lookup tx).map PendingResolve.deadline).toFinset)

/-- A loop of `flush_expired`: finishes the operations of a list, in turn. -/
def finishAll (finish : Actor → TransactionId → Actor × List Action) (s : Actor) :
    List TransactionId → Actor × List Action
  | [] => (s, [])
  | tx :: txs =>
    let r := finish s tx
    let rest := finishAll finish r.1 txs
    (rest.1, r.2 ++ rest.2)

/-- `Actor::flush_expired`. -/
def flushExpired (s : Actor) (now : Instant) : Actor × List Action :=
  let publishes := s.publishes.keys.filter fun tx =>
    (s.publishes.lookup tx).any fun pending => pending.deadline ≤ now
  let r := finishAll finishPublish s publishes.sort
  let resolves := r.1.resolves.keys.filter fun tx =>
    (r.1.resolves.lookup tx).any fun pending => pending.deadline ≤ now
  let r' := finishAll finishResolve r.1 resolves.sort
  (r'.1, r.2 ++ r'.2)

end Actor

end ContentDiscovery
