import ContentDiscovery.Amplification
import ContentDiscovery.Channel
import ContentDiscovery.RetryLoop

/-!
# An index server on a Mainline socket

`Server::attach_with_rendezvous` and the metrics of `udp-addr-index/src/udp.rs`: a hook in the
Mainline socket takes the datagrams of the index and queues them for a task that answers them one
by one, and another task announces the server. Other owners of the server call it in between; the
handle can stop both tasks and is told when one has stopped.
-/

namespace ContentDiscovery

/-- `Metrics`: request and storage metrics for one server. -/
structure Metrics where
  /-- valid prepare requests -/
  prepares : ℕ
  /-- accepted put requests -/
  puts : ℕ
  /-- get requests -/
  gets : ℕ
  /-- get requests with a value -/
  getHits : ℕ
  /-- put requests rejected with invalid tokens -/
  invalidTokens : ℕ
  /-- requests rejected by rate limiting -/
  rateLimited : ℕ
  /-- put requests rejected by the store -/
  rejectedPuts : ℕ
  /-- datagrams dropped because the queue was full -/
  queueDrops : ℕ
  /-- the entries of the store -/
  entries : ℕ
  deriving DecidableEq

/-- The metrics of a new server. -/
def Metrics.zero : Metrics := ⟨0, 0, 0, 0, 0, 0, 0, 0, 0⟩

/-- A server with its metrics. -/
structure Metered (F : Type) where
  /-- the server -/
  server : Server F
  /-- its metrics -/
  metrics : Metrics

namespace Metered

variable {F : Type} [FloatArith F]

/-- `Server::new`. -/
def new (limits : Limits F) (tokenKey : List.Vector UInt8 32) (now : Instant) : Metered F :=
  ⟨.new limits tokenKey now, .zero⟩

variable (P : Primitives) (m : Metered F)

/-- `Server::put_local`. -/
def putLocal (addr : SocketAddrV4) (value : List UInt8) (now : UInt64) :
    Metered F × Except PutError Unit :=
  let r := m.server.putLocal addr value now
  (⟨r.1, { m.metrics with entries := r.1.store.len }⟩, r.2)

/-- `Server::get_local`. -/
def getLocal (addr : SocketAddrV4) (now : UInt64) : Metered F × Option (List UInt8) :=
  let r := m.server.getLocal addr now
  (⟨r.1, { m.metrics with entries := r.1.store.len }⟩, r.2)

/-- `Server::allow_request`. -/
def allowRequest (ip : IpAddr) (clock : Clock) : Metered F × Bool :=
  let r := m.server.allowRequest P ip clock
  ({ m with server := r.1 }, r.2)

/-- The `match` of `Server::handle_packet`, which counts what it does. -/
def answer (request : RequestV1) (src : SocketAddrV4) (clock : Clock) :
    Metered F × Option ResponseV1 :=
  match request with
  | .prepare tx _ =>
    match m.allowRequest P (.v4 src.ip) clock with
    | (m, false) => ({ m with metrics.rateLimited := m.metrics.rateLimited + 1 }, none)
    | (m, true) =>
      ({ m with metrics.prepares := m.metrics.prepares + 1 },
        some (.prepared tx src (m.server.issueToken P src clock.unixSecs)))
  | .put tx token value =>
    if !m.server.verifyToken P src token clock.unixSecs then
      ({ m with metrics.invalidTokens := m.metrics.invalidTokens + 1 }, none)
    else
      match m.allowRequest P (.v4 src.ip) clock with
      | (m, false) => ({ m with metrics.rateLimited := m.metrics.rateLimited + 1 }, none)
      | (m, true) =>
        match m.putLocal src value clock.storeSecs with
        | (m, .error _) => ({ m with metrics.rejectedPuts := m.metrics.rejectedPuts + 1 }, none)
        | (m, .ok ()) => ({ m with metrics.puts := m.metrics.puts + 1 }, some (.stored tx src))
  | .get tx addr =>
    match m.allowRequest P (.v4 src.ip) clock with
    | (m, false) => ({ m with metrics.rateLimited := m.metrics.rateLimited + 1 }, none)
    | (m, true) =>
      let r := { m with metrics.gets := m.metrics.gets + 1 }.getLocal addr clock.storeSecs
      let hits := if r.2.isSome then r.1.metrics.getHits + 1 else r.1.metrics.getHits
      ({ r.1 with metrics.getHits := hits }, some (.value tx addr r.2))

/-- `Server::handle_packet` until it sends: the response, or a panic. -/
def handlePacket (data : List UInt8) (src : SocketAddrV4) (clock : Clock) :
    Except Panic (Metered F × Option Datagram) :=
  if data.isEmpty || data.length > MAX_DGRAM then .ok (m, none)
  else
    match Proto.decode data with
    | some (.request (.v1 request)) =>
      match m.answer P request src clock with
      | (m, none) => .ok (m, none)
      | (m, some response) =>
        match Proto.encode (.response (.v1 response)) (List.Vector.replicate _ 0) with
        | none => .error .boundedResponse
        | some bytes => .ok (m, some ⟨bytes, src⟩)
    | _ => .ok (m, none)

end Metered

/-! ## Counting does not change what the server does -/

section Counting

variable {F : Type} [FloatArith F] {P : Primitives} (m : Metered F)

/-- The request of a datagram, if it is one. -/
def requestOf (data : List UInt8) : Option RequestV1 :=
  match Proto.decode data with
  | some (.request (.v1 request)) => some request
  | _ => none

theorem requestOf_eq_some {data : List UInt8} {request : RequestV1} :
    requestOf data = some request ↔ Proto.decode data = some (.request (.v1 request)) := by
  rw [requestOf]
  split
  · rename_i hdec
    rw [hdec]
    exact ⟨fun h => by rw [Option.some.inj h], fun h => by cases h; rfl⟩
  · rename_i hno
    exact ⟨(nomatch ·), fun h => absurd h (hno request)⟩

/-- The response in a datagram, if it is one. -/
def responseOf (d : Datagram) : Option ResponseV1 :=
  match Proto.decode d.bytes with
  | some (.response (.v1 response)) => some response
  | _ => none

/-- All requests that were counted. -/
def Metrics.requests (m : Metrics) : ℕ :=
  m.prepares + m.puts + m.gets + m.invalidTokens + m.rateLimited + m.rejectedPuts

/-- Whether a response is one to a prepare request. -/
def ResponseV1.isPrepared : ResponseV1 → Bool
  | .prepared .. => true
  | _ => false

/-- Whether a response is one to a put request. -/
def ResponseV1.isStored : ResponseV1 → Bool
  | .stored .. => true
  | _ => false

/-- Whether a response is one to a get request. -/
def ResponseV1.isValue : ResponseV1 → Bool
  | .value .. => true
  | _ => false

/-- Whether a response has a value. -/
def ResponseV1.isHit : ResponseV1 → Bool
  | .value _ _ (some _) => true
  | _ => false

/-- What is counted when some requests are handled with some responses, and others dropped. -/
structure Metrics.Counted (m m' : Metrics) (requests : ℕ) (responses : List ResponseV1)
    (drops : ℕ) : Prop where
  /-- a response to a prepare request is counted -/
  prepares : m'.prepares = m.prepares + responses.countP (·.isPrepared)
  /-- a response to a put request is counted -/
  puts : m'.puts = m.puts + responses.countP (·.isStored)
  /-- a response to a get request is counted -/
  gets : m'.gets = m.gets + responses.countP (·.isValue)
  /-- one that has a value is counted as that, too -/
  getHits : m'.getHits = m.getHits + responses.countP (·.isHit)
  /-- each request is counted once -/
  requests : m'.requests = m.requests + requests
  /-- each drop is counted -/
  queueDrops : m'.queueDrops = m.queueDrops + drops

theorem Metrics.Counted.trans {m m₁ m' : Metrics} {n n' d d' : ℕ} {r r' : List ResponseV1}
    (h : m.Counted m₁ n r d) (h' : m₁.Counted m' n' r' d') :
    m.Counted m' (n + n') (r ++ r') (d + d') := by
  constructor
  · rw [h'.prepares, h.prepares, List.countP_append, Nat.add_assoc]
  · rw [h'.puts, h.puts, List.countP_append, Nat.add_assoc]
  · rw [h'.gets, h.gets, List.countP_append, Nat.add_assoc]
  · rw [h'.getHits, h.getHits, List.countP_append, Nat.add_assoc]
  · rw [h'.requests, h.requests, Nat.add_assoc]
  · rw [h'.queueDrops, h.queueDrops, Nat.add_assoc]

/-- Every response is counted by its kind. -/
theorem countP_kinds (responses : List ResponseV1) :
    responses.countP (·.isPrepared) + responses.countP (·.isStored) +
      responses.countP (·.isValue) = responses.length := by
  induction responses with
  | nil => rfl
  | cons r responses ih =>
    rw [List.length_cons, ← ih]
    cases r <;> simp [ResponseV1.isPrepared, ResponseV1.isStored, ResponseV1.isValue] <;> omega

namespace Metered

/-- The gauge shows how many entries there are. -/
def Gauged : Prop := m.metrics.entries = m.server.store.len

/-- A request does to the server what it does without metrics. It is counted once, and by its
response if it gets one. -/
theorem answer_spec (request : RequestV1) (src : SocketAddrV4) (clock : Clock) :
    m.server.answer P request src clock =
        ((m.answer P request src clock).1.server, (m.answer P request src clock).2) ∧
      m.metrics.Counted (m.answer P request src clock).1.metrics 1
        (m.answer P request src clock).2.toList 0 ∧
      (m.Gauged → (m.answer P request src clock).1.Gauged) := by
  have hstore : (m.server.allowRequest P (.v4 src.ip) clock).1.store = m.server.store := rfl
  rcases hallow : m.server.allowRequest P (.v4 src.ip) clock with ⟨s, allowed⟩
  rw [hallow] at hstore
  -- without a call to the store the gauge stays right
  have hgauge (h : m.Gauged) : m.metrics.entries = s.store.len :=
    h.trans (congrArg Store.len hstore.symm)
  cases request with
  | prepare =>
    simp only [Server.answer, answer, allowRequest, hallow]
    cases allowed
    · exact ⟨rfl, ⟨rfl, rfl, rfl, rfl, by simp only [Metrics.requests]; omega, rfl⟩, hgauge⟩
    · exact ⟨rfl, ⟨rfl, rfl, rfl, rfl, by simp only [Metrics.requests]; omega, rfl⟩, hgauge⟩
  | put tx token value =>
    simp only [Server.answer, answer, allowRequest, hallow]
    split
    · exact ⟨rfl, ⟨rfl, rfl, rfl, rfl, by simp only [Metrics.requests]; omega, rfl⟩, id⟩
    cases allowed
    · exact ⟨rfl, ⟨rfl, rfl, rfl, rfl, by simp only [Metrics.requests]; omega, rfl⟩, hgauge⟩
    simp only [putLocal]
    rcases s.putLocal src value clock.storeSecs with ⟨s', error | ⟨⟩⟩
    · exact ⟨rfl, ⟨rfl, rfl, rfl, rfl, by simp only [Metrics.requests]; omega, rfl⟩, fun _ => rfl⟩
    · exact ⟨rfl, ⟨rfl, rfl, rfl, rfl, by simp only [Metrics.requests]; omega, rfl⟩, fun _ => rfl⟩
  | get tx addr =>
    simp only [Server.answer, answer, allowRequest, hallow]
    cases allowed
    · exact ⟨rfl, ⟨rfl, rfl, rfl, rfl, by simp only [Metrics.requests]; omega, rfl⟩, hgauge⟩
    refine ⟨rfl, ⟨rfl, rfl, rfl, ?_, ?_, rfl⟩, fun _ => rfl⟩
    · cases hvalue : (s.getLocal addr clock.storeSecs).2 <;> simp only [getLocal, hvalue] <;> rfl
    · simp only [getLocal, Metrics.requests]
      omega

/-- A datagram that is handled without a panic: the server does what it does without metrics, and
its requests and responses are counted. -/
theorem handlePacket_ok {m m' : Metered F} {data : List UInt8} {src : SocketAddrV4} {clock : Clock}
    {response : Option Datagram} (h : m.handlePacket P data src clock = .ok (m', response)) :
    m.server.handlePacket P data src clock = .ok (m'.server, response.toList) ∧
      m.metrics.Counted m'.metrics (requestOf data).toList.length
        (response.toList.filterMap responseOf) 0 ∧
      (response.toList.filterMap responseOf).length = response.toList.length ∧
      (m.Gauged → m'.Gauged) := by
  rw [handlePacket] at h
  rw [Server.handlePacket]
  split at h
  · rename_i hlen
    have hno : requestOf data = none := by
      rw [Bool.or_eq_true, List.isEmpty_iff, decide_eq_true_eq] at hlen
      refine Option.eq_none_iff_forall_ne_some.mpr fun request hrequest => ?_
      obtain ⟨hle, body, rfl, -⟩ := Proto.decode_eq_some.mp (requestOf_eq_some.mp hrequest)
      rcases hlen with hnil | hlong
      · cases hnil
      · exact absurd hle hlong.not_ge
    obtain ⟨rfl, rfl⟩ := Prod.mk.inj (Except.ok.inj h)
    rw [if_pos hlen, hno]
    exact ⟨rfl, ⟨rfl, rfl, rfl, rfl, rfl, rfl⟩, rfl, id⟩
  rename_i hlen
  rw [if_neg hlen]
  split at h
  · rename_i request hdec
    obtain ⟨hserver, hcounted, hgauged⟩ := m.answer_spec (P := P) request src clock
    rw [requestOf_eq_some.mpr hdec]
    simp only [hdec, hserver]
    rcases hanswer : m.answer P request src clock with ⟨m₁, - | r⟩
    · rw [hanswer] at h hcounted hgauged
      obtain ⟨rfl, rfl⟩ := Prod.mk.inj (Except.ok.inj h)
      exact ⟨rfl, hcounted, rfl, hgauged⟩
    · rw [hanswer] at h hcounted hgauged
      simp only at h
      split at h
      · cases h
      rename_i bytes henc
      obtain ⟨rfl, rfl⟩ := Prod.mk.inj (Except.ok.inj h)
      have hresponse : responseOf ⟨bytes, src⟩ = some r := by
        rw [responseOf, Proto.decode_encode henc]
      refine ⟨by simp only [henc, Option.toList_some], ?_⟩
      simp only [Option.toList_some, List.filterMap_cons_some hresponse]
      exact ⟨hcounted, rfl, hgauged⟩
  · rename_i hno
    obtain ⟨rfl, rfl⟩ := Prod.mk.inj (Except.ok.inj h)
    have hnone : requestOf data = none :=
      Option.eq_none_iff_forall_ne_some.mpr fun request hrequest =>
        hno request (requestOf_eq_some.mp hrequest)
    rw [hnone]
    refine ⟨?_, ⟨rfl, rfl, rfl, rfl, rfl, rfl⟩, rfl, id⟩
    rcases hdec : Proto.decode data with - | ⟨request | response⟩
    · rfl
    · exact absurd hdec (hno _)
    · rfl

theorem handlePacket_error {m : Metered F} {data : List UInt8} {src : SocketAddrV4} {clock : Clock}
    {panic : Panic} (h : m.handlePacket P data src clock = .error panic) :
    m.server.handlePacket P data src clock = .error panic := by
  rw [handlePacket] at h
  rw [Server.handlePacket]
  split at h
  · cases h
  rename_i hlen
  rw [if_neg hlen]
  split at h
  · rename_i request hdec
    obtain ⟨hserver, -⟩ := m.answer_spec (P := P) request src clock
    simp only [hdec, hserver]
    rcases hanswer : m.answer P request src clock with ⟨m₁, - | r⟩
    · rw [hanswer] at h
      cases h
    · rw [hanswer] at h
      simp only at h ⊢
      split at h
      · rename_i henc
        simp only [henc]
      · cases h
  · cases h

end Metered

end Counting

/-- The Mainline node is gone. -/
structure ActorShutdown where
  deriving DecidableEq

/-- Why a task did not run to completion. -/
inductive JoinError where
  /-- it was aborted -/
  | cancelled
  /-- it panicked -/
  | panicked (panic : Panic)
  deriving DecidableEq

/-- `TerminatedError`: why a task of a handle stopped. -/
inductive TerminatedError where
  /-- the service task panicked or was aborted -/
  | serviceTask (source : JoinError)
  /-- the Mainline node stopped -/
  | transport (source : ActorShutdown)
  /-- the service task returned -/
  | serviceStopped
  /-- the announcement task panicked or was aborted -/
  | announcementTask (source : JoinError)
  /-- the announcement task returned -/
  | announcementStopped
  deriving DecidableEq

namespace IndexService

/-- How many datagrams the queue holds. -/
def QUEUE : ℕ := 256

/-- The service task. -/
inductive Task where
  /-- it waits for a datagram -/
  | waiting
  /-- it sends a response -/
  | sending (response : Datagram)
  /-- it is over -/
  | finished (result : Except JoinError (Except ActorShutdown Unit))
  deriving DecidableEq

/-- The loop that announces the server: ten minutes after a success, thirty seconds after an
error of the lookup or of the announcement. -/
def announceLoop (ε : Type) : RetryLoop (Except ε Unit) Empty where
  verdict
    | .ok _ => .ok (600 * 10 ^ 9)
    | .error _ => .ok (30 * 10 ^ 9)
  timeout := none

/-- The announcement task. -/
inductive Announcement where
  /-- it runs -/
  | running (loop : RetryLoop.State Empty)
  /-- it was aborted -/
  | aborted

/-- A server that serves. -/
structure State (F : Type) where
  /-- the server, which its other owners use too -/
  metered : Metered F
  /-- from the hook to the service task -/
  channel : Channel (List UInt8 × SocketAddrV4)
  /-- whether the hook is in the socket -/
  hooked : Bool
  /-- the service task -/
  task : Task
  /-- the announcement task, if there is one -/
  announcement : Option Announcement

/-- What may happen. -/
inductive Event (ε : Type) where
  /-- the socket receives a datagram -/
  | datagram (bytes : List UInt8) (src : SocketAddrV4)
  /-- the service task goes on, with the clock readings of the handler -/
  | receive (clock : Clock)
  /-- a response is sent, or cannot be -/
  | sent (result : Except ActorShutdown Unit)
  /-- the socket gets another hook, or none -/
  | unhook
  /-- the announcement goes on -/
  | announce (e : RetryLoop.Event (Except ε Unit))
  /-- the handle is dropped, or stopped -/
  | abort
  /-- another owner calls `Server::put_local` -/
  | putLocal (addr : SocketAddrV4) (value : List UInt8) (now : UInt64)
  /-- another owner calls `Server::get_local` -/
  | getLocal (addr : SocketAddrV4) (now : UInt64)

/-- What a step shows. -/
inductive Output (ε : Type) where
  /-- nothing -/
  | quiet
  /-- whether the hook takes the datagram, and what it was told if it queued it -/
  | hook (taken : Bool) (sent : Option Channel.Sent)
  /-- the datagram handled, and the response -/
  | handled (data : List UInt8) (src : SocketAddrV4) (response : Except Panic (Option Datagram))
  /-- the response that was sent -/
  | sent (response : Datagram)
  /-- what an announcement comes to -/
  | announced (attempt : Option (RetryLoop.Attempt (Except ε Unit)))
  /-- the result of a local put -/
  | putLocal (r : Except PutError Unit)
  /-- the value a local read found -/
  | getLocal (v : Option (List UInt8))

variable {F ε : Type} [FloatArith F] (P : Primitives)

/-- `Server::attach_with_rendezvous`, at a time. -/
def attach (m : Metered F) (rendezvousHash : Option (Vector UInt8 20)) (now : ℕ) : State F :=
  ⟨m, .empty, true, .waiting, rendezvousHash.map fun _ => .running ⟨now, .trying now⟩⟩

omit [FloatArith F] in
/-- The hook in the Mainline socket. -/
def State.hook (s : State F) (bytes : List UInt8) (src : SocketAddrV4) :
    State F × Bool × Option Channel.Sent :=
  if !MAGIC.isPrefixOf bytes then (s, false, none)
  else if bytes.length > MAX_DGRAM then (s, true, none)
  else
    match s.channel.trySend QUEUE (bytes, src) with
    | (c, .sent) => ({ s with channel := c }, true, some .sent)
    | (c, .full) =>
      ({ s with
          channel := c
          metered.metrics.queueDrops := s.metered.metrics.queueDrops + 1 }, true, some .full)
    | (c, .closed) => ({ s with channel := c }, false, some .closed)

/-- The service task goes on: it handles the next datagram, or ends if there can be none. -/
def State.receive (s : State F) (clock : Clock) : State F × Output ε :=
  match s.channel.recv with
  | (_, none) => ({ s with channel := .close, task := .finished (.ok (.ok ())) }, .quiet)
  | (c, some (bytes, src)) =>
    match s.metered.handlePacket P bytes src clock with
    | .error panic =>
      ({ s with channel := .close, task := .finished (.error (.panicked panic)) },
        .handled bytes src (.error panic))
    | .ok (m, none) => ({ s with metered := m, channel := c }, .handled bytes src (.ok none))
    | .ok (m, some response) =>
      ({ s with metered := m, channel := c, task := .sending response },
        .handled bytes src (.ok (some response)))

/-- A task is aborted, unless it is over. -/
def Task.abort : Task → Task
  | .finished result => .finished result
  | _ => .finished (.error .cancelled)

/-- One step. A step that is not enabled does nothing. -/
def step (s : State F) : Event ε → State F × Output ε
  | .datagram bytes src =>
    let r := s.hook bytes src
    (r.1, .hook r.2.1 r.2.2)
  | .receive clock => s.receive P clock
  | .sent result =>
    match s.task, result with
    | .sending response, .ok () => ({ s with task := .waiting }, .sent response)
    | .sending _, .error error =>
      ({ s with channel := .close, task := .finished (.ok (.error error)) }, .quiet)
    | _, _ => (s, .quiet)
  | .unhook => ({ s with hooked := false }, .quiet)
  | .announce e =>
    match s.announcement with
    | some (.running loop) =>
      let r := (announceLoop ε).step loop e
      ({ s with announcement := some (.running r.1) }, .announced r.2)
    | _ => (s, .quiet)
  | .abort =>
    ({ s with
        channel := .close
        task := s.task.abort
        announcement := s.announcement.map fun _ => .aborted }, .quiet)
  | .putLocal addr value now =>
    let r := s.metered.putLocal addr value now
    ({ s with metered := r.1 }, .putLocal r.2)
  | .getLocal addr now =>
    let r := s.metered.getLocal addr now
    ({ s with metered := r.1 }, .getLocal r.2)

omit [FloatArith F] in
/-- When a step can happen. -/
def State.Enabled (lag : ℕ) (s : State F) : Event ε → Prop
  | .datagram _ _ | .unhook => s.hooked = true
  | .receive _ => s.task = .waiting ∧ (s.hooked = false ∨ s.channel.queue ≠ [])
  | .sent _ => ∃ response, s.task = .sending response
  | .announce e =>
    ∃ loop, s.announcement = some (.running loop) ∧ (announceLoop ε).Enabled lag loop e
  | .abort | .putLocal _ _ _ | .getLocal _ _ => True

/-- A server under fixed limits, from when it is attached. -/
def machine (limits : Limits F) (rendezvousHash : Option (Vector UInt8 20)) (lag start : ℕ) :
    Machine (State F) (Event ε) (Output ε) where
  init s := ∃ key now, s = attach (.new limits key now) rendezvousHash start
  enabled _ s e := s.Enabled lag e
  step := step P

omit [FloatArith F] in
/-- `UdpHandle::terminated`: the errors it may return now. There are none while it waits. -/
def State.terminated (s : State F) : List TerminatedError :=
  (match s.task with
    | .finished (.error source) => [.serviceTask source]
    | .finished (.ok (.error source)) => [.transport source]
    | .finished (.ok (.ok ())) => [.serviceStopped]
    | _ => []) ++
  match s.announcement with
    | some .aborted => [.announcementTask .cancelled]
    | _ => []

end IndexService

end ContentDiscovery
