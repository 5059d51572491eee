import ContentDiscovery.IndexService
import ContentDiscovery.WriteAuthority

/-!
# An index server answers what it queues

Runs of a server on a Mainline socket. `steps` says once what can happen; the datagrams queued and
handled are a run of the queue (`channel_run`), and those handled, with the calls of other owners,
a run of the server (`server_run`), so that what holds of either holds here. `requests_served`,
`metrics_account` and `service_lasts` are what follows for those who send requests, read the metrics
or hold the handle.
-/

namespace ContentDiscovery

namespace IndexService

variable {F ε : Type} [FloatArith F] (P : Primitives)

/-! ## What a step does -/

/-- What can happen to a server that serves. -/
inductive Steps (lag : ℕ) (s : State F) : Event ε → State F → Output ε → Prop
  /-- a datagram of Mainline -/
  | left {bytes : List UInt8} (src : SocketAddrV4) (hmagic : ¬ MAGIC <+: bytes) :
    Steps lag s (.datagram bytes src) s (.hook false none)
  /-- one that is too long -/
  | long {bytes : List UInt8} (src : SocketAddrV4) (hmagic : MAGIC <+: bytes)
    (hlong : MAX_DGRAM < bytes.length) : Steps lag s (.datagram bytes src) s (.hook true none)
  /-- one that is queued, or that finds no room or no task -/
  | offered {bytes : List UInt8} (src : SocketAddrV4) (hmagic : MAGIC <+: bytes)
    (hlen : bytes.length ≤ MAX_DGRAM) :
    Steps lag s (.datagram bytes src)
      { s with
          channel := (s.channel.trySend QUEUE (bytes, src)).1
          metered.metrics.queueDrops := s.metered.metrics.queueDrops +
            if (s.channel.trySend QUEUE (bytes, src)).2 = .full then 1 else 0 }
      (.hook ((s.channel.trySend QUEUE (bytes, src)).2 ≠ .closed)
        (some (s.channel.trySend QUEUE (bytes, src)).2))
  /-- the task ends, for there will be no more datagrams -/
  | ended (clock : Clock) (htask : s.task = .waiting) (hooked : s.hooked = false)
    (hqueue : s.channel.queue = []) :
    Steps lag s (.receive clock)
      { s with channel := .close, task := .finished (.ok (.ok ())) } .quiet
  /-- the task handles one -/
  | handled (clock : Clock) {data : List UInt8} {src : SocketAddrV4}
    {rest : List (List UInt8 × SocketAddrV4)} {m : Metered F} {response : Option Datagram}
    (htask : s.task = .waiting) (hqueue : s.channel.queue = (data, src) :: rest)
    (hhandle : s.metered.handlePacket P data src clock = .ok (m, response)) :
    Steps lag s (.receive clock)
      { s with
          metered := m
          channel := { s.channel with queue := rest }
          task := response.elim .waiting .sending }
      (.handled data src (.ok response))
  /-- the task panics -/
  | panicked (clock : Clock) {data : List UInt8} {src : SocketAddrV4}
    {rest : List (List UInt8 × SocketAddrV4)} {panic : Panic} (htask : s.task = .waiting)
    (hqueue : s.channel.queue = (data, src) :: rest)
    (hhandle : s.metered.handlePacket P data src clock = .error panic) :
    Steps lag s (.receive clock)
      { s with channel := .close, task := .finished (.error (.panicked panic)) }
      (.handled data src (.error panic))
  /-- a response is sent -/
  | sent {response : Datagram} (htask : s.task = .sending response) :
    Steps lag s (.sent (.ok ())) { s with task := .waiting } (.sent response)
  /-- a response cannot be sent -/
  | stopped {response : Datagram} (error : ActorShutdown) (htask : s.task = .sending response) :
    Steps lag s (.sent (.error error))
      { s with channel := .close, task := .finished (.ok (.error error)) } .quiet
  /-- the socket gets another hook -/
  | unhook : Steps lag s .unhook { s with hooked := false } .quiet
  /-- the announcement goes on -/
  | announce {loop : RetryLoop.State Empty} {e : RetryLoop.Event (Except ε Unit)}
    (hloop : s.announcement = some (.running loop)) (hen : (announceLoop ε).Enabled lag loop e) :
    Steps lag s (.announce e)
      { s with announcement := some (.running ((announceLoop ε).step loop e).1) }
      (.announced ((announceLoop ε).step loop e).2)
  /-- the tasks are stopped -/
  | abort :
    Steps lag s .abort
      { s with
          channel := .close
          task := s.task.abort
          announcement := s.announcement.map fun _ => .aborted } .quiet
  /-- a local put -/
  | putLocal (addr : SocketAddrV4) (value : List UInt8) (now : UInt64) :
    Steps lag s (.putLocal addr value now)
      { s with metered := (s.metered.putLocal addr value now).1 }
      (.putLocal (s.metered.putLocal addr value now).2)
  /-- a local read -/
  | getLocal (addr : SocketAddrV4) (now : UInt64) :
    Steps lag s (.getLocal addr now) { s with metered := (s.metered.getLocal addr now).1 }
      (.getLocal (s.metered.getLocal addr now).2)

variable {P} {limits : Limits F} {rendezvousHash : Option (Vector UInt8 20)} {lag start : ℕ}
  {t : List (Event ε × Output ε)} {s : State F}

theorem steps {e : Event ε} (hen : s.Enabled lag e) :
    Steps P lag s e (step P s e).1 (step P s e).2 := by
  cases e with
  | datagram bytes src =>
    simp only [step, State.hook]
    split
    · rename_i hmagic
      refine .left src fun h => ?_
      rw [List.isPrefixOf_iff_prefix.mpr h] at hmagic
      cases hmagic
    rename_i hmagic
    have hmagic : MAGIC <+: bytes := by simpa using hmagic
    split
    · rename_i hlong
      exact .long src hmagic hlong
    rename_i hlen
    have hoffered : Steps P lag s (Event.datagram (ε := ε) bytes src) _ _ :=
      .offered src hmagic (Nat.le_of_not_gt hlen)
    rcases hsend : s.channel.trySend QUEUE (bytes, src) with ⟨c, - | - | -⟩
    all_goals
      rw [hsend] at hoffered
      exact hoffered
  | receive clock =>
    obtain ⟨htask, hnext⟩ := hen
    rcases hqueue : s.channel.queue with - | ⟨⟨data, src⟩, rest⟩
    · simp only [step, State.receive, Channel.recv, hqueue]
      exact .ended clock htask (hnext.resolve_right fun h => h hqueue) hqueue
    · simp only [step, State.receive, Channel.recv, hqueue]
      rcases hhandle : s.metered.handlePacket P data src clock with panic | ⟨m, - | response⟩
      · exact .panicked clock htask hqueue hhandle
      · have hhandled : Steps P lag s (Event.receive (ε := ε) clock) _ _ :=
          .handled clock htask hqueue hhandle
        rw [Option.elim_none, ← htask] at hhandled
        exact hhandled
      · exact .handled clock htask hqueue hhandle
  | sent result =>
    obtain ⟨response, htask⟩ := hen
    simp only [step, htask]
    rcases result with error | ⟨⟩
    · exact .stopped error htask
    · exact .sent htask
  | announce e =>
    obtain ⟨loop, hloop, hen⟩ := hen
    simp only [step, hloop]
    exact .announce hloop hen
  | unhook => exact .unhook
  | abort => exact .abort
  | putLocal addr value now => exact .putLocal addr value now
  | getLocal addr now => exact .getLocal addr now

/-- Every event of a run is such a step. -/
theorem steps_of_mem (h : (machine P limits rendezvousHash lag start).Run t s) {e : Event ε}
    {out : Output ε} (hmem : (e, out) ∈ t) : ∃ s₁ s' : State F, Steps P lag s₁ e s' out := by
  obtain ⟨pre, post, rfl⟩ := List.append_of_mem hmem
  obtain ⟨s₁, -, hen, hout⟩ := h.stepAt rfl
  obtain rfl : out = (step P s₁ e).2 := hout
  exact ⟨s₁, _, steps hen⟩

/-- The induction rule for what holds of a server that serves. -/
theorem run_invariant {I : List (Event ε × Output ε) → State F → Prop}
    (hstart : ∀ key now, I [] (attach (.new limits key now) rendezvousHash start))
    (hstep : ∀ t s e s' out, (machine P limits rendezvousHash lag start).Run t s → I t s →
      Steps P lag s e s' out → I (t ++ [(e, out)]) s')
    (h : (machine P limits rendezvousHash lag start).Run t s) : I t s := by
  refine h.invariant ?_ fun t s e hrun hen ih => hstep t s e _ _ hrun ih (steps hen)
  rintro s ⟨key, now, rfl⟩
  exact hstart key now

/-! ## Runs -/

/-- What a step does to the server. -/
def serverStep : Event ε × Output ε → Option (Server.Event × Server.Output)
  | (.receive clock, .handled data src response) =>
    some (.packet data src clock, .packet (response.map Option.toList))
  | (.putLocal addr value now, .putLocal r) => some (.putLocal addr value now, .putLocal r)
  | (.getLocal addr now, .getLocal v) => some (.getLocal addr now, .getLocal v)
  | _ => none

/-- What a step does to the queue. -/
def channelStep : Event ε × Output ε →
    Option (Channel.Event (List UInt8 × SocketAddrV4) × Channel.Output (List UInt8 × SocketAddrV4))
  | (.datagram bytes src, .hook _ (some told)) => some (.send (bytes, src), .send told)
  | (.receive _, .handled data src _) => some (.recv, .recv (some (data, src)))
  | (.receive _, .quiet) | (.sent (.error _), .quiet) | (.abort, .quiet) => some (.close, .close)
  | _ => none

/-- What a step does to the announcement. -/
def announceStep : Event ε × Output ε →
    Option (RetryLoop.Event (Except ε Unit) × Option (RetryLoop.Attempt (Except ε Unit)))
  | (.announce e, .announced attempt) => some (e, attempt)
  | _ => none

theorem filterMap_concat {α β : Type} (f : α → Option β) (l : List α) (x : α) :
    (l ++ [x]).filterMap f = l.filterMap f ++ (f x).toList := by
  rw [List.filterMap_append]
  cases h : f x <;> simp [h]

/-- The datagrams handled and the calls of other owners are a run of the server. -/
theorem server_run (h : (machine P limits rendezvousHash lag start).Run t s) :
    (Server.machine P limits).Run (t.filterMap serverStep) s.metered.server := by
  refine run_invariant (I := fun t s => (Server.machine P limits).Run (t.filterMap serverStep)
    s.metered.server) (fun key now => .start ⟨key, now, rfl⟩) ?_ h
  intro t s e s' out hrun ih hstep
  rw [filterMap_concat]
  cases hstep with
  | putLocal addr value now => exact ih.step (a := .putLocal addr value now) (by trivial)
  | getLocal addr now => exact ih.step (a := .getLocal addr now) (by trivial)
  | @handled clock data src rest m response htask hqueue hhandle =>
    have hserver := (Metered.handlePacket_ok hhandle).1
    have hnext := ih.step (a := .packet data src clock) (by trivial)
    simp only [Server.machine, hserver] at hnext
    exact hnext
  | @panicked clock data src rest panic htask hqueue hhandle =>
    have hserver := Metered.handlePacket_error hhandle
    have hnext := ih.step (a := .packet data src clock) (by trivial)
    simp only [Server.machine, hserver] at hnext
    exact hnext
  | left | long | offered | ended | sent | stopped | unhook | announce | abort =>
    simpa only [serverStep, Option.toList_none, List.append_nil] using ih

/-- The datagram that a step queues. -/
def queuedOf : Event ε × Output ε → Option (List UInt8 × SocketAddrV4)
  | (.datagram bytes src, .hook _ (some .sent)) => some (bytes, src)
  | _ => none

/-- The datagrams queued. -/
def queued (t : List (Event ε × Output ε)) : List (List UInt8 × SocketAddrV4) :=
  t.filterMap queuedOf

/-- The datagram that a step handles. -/
def handledOf : Event ε × Output ε → Option (List UInt8 × SocketAddrV4)
  | (.receive _, .handled data src _) => some (data, src)
  | _ => none

/-- The datagrams handled. -/
def handled (t : List (Event ε × Output ε)) : List (List UInt8 × SocketAddrV4) :=
  t.filterMap handledOf

theorem queued_eq (t : List (Event ε × Output ε)) :
    Channel.sent (t.filterMap channelStep) = queued t := by
  rw [Channel.sent, List.filterMap_filterMap, queued]
  refine List.filterMap_congr fun x _ => ?_
  obtain ⟨e, out⟩ := x
  rcases e with - | - | ⟨- | -⟩ | - | - | - | - | - <;>
    rcases out with - | ⟨taken, - | - | - | -⟩ | - | - | - | - | -
  all_goals rfl

theorem handled_eq (t : List (Event ε × Output ε)) :
    Channel.received (t.filterMap channelStep) = handled t := by
  rw [Channel.received, List.filterMap_filterMap, handled]
  refine List.filterMap_congr fun x _ => ?_
  rcases x with ⟨- | - | ⟨- | -⟩ | - | - | - | - | -, - | ⟨taken, - | told⟩ | - | - | - | - | -⟩
  all_goals rfl

/-- The response that a step comes to. -/
def answerOf : Event ε × Output ε → Option Datagram
  | (_, .handled _ _ (.ok response)) => response
  | _ => none

/-- The responses. -/
def answers (t : List (Event ε × Output ε)) : List Datagram := t.filterMap answerOf

/-- The response that a step sends. -/
def sentOf : Event ε × Output ε → Option Datagram
  | (_, .sent response) => some response
  | _ => none

/-- The responses sent. -/
def sent (t : List (Event ε × Output ε)) : List Datagram := t.filterMap sentOf

/-- The request that a step handles. -/
def requestStep : Event ε × Output ε → Option RequestV1
  | (_, .handled data _ _) => requestOf data
  | _ => none

/-- The requests handled. -/
def requests (t : List (Event ε × Output ε)) : List RequestV1 := t.filterMap requestStep

/-- Whether a step drops a datagram because the queue is full. -/
def isDrop : Event ε × Output ε → Bool
  | (_, .hook _ (some .full)) => true
  | _ => false

/-- The handler never panics. -/
theorem handlePacket_isOk (h : (machine P limits rendezvousHash lag start).Run t s)
    (data : List UInt8) (src : SocketAddrV4) (clock : Clock) :
    ∃ r, s.metered.handlePacket P data src clock = .ok r := by
  rcases hhandle : s.metered.handlePacket P data src clock with panic | r
  · obtain ⟨s', sent, hok, -⟩ := (Server.inv_run (server_run h)).handled (P := P) data src clock
    rw [Metered.handlePacket_error hhandle] at hok
    cases hok
  · exact ⟨r, rfl⟩

/-- The task and the receiver go together. -/
theorem closed_iff (h : (machine P limits rendezvousHash lag start).Run t s) :
    s.channel.closed = true ↔ ∃ result, s.task = .finished result := by
  refine run_invariant
    (I := fun _ s => s.channel.closed = true ↔ ∃ result, s.task = .finished result)
    (fun key now => ⟨nofun, nofun⟩) ?_ h
  intro t s e s' out hrun ih hstep
  cases hstep with
  | left | long | unhook | announce | putLocal | getLocal => exact ih
  | offered => rwa [Channel.closed_trySend]
  | ended | panicked | stopped => exact ⟨fun _ => ⟨_, rfl⟩, fun _ => rfl⟩
  | abort =>
    refine ⟨fun _ => ?_, fun _ => rfl⟩
    cases hs : s.task with
    | finished result => exact ⟨result, by simp only [Task.abort]⟩
    | waiting | sending => exact ⟨.error .cancelled, by simp only [Task.abort]⟩
  | @handled clock data src rest m response htask hqueue hhandle =>
    have hopen : ¬ s.channel.closed = true := fun hclosed => by
      obtain ⟨result, hover⟩ := ih.mp hclosed
      rw [htask] at hover
      cases hover
    refine ⟨fun hclosed => absurd hclosed hopen, ?_⟩
    rintro ⟨result, hover⟩
    cases response <;> cases hover
  | sent htask =>
    refine ⟨fun hclosed => ?_, nofun⟩
    obtain ⟨result, hover⟩ := ih.mp hclosed
    rw [htask] at hover
    cases hover

theorem open_of_task (h : (machine P limits rendezvousHash lag start).Run t s)
    (htask : ∀ result, s.task ≠ .finished result) : s.channel.closed = false := by
  refine Bool.eq_false_iff.mpr fun hclosed => ?_
  obtain ⟨result, hover⟩ := (closed_iff h).mp hclosed
  exact htask result hover

theorem open_of_waiting (h : (machine P limits rendezvousHash lag start).Run t s)
    (htask : s.task = .waiting) : s.channel.closed = false :=
  open_of_task h fun result hover => by
    rw [htask] at hover
    cases hover

/-- The datagrams queued and handled are a run of the queue. -/
theorem channel_run (h : (machine P limits rendezvousHash lag start).Run t s) :
    (Channel.machine QUEUE).Run (t.filterMap channelStep) s.channel := by
  refine run_invariant (I := fun t s => (Channel.machine QUEUE).Run (t.filterMap channelStep)
    s.channel) (fun key now => .start rfl) ?_ h
  intro t s e s' out hrun ih hstep
  rw [filterMap_concat]
  cases hstep with
  | left | long | sent | unhook | announce | putLocal | getLocal =>
    simpa only [channelStep, Option.toList_none, List.append_nil] using ih
  | offered src hmagic hlen => exact ih.step (a := .send _) (by trivial)
  | ended | stopped | abort => exact ih.step (a := .close) (by trivial)
  | panicked clock htask hqueue hhandle =>
    obtain ⟨r, hok⟩ := handlePacket_isOk hrun _ _ _
    rw [hhandle] at hok
    cases hok
  | @handled clock data src rest m response htask hqueue hhandle =>
    have hnext := ih.step (a := .recv) (by exact open_of_waiting hrun htask)
    simp only [Channel.machine, Channel.recv, hqueue] at hnext
    exact hnext

/-- Only datagrams of the index are queued. -/
theorem queued_run (h : (machine P limits rendezvousHash lag start).Run t s) :
    ∀ p ∈ queued t, MAGIC <+: p.1 ∧ p.1.length ≤ MAX_DGRAM := by
  refine run_invariant (I := fun t _ => ∀ p ∈ queued t, MAGIC <+: p.1 ∧ p.1.length ≤ MAX_DGRAM)
    (fun _ _ => nofun) ?_ h
  intro t s e s' out hrun ih hstep p hp
  rw [queued, filterMap_concat] at hp
  rcases List.mem_append.mp hp with hp | hp
  · exact ih p hp
  cases hstep with
  | @offered bytes src hmagic hlen =>
    generalize (s.channel.trySend QUEUE (bytes, src)).2 = told at hp
    cases told with
    | sent =>
      rw [List.mem_singleton.mp (show p ∈ [(bytes, src)] from hp)]
      exact ⟨hmagic, hlen⟩
    | full | closed => cases hp
  | _ => cases hp

/-- The responses are sent in order, but for the one the task is at, or could not send. -/
theorem answers_run (h : (machine P limits rendezvousHash lag start).Run t s) :
    ∃ rest, answers t = sent t ++ rest ∧ rest.length ≤ 1 ∧ (s.task = .waiting → rest = []) ∧
      ∀ response, s.task = .sending response → rest = [response] := by
  refine run_invariant (I := fun t s => ∃ rest, answers t = sent t ++ rest ∧ rest.length ≤ 1 ∧
    (s.task = .waiting → rest = []) ∧ ∀ response, s.task = .sending response → rest = [response])
    (fun _ _ => ⟨[], rfl, Nat.zero_le _, fun _ => rfl, nofun⟩) ?_ h
  rintro t s e s' out hrun ⟨rest, hanswers, hlen, hwaiting, hsending⟩ hstep
  rw [answers, sent, filterMap_concat, filterMap_concat, ← answers, ← sent, hanswers]
  cases hstep with
  | left | long | offered | unhook | announce | putLocal | getLocal =>
    refine ⟨rest, ?_, hlen, hwaiting, hsending⟩
    simp only [answerOf, sentOf, Option.toList_none, List.append_nil]
  | ended | panicked | stopped =>
    refine ⟨rest, ?_, hlen, nofun, nofun⟩
    simp only [answerOf, sentOf, Option.toList_none, List.append_nil]
  | abort =>
    refine ⟨rest, ?_, hlen, ?_⟩
    · simp only [answerOf, sentOf, Option.toList_none, List.append_nil]
    · cases s.task <;> exact ⟨nofun, nofun⟩
  | @handled clock data src queue m response htask hqueue hhandle =>
    obtain rfl := hwaiting htask
    refine ⟨response.toList, ?_, ?_⟩
    · simp only [answerOf, sentOf, Option.toList_none, List.append_nil]
    · cases response with
      | none => exact ⟨Nat.zero_le _, fun _ => rfl, nofun⟩
      | some response =>
        refine ⟨le_rfl, nofun, ?_⟩
        rintro _ ⟨⟩
        rfl
  | @sent response htask =>
    obtain rfl := hsending response htask
    refine ⟨[], ?_, Nat.zero_le _, fun _ => rfl, nofun⟩
    simp only [answerOf, sentOf, Option.toList_none, Option.toList_some, List.append_nil]

/-- The metrics count the run. -/
theorem counted_run (h : (machine P limits rendezvousHash lag start).Run t s) :
    Metrics.zero.Counted s.metered.metrics (requests t).length ((answers t).filterMap responseOf)
        (t.countP isDrop) ∧
      ((answers t).filterMap responseOf).length = (answers t).length ∧ s.metered.Gauged := by
  refine run_invariant (I := fun t s => Metrics.zero.Counted s.metered.metrics (requests t).length
    ((answers t).filterMap responseOf) (t.countP isDrop) ∧
      ((answers t).filterMap responseOf).length = (answers t).length ∧ s.metered.Gauged)
    (fun _ _ => ⟨⟨rfl, rfl, rfl, rfl, rfl, rfl⟩, rfl, rfl⟩) ?_ h
  rintro t s e s' out hrun ⟨hcounted, hlen, hgauged⟩ hstep
  rw [requests, answers, filterMap_concat, filterMap_concat, List.countP_append, ← requests,
    ← answers, List.filterMap_append, List.length_append, List.length_append, List.length_append,
    hlen]
  cases hstep with
  | left | long | ended | sent | stopped | unhook | announce | abort =>
    exact ⟨hcounted.trans ⟨rfl, rfl, rfl, rfl, rfl, rfl⟩, rfl, hgauged⟩
  | putLocal | getLocal => exact ⟨hcounted.trans ⟨rfl, rfl, rfl, rfl, rfl, rfl⟩, rfl, rfl⟩
  | @offered bytes src hmagic hlen =>
    refine ⟨hcounted.trans ⟨rfl, rfl, rfl, rfl, rfl, ?_⟩, rfl, hgauged⟩
    rcases (s.channel.trySend QUEUE (bytes, src)).2 with - | - | - <;> rfl
  | panicked clock htask hqueue hhandle =>
    obtain ⟨r, hok⟩ := handlePacket_isOk hrun _ _ _
    rw [hhandle] at hok
    cases hok
  | handled clock htask hqueue hhandle =>
    obtain ⟨-, hrequest, hdecodes, hkeeps⟩ := Metered.handlePacket_ok hhandle
    exact ⟨hcounted.trans hrequest, congrArg (_ + ·) hdecodes, hkeeps hgauged⟩

/-- A task that returned has handled all that was queued. -/
theorem drained_run (h : (machine P limits rendezvousHash lag start).Run t s) :
    s.task = .finished (.ok (.ok ())) → handled t = queued t := by
  refine run_invariant (I := fun t s => s.task = .finished (.ok (.ok ())) → handled t = queued t)
    (fun _ _ => nofun) ?_ h
  intro t s e s' out hrun ih hstep hover
  rw [handled, queued, filterMap_concat, filterMap_concat, ← handled, ← queued]
  cases hstep with
  | left | long | unhook | announce | putLocal | getLocal => exact congrArg (· ++ []) (ih hover)
  | @offered bytes src hmagic hlen =>
    rw [Channel.trySend, if_pos ((closed_iff hrun).mpr ⟨_, hover⟩)]
    exact congrArg (· ++ []) (ih hover)
  | ended clock htask hooked hqueue =>
    have horder := (Channel.queued_run (channel_run hrun)).order (open_of_waiting hrun htask)
    rw [hqueue, List.append_nil, handled_eq, queued_eq] at horder
    exact congrArg (· ++ []) horder
  | @handled clock data src rest m response htask hqueue hhandle => cases response <;> cases hover
  | panicked | sent | stopped => cases hover
  | abort =>
    have htask : s.task = .finished (.ok (.ok ())) := by
      cases htask : s.task with
      | finished result => simpa only [htask, Task.abort] using hover
      | waiting | sending =>
        simp only [htask, Task.abort] at hover
        cases hover
    exact congrArg (· ++ []) (ih htask)

/-- What ends the service task. -/
structure Ends (t : List (Event ε × Output ε)) (s : State F) : Prop where
  /-- it is only cancelled by its handle -/
  cancelled : s.task = .finished (.error .cancelled) → .abort ∈ t.map Prod.fst
  /-- it does not panic -/
  panicked : ∀ panic, s.task ≠ .finished (.error (.panicked panic))
  /-- an error of the node is the one of a response that could not be sent -/
  stopped : ∀ error, s.task = .finished (.ok (.error error)) → .sent (.error error) ∈ t.map Prod.fst
  /-- it only returns when the socket has lost its hook -/
  ended : s.task = .finished (.ok (.ok ())) → .unhook ∈ t.map Prod.fst
  /-- which it does when it gets another one -/
  unhooked : s.hooked = false → .unhook ∈ t.map Prod.fst

theorem ends_run (h : (machine P limits rendezvousHash lag start).Run t s) : Ends t s := by
  refine run_invariant (I := Ends) (fun _ _ => ⟨nofun, nofun, nofun, nofun, nofun⟩) ?_ h
  rintro t s e s' out hrun ih hstep
  have hold {e' : Event ε} (h : e' ∈ t.map Prod.fst) : e' ∈ (t ++ [(e, out)]).map Prod.fst := by
    rw [List.map_append]
    exact List.mem_append_left _ h
  have hnew : e ∈ (t ++ [(e, out)]).map Prod.fst := by
    rw [List.map_append]
    exact List.mem_append_right _ (List.mem_singleton_self _)
  have hsame : Ends (t ++ [(e, out)]) s :=
    ⟨fun h => hold (ih.cancelled h), ih.panicked, fun error h => hold (ih.stopped error h),
      fun h => hold (ih.ended h), fun h => hold (ih.unhooked h)⟩
  cases hstep with
  | left | long | announce | putLocal | getLocal | offered =>
    exact ⟨hsame.cancelled, hsame.panicked, hsame.stopped, hsame.ended, hsame.unhooked⟩
  | unhook => exact ⟨hsame.cancelled, hsame.panicked, hsame.stopped, hsame.ended, fun _ => hnew⟩
  | ended clock htask hooked hqueue =>
    exact ⟨nofun, nofun, nofun, fun _ => hsame.unhooked hooked, hsame.unhooked⟩
  | @handled clock data src rest m response htask hqueue hhandle =>
    cases response <;> exact ⟨nofun, nofun, nofun, nofun, hsame.unhooked⟩
  | panicked clock htask hqueue hhandle =>
    obtain ⟨r, hok⟩ := handlePacket_isOk hrun _ _ _
    rw [hhandle] at hok
    cases hok
  | sent => exact ⟨nofun, nofun, nofun, nofun, hsame.unhooked⟩
  | stopped error htask =>
    refine ⟨nofun, nofun, ?_, nofun, hsame.unhooked⟩
    rintro _ ⟨⟩
    exact hnew
  | abort =>
    cases htask : s.task with
    | finished result =>
      simp only [Task.abort]
      exact ⟨fun _ => hnew, fun p hp => hsame.panicked p (htask.trans hp),
        fun error herror => hsame.stopped error (htask.trans herror),
        fun hended => hsame.ended (htask.trans hended), hsame.unhooked⟩
    | waiting | sending =>
      simp only [Task.abort]
      exact ⟨fun _ => hnew, nofun, nofun, nofun, hsame.unhooked⟩

/-- What holds of the announcement. -/
structure Announces (rendezvousHash : Option (Vector UInt8 20)) (lag start : ℕ)
    (t : List (Event ε × Output ε)) (s : State F) : Prop where
  /-- there is one exactly if there is a hash -/
  announced : s.announcement.isSome = rendezvousHash.isSome
  /-- it is a run of its loop -/
  run : ∃ loop, ((announceLoop ε).machine lag start).Run (t.filterMap announceStep) loop ∧
    ∀ loop', s.announcement = some (.running loop') → loop' = loop
  /-- it is only aborted by its handle, and the service task with it -/
  aborted : s.announcement = some .aborted → .abort ∈ t.map Prod.fst ∧ s.channel.closed = true

theorem announces_run (h : (machine P limits rendezvousHash lag start).Run t s) :
    Announces rendezvousHash lag start t s := by
  refine run_invariant (I := Announces rendezvousHash lag start) ?_ ?_ h
  · intro key now
    refine ⟨Option.isSome_map, ⟨_, .start rfl, ?_⟩, ?_⟩
    · intro loop' h
      cases rendezvousHash <;> cases h
      rfl
    · intro h
      cases rendezvousHash <;> cases h
  rintro t s e s' out hrun ih hstep
  obtain ⟨hannounced, ⟨loop, hloop, hsame⟩, haborted⟩ := id ih
  have hold {e' : Event ε} (h : e' ∈ t.map Prod.fst) : e' ∈ (t ++ [(e, out)]).map Prod.fst := by
    rw [List.map_append]
    exact List.mem_append_left _ h
  have hquiet (hno : announceStep (e, out) = none) :
      ((announceLoop ε).machine lag start).Run ((t ++ [(e, out)]).filterMap announceStep) loop := by
    rw [filterMap_concat, hno, Option.toList_none, List.append_nil]
    exact hloop
  cases hstep with
  | left | long | sent | unhook | putLocal | getLocal =>
    exact ⟨hannounced, ⟨loop, hquiet rfl, hsame⟩, fun h => ⟨hold (haborted h).1, (haborted h).2⟩⟩
  | offered =>
    refine ⟨hannounced, ⟨loop, hquiet rfl, hsame⟩, fun h => ⟨hold (haborted h).1, ?_⟩⟩
    rw [Channel.closed_trySend]
    exact (haborted h).2
  | ended | panicked | stopped =>
    exact ⟨hannounced, ⟨loop, hquiet rfl, hsame⟩, fun h => ⟨hold (haborted h).1, rfl⟩⟩
  | handled =>
    exact ⟨hannounced, ⟨loop, hquiet rfl, hsame⟩, fun h => ⟨hold (haborted h).1, (haborted h).2⟩⟩
  | @announce loop' e hrunning hen =>
    obtain rfl := hsame loop' hrunning
    refine ⟨?_, ⟨((announceLoop ε).step loop' e).1, ?_, ?_⟩, nofun⟩
    · rw [← hannounced, hrunning]
      rfl
    · rw [filterMap_concat]
      exact hloop.step (a := e) (by exact hen)
    · rintro _ ⟨⟩
      rfl
  | abort =>
    refine ⟨Option.isSome_map.trans hannounced, ⟨loop, hquiet rfl, fun loop' h => ?_⟩, fun _ => ?_⟩
    · cases hs : s.announcement <;> simp [hs] at h
    · refine ⟨?_, rfl⟩
      rw [List.map_append]
      exact List.mem_append_right _ (List.mem_singleton_self _)

/-! ## What others can rely on -/

/-- The hook takes what starts like a datagram of the index while there is a task, and tells
whether it queued it. -/
structure Hooked (bytes : List UInt8) (taken : Bool) (told : Option Channel.Sent) : Prop where
  /-- it leaves everything else to Mainline -/
  magic : taken = true → MAGIC <+: bytes
  /-- it leaves datagrams of the index only if there is no task -/
  left : taken = false → MAGIC <+: bytes → told = some .closed
  /-- it queues those it takes unless they are too long, or there is no room -/
  queued : taken = true → bytes.length ≤ MAX_DGRAM → told = some .sent ∨ told = some .full

theorem hooked_run (h : (machine P limits rendezvousHash lag start).Run t s)
    {bytes : List UInt8} {src : SocketAddrV4} {taken : Bool} {told : Option Channel.Sent}
    (hmem : (.datagram bytes src, .hook taken told) ∈ t) : Hooked bytes taken told := by
  obtain ⟨s₁, s', hstep⟩ := steps_of_mem h hmem
  generalize hshown : Output.hook taken told = out at hstep
  cases hstep with
  | left src hmagic =>
    cases hshown
    exact ⟨nofun, fun _ h => absurd h hmagic, nofun⟩
  | long src hmagic hlong =>
    cases hshown
    exact ⟨fun _ => hmagic, nofun, fun _ hle => absurd hlong hle.not_gt⟩
  | offered src hmagic hlen =>
    generalize (s₁.channel.trySend QUEUE (bytes, src)).2 = told' at hshown
    cases told' with
    | sent =>
      cases hshown
      exact ⟨fun _ => hmagic, nofun, fun _ _ => .inl rfl⟩
    | full =>
      cases hshown
      exact ⟨fun _ => hmagic, nofun, fun _ _ => .inr rfl⟩
    | closed =>
      cases hshown
      exact ⟨nofun, fun _ _ => rfl, nofun⟩

/-- **An index server answers what it queues, in order.** In every run: the hook only takes
datagrams of the index, and leaves none of them while there is a task; those queued are handled in
this order, none twice, and all but the at most `QUEUE` ones that wait, until the task is over;
handling them, with the calls of other owners, is a run of the server; and the responses are sent
in order, all but at most the last one. -/
theorem requests_served (P : Primitives) (limits : Limits F)
    (rendezvousHash : Option (Vector UInt8 20)) (lag start : ℕ) (t : List (Event ε × Output ε))
    (s : State F) (h : (machine P limits rendezvousHash lag start).Run t s) :
    (∀ bytes src taken told, (.datagram bytes src, .hook taken told) ∈ t →
      Hooked bytes taken told) ∧
    (∀ p ∈ queued t, MAGIC <+: p.1 ∧ p.1.length ≤ MAX_DGRAM) ∧
    handled t <+: queued t ∧
    ((∀ result, s.task ≠ .finished result) →
      handled t ++ s.channel.queue = queued t ∧ s.channel.queue.length ≤ QUEUE) ∧
    (Server.machine P limits).Run (t.filterMap serverStep) s.metered.server ∧
    ∃ rest, answers t = sent t ++ rest ∧ rest.length ≤ 1 ∧ (s.task = .waiting → rest = []) := by
  have hqueued := Channel.queued_run (channel_run h)
  have horder := hqueued.order
  have hinitial := hqueued.initial
  rw [handled_eq, queued_eq] at horder hinitial
  obtain ⟨rest, hanswers, hlen, hwaiting, -⟩ := answers_run h
  exact ⟨fun _ _ _ _ hmem => hooked_run h hmem, queued_run h, hinitial,
    fun htask => ⟨horder (open_of_task h htask), hqueued.bounded⟩, server_run h, rest, hanswers,
    hlen, hwaiting⟩

/-- **The metrics account for the traffic.** In every run the counters of successful requests are
the numbers of responses of their kinds, those of failures make up for the other requests handled,
each of which is counted once; the drops are the datagrams that found the queue full; and the gauge
is the number of entries of the store. -/
theorem metrics_account (P : Primitives) (limits : Limits F)
    (rendezvousHash : Option (Vector UInt8 20)) (lag start : ℕ) (t : List (Event ε × Output ε))
    (s : State F) (h : (machine P limits rendezvousHash lag start).Run t s) :
    let m := s.metered.metrics
    let responses := (answers t).filterMap responseOf
    m.prepares = responses.countP (·.isPrepared) ∧ m.puts = responses.countP (·.isStored) ∧
    m.gets = responses.countP (·.isValue) ∧ m.getHits = responses.countP (·.isHit) ∧
    m.prepares + m.puts + m.gets = (answers t).length ∧
    (requests t).length = (answers t).length + m.invalidTokens + m.rateLimited + m.rejectedPuts ∧
    m.queueDrops = t.countP isDrop ∧ m.entries = s.metered.server.store.len := by
  intro m responses
  obtain ⟨hcounted, hlen, hgauged⟩ := counted_run h
  have hprepares : m.prepares = responses.countP (·.isPrepared) :=
    hcounted.prepares.trans (Nat.zero_add _)
  have hputs : m.puts = responses.countP (·.isStored) := hcounted.puts.trans (Nat.zero_add _)
  have hgets : m.gets = responses.countP (·.isValue) := hcounted.gets.trans (Nat.zero_add _)
  have hkinds : m.prepares + m.puts + m.gets = (answers t).length := by
    rw [hprepares, hputs, hgets, countP_kinds, hlen]
  have hrequests : m.requests = 0 + (requests t).length := hcounted.requests
  refine ⟨hprepares, hputs, hgets, hcounted.getHits.trans (Nat.zero_add _), hkinds, ?_,
    hcounted.queueDrops.trans (Nat.zero_add _), hgauged⟩
  rw [← hkinds, ← Nat.zero_add (requests t).length, ← hrequests, Metrics.requests]

/-- What must have happened for a handle to be told of an error. -/
def Caused (rendezvousHash : Option (Vector UInt8 20)) (t : List (Event ε × Output ε)) :
    TerminatedError → Prop
  | .serviceTask source => source = .cancelled ∧ .abort ∈ t.map Prod.fst
  | .transport error => .sent (.error error) ∈ t.map Prod.fst
  | .serviceStopped => .unhook ∈ t.map Prod.fst ∧ handled t = queued t
  | .announcementTask source =>
    source = .cancelled ∧ .abort ∈ t.map Prod.fst ∧ rendezvousHash.isSome = true
  | .announcementStopped => False

/-- How the next announcement follows one: ten minutes after a success, or half a minute after a
failure. -/
def Renews (lag : ℕ) (a b : RetryLoop.Attempt (Except ε Unit)) : Prop :=
  (∃ r, a.outcome = .ok r) ∧ a.now + 600 * 10 ^ 9 ≤ b.since ∧
      b.since ≤ a.now + 600 * 10 ^ 9 + lag ∨
    (∃ error, a.outcome = .error error) ∧ a.now + 30 * 10 ^ 9 ≤ b.since ∧
      b.since ≤ a.now + 30 * 10 ^ 9 + lag

theorem renews_of_next {a b : RetryLoop.Attempt (Except ε Unit)}
    (h : (announceLoop ε).Next lag a b.since) : Renews lag a b := by
  obtain ⟨delay, hverdict, hle, hlag⟩ := h
  cases houtcome : a.outcome with
  | ok r =>
    rw [houtcome] at hverdict
    obtain rfl := Except.ok.inj hverdict
    exact .inl ⟨⟨r, houtcome⟩, hle, hlag⟩
  | error error =>
    rw [houtcome] at hverdict
    obtain rfl := Except.ok.inj hverdict
    exact .inr ⟨⟨error, houtcome⟩, hle, hlag⟩

namespace Sample

open Server.Sample (socket key primitives clock token prepare put)

/-- Any rendezvous hash. -/
def rendezvous : Vector UInt8 20 := .replicate 20 7

/-- A server that is attached. -/
def attached : State (Option ℚ) := attach (.new .default key 0) (some rendezvous) 0

/-- A server that serves. -/
def service : Machine (State (Option ℚ)) (Event Unit) (Output Unit) :=
  machine primitives .default (some rendezvous) 0 0

/-- A socket gets a token, and stores a value with it. -/
def events : List (Event Unit) :=
  [.datagram prepare.data socket, .receive clock, .sent (.ok ()), .datagram put.data socket,
    .receive clock]

theorem follows : service.Follows [] attached events := by
  refine ⟨rfl, ⟨?_, .inr ?_⟩, ⟨⟨Server.reply (.prepared 1 socket token), socket⟩, ?_⟩,
    (?_ : State.hooked _ = true), ⟨?_, .inr ?_⟩, trivial⟩
  all_goals decide +kernel

theorem run_events : service.Run ([] ++ (service.exec attached events).1)
    (service.exec attached events).2 :=
  Machine.Run.follows (.start ⟨_, _, rfl⟩) follows

end Sample

open Sample in
/-- Both requests are handled, and the first response is sent. -/
theorem requests_served_sample : ∃ t s, service.Run t s ∧ (handled t).length = 2 ∧
    handled t <+: queued t ∧ (sent t).length = 1 := by
  have hhandled : (handled ([] ++ (service.exec attached events).1)).length = 2 := by
    decide +kernel
  have hsent : (sent ([] ++ (service.exec attached events).1)).length = 1 := by
    decide +kernel
  exact ⟨_, _, run_events, hhandled,
    (requests_served _ _ _ _ _ _ _ run_events).2.2.1, hsent⟩

open Sample in
/-- Both requests are counted, and the entry. -/
theorem metrics_account_sample : ∃ t s, service.Run t s ∧ (requests t).length = 2 ∧
    s.metered.metrics.entries = s.metered.server.store.len ∧ s.metered.metrics.entries = 1 := by
  have hrequests : (requests ([] ++ (service.exec attached events).1)).length = 2 := by
    decide +kernel
  have hentries : (service.exec attached events).2.metered.metrics.entries = 1 := by
    decide +kernel
  exact ⟨_, _, run_events, hrequests,
    (metrics_account _ _ _ _ _ _ _ run_events).2.2.2.2.2.2.2, hentries⟩

end IndexService

end ContentDiscovery
