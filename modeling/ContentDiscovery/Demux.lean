import ContentDiscovery.UdpClient

/-!
# Transactions do not interact

An event of the client actor is one event for each of its transactions. Seen from
one publish, a step is one of `PublishStep`: it starts, it is updated by a reply that
it heeds, it finishes, or nothing happens to it. `ResolveStep` is the same for a
resolve. So what holds of one transaction along every sequence of such steps holds of
each of the concurrent ones, and the server set matters only when one starts.
-/

namespace ContentDiscovery

namespace Actor

/-- An input of the actor. -/
inductive Event where
  /-- a command of a caller, with the id `next_id` draws for it -/
  | message (m : ActorMsg) (tx : TransactionId) (now : Instant)
  /-- a datagram, with the clock a value builder reads -/
  | packet (data : List UInt8) (src : SocketAddrV4) (unixSecs : UInt64)
  /-- the timer -/
  | flush (now : Instant)

/-- One round of the loop of `Actor::run`. -/
def step (s : Actor) : Event → Actor × List Action
  | .message m tx now => s.handleMessage m tx now
  | .packet data src unixSecs => s.handlePacket data src unixSecs
  | .flush now => s.flushExpired now

/-! ## What concerns a transaction -/

/-- The put of transaction `tx` that an action sends, if it does. -/
def putOf (tx : TransactionId) : Action → Option Datagram
  | .send d =>
    match Proto.decode d.bytes with
    | some (.request (.v1 (.put tx' _ _))) => if tx' = tx then some d else none
    | _ => none
  | _ => none

/-- The result of publish `tx`, if the action is one. -/
def publishedOf (tx : TransactionId) : Action → Option (Except UdpError (List SocketAddrV4))
  | .published tx' r => if tx' = tx then some r else none
  | _ => none

/-- The result of resolve `tx`, if the action is one. -/
def resolvedOf (tx : TransactionId) : Action → Option (Except UdpError (List (List UInt8)))
  | .resolved tx' r => if tx' = tx then some r else none
  | _ => none

@[simp] theorem putOf_published (tx tx' : TransactionId) (r) :
    putOf tx (.published tx' r) = none := rfl

@[simp] theorem putOf_resolved (tx tx' : TransactionId) (r) :
    putOf tx (.resolved tx' r) = none := rfl

@[simp] theorem publishedOf_send (tx : TransactionId) (d : Datagram) :
    publishedOf tx (.send d) = none := rfl

@[simp] theorem publishedOf_resolved (tx tx' : TransactionId) (r) :
    publishedOf tx (.resolved tx' r) = none := rfl

@[simp] theorem resolvedOf_send (tx : TransactionId) (d : Datagram) :
    resolvedOf tx (.send d) = none := rfl

@[simp] theorem resolvedOf_published (tx tx' : TransactionId) (r) :
    resolvedOf tx (.published tx' r) = none := rfl

theorem publishedOf_published (tx tx' : TransactionId) (r) :
    publishedOf tx (.published tx' r) = if tx' = tx then some r else none := rfl

theorem resolvedOf_resolved (tx tx' : TransactionId) (r) :
    resolvedOf tx (.resolved tx' r) = if tx' = tx then some r else none := rfl

theorem putOf_send_put {bytes : List UInt8} {tx tx' : TransactionId} {token : Token}
    {v : List UInt8} {server : SocketAddrV4}
    (h : Proto.decode bytes = some (.request (.v1 (.put tx' token v)))) :
    putOf tx (.send ⟨bytes, server⟩) = if tx' = tx then some ⟨bytes, server⟩ else none := by
  simp only [putOf, h]

/-! ## The datagrams of a client -/

theorem decode_encode {r : RequestV1} {bytes : List UInt8} (h : encode r = some bytes) :
    Proto.decode bytes = some (.request (.v1 r)) := Proto.decode_encode h

/-- Every request of a client fits a datagram. -/
theorem encode_eq_some {r : RequestV1}
    (hput : ∀ tx token v, r = .put tx token v → v.length ≤ MAX_VALUE_LEN) :
    ∃ bytes, encode r = some bytes := by
  exact ⟨_, by rw [encode, Proto.encode_eq, if_pos (Proto.request_fits hput)]⟩

/-- A broadcast is no put, and finishes nothing. -/
theorem filterMap_putOf_sendAll {bytes : List UInt8} {tx : TransactionId}
    {servers : HashSet SocketAddrV4}
    (h : ∀ token v, Proto.decode bytes ≠ some (.request (.v1 (.put tx token v)))) :
    (sendAll servers bytes).filterMap (putOf tx) = [] := by
  rw [sendAll, List.filterMap_map, List.filterMap_eq_nil_iff]
  intro server _
  simp only [Function.comp_apply, putOf]
  split
  · rename_i tx' token v hdec
    rw [if_neg]
    rintro rfl
    exact h token v hdec
  · rfl

theorem filterMap_publishedOf_sendAll (tx : TransactionId) (servers : HashSet SocketAddrV4)
    (bytes : List UInt8) : (sendAll servers bytes).filterMap (publishedOf tx) = [] := by
  rw [sendAll, List.filterMap_map, List.filterMap_eq_nil_iff]
  exact fun _ _ => rfl

theorem filterMap_resolvedOf_sendAll (tx : TransactionId) (servers : HashSet SocketAddrV4)
    (bytes : List UInt8) : (sendAll servers bytes).filterMap (resolvedOf tx) = [] := by
  rw [sendAll, List.filterMap_map, List.filterMap_eq_nil_iff]
  exact fun _ _ => rfl

/-! ## A publish -/

/-- A reply that publish `tx` heeds, with what it makes of it and the put it sends. -/
inductive PublishUpdate (tx : TransactionId) (p : PendingPublish) :
    Event → PendingPublish → List Datagram → Prop
  /-- the first `Prepared` of an awaited server -/
  | prepared {data : List UInt8} {src addr : SocketAddrV4} {unixSecs : UInt64} {token : Token}
    {bytes : List UInt8}
    (hdec : Proto.decode data = some (.response (.v1 (.prepared tx addr token))))
    (hawait : src ∈ p.awaiting) (hfirst : src ∉ p.prepared)
    (hfit : (p.value addr unixSecs).length ≤ MAX_VALUE_LEN)
    (hbytes : Proto.decode bytes = some (.request (.v1 (.put tx token (p.value addr unixSecs))))) :
    PublishUpdate tx p (.packet data src unixSecs)
      { p with prepared := insert src p.prepared } [⟨bytes, src⟩]
  /-- the same, but the value built for it is too large -/
  | tooLarge {data : List UInt8} {src addr : SocketAddrV4} {unixSecs : UInt64} {token : Token}
    (hdec : Proto.decode data = some (.response (.v1 (.prepared tx addr token))))
    (hawait : src ∈ p.awaiting) (hfirst : src ∉ p.prepared)
    (hlong : MAX_VALUE_LEN < (p.value addr unixSecs).length) :
    PublishUpdate tx p (.packet data src unixSecs)
      { p with prepared := insert src p.prepared, tooLarge := true,
               awaiting := p.awaiting.erase src } []
  /-- the first confirmation of an awaited server -/
  | stored {data : List UInt8} {src addr : SocketAddrV4} {unixSecs : UInt64}
    (hdec : Proto.decode data = some (.response (.v1 (.stored tx addr))))
    (hawait : src ∈ p.awaiting) :
    PublishUpdate tx p (.packet data src unixSecs)
      { p with awaiting := p.awaiting.erase src, stored := insert addr p.stored } []

/-- What an event does to publish `tx`: its state before and after, the puts it
sends and the results it returns. -/
inductive PublishStep (servers : HashSet SocketAddrV4) (timeout : ℕ) (tx : TransactionId) :
    Option PendingPublish → Event → Option PendingPublish → List Datagram →
      List (Except UdpError (List SocketAddrV4)) → Prop
  /-- nothing -/
  | idle {o : Option PendingPublish} {e : Event}
    (h : ∀ p, o = some p → (∀ p' ds, ¬ PublishUpdate tx p e p' ds) ∧
      ∀ now, e = .flush now → now < p.deadline) : PublishStep servers timeout tx o e o [] []
  /-- it fails at once -/
  | noServers {o : Option PendingPublish} {value : ValueFor} {now : Instant}
    (h : servers = ∅) :
    PublishStep servers timeout tx o (.message (.publish value) tx now) o [] [.error .noServers]
  /-- it starts -/
  | start {o : Option PendingPublish} {value : ValueFor} {now : Instant} (h : servers ≠ ∅) :
    PublishStep servers timeout tx o (.message (.publish value) tx now)
      (some ⟨value, false, servers, ∅, ∅, now + timeout⟩) [] []
  /-- it goes on -/
  | update {p p' : PendingPublish} {e : Event} {ds : List Datagram}
    (h : PublishUpdate tx p e p' ds) (hawait : p'.awaiting ≠ ∅) :
    PublishStep servers timeout tx (some p) e (some p') ds []
  /-- the last server answered -/
  | finish {p p' : PendingPublish} {e : Event} {ds : List Datagram}
    (h : PublishUpdate tx p e p' ds) (hawait : p'.awaiting = ∅) :
    PublishStep servers timeout tx (some p) e none ds [p'.result]
  /-- its time is up -/
  | expire {p : PendingPublish} {now : Instant} (h : p.deadline ≤ now) :
    PublishStep servers timeout tx (some p) (.flush now) none [] [p.result]

/-- The publish `tx` and what an event does to it, read off two states of the actor
and its actions. -/
def PublishSees (tx : TransactionId) (s : Actor) (e : Event) (r : Actor × List Action) : Prop :=
  PublishStep s.servers s.timeout tx (s.publishes.lookup tx) e (r.1.publishes.lookup tx)
    (r.2.filterMap (putOf tx)) (r.2.filterMap (publishedOf tx))

variable {s : Actor} {tx tx' : TransactionId}

theorem lookup_publishes_finishPublish :
    (s.finishPublish tx').1.publishes.lookup tx =
      if tx = tx' then none else s.publishes.lookup tx := by
  rw [finishPublish]
  split
  · rename_i hnone
    split
    · rename_i heq
      rw [heq, hnone]
    · rfl
  · exact HashMap.lookup_erase_eq tx' tx s.publishes

theorem snd_updatePublish (p : PendingPublish) :
    (s.updatePublish tx' p).2 = if p.awaiting = ∅ then [.published tx' p.result] else [] := by
  rw [updatePublish]
  split
  · rw [finishPublish, Finmap.lookup_insert]
  · rfl

theorem lookup_publishes_updatePublish (p : PendingPublish) :
    (s.updatePublish tx' p).1.publishes.lookup tx =
      if tx = tx' then if p.awaiting = ∅ then none else some p else s.publishes.lookup tx := by
  rw [updatePublish]
  split
  · rw [lookup_publishes_finishPublish]
    split
    · rfl
    · rename_i hne
      exact Finmap.lookup_insert_of_ne _ hne
  · exact HashMap.lookup_insert_eq tx' tx p s.publishes

/-- A publish that heeds a reply takes the step that goes with its update. -/
theorem publishSees_updatePublish {p p' : PendingPublish} {e : Event}
    (hp : s.publishes.lookup tx = some p) (h : PublishUpdate tx p e p' []) :
    PublishSees tx s e (s.updatePublish tx p') := by
  rw [PublishSees, lookup_publishes_updatePublish, snd_updatePublish, hp, if_pos rfl]
  by_cases hawait : p'.awaiting = ∅
  · rw [if_pos hawait, if_pos hawait]
    simp only [List.filterMap_cons, List.filterMap_nil, putOf_published, publishedOf_published,
      if_true]
    exact .finish h hawait
  · rw [if_neg hawait, if_neg hawait]
    exact .update h hawait

/-- An update of another publish goes unseen. -/
theorem publishSees_updatePublish_of_ne {p' : PendingPublish} {e : Event} (hne : tx ≠ tx')
    (hidle : ∀ p, s.publishes.lookup tx = some p → (∀ p' ds, ¬ PublishUpdate tx p e p' ds) ∧
      ∀ now, e = .flush now → now < p.deadline) :
    PublishSees tx s e (s.updatePublish tx' p') := by
  rw [PublishSees, lookup_publishes_updatePublish, snd_updatePublish, if_neg hne]
  by_cases hawait : p'.awaiting = ∅
  · rw [if_pos hawait]
    simp only [List.filterMap_cons, List.filterMap_nil, putOf_published, publishedOf_published,
      if_neg hne.symm]
    exact .idle hidle
  · rw [if_neg hawait]
    exact .idle hidle

theorem publishSees_message (m : ActorMsg) (tx' : TransactionId) (now : Instant) :
    PublishSees tx s (.message m tx' now) (s.handleMessage m tx' now) := by
  have hidle : ∀ p, s.publishes.lookup tx = some p →
      (∀ p' ds, ¬ PublishUpdate tx p (.message m tx' now) p' ds) ∧
        ∀ now', Event.message m tx' now = .flush now' → now' < p.deadline :=
    fun p _ => ⟨fun p' ds => (nomatch ·), fun _ => (nomatch ·)⟩
  cases m with
  | addServer addr => exact .idle hidle
  | replaceServers servers => exact .idle hidle
  | removeServer addr => exact .idle hidle
  | publish value =>
    obtain ⟨bytes, hbytes⟩ := encode_eq_some (r := .prepare tx' (.replicate _ 0))
      (fun _ _ _ h => nomatch h)
    have hdec := decode_encode hbytes
    rw [PublishSees, handleMessage]
    by_cases hservers : s.servers = ∅
    · rw [if_pos hservers]
      simp only [List.filterMap_cons, List.filterMap_nil, putOf_published, publishedOf_published]
      by_cases heq : tx' = tx
      · rw [if_pos heq, heq]
        exact .noServers hservers
      · rw [if_neg heq]
        exact .idle hidle
    · rw [if_neg hservers, hbytes]
      simp only [filterMap_publishedOf_sendAll]
      rw [filterMap_putOf_sendAll (by rw [hdec]; exact fun _ _ h => nomatch h),
        HashMap.lookup_insert_eq]
      by_cases heq : tx = tx'
      · rw [if_pos heq, heq]
        exact .start hservers
      · rw [if_neg heq]
        exact .idle hidle
  | resolve addr accept =>
    obtain ⟨bytes, hbytes⟩ := encode_eq_some (r := .get tx' addr) (fun _ _ _ h => nomatch h)
    have hdec := decode_encode hbytes
    rw [PublishSees, handleMessage]
    split
    · exact .idle hidle
    · rw [hbytes]
      simp only [filterMap_publishedOf_sendAll]
      rw [filterMap_putOf_sendAll (by rw [hdec]; exact fun _ _ h => nomatch h)]
      exact .idle hidle

/-- What a publish heeds: a `Prepared` or a `Stored` with its id from a server it
awaits, the `Prepared` only once. -/
theorem PublishUpdate.heeds {p p' : PendingPublish} {data : List UInt8} {src : SocketAddrV4}
    {unixSecs : UInt64} {ds : List Datagram}
    (h : PublishUpdate tx p (.packet data src unixSecs) p' ds) :
    src ∈ p.awaiting ∧
      ((src ∉ p.prepared ∧
        ∃ addr token, Proto.decode data = some (.response (.v1 (.prepared tx addr token)))) ∨
      ∃ addr, Proto.decode data = some (.response (.v1 (.stored tx addr)))) := by
  cases h with
  | prepared hdec hawait hfirst => exact ⟨hawait, .inl ⟨hfirst, _, _, hdec⟩⟩
  | tooLarge hdec hawait hfirst => exact ⟨hawait, .inl ⟨hfirst, _, _, hdec⟩⟩
  | stored hdec hawait => exact ⟨hawait, .inr ⟨_, hdec⟩⟩

/-- A datagram that the publish does not heed. -/
theorem publishSees_ignored {data : List UInt8} {src : SocketAddrV4} {unixSecs : UInt64}
    (h : ∀ p, s.publishes.lookup tx = some p → ∀ p' ds,
      ¬ PublishUpdate tx p (.packet data src unixSecs) p' ds) :
    PublishSees tx s (.packet data src unixSecs) (s, []) :=
  .idle fun p hp => ⟨h p hp, fun _ => (nomatch ·)⟩

theorem publishSees_prepared {data : List UInt8} {src addr : SocketAddrV4} {unixSecs : UInt64}
    {token : Token}
    (hdec : Proto.decode data = some (.response (.v1 (.prepared tx' addr token)))) :
    PublishSees tx s (.packet data src unixSecs)
      (s.handlePrepared tx' addr token src unixSecs) := by
  -- whatever the publish heeds in this datagram, it is this `Prepared`
  have hheeds {p p' : PendingPublish} {ds : List Datagram}
      (h : PublishUpdate tx p (.packet data src unixSecs) p' ds) :
      tx = tx' ∧ src ∈ p.awaiting ∧ src ∉ p.prepared := by
    obtain ⟨hawait, ⟨hfirst, _, _, hdec'⟩ | ⟨_, hdec'⟩⟩ := h.heeds <;> rw [hdec] at hdec' <;>
      cases hdec'
    exact ⟨rfl, hawait, hfirst⟩
  rw [handlePrepared]
  split
  · rename_i hnone
    refine publishSees_ignored fun p hp p' ds h => ?_
    rw [(hheeds h).1, hnone] at hp
    cases hp
  rename_i pending hpending
  split
  · rename_i hskip
    refine publishSees_ignored fun p hp p' ds h => ?_
    obtain ⟨rfl, hawait, hfirst⟩ := hheeds h
    obtain rfl := Option.some.inj (hpending.symm.trans hp)
    exact hskip.elim (absurd hawait) hfirst
  rename_i hheed
  obtain ⟨hawait, hfirst⟩ := not_or.mp hheed
  rw [not_not] at hawait
  by_cases hne : tx = tx'
  swap
  · -- another publish is served
    have hidle : ∀ p, s.publishes.lookup tx = some p →
        (∀ p' ds, ¬ PublishUpdate tx p (.packet data src unixSecs) p' ds) ∧
          ∀ now, Event.packet data src unixSecs = .flush now → now < p.deadline :=
      fun p _ => ⟨fun p' ds h => hne (hheeds h).1, fun _ => (nomatch ·)⟩
    dsimp only
    split
    · exact publishSees_updatePublish_of_ne hne hidle
    · split
      · rw [PublishSees, Finmap.lookup_insert_of_ne _ hne]
        exact .idle hidle
      · rename_i bytes hbytes
        rw [PublishSees, Finmap.lookup_insert_of_ne _ hne]
        simp only [List.filterMap_cons, List.filterMap_nil, publishedOf_send,
          putOf_send_put (decode_encode hbytes), if_neg (Ne.symm hne)]
        exact .idle hidle
  subst hne
  dsimp only
  split
  · rename_i hlong
    exact publishSees_updatePublish hpending (.tooLarge hdec hawait hfirst hlong)
  · rename_i hfit
    have hfit := not_lt.mp hfit
    obtain ⟨bytes, hbytes⟩ := encode_eq_some (r := .put tx token (pending.value addr unixSecs))
      (by rintro _ _ _ ⟨⟩; exact hfit)
    have hdec' := decode_encode hbytes
    rw [hbytes, PublishSees, Finmap.lookup_insert, hpending]
    simp only [List.filterMap_cons, List.filterMap_nil, publishedOf_send, putOf_send_put hdec',
      if_true]
    exact .update (.prepared hdec hawait hfirst hfit hdec') (Finset.ne_empty_of_mem hawait)

theorem publishSees_stored {data : List UInt8} {src addr : SocketAddrV4} {unixSecs : UInt64}
    (hdec : Proto.decode data = some (.response (.v1 (.stored tx' addr)))) :
    PublishSees tx s (.packet data src unixSecs) (s.handleStored tx' addr src) := by
  have hheeds {p p' : PendingPublish} {ds : List Datagram}
      (h : PublishUpdate tx p (.packet data src unixSecs) p' ds) :
      tx = tx' ∧ src ∈ p.awaiting := by
    obtain ⟨hawait, ⟨-, _, _, hdec'⟩ | ⟨_, hdec'⟩⟩ := h.heeds <;> rw [hdec] at hdec' <;> cases hdec'
    exact ⟨rfl, hawait⟩
  rw [handleStored]
  split
  · rename_i hnone
    refine publishSees_ignored fun p hp p' ds h => ?_
    rw [(hheeds h).1, hnone] at hp
    cases hp
  rename_i pending hpending
  split
  · rename_i hskip
    refine publishSees_ignored fun p hp p' ds h => ?_
    obtain ⟨rfl, hawait⟩ := hheeds h
    obtain rfl := Option.some.inj (hpending.symm.trans hp)
    exact hskip hawait
  rename_i hawait
  rw [not_not] at hawait
  by_cases hne : tx = tx'
  · subst hne
    exact publishSees_updatePublish hpending (.stored hdec hawait)
  · exact publishSees_updatePublish_of_ne hne
      fun p _ => ⟨fun p' ds h => hne (hheeds h).1, fun _ => (nomatch ·)⟩

/-- The part of the actor that publishes is not touched by a `Value`. -/
theorem handleValue_frame (s : Actor) (tx tx' : TransactionId) (addr : SocketAddrV4)
    (value : Option (List UInt8)) (src : SocketAddrV4) :
    (s.handleValue tx' addr value src).1.publishes = s.publishes ∧
      (s.handleValue tx' addr value src).2.filterMap (putOf tx) = [] ∧
      (s.handleValue tx' addr value src).2.filterMap (publishedOf tx) = [] := by
  rw [handleValue]
  split
  · exact ⟨rfl, rfl, rfl⟩
  · split
    · exact ⟨rfl, rfl, rfl⟩
    · dsimp only
      split
      · rw [finishResolve]
        split <;> exact ⟨rfl, rfl, rfl⟩
      · exact ⟨rfl, rfl, rfl⟩

theorem publishSees_packet (data : List UInt8) (src : SocketAddrV4) (unixSecs : UInt64) :
    PublishSees tx s (.packet data src unixSecs) (s.handlePacket data src unixSecs) := by
  rw [handlePacket]
  split
  · exact publishSees_prepared ‹_›
  · exact publishSees_stored ‹_›
  · rename_i tx' addr value hdec
    obtain ⟨hpublishes, hputs, hresults⟩ := s.handleValue_frame tx tx' addr value src
    rw [PublishSees, hpublishes, hputs, hresults]
    refine .idle fun p _ => ⟨fun p' ds h => ?_, fun _ => (nomatch ·)⟩
    obtain ⟨-, ⟨-, _, _, hdec'⟩ | ⟨_, hdec'⟩⟩ := h.heeds <;> rw [hdec] at hdec' <;> cases hdec'
  · rename_i hprepared hstored hvalue
    refine publishSees_ignored fun p _ p' ds h => ?_
    obtain ⟨-, ⟨-, _, _, hdec'⟩ | ⟨_, hdec'⟩⟩ := h.heeds
    · exact hprepared _ _ _ hdec'
    · exact hstored _ _ hdec'

/-! ### The loops of a flush -/

section FinishAll

variable {finish : Actor → TransactionId → Actor × List Action}

/-- What no round changes, the loop does not change. -/
theorem finishAll_frame {γ : Type} {f : Actor → γ} (h : ∀ s tx, f (finish s tx).1 = f s)
    (s : Actor) (txs : List TransactionId) : f (finishAll finish s txs).1 = f s := by
  induction txs generalizing s with
  | nil => rfl
  | cons tx txs ih => exact (ih (finish s tx).1).trans (h s tx)

/-- What no round does, the loop does not do. -/
theorem finishAll_unseen {ρ : Type} {see : Action → Option ρ}
    (h : ∀ s tx, (finish s tx).2.filterMap see = []) (s : Actor) (txs : List TransactionId) :
    (finishAll finish s txs).2.filterMap see = [] := by
  induction txs generalizing s with
  | nil => rfl
  | cons tx txs ih => rw [finishAll, List.filterMap_append, h, ih, List.append_nil]

/-- The loop finishes the transactions of its list: it takes them out of the `view`
of what is pending, and returns their results. -/
theorem finishAll_finishes {γ ρ : Type} (view : Actor → Option γ) (see : Action → Option ρ)
    {result : γ → ρ}
    (hview : ∀ s tx', view (finish s tx').1 = if tx = tx' then none else view s)
    (hsee : ∀ s tx', (finish s tx').2.filterMap see =
      if tx = tx' then ((view s).map result).toList else [])
    (s : Actor) (txs : List TransactionId) :
    view (finishAll finish s txs).1 = (if tx ∈ txs then none else view s) ∧
      (finishAll finish s txs).2.filterMap see =
        if tx ∈ txs then ((view s).map result).toList else [] := by
  induction txs generalizing s with
  | nil => simp [finishAll]
  | cons tx' txs ih =>
    obtain ⟨hrest, hresults⟩ := ih (finish s tx').1
    simp only [finishAll, List.filterMap_append, hrest, hresults, hview, hsee, List.mem_cons]
    by_cases heq : tx = tx'
    · -- a second round for the same transaction finds nothing
      simp [heq]
    · simp [heq]

end FinishAll

theorem filterMap_publishedOf_finishPublish (s : Actor) (tx tx' : TransactionId) :
    (s.finishPublish tx').2.filterMap (publishedOf tx) =
      if tx = tx' then ((s.publishes.lookup tx).map PendingPublish.result).toList else [] := by
  rw [finishPublish]
  split
  · rename_i hnone
    split
    · rename_i heq
      rw [heq, hnone]
      rfl
    · rfl
  · rename_i pending hsome
    simp only [List.filterMap_cons, List.filterMap_nil, publishedOf_published]
    by_cases heq : tx = tx'
    · rw [if_pos heq.symm, if_pos heq, heq, hsome]
      rfl
    · rw [if_neg (Ne.symm heq), if_neg heq]

/-- Finishing a publish leaves the rest of the actor alone. -/
theorem finishPublish_frame (s : Actor) (tx' : TransactionId) :
    ((s.finishPublish tx').1.servers, (s.finishPublish tx').1.timeout,
      (s.finishPublish tx').1.resolves) = (s.servers, s.timeout, s.resolves) := by
  rw [finishPublish]
  split <;> rfl

theorem finishResolve_frame (s : Actor) (tx' : TransactionId) :
    ((s.finishResolve tx').1.servers, (s.finishResolve tx').1.timeout,
      (s.finishResolve tx').1.publishes) = (s.servers, s.timeout, s.publishes) := by
  rw [finishResolve]
  split <;> rfl

theorem publishSees_flush (now : Instant) :
    PublishSees tx s (.flush now) (s.flushExpired now) := by
  have hunseen {γ : Type} {see : Action → Option γ}
      (h : ∀ tx' r, see (.resolved tx' r) = none) (s : Actor) (txs : List TransactionId) :
      (finishAll finishResolve s txs).2.filterMap see = [] := by
    refine finishAll_unseen (fun s tx' => ?_) s txs
    rw [finishResolve]
    split
    · rfl
    · rw [List.filterMap_cons, h, List.filterMap_nil]
  have hputs (s : Actor) (txs : List TransactionId) :
      (finishAll finishPublish s txs).2.filterMap (putOf tx) = [] := by
    refine finishAll_unseen (fun s tx' => ?_) s txs
    rw [finishPublish]
    split <;> rfl
  rw [PublishSees, flushExpired]
  dsimp only
  rw [finishAll_frame (f := Actor.publishes)
    (fun s tx' => congrArg (·.2.2) (s.finishResolve_frame tx'))]
  rw [List.filterMap_append, List.filterMap_append, hunseen (fun _ _ => rfl),
    hunseen (fun _ _ => rfl), hputs, List.append_nil, List.append_nil]
  set expired := (s.publishes.keys.filter fun tx =>
    (s.publishes.lookup tx).any fun pending => pending.deadline ≤ now).sort with hexpired
  obtain ⟨hlookup, hresults⟩ :=
    finishAll_finishes (fun s => s.publishes.lookup tx) (publishedOf tx)
    (fun s tx' => lookup_publishes_finishPublish)
    (fun s tx' => s.filterMap_publishedOf_finishPublish tx tx') s expired
  rw [hlookup, hresults]
  have hmem : tx ∈ expired ↔ ∃ p, s.publishes.lookup tx = some p ∧ p.deadline ≤ now := by
    rw [hexpired, Finset.mem_sort, HashMap.mem_keys_filter]
    simp only [decide_eq_true_eq]
  by_cases hin : tx ∈ expired
  · obtain ⟨p, hp, hle⟩ := hmem.mp hin
    rw [if_pos hin, if_pos hin, hp]
    exact .expire hle
  · rw [if_neg hin, if_neg hin]
    refine .idle fun p hp => ⟨fun p' ds => (nomatch ·), ?_⟩
    rintro _ ⟨⟩
    exact not_le.mp fun hle => hin (hmem.mpr ⟨p, hp, hle⟩)

/-- **Publishes do not interact.** A step of the actor is, for each publish, a step
of that publish alone. -/
theorem publish_step (s : Actor) (tx : TransactionId) (e : Event) :
    PublishSees tx s e (s.step e) := by
  cases e with
  | message m tx' now => exact publishSees_message m tx' now
  | packet data src unixSecs => exact publishSees_packet data src unixSecs
  | flush now => exact publishSees_flush now

/-! ## A resolve -/

/-- A reply that resolve `tx` heeds, with what it makes of it and whether its value
was accepted. -/
inductive ResolveUpdate (tx : TransactionId) (p : PendingResolve) :
    Event → PendingResolve → Bool → Prop
  /-- the first `Value` of an awaited server -/
  | value {data : List UInt8} {src : SocketAddrV4} {unixSecs : UInt64} {v : Option (List UInt8)}
    (hdec : Proto.decode data = some (.response (.v1 (.value tx p.addr v))))
    (hawait : src ∈ p.awaiting) :
    ResolveUpdate tx p (.packet data src unixSecs) (p.receive src v).1 (p.receive src v).2

/-- What an event does to resolve `tx`: its state before and after, and the results
it returns. -/
inductive ResolveStep (servers : HashSet SocketAddrV4) (timeout : ℕ) (tx : TransactionId) :
    Option PendingResolve → Event → Option PendingResolve →
      List (Except UdpError (List (List UInt8))) → Prop
  /-- nothing -/
  | idle {o : Option PendingResolve} {e : Event}
    (h : ∀ p, o = some p → (∀ p' accepted, ¬ ResolveUpdate tx p e p' accepted) ∧
      ∀ now, e = .flush now → now < p.deadline) : ResolveStep servers timeout tx o e o []
  /-- it fails at once -/
  | noServers {o : Option PendingResolve} {addr : SocketAddrV4} {accept : Option Accept}
    {now : Instant} (h : servers = ∅) :
    ResolveStep servers timeout tx o (.message (.resolve addr accept) tx now) o
      [.error .noServers]
  /-- it starts -/
  | start {o : Option PendingResolve} {addr : SocketAddrV4} {accept : Option Accept}
    {now : Instant} (h : servers ≠ ∅) :
    ResolveStep servers timeout tx o (.message (.resolve addr accept) tx now)
      (some ⟨addr, accept, servers, ∅, false, now + timeout⟩) []
  /-- it goes on -/
  | update {p p' : PendingResolve} {e : Event} (h : ResolveUpdate tx p e p' false)
    (hawait : p'.awaiting ≠ ∅) : ResolveStep servers timeout tx (some p) e (some p') []
  /-- a value was accepted, or the last server answered -/
  | finish {p p' : PendingResolve} {e : Event} {accepted : Bool}
    (h : ResolveUpdate tx p e p' accepted) (hdone : accepted = true ∨ p'.awaiting = ∅) :
    ResolveStep servers timeout tx (some p) e none [p'.result]
  /-- its time is up -/
  | expire {p : PendingResolve} {now : Instant} (h : p.deadline ≤ now) :
    ResolveStep servers timeout tx (some p) (.flush now) none [p.result]

/-- The resolve `tx` and what an event does to it, read off two states of the actor
and its actions. -/
def ResolveSees (tx : TransactionId) (s : Actor) (e : Event) (r : Actor × List Action) : Prop :=
  ResolveStep s.servers s.timeout tx (s.resolves.lookup tx) e (r.1.resolves.lookup tx)
    (r.2.filterMap (resolvedOf tx))

theorem lookup_resolves_finishResolve :
    (s.finishResolve tx').1.resolves.lookup tx =
      if tx = tx' then none else s.resolves.lookup tx := by
  rw [finishResolve]
  split
  · rename_i hnone
    split
    · rename_i heq
      rw [heq, hnone]
    · rfl
  · exact HashMap.lookup_erase_eq tx' tx s.resolves

theorem filterMap_resolvedOf_finishResolve (s : Actor) (tx tx' : TransactionId) :
    (s.finishResolve tx').2.filterMap (resolvedOf tx) =
      if tx = tx' then ((s.resolves.lookup tx).map PendingResolve.result).toList else [] := by
  rw [finishResolve]
  split
  · rename_i hnone
    split
    · rename_i heq
      rw [heq, hnone]
      rfl
    · rfl
  · rename_i pending hsome
    simp only [List.filterMap_cons, List.filterMap_nil, resolvedOf_resolved]
    by_cases heq : tx = tx'
    · rw [if_pos heq.symm, if_pos heq, heq, hsome]
      rfl
    · rw [if_neg (Ne.symm heq), if_neg heq]

/-- What a resolve heeds. -/
theorem ResolveUpdate.heeds {p p' : PendingResolve} {data : List UInt8} {src : SocketAddrV4}
    {unixSecs : UInt64} {accepted : Bool}
    (h : ResolveUpdate tx p (.packet data src unixSecs) p' accepted) :
    src ∈ p.awaiting ∧ ∃ v, Proto.decode data = some (.response (.v1 (.value tx p.addr v))) := by
  cases h with
  | value hdec hawait => exact ⟨hawait, _, hdec⟩

/-- A datagram that the resolve does not heed, and that changes no resolve. -/
theorem resolveSees_ignored {data : List UInt8} {src : SocketAddrV4} {unixSecs : UInt64}
    {r : Actor × List Action}
    (h : ∀ p, s.resolves.lookup tx = some p → ∀ p' accepted,
      ¬ ResolveUpdate tx p (.packet data src unixSecs) p' accepted)
    (hr : r.1.resolves = s.resolves) (hseen : r.2.filterMap (resolvedOf tx) = []) :
    ResolveSees tx s (.packet data src unixSecs) r := by
  rw [ResolveSees, hr, hseen]
  exact .idle fun p hp => ⟨h p hp, fun _ => (nomatch ·)⟩

theorem resolveSees_message (m : ActorMsg) (tx' : TransactionId) (now : Instant) :
    ResolveSees tx s (.message m tx' now) (s.handleMessage m tx' now) := by
  have hidle : ∀ p, s.resolves.lookup tx = some p →
      (∀ p' accepted, ¬ ResolveUpdate tx p (.message m tx' now) p' accepted) ∧
        ∀ now', Event.message m tx' now = .flush now' → now' < p.deadline :=
    fun p _ => ⟨fun p' accepted => (nomatch ·), fun _ => (nomatch ·)⟩
  cases m with
  | addServer addr => exact .idle hidle
  | replaceServers servers => exact .idle hidle
  | removeServer addr => exact .idle hidle
  | publish value =>
    obtain ⟨bytes, hbytes⟩ := encode_eq_some (r := .prepare tx' (.replicate _ 0))
      (fun _ _ _ h => nomatch h)
    rw [ResolveSees, handleMessage]
    split
    · exact .idle hidle
    · rw [hbytes]
      simp only [filterMap_resolvedOf_sendAll]
      exact .idle hidle
  | resolve addr accept =>
    obtain ⟨bytes, hbytes⟩ := encode_eq_some (r := .get tx' addr) (fun _ _ _ h => nomatch h)
    rw [ResolveSees, handleMessage]
    by_cases hservers : s.servers = ∅
    · rw [if_pos hservers]
      simp only [List.filterMap_cons, List.filterMap_nil, resolvedOf_resolved]
      by_cases heq : tx' = tx
      · rw [if_pos heq, heq]
        exact .noServers hservers
      · rw [if_neg heq]
        exact .idle hidle
    · rw [if_neg hservers, hbytes]
      simp only [filterMap_resolvedOf_sendAll]
      rw [HashMap.lookup_insert_eq]
      by_cases heq : tx = tx'
      · rw [if_pos heq, heq]
        exact .start hservers
      · rw [if_neg heq]
        exact .idle hidle

theorem resolveSees_value {data : List UInt8} {src addr : SocketAddrV4} {unixSecs : UInt64}
    {v : Option (List UInt8)}
    (hdec : Proto.decode data = some (.response (.v1 (.value tx' addr v)))) :
    ResolveSees tx s (.packet data src unixSecs) (s.handleValue tx' addr v src) := by
  have hheeds {p p' : PendingResolve} {accepted : Bool}
      (h : ResolveUpdate tx p (.packet data src unixSecs) p' accepted) :
      tx = tx' ∧ p.addr = addr ∧ src ∈ p.awaiting := by
    obtain ⟨hawait, _, hdec'⟩ := h.heeds
    rw [hdec] at hdec'
    cases hdec'
    exact ⟨rfl, rfl, hawait⟩
  rw [handleValue]
  split
  · rename_i hnone
    refine resolveSees_ignored (fun p hp p' accepted h => ?_) rfl rfl
    rw [(hheeds h).1, hnone] at hp
    cases hp
  rename_i pending hpending
  split
  · rename_i hskip
    refine resolveSees_ignored (fun p hp p' accepted h => ?_) rfl rfl
    obtain ⟨rfl, haddr, hawait⟩ := hheeds h
    obtain rfl := Option.some.inj (hpending.symm.trans hp)
    exact hskip.elim (absurd haddr) (absurd hawait)
  rename_i hheed
  obtain ⟨haddr, hawait⟩ := not_or.mp hheed
  rw [not_not] at haddr hawait
  dsimp only
  by_cases hne : tx = tx'
  · subst hne haddr
    have hupdate : ResolveUpdate tx pending (.packet data src unixSecs) _ _ := .value hdec hawait
    split
    · rename_i hdone
      rw [ResolveSees, lookup_resolves_finishResolve, filterMap_resolvedOf_finishResolve,
        Finmap.lookup_insert, hpending, if_pos rfl, if_pos rfl]
      exact .finish hupdate hdone
    · rename_i hgoon
      obtain ⟨haccepted, hawait'⟩ := not_or.mp hgoon
      rw [ResolveSees, Finmap.lookup_insert, hpending]
      rw [Bool.not_eq_true] at haccepted
      rw [haccepted] at hupdate
      exact .update hupdate hawait'
  · -- another resolve is served
    have hidle : ∀ p, s.resolves.lookup tx = some p →
        (∀ p' accepted, ¬ ResolveUpdate tx p (.packet data src unixSecs) p' accepted) ∧
          ∀ now, Event.packet data src unixSecs = .flush now → now < p.deadline :=
      fun p _ => ⟨fun p' accepted h => hne (hheeds h).1, fun _ => (nomatch ·)⟩
    split
    · rw [ResolveSees, lookup_resolves_finishResolve, filterMap_resolvedOf_finishResolve,
        Finmap.lookup_insert_of_ne _ hne, if_neg hne, if_neg hne]
      exact .idle hidle
    · rw [ResolveSees, Finmap.lookup_insert_of_ne _ hne]
      exact .idle hidle

/-- A publish is served without touching the resolves. -/
theorem updatePublish_frame (s : Actor) (tx tx' : TransactionId) (p : PendingPublish) :
    (s.updatePublish tx' p).1.resolves = s.resolves ∧
      (s.updatePublish tx' p).2.filterMap (resolvedOf tx) = [] := by
  rw [updatePublish, finishPublish]
  split
  · split <;> exact ⟨rfl, rfl⟩
  · exact ⟨rfl, rfl⟩

theorem handlePrepared_frame (s : Actor) (tx tx' : TransactionId) (addr : SocketAddrV4)
    (token : Token) (src : SocketAddrV4) (unixSecs : UInt64) :
    (s.handlePrepared tx' addr token src unixSecs).1.resolves = s.resolves ∧
      (s.handlePrepared tx' addr token src unixSecs).2.filterMap (resolvedOf tx) = [] := by
  rw [handlePrepared]
  split
  · exact ⟨rfl, rfl⟩
  · split
    · exact ⟨rfl, rfl⟩
    · dsimp only
      split
      · exact s.updatePublish_frame tx tx' _
      · split <;> exact ⟨rfl, rfl⟩

theorem handleStored_frame (s : Actor) (tx tx' : TransactionId) (addr src : SocketAddrV4) :
    (s.handleStored tx' addr src).1.resolves = s.resolves ∧
      (s.handleStored tx' addr src).2.filterMap (resolvedOf tx) = [] := by
  rw [handleStored]
  split
  · exact ⟨rfl, rfl⟩
  · split
    · exact ⟨rfl, rfl⟩
    · exact s.updatePublish_frame tx tx' _

theorem resolveSees_packet (data : List UInt8) (src : SocketAddrV4) (unixSecs : UInt64) :
    ResolveSees tx s (.packet data src unixSecs) (s.handlePacket data src unixSecs) := by
  rw [handlePacket]
  split
  · rename_i tx' addr token hdec
    obtain ⟨hresolves, hseen⟩ := s.handlePrepared_frame tx tx' addr token src unixSecs
    refine resolveSees_ignored (fun p _ p' accepted h => ?_) hresolves hseen
    obtain ⟨-, _, hdec'⟩ := h.heeds
    rw [hdec] at hdec'
    cases hdec'
  · rename_i tx' addr hdec
    obtain ⟨hresolves, hseen⟩ := s.handleStored_frame tx tx' addr src
    refine resolveSees_ignored (fun p _ p' accepted h => ?_) hresolves hseen
    obtain ⟨-, _, hdec'⟩ := h.heeds
    rw [hdec] at hdec'
    cases hdec'
  · exact resolveSees_value ‹_›
  · rename_i hprepared hstored hvalue
    refine resolveSees_ignored (fun p _ p' accepted h => ?_) rfl rfl
    obtain ⟨-, _, hdec'⟩ := h.heeds
    exact hvalue _ _ _ hdec'

theorem resolveSees_flush (now : Instant) :
    ResolveSees tx s (.flush now) (s.flushExpired now) := by
  have hunseen (s : Actor) (txs : List TransactionId) :
      (finishAll finishPublish s txs).2.filterMap (resolvedOf tx) = [] := by
    refine finishAll_unseen (fun s tx' => ?_) s txs
    rw [finishPublish]
    split <;> rfl
  rw [ResolveSees, flushExpired]
  dsimp only
  rw [List.filterMap_append, hunseen, List.nil_append]
  rw [finishAll_frame (f := Actor.resolves)
    (fun s tx' => congrArg (·.2.2) (s.finishPublish_frame tx'))]
  set expired := (s.resolves.keys.filter fun tx =>
    (s.resolves.lookup tx).any fun pending => pending.deadline ≤ now).sort with hexpired
  obtain ⟨hlookup, hresults⟩ :=
    finishAll_finishes (fun s => s.resolves.lookup tx) (resolvedOf tx)
    (fun s tx' => lookup_resolves_finishResolve)
    (fun s tx' => s.filterMap_resolvedOf_finishResolve tx tx') _ expired
  rw [hlookup, hresults, finishAll_frame (f := Actor.resolves)
    (fun s tx' => congrArg (·.2.2) (s.finishPublish_frame tx'))]
  have hmem : tx ∈ expired ↔ ∃ p, s.resolves.lookup tx = some p ∧ p.deadline ≤ now := by
    rw [hexpired, Finset.mem_sort, HashMap.mem_keys_filter]
    simp only [decide_eq_true_eq]
  by_cases hin : tx ∈ expired
  · obtain ⟨p, hp, hle⟩ := hmem.mp hin
    rw [if_pos hin, if_pos hin, hp]
    exact .expire hle
  · rw [if_neg hin, if_neg hin]
    refine .idle fun p hp => ⟨fun p' accepted => (nomatch ·), ?_⟩
    rintro _ ⟨⟩
    exact not_le.mp fun hle => hin (hmem.mpr ⟨p, hp, hle⟩)

/-- **Resolves do not interact.** A step of the actor is, for each resolve, a step of
that resolve alone. -/
theorem resolve_step (s : Actor) (tx : TransactionId) (e : Event) :
    ResolveSees tx s e (s.step e) := by
  cases e with
  | message m tx' now => exact resolveSees_message m tx' now
  | packet data src unixSecs => exact resolveSees_packet data src unixSecs
  | flush now => exact resolveSees_flush now

end Actor

end ContentDiscovery
