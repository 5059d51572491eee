import ContentDiscovery.Demux

/-!
# The transactions of a client run

Runs of the client actor, with any commands, datagrams and timer events, where the
ids of the transactions are distinct. Everything is read off the history: the servers
in use, what a server replied since a transaction started, which of the replies was
its first.

* `PublishState` and `ResolveState` say what a pending transaction knows of the
  events since it started. `PublishStep` and `ResolveStep` keep them.
* `PublishRun` and `ResolveRun` put them into the whole history.
-/

namespace ContentDiscovery

namespace Actor

/-- The events so far, each with the actions it caused. -/
abbrev History : Type := List (Event × List Action)

/-- The actor with distinct transaction ids, whose timer is set to its next
deadline. -/
def machine (timeout : ℕ) : Machine Actor Event (List Action) where
  init s := s = new timeout
  enabled t s
    | .message _ tx _ => ∀ m now out, (.message m tx now, out) ∉ t
    | .packet _ _ _ => True
    | .flush now => ∃ deadline, s.nextDeadline = some deadline ∧ deadline ≤ now
  step := step

/-! ## The servers in use -/

/-- What an event makes of the servers. -/
def Event.servers (servers : HashSet SocketAddrV4) : Event → HashSet SocketAddrV4
  | .message (.addServer addr) _ _ => insert addr servers
  | .message (.replaceServers servers) _ _ => servers
  | .message (.removeServer addr) _ _ => servers.erase addr
  | _ => servers

/-- The servers in use after a history. -/
def inUse (t : History) : HashSet SocketAddrV4 :=
  t.foldl (fun servers x => x.1.servers servers) ∅

theorem inUse_concat (t : History) (e : Event) (out : List Action) :
    inUse (t ++ [(e, out)]) = e.servers (inUse t) := by
  rw [inUse, List.foldl_append]
  rfl

theorem updatePublish_config (s : Actor) (tx : TransactionId) (p : PendingPublish) :
    ((s.updatePublish tx p).1.servers, (s.updatePublish tx p).1.timeout) =
      (s.servers, s.timeout) := by
  rw [updatePublish]
  split
  · exact congrArg (fun r => (r.1, r.2.1))
      (finishPublish_frame { s with publishes := s.publishes.insert tx p } tx)
  · rfl

theorem handlePacket_config (s : Actor) (data : List UInt8) (src : SocketAddrV4)
    (unixSecs : UInt64) :
    ((s.handlePacket data src unixSecs).1.servers, (s.handlePacket data src unixSecs).1.timeout) =
      (s.servers, s.timeout) := by
  rw [handlePacket]
  split
  · rw [handlePrepared]
    split
    · rfl
    · split
      · rfl
      · dsimp only
        split
        · exact updatePublish_config ..
        · split <;> rfl
  · rw [handleStored]
    split
    · rfl
    · split
      · rfl
      · exact updatePublish_config ..
  · rw [handleValue]
    split
    · rfl
    · split
      · rfl
      · dsimp only
        split
        · exact congrArg (fun r => (r.1, r.2.1)) (finishResolve_frame _ _)
        · rfl
  · rfl

/-- Only commands change the servers, and nothing changes the timeout. -/
theorem step_config (s : Actor) (e : Event) :
    (s.step e).1.servers = e.servers s.servers ∧ (s.step e).1.timeout = s.timeout := by
  cases e with
  | message m tx now =>
    cases m with
    | publish value =>
      simp only [step, handleMessage]
      split
      · exact ⟨rfl, rfl⟩
      · split <;> exact ⟨rfl, rfl⟩
    | resolve addr accept =>
      simp only [step, handleMessage]
      split
      · exact ⟨rfl, rfl⟩
      · split <;> exact ⟨rfl, rfl⟩
    | _ => exact ⟨rfl, rfl⟩
  | packet data src unixSecs => exact Prod.mk.inj (s.handlePacket_config data src unixSecs)
  | flush now =>
    simp only [step, flushExpired]
    refine ⟨?_, ?_⟩
    · rw [finishAll_frame (f := Actor.servers)
          (fun s tx => congrArg (·.1) (s.finishResolve_frame tx)),
        finishAll_frame (f := Actor.servers)
          (fun s tx => congrArg (·.1) (s.finishPublish_frame tx))]
      rfl
    · rw [finishAll_frame (f := Actor.timeout)
          (fun s tx => congrArg (·.2.1) (s.finishResolve_frame tx)),
        finishAll_frame (f := Actor.timeout)
          (fun s tx => congrArg (·.2.1) (s.finishPublish_frame tx))]

variable {timeout : ℕ} {t : History} {s : Actor} {tx : TransactionId}

/-- The servers and the timeout of a state reached. -/
theorem config_run (h : (machine timeout).Run t s) : s.servers = inUse t ∧ s.timeout = timeout := by
  refine h.invariant (I := fun t s => s.servers = inUse t ∧ s.timeout = timeout) ?_ ?_
  · rintro s rfl
    exact ⟨rfl, rfl⟩
  · rintro t s e - - ⟨hservers, htimeout⟩
    obtain ⟨hservers', htimeout'⟩ := s.step_config e
    refine ⟨?_, htimeout'.trans htimeout⟩
    rw [inUse_concat, ← hservers]
    exact hservers'

/-! ## Publishes -/

/-- The puts of a transaction. -/
def puts (tx : TransactionId) (t : History) : List Datagram :=
  t.flatMap fun x => x.2.filterMap (putOf tx)

theorem puts_concat (tx : TransactionId) (t : History) (e : Event) (out : List Action) :
    puts tx (t ++ [(e, out)]) = puts tx t ++ out.filterMap (putOf tx) := by
  rw [puts, puts, List.flatMap_append, List.flatMap_singleton]

/-- The event is an answer of `q` to publish `tx`: a confirmation, or a `Prepared` for
which the value is too large. -/
def IsAnswer (tx : TransactionId) (value : ValueFor) (q : SocketAddrV4) (e : Event) : Prop :=
  ∃ data unixSecs, e = .packet data q unixSecs ∧
    ((∃ addr, Proto.decode data = some (.response (.v1 (.stored tx addr)))) ∨
      ∃ addr token, Proto.decode data = some (.response (.v1 (.prepared tx addr token))) ∧
        MAX_VALUE_LEN < (value addr unixSecs).length)

/-- What a pending publish knows of the events since it started. -/
structure PublishState (servers : HashSet SocketAddrV4) (value : ValueFor) (deadline : Instant)
    (tx : TransactionId) (since : History) (p : PendingPublish) : Prop where
  /-- the value is built as the caller said -/
  value_eq : p.value = value
  /-- the deadline does not move -/
  deadline_eq : p.deadline = deadline
  /-- only servers it asked are awaited -/
  awaiting_le : p.awaiting ⊆ servers
  /-- those that are not have answered -/
  answered : ∀ q ∈ servers, q ∉ p.awaiting → ∃ x ∈ since, IsAnswer tx value q x.1

variable {servers : HashSet SocketAddrV4} {value : ValueFor} {deadline : Instant}
  {since : History} {p p' : PendingPublish} {e : Event} {out : List Action}

theorem PublishState.mono (h : PublishState servers value deadline tx since p)
    (x : Event × List Action) : PublishState servers value deadline tx (since ++ [x]) p where
  value_eq := h.value_eq
  deadline_eq := h.deadline_eq
  awaiting_le := h.awaiting_le
  answered q hq hnot := by
    obtain ⟨y, hy, hanswer⟩ := h.answered q hq hnot
    exact ⟨y, List.mem_append_left _ hy, hanswer⟩

theorem PublishState.update (h : PublishState servers value deadline tx since p)
    (out : List Action) {ds : List Datagram} (hu : PublishUpdate tx p e p' ds) :
    PublishState servers value deadline tx (since ++ [(e, out)]) p' := by
  have hold := h.mono (e, out)
  cases hu with
  | prepared hdec hawait hfirst hfit hbytes =>
    exact ⟨hold.value_eq, hold.deadline_eq, hold.awaiting_le, hold.answered⟩
  | @tooLarge data src addr unixSecs token hdec hawait hfirst hlong =>
    refine ⟨hold.value_eq, hold.deadline_eq,
      fun q hq => hold.awaiting_le (Finset.mem_of_mem_erase hq),
      fun q hq hnot => ?_⟩
    by_cases heq : q = src
    · rw [h.value_eq] at hlong
      exact ⟨_, List.mem_append_right _ (List.mem_singleton_self _), data, unixSecs, by rw [heq],
        .inr ⟨addr, token, hdec, hlong⟩⟩
    · exact hold.answered q hq fun hmem => hnot (Finset.mem_erase.mpr ⟨heq, hmem⟩)
  | @stored data src addr unixSecs hdec hawait =>
    refine ⟨hold.value_eq, hold.deadline_eq,
      fun q hq => hold.awaiting_le (Finset.mem_of_mem_erase hq),
      fun q hq hnot => ?_⟩
    by_cases heq : q = src
    · exact ⟨_, List.mem_append_right _ (List.mem_singleton_self _), data, unixSecs, by rw [heq],
        .inl ⟨addr, hdec⟩⟩
    · exact hold.answered q hq fun hmem => hnot (Finset.mem_erase.mpr ⟨heq, hmem⟩)

/-- A publish in the history of a run. -/
structure PublishRun (timeout : ℕ) (tx : TransactionId) (t : History) (s : Actor) : Prop where
  /-- puts are sent after a start only -/
  started : puts tx t ≠ [] → ∃ m now out, (.message m tx now, out) ∈ t
  /-- a pending publish was started, and knows what happened since -/
  pending : ∀ p, s.publishes.lookup tx = some p → ∃ pre value now sends since,
    t = pre ++ (.message (.publish value) tx now, sends) :: since ∧
      PublishState (inUse pre) value (now + timeout) tx since p
  /-- no server is sent two puts -/
  once : ((puts tx t).map Datagram.dest).Nodup
  /-- the servers sent a put are remembered -/
  prepared : ∀ p, s.publishes.lookup tx = some p → ∀ d ∈ puts tx t, d.dest ∈ p.prepared

/-- The puts of an update go to a server that got none before. -/
theorem PublishUpdate.once {ds : List Datagram} (hu : PublishUpdate tx p e p' ds)
    {sent : List Datagram} (hnodup : (sent.map Datagram.dest).Nodup)
    (hprep : ∀ d ∈ sent, d.dest ∈ p.prepared) :
    ((sent ++ ds).map Datagram.dest).Nodup ∧ ∀ d ∈ sent ++ ds, d.dest ∈ p'.prepared := by
  cases hu with
  | prepared hdec hawait hfirst hfit hbytes =>
    rw [List.map_append, List.nodup_append]
    refine ⟨⟨hnodup, List.nodup_singleton _, ?_⟩, fun d hd => ?_⟩
    · rintro q hq q' hq' rfl
      obtain ⟨d, hd, rfl⟩ := List.mem_map.mp hq
      rw [List.map_singleton, List.mem_singleton] at hq'
      have hd' := hprep d hd
      rw [hq'] at hd'
      exact hfirst hd'
    · rcases List.mem_append.mp hd with hd | hd
      · exact Finset.mem_insert_of_mem (hprep d hd)
      · obtain rfl := List.mem_singleton.mp hd
        exact Finset.mem_insert_self _ _
  | tooLarge hdec hawait hfirst hlong =>
    rw [List.append_nil]
    exact ⟨hnodup, fun d hd => Finset.mem_insert_of_mem (hprep d hd)⟩
  | stored hdec hawait =>
    rw [List.append_nil]
    exact ⟨hnodup, hprep⟩

/-- A step without a put, which leaves the publish alone or ends it. -/
theorem PublishRun.concat (h : PublishRun timeout tx t s) {x : Event × List Action} {s' : Actor}
    (hputs : puts tx (t ++ [x]) = puts tx t)
    (hsame : ∀ p, s'.publishes.lookup tx = some p → s.publishes.lookup tx = some p) :
    PublishRun timeout tx (t ++ [x]) s' where
  started hne := by
    rw [hputs] at hne
    obtain ⟨m, now, out, hmem⟩ := h.started hne
    exact ⟨m, now, out, List.mem_append_left _ hmem⟩
  pending p hsome := by
    obtain ⟨pre, value, now, sends, since, rfl, hstate⟩ := h.pending p (hsame p hsome)
    exact ⟨pre, value, now, sends, since ++ [x], by simp, hstate.mono _⟩
  once := by rw [hputs]; exact h.once
  prepared p hsome d hd := by
    rw [hputs] at hd
    exact h.prepared p (hsame p hsome) d hd

/-- A step keeps every publish in its history. -/
theorem PublishRun.step (h : PublishRun timeout tx t s)
    (hconfig : s.servers = inUse t ∧ s.timeout = timeout)
    (hen : (machine timeout).enabled t s e) :
    PublishRun timeout tx (t ++ [(e, (s.step e).2)]) (s.step e).1 := by
  have hstep := s.publish_step tx e
  rw [PublishSees] at hstep
  generalize hp : s.publishes.lookup tx = o at hstep
  generalize hp' : (s.step e).1.publishes.lookup tx = o' at hstep
  generalize (s.step e).2 = out at hstep ⊢
  generalize hds : out.filterMap (putOf tx) = ds at hstep
  generalize out.filterMap (publishedOf tx) = results at hstep
  have hputs : puts tx (t ++ [(e, out)]) = puts tx t ++ ds := by rw [puts_concat, hds]
  have hupdate {p p' : PendingPublish} {ds : List Datagram} (hsome : o = some p)
      (hu : PublishUpdate tx p e p' ds) : ∃ pre value now sends since,
      t ++ [(e, out)] = pre ++ (.message (.publish value) tx now, sends) :: since ∧
        PublishState (inUse pre) value (now + timeout) tx since p' := by
    obtain ⟨pre, value, now, sends, since, rfl, hstate⟩ := h.pending p (hp.trans hsome)
    exact ⟨pre, value, now, sends, since ++ [(e, out)], by simp, hstate.update out hu⟩
  have hbegan {p p' : PendingPublish} {ds : List Datagram} (hsome : o = some p)
      (hu : PublishUpdate tx p e p' ds) :
      ∃ m now o, (.message m tx now, o) ∈ t ++ [(e, out)] := by
    obtain ⟨pre, value, now, sends, since, ht, -⟩ := hupdate hsome hu
    rw [ht]
    exact ⟨_, now, sends, List.mem_append_right _ List.mem_cons_self⟩
  cases hstep with
  | idle | noServers =>
    rw [List.append_nil] at hputs
    exact h.concat hputs fun p hsome => hp.trans (hp'.symm.trans hsome)
  | @start _ value now hservers =>
    rw [List.append_nil] at hputs
    -- the id is new, so nothing was put under it
    have hnone : puts tx t = [] := by
      by_contra hne
      obtain ⟨m, now', o, hmem⟩ := h.started hne
      exact hen m now' o hmem
    exact {
      started := fun hne => absurd (hputs.trans hnone) hne
      pending := by
        intro p hsome
        obtain rfl := Option.some.inj (hp'.symm.trans hsome)
        refine ⟨t, value, now, out, [], rfl, ?_⟩
        rw [← hconfig.1, hconfig.2]
        exact ⟨rfl, rfl, subset_rfl, fun q hq hnot => absurd hq hnot⟩
      once := by rw [hputs]; exact h.once
      prepared := by
        rw [hputs, hnone]
        intro p _ d hd
        cases hd }
  | @update p p' _ _ hu hawait =>
    obtain ⟨honce, hprepared⟩ := hu.once h.once (h.prepared p hp)
    exact {
      started := fun _ => hbegan rfl hu
      pending := by
        intro p'' hsome
        obtain rfl := Option.some.inj (hp'.symm.trans hsome)
        exact hupdate rfl hu
      once := by rwa [hputs]
      prepared := by
        intro p'' hsome
        obtain rfl := Option.some.inj (hp'.symm.trans hsome)
        rwa [hputs] }
  | @finish p p' _ _ hu hawait =>
    obtain ⟨honce, -⟩ := hu.once h.once (h.prepared p hp)
    exact {
      started := fun _ => hbegan rfl hu
      pending := by
        intro p'' hsome
        cases hp'.symm.trans hsome
      once := by rwa [hputs]
      prepared := by
        intro p'' hsome
        cases hp'.symm.trans hsome }
  | expire hle =>
    rw [List.append_nil] at hputs
    refine h.concat hputs fun p'' hsome => ?_
    cases hp'.symm.trans hsome

theorem publishRun (h : (machine timeout).Run t s) (tx : TransactionId) :
    PublishRun timeout tx t s := by
  refine h.invariant (I := fun t s => PublishRun timeout tx t s) ?_ ?_
  · rintro s rfl
    exact ⟨fun h => absurd rfl h, fun _ h => (nomatch h), List.nodup_nil, fun _ h => (nomatch h)⟩
  · exact fun t s e hrun hen h => h.step (config_run hrun) hen

/-! ## Resolves -/

/-- The event is a reply of `q` to resolve `tx` of `addr`. -/
def IsReply (tx : TransactionId) (addr q : SocketAddrV4) (v : Option (List UInt8)) (e : Event) :
    Prop :=
  ∃ data unixSecs, e = .packet data q unixSecs ∧
    Proto.decode data = some (.response (.v1 (.value tx addr v)))

/-- `q` replied. -/
def Replied (tx : TransactionId) (addr : SocketAddrV4) (since : History) (q : SocketAddrV4)
    (v : Option (List UInt8)) : Prop :=
  ∃ x ∈ since, IsReply tx addr q v x.1

/-- The first reply of `q`, the only one that is processed. -/
def Processed (tx : TransactionId) (addr : SocketAddrV4) (since : History) (q : SocketAddrV4)
    (v : Option (List UInt8)) : Prop :=
  ∃ before x after, since = before ++ x :: after ∧ IsReply tx addr q v x.1 ∧
    ∀ v', ¬ Replied tx addr before q v'

/-- The value fits and satisfies the predicate of the lookup. -/
def Accepts (accept : Option Accept) (v : List UInt8) : Prop :=
  v.length ≤ MAX_VALUE_LEN ∧ accept.any (fun accept => accept v) = true

section Replies

variable {addr q : SocketAddrV4} {v : Option (List UInt8)}

theorem replied_concat {x : Event × List Action} :
    Replied tx addr (since ++ [x]) q v ↔ Replied tx addr since q v ∨ IsReply tx addr q v x.1 := by
  simp only [Replied, List.mem_append, List.mem_singleton]
  refine ⟨?_, ?_⟩
  · rintro ⟨y, hy | rfl, hreply⟩
    · exact .inl ⟨y, hy, hreply⟩
    · exact .inr hreply
  · rintro (⟨y, hy, hreply⟩ | hreply)
    · exact ⟨y, .inl hy, hreply⟩
    · exact ⟨x, .inr rfl, hreply⟩

theorem processed_concat {x : Event × List Action} :
    Processed tx addr (since ++ [x]) q v ↔ Processed tx addr since q v ∨
      IsReply tx addr q v x.1 ∧ ∀ v', ¬ Replied tx addr since q v' := by
  refine ⟨?_, ?_⟩
  · rintro ⟨before, y, after, heq, hreply, hfirst⟩
    rcases List.eq_nil_or_concat after with rfl | ⟨after', z, rfl⟩
    · obtain ⟨rfl, hx⟩ := List.append_inj' heq rfl
      obtain rfl := List.singleton_inj.mp hx
      exact .inr ⟨hreply, hfirst⟩
    · rw [List.concat_eq_append, ← List.cons_append, ← List.append_assoc] at heq
      exact .inl ⟨before, y, after', (List.append_inj' heq rfl).1, hreply, hfirst⟩
  · rintro (⟨before, y, after, rfl, hreply, hfirst⟩ | ⟨hreply, hfirst⟩)
    · exact ⟨before, y, after ++ [x], by simp, hreply, hfirst⟩
    · exact ⟨since, x, [], rfl, hreply, hfirst⟩

theorem IsReply.unique {q' : SocketAddrV4} {v' : Option (List UInt8)}
    (h : IsReply tx addr q v e) (h' : IsReply tx addr q' v' e) : q = q' ∧ v = v' := by
  obtain ⟨data, unixSecs, rfl, hdec⟩ := h
  obtain ⟨data', unixSecs', heq, hdec'⟩ := h'
  obtain ⟨rfl, rfl, rfl⟩ := Event.packet.inj heq
  rw [hdec] at hdec'
  cases hdec'
  exact ⟨rfl, rfl⟩

end Replies

/-- What a pending resolve knows of the events since it started. -/
structure ResolveState (servers : HashSet SocketAddrV4) (addr : SocketAddrV4)
    (accept : Option Accept) (deadline : Instant) (tx : TransactionId) (since : History)
    (p : PendingResolve) : Prop where
  /-- the socket looked up -/
  addr_eq : p.addr = addr
  /-- the predicate of the caller -/
  accept_eq : p.accept = accept
  /-- the deadline does not move -/
  deadline_eq : p.deadline = deadline
  /-- the servers awaited are those asked that did not reply -/
  mem_awaiting : ∀ q, q ∈ p.awaiting ↔ q ∈ servers ∧ ∀ v, ¬ Replied tx addr since q v
  /-- it remembers whether any of them did -/
  responded_iff : p.responded = true ↔ ∃ q ∈ servers, ∃ v, Replied tx addr since q v
  /-- each of its values fits and came from a server of its own -/
  values : ∃ source : List UInt8 → SocketAddrV4, Set.InjOn source ↑p.values ∧ ∀ v ∈ p.values,
    v.length ≤ MAX_VALUE_LEN ∧ source v ∈ servers ∧ Replied tx addr since (source v) (some v)
  /-- it holds every value that was accepted -/
  accepted : ∀ q ∈ servers, ∀ v, Processed tx addr since q (some v) → Accepts accept v →
    v ∈ p.values

/-- No reply was accepted so far. -/
def Unaccepted (servers : HashSet SocketAddrV4) (addr : SocketAddrV4) (accept : Option Accept)
    (tx : TransactionId) (since : History) : Prop :=
  ∀ q ∈ servers, ∀ v, Processed tx addr since q (some v) → ¬ Accepts accept v

section ResolveState

variable {addr : SocketAddrV4} {accept : Option Accept} {p p' : PendingResolve}

/-- An event that the resolve does not heed teaches it nothing. -/
theorem ResolveState.idle (h : ResolveState servers addr accept deadline tx since p)
    (out : List Action) (hidle : ∀ p' accepted, ¬ ResolveUpdate tx p e p' accepted) :
    ResolveState servers addr accept deadline tx (since ++ [(e, out)]) p ∧
      (Unaccepted servers addr accept tx since →
        Unaccepted servers addr accept tx (since ++ [(e, out)])) := by
  -- a reply that is not heeded is not the first of its server
  have hlate {q : SocketAddrV4} {v : Option (List UInt8)} (hq : q ∈ servers)
      (hreply : IsReply tx addr q v e) : ∃ v', Replied tx addr since q v' := by
    by_contra hnone
    obtain ⟨data, unixSecs, rfl, hdec⟩ := hreply
    have hawait : q ∈ p.awaiting := (h.mem_awaiting q).mpr ⟨hq, not_exists.mp hnone⟩
    rw [← h.addr_eq] at hdec
    exact hidle _ _ (.value hdec hawait)
  have hprocessed {q : SocketAddrV4} {v : List UInt8} (hq : q ∈ servers)
      (hp : Processed tx addr (since ++ [(e, out)]) q (some v)) :
      Processed tx addr since q (some v) := by
    rcases processed_concat.mp hp with hp | ⟨hreply, hfirst⟩
    · exact hp
    · obtain ⟨v', hv'⟩ := hlate hq hreply
      exact absurd hv' (hfirst v')
  refine ⟨⟨h.addr_eq, h.accept_eq, h.deadline_eq, fun q => ?_, ?_, ?_, ?_⟩, ?_⟩
  · rw [h.mem_awaiting]
    refine and_congr_right fun hq => ⟨fun hnone v hv => ?_, fun hnone v hv => ?_⟩
    · rcases replied_concat.mp hv with hv | hv
      · exact hnone v hv
      · obtain ⟨v', hv'⟩ := hlate hq hv
        exact hnone v' hv'
    · exact hnone v (replied_concat.mpr (.inl hv))
  · rw [h.responded_iff]
    refine ⟨?_, ?_⟩
    · rintro ⟨q, hq, v, hv⟩
      exact ⟨q, hq, v, replied_concat.mpr (.inl hv)⟩
    · rintro ⟨q, hq, v, hv⟩
      rcases replied_concat.mp hv with hv | hv
      · exact ⟨q, hq, v, hv⟩
      · exact ⟨q, hq, hlate hq hv⟩
  · obtain ⟨source, hinj, hsource⟩ := h.values
    refine ⟨source, hinj, fun v hv => ?_⟩
    obtain ⟨hfit, hserver, hreplied⟩ := hsource v hv
    exact ⟨hfit, hserver, replied_concat.mpr (.inl hreplied)⟩
  · exact fun q hq v hp => h.accepted q hq v (hprocessed hq hp)
  · exact fun hun q hq v hp => hun q hq v (hprocessed hq hp)

/-- A reply that the resolve heeds is the first of its server. -/
theorem ResolveState.update (h : ResolveState servers addr accept deadline tx since p)
    (out : List Action) (hun : Unaccepted servers addr accept tx since) {accepted : Bool}
    (hu : ResolveUpdate tx p e p' accepted) :
    ResolveState servers addr accept deadline tx (since ++ [(e, out)]) p' ∧
      (accepted = false ↔ Unaccepted servers addr accept tx (since ++ [(e, out)])) := by
  obtain @⟨data, src, unixSecs, v, hdec, hawait⟩ := hu
  obtain ⟨hserver, hfirst⟩ := (h.mem_awaiting src).mp hawait
  obtain ⟨haddr, haccept, hdeadline, hawaiting, hresponded⟩ := p.receive_frame src v
  rw [h.addr_eq] at hdec
  have hreply : IsReply tx addr src v (.packet data src unixSecs) := ⟨data, unixSecs, rfl, hdec⟩
  have haccepted : (p.receive src v).2 = true ↔ ∃ w, v = some w ∧ Accepts accept w := by
    rw [PendingResolve.snd_receive, h.accept_eq]
    rfl
  have hprocessed {q : SocketAddrV4} {w : List UInt8}
      (hp : Processed tx addr (since ++ [(.packet data src unixSecs, out)]) q (some w)) :
      Processed tx addr since q (some w) ∨ v = some w := by
    refine (processed_concat.mp hp).imp_right fun hw => ?_
    exact (hreply.unique hw.1).2
  refine ⟨⟨haddr.trans h.addr_eq, haccept.trans h.accept_eq, hdeadline.trans h.deadline_eq,
    fun q => ?_, ?_, ?_, ?_⟩, fun hfalse q hq w hp hacc => ?_, fun hun' => ?_⟩
  · rw [hawaiting, Finset.mem_erase, h.mem_awaiting]
    refine ⟨fun ⟨hne, hq, hnone⟩ => ⟨hq, fun v' hv' => ?_⟩, fun ⟨hq, hnone⟩ => ⟨?_, hq, ?_⟩⟩
    · rcases replied_concat.mp hv' with hv' | hv'
      · exact hnone v' hv'
      · exact hne (hreply.unique hv').1.symm
    · rintro rfl
      exact hnone v (replied_concat.mpr (.inr hreply))
    · exact fun v' hv' => hnone v' (replied_concat.mpr (.inl hv'))
  · exact ⟨fun _ => ⟨src, hserver, v, replied_concat.mpr (.inr hreply)⟩, fun _ => hresponded⟩
  · -- the server of the new value has none yet
    obtain ⟨source, hinj, hsource⟩ := h.values
    by_cases hnew : ∃ w, v = some w ∧ w.length ≤ MAX_VALUE_LEN
    · obtain ⟨w, rfl, hfit⟩ := hnew
      have hother {x : List UInt8} (hx : x ∈ p.values) : source x ≠ src := by
        intro heq
        have hreplied := (hsource x hx).2.2
        rw [heq] at hreplied
        exact hfirst _ hreplied
      have hmem {x : List UInt8} (hx : x ∈ (p.receive src (some w)).1.values) (hne : x ≠ w) :
          x ∈ p.values := by
        refine (PendingResolve.mem_values_receive.mp hx).resolve_right fun hw => hne ?_
        exact (Option.some.inj hw.1).symm
      refine ⟨Function.update source w src, fun x hx y hy hxy => ?_, fun x hx => ?_⟩
      · by_cases hxw : x = w
        · by_cases hyw : y = w
          · rw [hxw, hyw]
          · rw [hxw, Function.update_self, Function.update_of_ne hyw] at hxy
            exact absurd hxy.symm (hother (hmem hy hyw))
        · by_cases hyw : y = w
          · rw [hyw, Function.update_self, Function.update_of_ne hxw] at hxy
            exact absurd hxy (hother (hmem hx hxw))
          · rw [Function.update_of_ne hxw, Function.update_of_ne hyw] at hxy
            exact hinj (hmem hx hxw) (hmem hy hyw) hxy
      · by_cases hxw : x = w
        · rw [hxw, Function.update_self]
          exact ⟨hfit, hserver, replied_concat.mpr (.inr hreply)⟩
        · rw [Function.update_of_ne hxw]
          obtain ⟨hxfit, hxserver, hxreplied⟩ := hsource x (hmem hx hxw)
          exact ⟨hxfit, hxserver, replied_concat.mpr (.inl hxreplied)⟩
    · have hsame : (p.receive src v).1.values = p.values := by
        ext x
        rw [PendingResolve.mem_values_receive, or_iff_left]
        exact fun hx => hnew ⟨x, hx⟩
      refine ⟨source, by rwa [hsame], fun x hx => ?_⟩
      rw [hsame] at hx
      obtain ⟨hfit, hxserver, hreplied⟩ := hsource x hx
      exact ⟨hfit, hxserver, replied_concat.mpr (.inl hreplied)⟩
  · intro q hq w hp hacc
    rw [PendingResolve.mem_values_receive]
    rcases hprocessed hp with hp | hp
    · exact .inl (h.accepted q hq w hp hacc)
    · exact .inr ⟨hp, hacc.1⟩
  · rcases hprocessed hp with hp | hp
    · exact hun q hq w hp hacc
    · rw [haccepted.mpr ⟨w, hp, hacc⟩] at hfalse
      cases hfalse
  · rw [← Bool.not_eq_true, haccepted]
    rintro ⟨w, rfl, hacc⟩
    exact hun' src hserver w (processed_concat.mpr (.inr ⟨hreply, hfirst⟩)) hacc

end ResolveState

/-- A resolve in the history of a run. -/
def ResolveRun (timeout : ℕ) (tx : TransactionId) (t : History) (s : Actor) : Prop :=
  ∀ p, s.resolves.lookup tx = some p → ∃ pre addr accept now sends since,
    t = pre ++ (.message (.resolve addr accept) tx now, sends) :: since ∧
      ResolveState (inUse pre) addr accept (now + timeout) tx since p ∧
      Unaccepted (inUse pre) addr accept tx since

/-- A step keeps every resolve in its history. -/
theorem ResolveRun.step (h : ResolveRun timeout tx t s)
    (hconfig : s.servers = inUse t ∧ s.timeout = timeout) :
    ResolveRun timeout tx (t ++ [(e, (s.step e).2)]) (s.step e).1 := by
  have hstep := s.resolve_step tx e
  rw [ResolveSees] at hstep
  intro p'' hsome
  generalize hp : s.resolves.lookup tx = o at hstep
  rw [hsome] at hstep
  generalize (s.step e).2 = out at hstep ⊢
  generalize out.filterMap (resolvedOf tx) = results at hstep
  cases hstep with
  | idle hidle =>
    obtain ⟨pre, addr, accept, now, sends, since, rfl, hstate, hun⟩ := h p'' hp
    obtain ⟨hstate', hun'⟩ := hstate.idle out (hidle p'' rfl).1
    exact ⟨pre, addr, accept, now, sends, since ++ [(e, out)], by simp, hstate', hun' hun⟩
  | @noServers _ addr' accept' now' hservers =>
    obtain ⟨pre, addr, accept, now, sends, since, rfl, hstate, hun⟩ := h p'' hp
    have hidle : ∀ p' accepted,
        ¬ ResolveUpdate tx p'' (.message (.resolve addr' accept') tx now') p' accepted := by
      rintro p' accepted ⟨⟩
    obtain ⟨hstate', hun'⟩ := hstate.idle out hidle
    exact ⟨pre, addr, accept, now, sends, since ++ [(_, out)], by simp, hstate', hun' hun⟩
  | @start _ addr accept now hservers =>
    refine ⟨t, addr, accept, now, out, [], rfl, ?_, ?_⟩
    · rw [← hconfig.1, hconfig.2]
      refine ⟨rfl, rfl, rfl, fun q => ?_, ?_, ⟨fun _ => ⟨⟨0, 0, 0, 0⟩, 0⟩, ?_, ?_⟩, ?_⟩
      · refine ⟨fun hq => ⟨hq, ?_⟩, fun hq => hq.1⟩
        rintro v ⟨_, hx, _⟩
        cases hx
      · constructor
        · intro hresponded
          cases hresponded
        · rintro ⟨_, _, _, _, hx, _⟩
          cases hx
      · intro v hv
        cases hv
      · intro v hv
        cases hv
      · rintro q - v ⟨before, x, after, heq, -⟩
        simp at heq
    · rintro q - v ⟨before, x, after, heq, -⟩
      simp at heq
  | @update p _ _ hu hawait =>
    obtain ⟨pre, addr, accept, now, sends, since, rfl, hstate, hun⟩ := h p hp
    obtain ⟨hstate', hun'⟩ := hstate.update out hun hu
    exact ⟨pre, addr, accept, now, sends, since ++ [(e, out)], by simp, hstate', hun'.mp rfl⟩

theorem resolveRun (h : (machine timeout).Run t s) (tx : TransactionId) :
    ResolveRun timeout tx t s := by
  refine h.invariant (I := fun t s => ResolveRun timeout tx t s) ?_ ?_
  · rintro s rfl p hp
    cases hp
  · exact fun t s e hrun _ h => h.step (config_run hrun)

/-! ## The results -/

theorem mem_filterMap_putOf {d : Datagram} :
    d ∈ out.filterMap (putOf tx) ↔ .send d ∈ out ∧
      ∃ token v, Proto.decode d.bytes = some (.request (.v1 (.put tx token v))) := by
  rw [List.mem_filterMap]
  refine ⟨?_, ?_⟩
  · rintro ⟨a, ha, hput⟩
    cases a with
    | send d' =>
      simp only [putOf] at hput
      split at hput
      · rename_i tx' token v hdec
        split at hput
        · rename_i heq
          obtain rfl := Option.some.inj hput
          rw [heq] at hdec
          exact ⟨ha, token, v, hdec⟩
        · cases hput
      · cases hput
    | published => cases hput
    | resolved => cases hput
  · rintro ⟨ha, token, v, hdec⟩
    refine ⟨_, ha, ?_⟩
    simp only [putOf, hdec, if_true]

theorem mem_filterMap_publishedOf {r : Except UdpError (List SocketAddrV4)} :
    r ∈ out.filterMap (publishedOf tx) ↔ .published tx r ∈ out := by
  rw [List.mem_filterMap]
  refine ⟨?_, fun h => ⟨_, h, if_pos rfl⟩⟩
  rintro ⟨a, ha, hresult⟩
  cases a with
  | published tx' r' =>
    rw [publishedOf_published, Option.ite_none_right_eq_some, Option.some_inj] at hresult
    obtain ⟨rfl, rfl⟩ := hresult
    exact ha
  | send => cases hresult
  | resolved => cases hresult

theorem mem_filterMap_resolvedOf {r : Except UdpError (List (List UInt8))} :
    r ∈ out.filterMap (resolvedOf tx) ↔ .resolved tx r ∈ out := by
  rw [List.mem_filterMap]
  refine ⟨?_, fun h => ⟨_, h, if_pos rfl⟩⟩
  rintro ⟨a, ha, hresult⟩
  cases a with
  | resolved tx' r' =>
    rw [resolvedOf_resolved, Option.ite_none_right_eq_some, Option.some_inj] at hresult
    obtain ⟨rfl, rfl⟩ := hresult
    exact ha
  | send => cases hresult
  | published => cases hresult

/-- A put that is sent answers a `Prepared`: it goes to the server that sent it, one
of those the publish asked, with its token and the value built for its address. -/
def PutOrigin (tx : TransactionId) (before : History) (e : Event) (d : Datagram) : Prop :=
  ∃ pre value now sends since data unixSecs addr token,
    before = pre ++ (.message (.publish value) tx now, sends) :: since ∧
      d.dest ∈ inUse pre ∧ e = .packet data d.dest unixSecs ∧
      Proto.decode data = some (.response (.v1 (.prepared tx addr token))) ∧
      Proto.decode d.bytes = some (.request (.v1 (.put tx token (value addr unixSecs))))

theorem putOrigin (h : (machine timeout).Run t s) {pre post : History}
    (ht : t = pre ++ (e, out) :: post) {d : Datagram} (hd : .send d ∈ out) {token : Token}
    {v : List UInt8} (hdec : Proto.decode d.bytes = some (.request (.v1 (.put tx token v)))) :
    PutOrigin tx pre e d := by
  obtain ⟨s₁, hrun, -, hout⟩ := h.stepAt ht
  have hstep := s₁.publish_step tx e
  have hput : d ∈ out.filterMap (putOf tx) := mem_filterMap_putOf.mpr ⟨hd, token, v, hdec⟩
  have hout : out = (s₁.step e).2 := hout
  rw [PublishSees, ← hout] at hstep
  generalize hp : s₁.publishes.lookup tx = o at hstep
  generalize (s₁.step e).1.publishes.lookup tx = o' at hstep
  generalize out.filterMap (putOf tx) = ds at hstep hput
  generalize out.filterMap (publishedOf tx) = results at hstep
  have hupdate {p p' : PendingPublish} (hp : s₁.publishes.lookup tx = some p)
      (hu : PublishUpdate tx p e p' ds) : PutOrigin tx pre e d := by
    obtain ⟨pre', value, now, sends, since, rfl, hstate⟩ := (publishRun hrun tx).pending p hp
    cases hu with
    | @prepared data src addr unixSecs token bytes hprepared hawait hfirst hfit hbytes =>
      obtain rfl := List.mem_singleton.mp hput
      rw [hstate.value_eq] at hbytes
      exact ⟨pre', value, now, sends, since, data, unixSecs, addr, token, rfl,
        hstate.awaiting_le hawait, rfl, hprepared, hbytes⟩
    | tooLarge => cases hput
    | stored => cases hput
  cases hstep with
  | update hu => exact hupdate hp hu
  | finish hu => exact hupdate hp hu
  | idle => cases hput
  | noServers => cases hput
  | start => cases hput
  | expire => cases hput

/-- How a publish ends that was sent to `servers` at time `now`: with the event `e`,
the last of `since`. -/
def PublishOutcome (timeout : ℕ) (tx : TransactionId) (servers : HashSet SocketAddrV4)
    (value : ValueFor) (now : Instant) (since : History) (e : Event) : Prop :=
  (∀ q ∈ servers, ∃ x ∈ since, IsAnswer tx value q x.1) ∨
    ∃ now', e = .flush now' ∧ now + timeout ≤ now'

/-- How a resolve ends that was sent to `servers` at time `now`: with the event `e`,
the last of `since`, and the result `r`. -/
structure ResolveOutcome (timeout : ℕ) (tx : TransactionId) (servers : HashSet SocketAddrV4)
    (addr : SocketAddrV4) (accept : Option Accept) (now : Instant) (since : History) (e : Event)
    (r : Except UdpError (List (List UInt8))) : Prop where
  /-- the values are sorted, without repetition -/
  sorted : ∀ values, r = .ok values → values.Pairwise (· < ·)
  /-- they fit, and came from servers asked, one from each at most -/
  sources : ∀ values, r = .ok values → ∃ source : List UInt8 → SocketAddrV4,
    Set.InjOn source {v | v ∈ values} ∧ ∀ v ∈ values, v.length ≤ MAX_VALUE_LEN ∧
      source v ∈ servers ∧ Replied tx addr since (source v) (some v)
  /-- it is a timeout when no server replied -/
  timeout_iff : r = .error .timeout ↔ ∀ q ∈ servers, ∀ v, ¬ Replied tx addr since q v
  /-- a value that was accepted is among them -/
  accepted : (∃ q ∈ servers, ∃ v, Processed tx addr since q (some v) ∧ Accepts accept v) →
    ∃ values, r = .ok values ∧ ∃ v ∈ values, Accepts accept v
  /-- otherwise every server replied, or the time was up -/
  finished : Unaccepted servers addr accept tx since →
    (∀ q ∈ servers, ∃ v, Replied tx addr since q v) ∨ ∃ now', e = .flush now' ∧ now + timeout ≤ now'

theorem ResolveState.outcome {addr : SocketAddrV4} {accept : Option Accept} {now : Instant}
    {p : PendingResolve}
    (h : ResolveState servers addr accept (now + timeout) tx since p)
    (hdone : Unaccepted servers addr accept tx since → p.awaiting = ∅ ∨
      ∃ now', e = .flush now' ∧ p.deadline ≤ now') :
    ResolveOutcome timeout tx servers addr accept now since e p.result := by
  have hok {values : List (List UInt8)} (hr : p.result = .ok values) : values = p.values.sort := by
    rw [PendingResolve.result] at hr
    split at hr
    · cases hr
    · exact (Except.ok.inj hr).symm
  refine ⟨fun values hr => ?_, fun values hr => ?_, ?_, ?_, fun hun => ?_⟩
  · rw [hok hr]
    exact (Finset.sortedLT_sort _).pairwise
  · obtain ⟨source, hinj, hsource⟩ := h.values
    rw [hok hr]
    refine ⟨source, fun v hv w hw => ?_, fun v hv => hsource v ((Finset.mem_sort _).mp hv)⟩
    exact hinj ((Finset.mem_sort _).mp hv) ((Finset.mem_sort _).mp hw)
  · have hnone : p.responded = false ↔ ∀ q ∈ servers, ∀ v, ¬ Replied tx addr since q v := by
      rw [← Bool.not_eq_true, h.responded_iff]
      simp only [not_exists, not_and]
    rw [← hnone, PendingResolve.result]
    rcases p.responded with - | - <;> simp
  · rintro ⟨q, hq, v, hp, hacc⟩
    have hresponded : p.responded = true := by
      obtain ⟨before, x, after, rfl, hreply, -⟩ := hp
      exact h.responded_iff.mpr
        ⟨q, hq, some v, x, List.mem_append_right _ List.mem_cons_self, hreply⟩
    refine ⟨p.values.sort, ?_, v, (Finset.mem_sort _).mpr (h.accepted q hq v hp hacc), hacc⟩
    rw [PendingResolve.result, hresponded]
    rfl
  · rcases hdone hun with hall | ⟨now', rfl, hle⟩
    · left
      intro q hq
      by_contra hnone
      have hawait := (h.mem_awaiting q).mpr ⟨hq, not_exists.mp hnone⟩
      rw [hall] at hawait
      cases hawait
    · rw [h.deadline_eq] at hle
      exact .inr ⟨now', rfl, hle⟩

/-- Every result of a resolve: there were no servers to ask, or it is the outcome of
what its servers replied. -/
theorem resolved_outcome (h : (machine timeout).Run t s) {pre post : History}
    (ht : t = pre ++ (e, out) :: post) {r : Except UdpError (List (List UInt8))}
    (hr : .resolved tx r ∈ out) :
    (∃ addr accept now, e = .message (.resolve addr accept) tx now ∧ inUse pre = ∅ ∧
      r = .error .noServers) ∨
    ∃ start addr accept now sends since,
      pre = start ++ (.message (.resolve addr accept) tx now, sends) :: since ∧
        ResolveOutcome timeout tx (inUse start) addr accept now (since ++ [(e, out)]) e r := by
  obtain ⟨s₁, hrun, -, hout⟩ := h.stepAt ht
  have hstep := s₁.resolve_step tx e
  have hresult : r ∈ out.filterMap (resolvedOf tx) := mem_filterMap_resolvedOf.mpr hr
  have hout : out = (s₁.step e).2 := hout
  rw [ResolveSees, ← hout, (config_run hrun).1] at hstep
  generalize hp : s₁.resolves.lookup tx = o at hstep
  generalize (s₁.step e).1.resolves.lookup tx = o' at hstep
  generalize out.filterMap (resolvedOf tx) = results at hstep hresult
  cases hstep with
  | idle => cases hresult
  | start => cases hresult
  | update => cases hresult
  | @noServers _ addr accept now hservers =>
    obtain rfl := List.mem_singleton.mp hresult
    exact .inl ⟨addr, accept, now, rfl, hservers, rfl⟩
  | @finish p p' _ accepted hu hdone =>
    obtain rfl := List.mem_singleton.mp hresult
    obtain ⟨start, addr, accept, now, sends, since, rfl, hstate, hun⟩ := resolveRun hrun tx p hp
    obtain ⟨hstate', hun'⟩ := hstate.update out hun hu
    refine .inr ⟨start, addr, accept, now, sends, since, rfl, hstate'.outcome fun hun'' => .inl ?_⟩
    refine hdone.resolve_left ?_
    rw [hun'.mpr hun'']
    exact Bool.false_ne_true
  | @expire p now' hle =>
    obtain rfl := List.mem_singleton.mp hresult
    obtain ⟨start, addr, accept, now, sends, since, rfl, hstate, hun⟩ := resolveRun hrun tx p hp
    have hidle : ∀ p' accepted, ¬ ResolveUpdate tx p (.flush now') p' accepted := by
      rintro p' accepted ⟨⟩
    obtain ⟨hstate', -⟩ := hstate.idle out hidle
    exact .inr ⟨start, addr, accept, now, sends, since, rfl,
      hstate'.outcome fun _ => .inr ⟨now', rfl, hle⟩⟩

/-- Every result of a publish: there were no servers to ask, or every server asked
has answered, or the time was up. -/
theorem published_outcome (h : (machine timeout).Run t s) {pre post : History}
    (ht : t = pre ++ (e, out) :: post) {r : Except UdpError (List SocketAddrV4)}
    (hr : .published tx r ∈ out) :
    (∃ value now, e = .message (.publish value) tx now ∧ inUse pre = ∅ ∧
      r = .error .noServers) ∨
    ∃ start value now sends since,
      pre = start ++ (.message (.publish value) tx now, sends) :: since ∧
        PublishOutcome timeout tx (inUse start) value now (since ++ [(e, out)]) e := by
  obtain ⟨s₁, hrun, -, hout⟩ := h.stepAt ht
  have hstep := s₁.publish_step tx e
  have hresult : r ∈ out.filterMap (publishedOf tx) := mem_filterMap_publishedOf.mpr hr
  have hout : out = (s₁.step e).2 := hout
  rw [PublishSees, ← hout, (config_run hrun).1] at hstep
  generalize hp : s₁.publishes.lookup tx = o at hstep
  generalize (s₁.step e).1.publishes.lookup tx = o' at hstep
  generalize out.filterMap (putOf tx) = ds at hstep
  generalize out.filterMap (publishedOf tx) = results at hstep hresult
  cases hstep with
  | idle => cases hresult
  | start => cases hresult
  | update => cases hresult
  | @noServers _ value now hservers =>
    obtain rfl := List.mem_singleton.mp hresult
    exact .inl ⟨value, now, rfl, hservers, rfl⟩
  | @finish p p' _ _ hu hall =>
    obtain ⟨start, value, now, sends, since, rfl, hstate⟩ := (publishRun hrun tx).pending p hp
    have hstate' := hstate.update out hu
    refine .inr ⟨start, value, now, sends, since, rfl, .inl fun q hq => hstate'.answered q hq ?_⟩
    rw [hall]
    exact Finset.notMem_empty q
  | @expire p now' hle =>
    obtain ⟨start, value, now, sends, since, rfl, hstate⟩ := (publishRun hrun tx).pending p hp
    rw [hstate.deadline_eq] at hle
    exact .inr ⟨start, value, now, sends, since, rfl, .inr ⟨now', rfl, hle⟩⟩

/-- **The transactions of the client.** In every run with distinct ids: a transaction
sends each server one put at most; a put answers a `Prepared` of a server the publish
asked, with its token and the value for its address; a resolve returns what its
servers replied, and a timeout when none did; and an operation ends when a value was
accepted, every server it asked has answered, or its time was up. -/
theorem client_transactions {timeout : ℕ} {t : History} {s : Actor}
    (h : (machine timeout).Run t s) :
    (∀ tx, ((puts tx t).map Datagram.dest).Nodup) ∧
      ∀ pre e out post, t = pre ++ (e, out) :: post →
        (∀ d tx token v, .send d ∈ out →
          Proto.decode d.bytes = some (.request (.v1 (.put tx token v))) → PutOrigin tx pre e d) ∧
        (∀ tx r, .resolved tx r ∈ out →
          (∃ addr accept now, e = .message (.resolve addr accept) tx now ∧ inUse pre = ∅ ∧
            r = .error .noServers) ∨
          ∃ start addr accept now sends since,
            pre = start ++ (.message (.resolve addr accept) tx now, sends) :: since ∧
              ResolveOutcome timeout tx (inUse start) addr accept now (since ++ [(e, out)]) e r) ∧
        ∀ tx r, .published tx r ∈ out →
          (∃ value now, e = .message (.publish value) tx now ∧ inUse pre = ∅ ∧
            r = .error .noServers) ∨
          ∃ start value now sends since,
            pre = start ++ (.message (.publish value) tx now, sends) :: since ∧
              PublishOutcome timeout tx (inUse start) value now (since ++ [(e, out)]) e := by
  refine ⟨fun tx => (publishRun h tx).once, fun pre e out post ht => ⟨?_, ?_, ?_⟩⟩
  · intro d tx token v hd hdec
    exact putOrigin h ht hd hdec
  · intro tx r hr
    exact resolved_outcome h ht hr
  · intro tx r hr
    exact published_outcome h ht hr

/-! ### A sample run -/

namespace Sample

/-- An index server. -/
def server : SocketAddrV4 := ⟨⟨192, 0, 2, 53⟩, 6881⟩

/-- The socket that is looked up. -/
def target : SocketAddrV4 := ⟨⟨192, 0, 2, 1⟩, 4433⟩

/-- The server replies with the value of the socket. -/
def reply : List UInt8 :=
  MAGIC ++ Proto.codec.enc (.response (.v1 (.value 1 target (some [7]))))

/-- The server is configured. -/
def configure : Event := .message (.addServer server) 0 0

/-- The socket is looked up. -/
def resolve : Event := .message (.resolve target none) 1 0

/-- The reply arrives. -/
def receive : Event := .packet reply server 0

end Sample

/-- A lookup that returns a value, and its outcome. -/
theorem client_transactions_sample :
    ∃ t s, (machine DEFAULT_TIMEOUT).Run t s ∧ ∃ pre e out, t = pre ++ [(e, out)] ∧
      .resolved 1 (.ok [[7]]) ∈ out ∧
      ∃ start addr accept now sends since,
        pre = start ++ (.message (.resolve addr accept) 1 now, sends) :: since ∧
          ResolveOutcome DEFAULT_TIMEOUT 1 (inUse start) addr accept now (since ++ [(e, out)]) e
            (.ok [[7]]) := by
  have h₀ : (machine DEFAULT_TIMEOUT).Run [] (new DEFAULT_TIMEOUT) := .start rfl
  have h₁ := h₀.step (a := Sample.configure) fun _ _ _ hmem => nomatch hmem
  have h₂ := h₁.step (a := Sample.resolve) fun _ _ _ hmem => nomatch List.mem_singleton.mp hmem
  have h₃ := h₂.step (a := Sample.receive) trivial
  have hout : .resolved 1 (.ok [[7]]) ∈ ((machine DEFAULT_TIMEOUT).step
      ((machine DEFAULT_TIMEOUT).step ((machine DEFAULT_TIMEOUT).step (new DEFAULT_TIMEOUT)
        Sample.configure).1 Sample.resolve).1 Sample.receive).2 := by
    decide +kernel
  refine ⟨_, _, h₃, _, _, _, rfl, hout, ?_⟩
  obtain ⟨-, h⟩ := client_transactions h₃
  rcases (h _ _ _ _ rfl).2.1 1 _ hout with ⟨_, _, _, _, _, hr⟩ | houtcome
  · cases hr
  · exact houtcome

end Actor

end ContentDiscovery
