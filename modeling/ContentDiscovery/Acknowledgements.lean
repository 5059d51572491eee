import ContentDiscovery.Transactions

/-!
# What the result of a publish stands for

A publish returns the sockets its servers confirmed. This module asks which of them
stand for a value that was sent: for which some server that was asked first reported
the socket, was then sent the value built for it, and confirmed this very socket
after that.

The actor takes a confirmation from every server it awaits, whether it sent that
server a put or not. So the answer is a matter of what the servers send: as long as
no server confirms another socket than the one in its first `Prepared`, or confirms
without one, every socket of a result stands for a put (`published_sent`). A server
that does breaks it (`published_unsent`).
-/

namespace ContentDiscovery

namespace Actor

/-- The event is a `Prepared` of `q` for publish `tx` that names `addr`. -/
def IsPrepared (tx : TransactionId) (q addr : SocketAddrV4) (e : Event) : Prop :=
  ∃ data unixSecs token, e = .packet data q unixSecs ∧
    Proto.decode data = some (.response (.v1 (.prepared tx addr token)))

/-- The event is a `Stored` of `q` for publish `tx` that names `addr`. -/
def IsStored (tx : TransactionId) (q addr : SocketAddrV4) (e : Event) : Prop :=
  ∃ data unixSecs, e = .packet data q unixSecs ∧
    Proto.decode data = some (.response (.v1 (.stored tx addr)))

/-- A `Prepared` of `q` that names `addr`, answered with a put of the value built for
`addr`. -/
def PutSent (tx : TransactionId) (value : ValueFor) (q addr : SocketAddrV4)
    (x : Event × List Action) : Prop :=
  ∃ data unixSecs token bytes, x.1 = .packet data q unixSecs ∧
    Proto.decode data = some (.response (.v1 (.prepared tx addr token))) ∧
    .send ⟨bytes, q⟩ ∈ x.2 ∧
    Proto.decode bytes = some (.request (.v1 (.put tx token (value addr unixSecs))))

/-- One of the servers reported `addr`, was then sent the value built for it, and
confirmed `addr` after that. -/
def Acknowledged (tx : TransactionId) (servers : HashSet SocketAddrV4) (value : ValueFor)
    (since : History) (addr : SocketAddrV4) : Prop :=
  ∃ q ∈ servers, ∃ before x between y after, since = before ++ x :: between ++ y :: after ∧
    PutSent tx value q addr x ∧ IsStored tx q addr y.1

/-- Every socket that a publish returns was acknowledged in its transaction. -/
def ReturnsAcknowledged (t : History) : Prop :=
  ∀ pre e out post, t = pre ++ (e, out) :: post → ∀ tx addrs, .published tx (.ok addrs) ∈ out →
    ∃ start value now sends since,
      pre = start ++ (.message (.publish value) tx now, sends) :: since ∧
        ∀ addr ∈ addrs, Acknowledged tx (inUse start) value (since ++ [(e, out)]) addr

/-- The first `Prepared` of `q` since publish `tx` started, if it names `addr`. -/
def ReportedFirst (tx : TransactionId) (q addr : SocketAddrV4) (since : History) : Prop :=
  ∃ x, First (fun e => ∃ a, IsPrepared tx q a e) x since ∧ IsPrepared tx q addr x.1

/-- A server that a publish awaits confirms no other socket than the one in the first
`Prepared` it sent in this transaction. -/
def ConfirmsReported (t : History) (s : Actor) (e : Event) : Prop :=
  ∀ tx q addr p, IsStored tx q addr e → s.publishes.lookup tx = some p → q ∈ p.awaiting →
    ∃ start m now sends since, t = start ++ (.message m tx now, sends) :: since ∧
      ReportedFirst tx q addr since

variable {timeout : ℕ} {t : History} {s : Actor} {tx : TransactionId}
  {servers : HashSet SocketAddrV4} {value : ValueFor} {deadline : Instant}
  {since : History} {p p' : PendingPublish} {e : Event} {out : List Action}

/-- A datagram is a `Prepared` of one server, with one socket. -/
theorem IsPrepared.unique {q q' addr addr' : SocketAddrV4} (h : IsPrepared tx q addr e)
    (h' : IsPrepared tx q' addr' e) : q = q' ∧ addr = addr' := by
  obtain ⟨data, unixSecs, token, rfl, hdec⟩ := h
  obtain ⟨data', unixSecs', token', heq, hdec'⟩ := h'
  obtain ⟨rfl, rfl, rfl⟩ := Event.packet.inj heq
  rw [hdec] at hdec'
  cases hdec'
  exact ⟨rfl, rfl⟩

/-- More events do not take an acknowledgement back. -/
theorem Acknowledged.mono {addr : SocketAddrV4} (h : Acknowledged tx servers value since addr)
    (x : Event × List Action) : Acknowledged tx servers value (since ++ [x]) addr := by
  obtain ⟨q, hq, before, x₁, between, x₂, after, rfl, hsent, hstored⟩ := h
  exact ⟨q, hq, before, x₁, between, x₂, after ++ [x], by simp, hsent, hstored⟩

/-- What a pending publish knows of its puts and their acknowledgements. -/
structure PutState (servers : HashSet SocketAddrV4) (value : ValueFor) (tx : TransactionId)
    (since : History) (p : PendingPublish) : Prop where
  /-- the value is built as the caller said -/
  value_eq : p.value = value
  /-- only servers it asked are awaited -/
  awaiting_le : p.awaiting ⊆ servers
  /-- a server is marked for a `Prepared` it sent -/
  prepared : ∀ q ∈ p.prepared, ∃ x ∈ since, ∃ a, IsPrepared tx q a x.1
  /-- a server that is still awaited was sent a put for its first `Prepared` -/
  sent : ∀ q ∈ p.awaiting, ∀ addr x, First (fun e => ∃ a, IsPrepared tx q a e) x since →
    IsPrepared tx q addr x.1 → PutSent tx value q addr x
  /-- the confirmed sockets are acknowledged -/
  stored : ∀ addr ∈ p.stored, Acknowledged tx servers value since addr

/-- Marks outlive further events. -/
theorem PutState.prepared_mono (h : PutState servers value tx since p) (x : Event × List Action)
    {q : SocketAddrV4} (hq : q ∈ p.prepared) :
    ∃ y ∈ since ++ [x], ∃ a, IsPrepared tx q a y.1 := by
  obtain ⟨y, hy, hprepared⟩ := h.prepared q hq
  exact ⟨y, List.mem_append_left _ hy, hprepared⟩

/-- An awaited server's first `Prepared` after one more event: it was sent a put before, or
the event is that `Prepared` and the server was not marked. -/
theorem PutState.first (h : PutState servers value tx since p) {z x : Event × List Action}
    {q addr : SocketAddrV4} (hawait : q ∈ p.awaiting)
    (hfirst : First (fun e => ∃ a, IsPrepared tx q a e) x (since ++ [z]))
    (hx : IsPrepared tx q addr x.1) : PutSent tx value q addr x ∨ x = z ∧ q ∉ p.prepared := by
  rcases first_concat.mp hfirst with hold | ⟨rfl, -, hnone⟩
  · exact .inl (h.sent q hawait addr x hold hx)
  · refine .inr ⟨rfl, fun hmem => ?_⟩
    obtain ⟨y, hy, hprepared⟩ := h.prepared q hmem
    exact hnone y hy hprepared

theorem PutState.idle (h : PutState servers value tx since p) (out : List Action)
    (hidle : ∀ p' ds, ¬ PublishUpdate tx p e p' ds) :
    PutState servers value tx (since ++ [(e, out)]) p where
  value_eq := h.value_eq
  awaiting_le := h.awaiting_le
  prepared q hq := h.prepared_mono _ hq
  sent q hawait addr x hfirst hx := by
    refine (h.first hawait hfirst hx).resolve_right ?_
    rintro ⟨rfl, hnew⟩
    -- the first `Prepared` of an awaited server is heeded, whatever the value's length
    obtain ⟨data, unixSecs, token, rfl, hdec⟩ := hx
    by_cases hfit : (p.value addr unixSecs).length ≤ MAX_VALUE_LEN
    · obtain ⟨bytes, hbytes⟩ := encode_eq_some (r := .put tx token (p.value addr unixSecs))
        (by rintro _ _ _ ⟨⟩; exact hfit)
      exact hidle _ _ (.prepared hdec hawait hnew hfit (decode_encode hbytes))
    · exact hidle _ _ (.tooLarge hdec hawait hnew (not_le.mp hfit))
  stored addr haddr := (h.stored addr haddr).mono _

/-- A reply that the publish heeds, a confirmation only of the socket first reported. -/
theorem PutState.update (h : PutState servers value tx since p) {ds : List Datagram}
    (hu : PublishUpdate tx p e p' ds) (hout : out.filterMap (putOf tx) = ds)
    (hconfirms : ∀ q addr, IsStored tx q addr e → q ∈ p.awaiting → ReportedFirst tx q addr since) :
    PutState servers value tx (since ++ [(e, out)]) p' := by
  cases hu with
  | @prepared data src addr unixSecs token bytes hdec hawait hfirst hfit hbytes =>
    refine ⟨h.value_eq, h.awaiting_le, fun q hq => ?_, fun q hq a x hx hprep => ?_, fun a ha =>
      (h.stored a ha).mono _⟩
    · rcases Finset.mem_insert.mp hq with rfl | hq
      · exact ⟨_, List.mem_append_right _ (List.mem_singleton_self _), addr, data, unixSecs, token,
          rfl, hdec⟩
      · exact h.prepared_mono _ hq
    · rcases h.first hq hx hprep with hsent | ⟨rfl, -⟩
      · exact hsent
      · obtain ⟨rfl, rfl⟩ := IsPrepared.unique ⟨data, unixSecs, token, rfl, hdec⟩ hprep
        rw [h.value_eq] at hbytes
        have hmem : (⟨bytes, src⟩ : Datagram) ∈ out.filterMap (putOf tx) := by
          rw [hout]
          exact List.mem_singleton_self _
        exact ⟨data, unixSecs, token, bytes, rfl, hdec, (mem_filterMap_putOf.mp hmem).1, hbytes⟩
  | @tooLarge data src addr unixSecs token hdec hawait hfirst hlong =>
    refine ⟨h.value_eq, fun q hq => h.awaiting_le (Finset.mem_of_mem_erase hq), fun q hq => ?_,
      fun q hq a x hx hprep => ?_, fun a ha => (h.stored a ha).mono _⟩
    · rcases Finset.mem_insert.mp hq with rfl | hq
      · exact ⟨_, List.mem_append_right _ (List.mem_singleton_self _), addr, data, unixSecs, token,
          rfl, hdec⟩
      · exact h.prepared_mono _ hq
    · obtain ⟨hne, hawait'⟩ := Finset.mem_erase.mp hq
      rcases h.first hawait' hx hprep with hsent | ⟨rfl, -⟩
      · exact hsent
      · exact absurd (IsPrepared.unique hprep ⟨data, unixSecs, token, rfl, hdec⟩).1 hne
  | @stored data src addr unixSecs hdec hawait =>
    refine ⟨h.value_eq, fun q hq => h.awaiting_le (Finset.mem_of_mem_erase hq),
      fun q hq => h.prepared_mono _ hq, fun q hq a x hx hprep => ?_, fun a ha => ?_⟩
    · refine (h.first (Finset.mem_of_mem_erase hq) hx hprep).resolve_right ?_
      rintro ⟨rfl, -⟩
      obtain ⟨_, _, _, heq, hdec'⟩ := hprep
      obtain ⟨rfl, -, -⟩ := Event.packet.inj heq
      rw [hdec] at hdec'
      cases hdec'
    · rcases Finset.mem_insert.mp ha with rfl | ha
      · -- the server reported this socket, so it was sent a put
        have hstored : IsStored tx src a (.packet data src unixSecs) := ⟨data, unixSecs, rfl, hdec⟩
        obtain ⟨x, hfirst, hx⟩ := hconfirms src a hstored hawait
        have hsent := h.sent src hawait a x hfirst hx
        obtain ⟨before, after, rfl, -⟩ := hfirst
        exact ⟨src, h.awaiting_le hawait, before, x, after, _, [], rfl, hsent, hstored⟩
      · exact (h.stored a ha).mono _

/-! ## Over a run -/

/-- A transaction starts once. -/
theorem start_unique (h : (machine timeout).Run t s) {start start' since since' : History}
    {m m' : ActorMsg} {now now' : Instant} {sends sends' : List Action}
    (ht : t = start ++ (.message m tx now, sends) :: since)
    (ht' : t = start' ++ (.message m' tx now', sends') :: since') :
    start = start' ∧ since = since' := by
  obtain ⟨s₁, -, hen, -⟩ := h.stepAt ht
  obtain ⟨s₂, -, hen', -⟩ := h.stepAt ht'
  -- of two starts, the later one would use an id again
  rcases List.append_eq_append_iff.mp (ht.symm.trans ht') with
    ⟨between, rfl, hbetween⟩ | ⟨between, rfl, hbetween⟩
  · cases between with
    | nil =>
      rw [List.append_nil]
      exact ⟨rfl, (List.cons.inj hbetween).2⟩
    | cons x xs =>
      obtain ⟨rfl, -⟩ := List.cons.inj hbetween
      exact absurd (List.mem_append_right _ List.mem_cons_self) (hen' m now sends)
  · cases between with
    | nil =>
      rw [List.append_nil]
      exact ⟨rfl, (List.cons.inj hbetween).2.symm⟩
    | cons x xs =>
      obtain ⟨rfl, -⟩ := List.cons.inj hbetween
      exact absurd (List.mem_append_right _ List.mem_cons_self) (hen m' now' sends')

/-- A publish in the history of a run. -/
def PutRun (tx : TransactionId) (t : History) (s : Actor) : Prop :=
  ∀ p, s.publishes.lookup tx = some p → ∃ start value now sends since,
    t = start ++ (.message (.publish value) tx now, sends) :: since ∧
      PutState (inUse start) value tx since p

/-- A step that meets the condition keeps every publish in its history. -/
theorem PutRun.step (h : PutRun tx t s) (hrun : (machine timeout).Run t s)
    (hconfirms : ConfirmsReported t s e) : PutRun tx (t ++ [(e, (s.step e).2)]) (s.step e).1 := by
  have hstep := s.publish_step tx e
  rw [PublishSees] at hstep
  intro p'' hsome
  generalize hp : s.publishes.lookup tx = o at hstep
  rw [hsome] at hstep
  generalize (s.step e).2 = out at hstep ⊢
  generalize hds : out.filterMap (putOf tx) = ds at hstep
  generalize out.filterMap (publishedOf tx) = results at hstep
  cases hstep with
  | idle hidle =>
    obtain ⟨start, value, now, sends, since, rfl, hstate⟩ := h p'' hp
    exact ⟨start, value, now, sends, since ++ [(e, out)], by simp,
      hstate.idle out (hidle p'' rfl).1⟩
  | @noServers _ value' now' hservers =>
    obtain ⟨start, value, now, sends, since, rfl, hstate⟩ := h p'' hp
    have hidle : ∀ p' ds, ¬ PublishUpdate tx p'' (.message (.publish value') tx now') p' ds := by
      rintro p' ds ⟨⟩
    exact ⟨start, value, now, sends, since ++ [(_, out)], by simp, hstate.idle out hidle⟩
  | @start _ value now hservers =>
    refine ⟨t, value, now, out, [], rfl, ?_⟩
    rw [← (config_run hrun).1]
    refine ⟨rfl, subset_rfl, ?_, ?_, ?_⟩
    · intro q hq
      cases hq
    · rintro q - addr x ⟨before, after, heq, -⟩
      cases before <;> cases heq
    · intro a ha
      cases ha
  | @update p _ _ _ hu hawait =>
    obtain ⟨start, value, now, sends, since, rfl, hstate⟩ := h p hp
    refine ⟨start, value, now, sends, since ++ [(e, out)], by simp, hstate.update hu hds ?_⟩
    intro q addr hstored hq
    obtain ⟨start', m, now', sends', since', ht, hreported⟩ := hconfirms tx q addr p hstored hp hq
    rwa [(start_unique hrun rfl ht).2]

theorem putRun (h : ((machine timeout).restrict ConfirmsReported).Run t s) (tx : TransactionId) :
    PutRun tx t s := by
  refine h.invariant (I := fun t s => PutRun tx t s) ?_ ?_
  · rintro s rfl p hp
    cases hp
  · intro t s e hrun hen hput
    exact hput.step hrun.of_restrict hen.2

/-- The sockets of a result are those the servers confirmed. -/
theorem PendingPublish.mem_of_result {addrs : List SocketAddrV4} (h : p.result = .ok addrs)
    {addr : SocketAddrV4} (haddr : addr ∈ addrs) : addr ∈ p.stored := by
  rw [PendingPublish.result] at h
  split at h
  · split at h <;> cases h
  · obtain rfl := Except.ok.inj h
    exact (Finset.mem_sort _).mp haddr

/-- **A publish returns what it sent.** In every run in which no server that a publish
awaits confirms another socket than the one in its first `Prepared`: for every socket
that a publish returns, a server that was asked first reported the socket, was then
sent the value built for it, and confirmed it after that. -/
theorem published_sent {timeout : ℕ} {t : History} {s : Actor}
    (h : ((machine timeout).restrict ConfirmsReported).Run t s) : ReturnsAcknowledged t := by
  intro pre e out post ht tx addrs hresult
  obtain ⟨s₁, hrun, hen, hout⟩ := h.stepAt ht
  have hstep := s₁.publish_step tx e
  have hmem : .ok addrs ∈ out.filterMap (publishedOf tx) := mem_filterMap_publishedOf.mpr hresult
  have hout : out = (s₁.step e).2 := hout
  rw [PublishSees, ← hout] at hstep
  generalize hp : s₁.publishes.lookup tx = o at hstep
  generalize (s₁.step e).1.publishes.lookup tx = o' at hstep
  generalize hds : out.filterMap (putOf tx) = ds at hstep
  generalize out.filterMap (publishedOf tx) = results at hstep hmem
  cases hstep with
  | idle => cases hmem
  | start => cases hmem
  | update => cases hmem
  | noServers => cases List.mem_singleton.mp hmem
  | @finish p p' _ _ hu hall =>
    obtain ⟨start, value, now, sends, since, rfl, hstate⟩ := putRun hrun tx p hp
    refine ⟨start, value, now, sends, since, rfl, ?_⟩
    intro addr haddr
    refine (hstate.update hu hds ?_).stored addr
      (PendingPublish.mem_of_result (List.mem_singleton.mp hmem).symm haddr)
    intro q a hstored hq
    obtain ⟨start', m, now', sends', since', ht', hreported⟩ := hen.2 tx q a p hstored hp hq
    rwa [(start_unique hrun.of_restrict rfl ht').2]
  | @expire p now' hle =>
    obtain ⟨start, value, now, sends, since, rfl, hstate⟩ := putRun hrun tx p hp
    refine ⟨start, value, now, sends, since, rfl, ?_⟩
    intro addr haddr
    exact (hstate.stored addr
      (PendingPublish.mem_of_result (List.mem_singleton.mp hmem).symm haddr)).mono _

/-! ### Sample runs -/

namespace Sample

/-- A value that names the socket and the time. -/
def octets : ValueFor := fun addr unixSecs => [addr.ip.d, unixSecs.toUInt8]

/-- The value is published. -/
def publish : Event := .message (.publish octets) 1 0

/-- The server reports the socket it observed. -/
def prepared : Event :=
  .packet (MAGIC ++ Proto.codec.enc
    (.response (.v1 (.prepared 1 target (.replicate _ 5))))) server 9

/-- The server confirms the socket. -/
def stored : Event :=
  .packet (MAGIC ++ Proto.codec.enc (.response (.v1 (.stored 1 target)))) server 9

theorem decode_prepared : Proto.decode (MAGIC ++ Proto.codec.enc
    (.response (.v1 (.prepared 1 target (.replicate _ 5))))) =
      some (.response (.v1 (.prepared 1 target (.replicate _ 5)))) := by
  decide +kernel

theorem decode_stored :
    Proto.decode (MAGIC ++ Proto.codec.enc (.response (.v1 (.stored 1 target)))) =
      some (.response (.v1 (.stored 1 target))) := by
  decide +kernel

end Sample

/-- A server is asked for a value, reports the socket, is sent the value and confirms
the socket, which the publish returns. -/
theorem published_sent_sample : ∃ t s,
    ((machine DEFAULT_TIMEOUT).restrict ConfirmsReported).Run t s ∧
      (∃ x ∈ t, .published 1 (.ok [Sample.target]) ∈ x.2) ∧ ReturnsAcknowledged t := by
  have hcommand {t : History} {s : Actor} {m : ActorMsg} {tx : TransactionId} {now : Instant} :
      ConfirmsReported t s (.message m tx now) := by
    rintro _ _ _ _ ⟨_, _, heq, _⟩
    cases heq
  have hprepared {t : History} {s : Actor} : ConfirmsReported t s Sample.prepared := by
    rintro _ _ _ _ ⟨_, _, heq, hdec⟩
    obtain ⟨rfl, rfl, rfl⟩ := Event.packet.inj heq
    rw [Sample.decode_prepared] at hdec
    cases hdec
  have h₀ : ((machine DEFAULT_TIMEOUT).restrict ConfirmsReported).Run [] (new DEFAULT_TIMEOUT) :=
    .start rfl
  have h₁ := h₀.step (a := Sample.configure) ⟨fun _ _ _ hmem => (nomatch hmem), hcommand⟩
  have h₂ := h₁.step (a := Sample.publish)
    ⟨fun _ _ _ hmem => (nomatch List.mem_singleton.mp hmem), hcommand⟩
  have h₃ := h₂.step (a := Sample.prepared) ⟨trivial, hprepared⟩
  have h₄ := h₃.step (a := Sample.stored) ⟨trivial, by
    rintro _ _ _ _ ⟨_, _, heq, hdec⟩ - -
    obtain ⟨rfl, rfl, rfl⟩ := Event.packet.inj heq
    rw [Sample.decode_stored] at hdec
    cases hdec
    refine ⟨[_], _, _, _, [_], rfl, _, ⟨[], [], rfl, ?_, fun _ hy => (nomatch hy)⟩, ?_⟩
    · exact ⟨_, _, _, _, rfl, Sample.decode_prepared⟩
    · exact ⟨_, _, _, rfl, Sample.decode_prepared⟩⟩
  refine ⟨_, _, h₄, ⟨_, List.mem_append_right _ (List.mem_singleton_self _), ?_⟩, published_sent h₄⟩
  decide +kernel

/-- A server that is asked confirms a socket at once. The publish returns the socket,
though nothing was sent. -/
theorem published_unsent :
    ¬ ∀ timeout t s, (machine timeout).Run t s → ReturnsAcknowledged t := by
  intro hall
  have h₀ : (machine DEFAULT_TIMEOUT).Run [] (new DEFAULT_TIMEOUT) := .start rfl
  have h₁ := h₀.step (a := Sample.configure) fun _ _ _ hmem => nomatch hmem
  have h₂ := h₁.step (a := Sample.publish) fun _ _ _ hmem => nomatch List.mem_singleton.mp hmem
  have h₃ := h₂.step (a := Sample.stored) trivial
  have hout : .published 1 (.ok [Sample.target]) ∈ ((machine DEFAULT_TIMEOUT).step
      ((machine DEFAULT_TIMEOUT).step ((machine DEFAULT_TIMEOUT).step (new DEFAULT_TIMEOUT)
        Sample.configure).1 Sample.publish).1 Sample.stored).2 := by
    decide +kernel
  obtain ⟨start, value, now, sends, since, hpre, hacknowledged⟩ :=
    hall _ _ _ h₃ _ _ _ _ rfl 1 _ hout
  obtain ⟨q, -, before, x, between, y, after, hsince, hsent, -⟩ :=
    hacknowledged _ (List.mem_singleton_self _)
  obtain ⟨data, unixSecs, token, -, hx, hdec, -⟩ := hsent
  -- the put would answer a `Prepared`, and no datagram of the run is one
  have hmem : x ∈ before ++ x :: between ++ y :: after := by simp
  rw [← hsince] at hmem
  rcases List.mem_append.mp hmem with hmem | hmem
  · have hstart : x ∈ start ++ (.message (.publish value) 1 now, sends) :: since :=
      List.mem_append_right _ (List.mem_cons_of_mem _ hmem)
    rw [← hpre] at hstart
    rcases List.mem_append.mp hstart with hstart | hstart
    · obtain rfl := List.mem_singleton.mp hstart
      cases hx
    · obtain rfl := List.mem_singleton.mp hstart
      cases hx
  · obtain rfl := List.mem_singleton.mp hmem
    obtain ⟨rfl, rfl, rfl⟩ := Event.packet.inj hx
    rw [Sample.decode_stored] at hdec
    cases hdec

end Actor

end ContentDiscovery
