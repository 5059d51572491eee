import ContentDiscovery.WriteAuthority
import Mathlib.Algebra.Order.BigOperators.Group.Finset
import Mathlib.Data.Set.Finite.Lattice

/-!
# How long an index server keeps a value

A put that a server has confirmed, on the open network of `WriteAuthority`. Three things end its
binding: its time, a later put of its owner, and puts of others that fill the server. The last one
takes many: the entry that makes way for a fresh one is the nearest to expiry, so as many sockets as
the server has entries have to be confirmed since, and no address can hold more of them than its
quota.
-/

/-- A set whose fibres have `n` elements at most, and one of them fewer. -/
theorem Set.ncard_lt_of_fibres {α β : Type*} {S : Set α} {T : Set β} {f : α → β} {n : ℕ} {c : β}
    (hS : S.Finite) (hT : T.Finite) (hmaps : ∀ a ∈ S, f a ∈ T)
    (hle : ∀ b ∈ T, {a ∈ S | f a = b}.ncard ≤ n) (hc : c ∈ T) (hlt : {a ∈ S | f a = c}.ncard < n) :
    S.ncard < T.ncard * n := by
  classical
  lift S to Finset α using hS
  lift T to Finset β using hT
  have hfibre (b : β) : {a ∈ (S : Set α) | f a = b}.ncard = (S.filter fun a => f a = b).card := by
    rw [← Set.ncard_coe_finset, Finset.coe_filter]
    rfl
  simp only [hfibre] at hle hlt
  rw [Set.ncard_coe_finset, Set.ncard_coe_finset, Finset.card_eq_sum_card_fiberwise hmaps]
  calc ∑ b ∈ T, (S.filter fun a => f a = b).card
      < ∑ _b ∈ T, n := Finset.sum_lt_sum hle ⟨c, hc, hlt⟩
    _ = T.card * n := Finset.sum_const_nat fun _ _ => rfl

namespace ContentDiscovery

namespace Store

variable {F : Type} {limits : Limits F}

/-- A put of `addr` that takes the place of a binding with this expiry. -/
structure Crowded (limits : Limits F) (live : TimedMap SocketAddrV4 (List UInt8) UInt64)
    (expiresAt : UInt64) (addr : SocketAddrV4) : Prop where
  /-- the store is full -/
  full : live.bound.ncard = limits.maxEntries
  /-- the put needs a place -/
  fresh : addr ∉ live.bound
  /-- its address has one left -/
  quota : {a ∈ live.bound | a.ip = addr.ip}.ncard < limits.maxEntriesPerIp
  /-- no binding expires earlier -/
  nearest : ∀ a b, live a = some b → expiresAt ≤ b.2

/-- Another put takes the place of a binding only in a crowded store. -/
theorem PutSpec.kept {live m : TimedMap SocketAddrV4 (List UInt8) UInt64} {addr a : SocketAddrV4}
    {v : List UInt8} {t : UInt64} {b : List UInt8 × UInt64}
    (h : PutSpec limits live addr v t m (.ok ())) (hb : live a = some b) (hne : a ≠ addr)
    (hroom : ¬ Crowded limits live b.2 addr) : m a = some b := by
  cases h with
  | refresh | fresh =>
    rw [TimedMap.bind_apply, if_neg hne]
    exact hb
  | @evict oldest hlen hfresh hquota hfull holdest =>
    have hold : a ≠ oldest := by
      rintro rfl
      obtain ⟨w, e, hw, hle⟩ := holdest
      obtain rfl := Option.some.inj (hb.symm.trans hw)
      refine hroom ⟨hfull, hfresh, hquota, fun a' b' hb' => ?_⟩
      exact Prod.Lex.monotone_fst _ _ (hle a' b'.1 b'.2 hb')
    rw [TimedMap.bind_apply, if_neg hne, TimedMap.unbind_apply, if_neg hold]
    exact hb

theorem PutSpec.stored {live m : TimedMap SocketAddrV4 (List UInt8) UInt64} {addr : SocketAddrV4}
    {v : List UInt8} {t : UInt64} (h : PutSpec limits live addr v t m (.ok ())) :
    m addr = some (v, t) := by
  cases h with
  | refresh | fresh | evict => rw [TimedMap.bind_apply, if_pos rfl]

end Store

namespace Server

variable {F : Type} {P : Primitives} {limits : Limits F} {s s' : Server F}

/-! ## Puts that were confirmed -/

/-- A put of `a` that was confirmed: its value, and when it expires. -/
def Confirmed (limits : Limits F) (x : NetEvent × Except Panic (List Datagram)) (a : SocketAddrV4)
    (b : List UInt8 × UInt64) : Prop :=
  ∃ p clock tx token, x = (.deliver p clock, .ok [⟨reply (.stored tx a), a⟩]) ∧ p.src = a ∧
    Proto.decode p.data = some (.request (.v1 (.put tx token b.1))) ∧
    b.2 = saturatingAdd clock.storeSecs limits.valueTtlSecs

variable {x y : NetEvent × Except Panic (List Datagram)} {a a' : SocketAddrV4}
  {b b' : List UInt8 × UInt64} {t : NetHistory}

theorem Confirmed.source_eq (h : Confirmed limits x a b) (h' : Confirmed limits x a' b') :
    a = a' := by
  obtain ⟨p, clock, tx, token, rfl, rfl, -⟩ := h
  obtain ⟨p', clock', tx', token', heq, rfl, -⟩ := h'
  cases congrArg Prod.fst heq
  rfl

/-- Those who had a put confirmed. -/
def confirmers (limits : Limits F) (t : NetHistory) : Set SocketAddrV4 :=
  {a | ∃ y ∈ t, ∃ b, Confirmed limits y a b}

theorem finite_confirmers (limits : Limits F) (t : NetHistory) : (confirmers limits t).Finite := by
  have hone (y : NetEvent × Except Panic (List Datagram)) :
      {a | ∃ b, Confirmed limits y a b}.Finite :=
    Set.Subsingleton.finite fun a ⟨b, h⟩ a' ⟨b', h'⟩ => h.source_eq h'
  have hall : (⋃ y ∈ {y | y ∈ t}, {a | ∃ b, Confirmed limits y a b}).Finite :=
    Set.Finite.biUnion (List.finite_toSet t) fun y _ => hone y
  refine hall.subset ?_
  rintro a ⟨y, hy, h⟩
  exact Set.mem_biUnion hy h

/-- Those others who had a put confirmed later, or one that expires no earlier. -/
def rivals (limits : Limits F) (before after : NetHistory) (a : SocketAddrV4) (expiresAt : UInt64) :
    Set SocketAddrV4 :=
  {a' | a' ≠ a ∧ ∃ y b, Confirmed limits y a' b ∧ (y ∈ after ∨ y ∈ before ∧ expiresAt ≤ b.2)}

theorem finite_rivals {before after : NetHistory} {expiresAt : UInt64} :
    (rivals limits before after a expiresAt).Finite := by
  refine (finite_confirmers limits (before ++ after)).subset ?_
  rintro a' ⟨-, y, b, h, hy⟩
  exact ⟨y, List.mem_append.mpr (hy.symm.imp_left And.left), b, h⟩

/-- Too few others to fill the server, or too few addresses that were ever confirmed. -/
def Uncrowded (limits : Limits F) (before : NetHistory)
    (x : NetEvent × Except Panic (List Datagram)) (after : NetHistory) (a : SocketAddrV4)
    (expiresAt : UInt64) : Prop :=
  (rivals limits before after a expiresAt).ncard < limits.maxEntries ∨
    (SocketAddrV4.ip '' confirmers limits (before ++ x :: after)).ncard *
      limits.maxEntriesPerIp ≤ limits.maxEntries

theorem Uncrowded.of_concat {before after : NetHistory} {expiresAt : UInt64}
    (h : Uncrowded limits before x (after ++ [y]) a expiresAt) :
    Uncrowded limits before x after a expiresAt := by
  refine h.imp (fun hlt => ?_) fun hle => ?_
  · refine (Set.ncard_le_ncard ?_ finite_rivals).trans_lt hlt
    rintro a' ⟨hne, z, b, hz, hmem⟩
    exact ⟨hne, z, b, hz, hmem.imp_left (List.mem_append_left _)⟩
  · refine (Nat.mul_le_mul_right _ (Set.ncard_le_ncard ?_ ?_)).trans hle
    · refine Set.image_mono ?_
      rintro a' ⟨z, hz, b, hb⟩
      refine ⟨z, ?_, b, hb⟩
      rw [← List.cons_append, ← List.append_assoc]
      exact List.mem_append_left _ hz
    · exact (finite_confirmers limits _).image _

/-! ## Full servers -/

/-- A put that takes the place of a binding is one of many. -/
theorem not_crowded {live : TimedMap SocketAddrV4 (List UInt8) UInt64} {before after : NetHistory}
    (hx : Confirmed limits x a b) (hlive : live a = some b)
    (horigin : ∀ a' b', live a' = some b' → ∃ z ∈ before ++ x :: after, Confirmed limits z a' b')
    (hquota : ∀ ip, {a' ∈ live.bound | a'.ip = ip}.ncard ≤ limits.maxEntriesPerIp)
    (hne : a ≠ a') (hy : Confirmed limits y a' b')
    (hroom : Uncrowded limits before x (after ++ [y]) a b.2) :
    ¬ Store.Crowded limits live b.2 a' := by
  intro hcrowded
  have hfinite : live.bound.Finite := by
    refine (finite_confirmers limits (before ++ x :: after)).subset fun c hc => ?_
    obtain ⟨b', hb'⟩ := Option.isSome_iff_exists.mp hc
    obtain ⟨z, hz, hconfirmed⟩ := horigin c b' hb'
    exact ⟨z, hz, b', hconfirmed⟩
  rcases hroom with hrivals | haddresses
  · -- all others that are bound are rivals, and so is the one that is put
    have hmem : a ∈ live.bound := Option.isSome_iff_exists.mpr ⟨b, hlive⟩
    have hsub : insert a' (live.bound \ {a}) ⊆ rivals limits before (after ++ [y]) a b.2 := by
      rintro c (rfl | ⟨hc, hca⟩)
      · exact ⟨hne.symm, y, b', hy, .inl (List.mem_append_right _ List.mem_cons_self)⟩
      · obtain ⟨b'', hb''⟩ := Option.isSome_iff_exists.mp hc
        obtain ⟨z, hz, hconfirmed⟩ := horigin c b'' hb''
        refine ⟨hca, z, b'', hconfirmed, ?_⟩
        rcases List.mem_append.mp hz with hz | hz
        · exact .inr ⟨hz, hcrowded.nearest c b'' hb''⟩
        · rcases List.mem_cons.mp hz with rfl | hz
          · exact absurd (hconfirmed.source_eq hx) hca
          · exact .inl (List.mem_append_left _ hz)
    have hcard := Set.ncard_le_ncard hsub finite_rivals
    rw [Set.ncard_insert_of_notMem (fun h => hcrowded.fresh h.1) hfinite.sdiff,
      Set.ncard_sdiff_singleton_add_one hmem hfinite, hcrowded.full] at hcard
    exact hrivals.not_ge hcard
  · -- the addresses hold no more than their quotas, and one of them less
    have hips : (SocketAddrV4.ip '' confirmers limits (before ++ x :: (after ++ [y]))).Finite :=
      (finite_confirmers limits _).image _
    have hcount := Set.ncard_lt_of_fibres (c := a'.ip) hfinite hips (fun c hc => ?_)
      (fun ip _ => hquota ip) ?_ hcrowded.quota
    · rw [hcrowded.full] at hcount
      exact hcount.not_ge haddresses
    · obtain ⟨b'', hb''⟩ := Option.isSome_iff_exists.mp hc
      obtain ⟨z, hz, hconfirmed⟩ := horigin c b'' hb''
      refine ⟨c, ⟨z, ?_, b'', hconfirmed⟩, rfl⟩
      rw [← List.cons_append, ← List.append_assoc]
      exact List.mem_append_left _ hz
    · exact ⟨a', ⟨y, by simp, b', hy⟩, rfl⟩

/-! ## Runs -/

variable [FloatArith F] {controlled : Set SocketAddrV4} {s₀ : Server F}

theorem inv_network {key : List.Vector UInt8 32} {created : Instant}
    (h : (network P (new limits key created) controlled).Run t s) : s.Inv limits := by
  refine h.invariant (I := fun _ s => s.Inv limits) (fun s hs => hs ▸ inv_new limits key created) ?_
  intro t s e _ _ hs
  cases e with
  | send p => exact hs
  | deliver p clock =>
    obtain ⟨s', sent, hstep, hhandled⟩ := hs.handled (P := P) p.data p.src clock
    simp only [network, hstep]
    exact hs.handled_inv hhandled

/-- What a step of the network does to the store. -/
inductive Effect (P : Primitives) (limits : Limits F) (s : Server F) :
    NetEvent → Except Panic (List Datagram) → Server F → Prop where
  /-- nothing -/
  | none {e : NetEvent} {out : Except Panic (List Datagram)} {s' : Server F}
    (hview : s'.store.view = s.store.view)
    (hsent : ∀ tx addr, out ≠ .ok [⟨reply (.stored tx addr), addr⟩]) : Effect P limits s e out s'
  /-- expired bindings go -/
  | expired {p : Packet} {clock : Clock} {out : Except Panic (List Datagram)} {s' : Server F}
    (hview : s'.store.view = s.store.view.expire clock.storeSecs)
    (hsent : ∀ tx addr, out ≠ .ok [⟨reply (.stored tx addr), addr⟩]) :
    Effect P limits s (.deliver p clock) out s'
  /-- a put is confirmed -/
  | put {p : Packet} {clock : Clock} {tx : TransactionId} {token : Token} {v : List UInt8}
    {s' : Server F} (hdec : Proto.decode p.data = some (.request (.v1 (.put tx token v))))
    (hverify : s.verifyToken P p.src token clock.unixSecs = true)
    (hspec : Store.PutSpec limits (s.store.view.expire clock.storeSecs) p.src v
      (saturatingAdd clock.storeSecs limits.valueTtlSecs) s'.store.view (.ok ())) :
    Effect P limits s (.deliver p clock) (.ok [⟨reply (.stored tx p.src), p.src⟩]) s'

theorem reply_inj {r r' : ResponseV1} (h : reply r = reply r')
    (hfit : (reply r).length ≤ MAX_DGRAM) : r = r' := by
  have hdec := decode_reply hfit
  rw [h, decode_reply (h ▸ hfit)] at hdec
  cases hdec
  rfl

theorem effect_step (P : Primitives) (s₀ : Server F) (controlled : Set SocketAddrV4)
    (hs : s.Inv limits) (e : NetEvent) :
    Effect P limits s e ((network P s₀ controlled).step s e).2
      ((network P s₀ controlled).step s e).1 := by
  cases e with
  | send p => exact .none rfl (by simp [network])
  | deliver p clock =>
    obtain ⟨s', sent, hstep, hhandled⟩ := hs.handled (P := P) p.data p.src clock
    simp only [network, hstep]
    have hgc := hs.consistent.view_gc clock.storeSecs
    cases hhandled with
    | ignored => exact .none rfl (by simp)
    | silent hdec hans =>
      cases hans with
      | refused => exact .none rfl (by simp)
      | rejected tx token v r err hverify hput =>
        refine .expired ?_ (by simp)
        have hview := (Store.putOutcome hs.consistent (hs.limits_eq ▸ hs.bounded) p.src v
          clock.storeSecs).error err hput
        change (s.store.put p.src v clock.storeSecs s.limits).1.view = _
        rw [hview, hgc]
    | @replied request _ response hdec hans hle hfit =>
      have hother (hr : ∀ tx addr, response ≠ .stored tx addr) (tx : TransactionId)
          (addr : SocketAddrV4) : Except.ok [(⟨reply response, p.src⟩ : Datagram)] ≠
            (.ok [⟨reply (.stored tx addr), addr⟩] : Except Panic (List Datagram)) := fun heq =>
        have hbytes := congrArg Datagram.bytes (List.singleton_inj.mp (Except.ok.inj heq))
        hr tx addr (reply_inj hbytes hfit)
      cases hans with
      | prepared => exact .none rfl (hother (by simp))
      | stored tx token v r hverify hput =>
        have hspec := (Store.putOutcome hs.consistent (hs.limits_eq ▸ hs.bounded) p.src v
          clock.storeSecs).spec
        rw [hput] at hspec
        refine .put hdec hverify ?_
        rw [← hs.limits_eq]
        exact hspec
      | value tx addr r => exact .expired hgc (hother (by simp))

/-- Every binding comes from a put that was confirmed. -/
theorem origin_run {key : List.Vector UInt8 32} {created : Instant}
    (h : (network P (new limits key created) controlled).Run t s) :
    ∀ a b, s.store.view a = some b → ∃ y ∈ t, Confirmed limits y a b := by
  refine h.invariant (I := fun t s => ∀ a b, s.store.view a = some b →
    ∃ y ∈ t, Confirmed limits y a b) (fun s hs a b hb => ?_) fun t s e hrun _ ih a b hb => ?_
  · rw [hs] at hb
    cases hb
  have hold (hb : s.store.view a = some b) (y : NetEvent × Except Panic (List Datagram)) :
      ∃ z ∈ t ++ [y], Confirmed limits z a b := by
    obtain ⟨z, hz, hconfirmed⟩ := ih a b hb
    exact ⟨z, List.mem_append_left _ hz, hconfirmed⟩
  have heffect := effect_step P (new limits key created) controlled (inv_network hrun) e
  generalize (network P (new limits key created) controlled).step s e = r at hb heffect ⊢
  obtain ⟨s', out⟩ := r
  cases heffect with
  | none hview => exact hold (hview ▸ hb) _
  | expired hview =>
    rw [hview] at hb
    exact hold (TimedMap.expire_eq_some.mp hb).1 _
  | @put p clock tx token v _ hdec hverify hspec =>
    rcases hspec.origin hb with hb | ⟨rfl, rfl⟩
    · exact hold (TimedMap.expire_eq_some.mp hb).1 _
    · exact ⟨_, List.mem_append_right _ List.mem_cons_self, p, clock, tx, token, rfl, rfl, hdec,
        rfl⟩

/-- The binding of a put that was confirmed stays, unless time or the others end it. -/
theorem kept_run {key : List.Vector UInt8 32} {created : Instant}
    (h : (network P (new limits key created) controlled).Run t s) :
    ∀ before x after a b, t = before ++ x :: after → Confirmed limits x a b →
      (∀ y ∈ after, ∀ b', ¬ Confirmed limits y a b') →
      (∀ p clock out, (.deliver p clock, out) ∈ after → clock.storeSecs < b.2) →
      Uncrowded limits before x after a b.2 → s.store.view a = some b := by
  refine h.invariant (I := fun t s => ∀ before x after a b, t = before ++ x :: after →
    Confirmed limits x a b → (∀ y ∈ after, ∀ b', ¬ Confirmed limits y a b') →
    (∀ p clock out, (.deliver p clock, out) ∈ after → clock.storeSecs < b.2) →
    Uncrowded limits before x after a b.2 → s.store.view a = some b)
    (fun s _ before x after a b heq => ?_)
    fun t s e hrun _ ih before x after a b heq hx hlast hlive hroom => ?_
  · cases before <;> cases heq
  have hs := inv_network hrun
  have heffect := effect_step P (new limits key created) controlled hs e
  generalize (network P (new limits key created) controlled).step s e = r at heq heffect ⊢
  obtain ⟨s', out⟩ := r
  rcases List.eq_nil_or_concat after with rfl | ⟨after', y, rfl⟩
  · -- the put is the last event
    obtain ⟨rfl, hxy⟩ := List.append_inj' heq rfl
    obtain rfl := List.singleton_inj.mp hxy
    obtain ⟨p, clock, tx, token, hstep, rfl, hdec, hexp⟩ := hx
    obtain ⟨rfl, hout⟩ := Prod.mk.inj hstep
    cases heffect with
    | none _ hsent => exact absurd hout (hsent tx p.src)
    | expired _ hsent => exact absurd hout (hsent tx p.src)
    | put hdec' _ hspec =>
      rw [hdec] at hdec'
      cases hdec'
      rw [hspec.stored, ← hexp]
  rw [List.concat_eq_append] at heq hlast hlive hroom
  rw [← List.cons_append, ← List.append_assoc] at heq
  obtain ⟨rfl, hy⟩ := List.append_inj' heq rfl
  obtain rfl := List.singleton_inj.mp hy
  have hold := ih before x after' a b rfl hx (fun z hz => hlast z (List.mem_append_left _ hz))
    (fun p clock out hz => hlive p clock out (List.mem_append_left _ hz)) hroom.of_concat
  cases heffect with
  | none hview => rw [hview, hold]
  | @expired p clock _ _ hview =>
    have hlt := hlive p clock out (List.mem_append_right _ List.mem_cons_self)
    rw [hview]
    exact TimedMap.expire_eq_some.mpr ⟨hold, hlt⟩
  | @put p clock tx token v _ hdec hverify hspec =>
    have hlt := hlive p clock _ (List.mem_append_right _ List.mem_cons_self)
    have hy : Confirmed limits (.deliver p clock, .ok [⟨reply (.stored tx p.src), p.src⟩]) p.src
        (v, saturatingAdd clock.storeSecs limits.valueTtlSecs) :=
      ⟨p, clock, tx, token, rfl, rfl, hdec, rfl⟩
    have hne : a ≠ p.src := by
      rintro rfl
      exact hlast _ (List.mem_append_right _ List.mem_cons_self) _ hy
    have hkept := TimedMap.expire_eq_some.mpr ⟨hold, hlt⟩
    refine hspec.kept hkept hne (not_crowded hx hkept (fun c b' hb' => ?_) (fun ip => ?_) hne hy
      hroom)
    · exact origin_run hrun c b' (TimedMap.expire_eq_some.mp hb').1
    · rw [← hs.consistent.view_gc, Store.ncard_bound_view_ip]
      exact (hs.consistent.bounded_gc hs.bounded _).held_le ip

/-- A put of a socket that the attacker does not control was sent by its owner, unless the owner
gave its tokens away. -/
theorem confirmed_owner {key : List.Vector UInt8 32} {created : Instant} (hmac : MacInjective P key)
    (h : (network P (new limits key created) controlled).Run t s) (hy : y ∈ t)
    (hconfirmed : Confirmed limits y a b) (hfree : a ∉ controlled)
    (hsecret : ∀ bucket, ¬ GivenAway P (new limits key created) t a bucket) :
    ∃ p clock out, y = (.deliver p clock, out) ∧ p.sender = .owner a := by
  obtain ⟨before, after, rfl⟩ := List.append_of_mem hy
  obtain ⟨p, clock, tx, token, rfl, rfl, hdec, -⟩ := hconfirmed
  refine ⟨p, clock, _, rfl, ?_⟩
  obtain ⟨s₁, hrun, hen, hout⟩ := h.stepAt rfl
  have heffect := effect_step P (new limits key created) controlled (inv_network hrun)
    (.deliver p clock)
  rw [← hout] at heffect
  generalize ((network P (new limits key created) controlled).step s₁ _).1 = s' at heffect
  generalize hsent : (Except.ok [(⟨reply (.stored tx p.src), p.src⟩ : Datagram)] :
    Except Panic (List Datagram)) = out at heffect
  cases heffect with
  | none _ hno => exact absurd hsent.symm (hno tx p.src)
  | expired _ hno => exact absurd hsent.symm (hno tx p.src)
  | @put _ _ tx' token' v _ hdec' hverify hspec =>
    have hacc : Accepted P s₁ p.data p.src clock v [⟨reply (.stored tx' p.src), p.src⟩] :=
      ⟨⟨tx', token', hdec', hverify⟩, tx', rfl⟩
    obtain ⟨bucket, hput⟩ := (authority_run hmac hrun).authorised hen hacc
    exact (hput.sender hfree).resolve_right fun hgiven => hsecret bucket (hgiven.mono _)

/-- A request for a value that is there is answered with it. -/
theorem Inv.get_value (hs : s.Inv limits) {data : List UInt8} {src : SocketAddrV4} {clock : Clock}
    {tx : TransactionId} (hdec : Proto.decode data = some (.request (.v1 (.get tx a))))
    (hallow : (s.allowRequest P (.v4 src.ip) clock).2 = true) (hview : s.store.view a = some b)
    (hlive : clock.storeSecs < b.2) :
    ∃ s' bytes, s.handlePacket P data src clock = .ok (s', [⟨bytes, src⟩]) ∧
      Proto.decode bytes = some (.response (.v1 (.value tx a (some b.1)))) := by
  have hget : (s.store.get a clock.storeSecs).2 = some b.1 :=
    hs.consistent.get_eq_some.mpr ⟨b.2, hview, hlive⟩
  have hanswer : (s.answer P (.get tx a) src clock).2 = some (.value tx a (some b.1)) := by
    rw [answer]
    rcases hr : s.allowRequest P (.v4 src.ip) clock with ⟨s₁, allowed⟩
    rw [hr] at hallow
    cases allowed with
    | false => cases hallow
    | true =>
      have hstore : s₁.store = s.store := by
        have hfst : (s.allowRequest P (.v4 src.ip) clock).1 = s₁ := congrArg Prod.fst hr
        rw [← hfst]
        rfl
      simp only [getLocal, hstore, hget]
  obtain ⟨s', sent, hstep, -⟩ := hs.handled (P := P) data src clock
  obtain ⟨hlen, body, rfl, -⟩ := Proto.decode_eq_some.mp hdec
  have hnonempty : ((MAGIC ++ body).isEmpty || decide ((MAGIC ++ body).length > MAX_DGRAM)) =
      false := by
    rw [Bool.or_eq_false_iff, decide_eq_false_iff_not]
    exact ⟨rfl, hlen.not_gt⟩
  rw [handlePacket, hnonempty, if_neg Bool.false_ne_true] at hstep ⊢
  rcases hr : s.answer P (.get tx a) src clock with ⟨s₁, response⟩
  obtain rfl : response = some (.value tx a (some b.1)) := by
    rw [← hanswer, hr]
  simp only [hdec, hr] at hstep ⊢
  cases henc : Proto.encode (.response (.v1 (.value tx a (some b.1))))
      (List.Vector.replicate _ 0) with
  | none =>
    rw [henc] at hstep
    cases hstep
  | some bytes => exact ⟨s₁, bytes, rfl, Proto.decode_encode henc⟩

/-- **Durability.** On a network with an attacker, with tokens that cannot be forged: once the
server has confirmed a put of a socket that the attacker does not control, and whose owner never
puts its tokens inside a value, its value stays, whatever is sent, in any order, twice or not at
all; until its time is over, a later put of its owner is confirmed, or the server is filled. For
that, as many other sockets as the server has entries must be confirmed, since then or with an
expiry that is no earlier; and the addresses of all that were ever confirmed, the owner's among
them, must be so many that their quotas together exceed the entries. Until then, whoever asks for
the value within the rate limit is sent it. -/
theorem put_durable (P : Primitives) (limits : Limits F) (key : List.Vector UInt8 32)
    (created : Instant) (controlled : Set SocketAddrV4) (hmac : MacInjective P key)
    {before after : NetHistory} {x : NetEvent × Except Panic (List Datagram)} {s : Server F}
    (h : (network P (new limits key created) controlled).Run (before ++ x :: after) s)
    {a : SocketAddrV4} {v : List UInt8} {expiresAt : UInt64}
    (hx : Confirmed limits x a (v, expiresAt)) (hfree : a ∉ controlled)
    (hsecret : ∀ b, ¬ GivenAway P (new limits key created) (before ++ x :: after) a b)
    (hlast : ∀ p clock out, (.deliver p clock, out) ∈ after → p.sender = .owner a →
      ∀ b, ¬ Confirmed limits (.deliver p clock, out) a b)
    (hlive : ∀ p clock out, (.deliver p clock, out) ∈ after → clock.storeSecs < expiresAt)
    (hroom : Uncrowded limits before x after a expiresAt) :
    s.store.view a = some (v, expiresAt) ∧
      ∀ data src clock tx, Proto.decode data = some (.request (.v1 (.get tx a))) →
        (s.allowRequest P (.v4 src.ip) clock).2 = true → clock.storeSecs < expiresAt →
        ∃ s' bytes, s.handlePacket P data src clock = .ok (s', [⟨bytes, src⟩]) ∧
          Proto.decode bytes = some (.response (.v1 (.value tx a (some v)))) := by
  have hview := kept_run h before x after a (v, expiresAt) rfl hx (fun y hy b hconfirmed => by
    have hmem : y ∈ before ++ x :: after := List.mem_append_right _ (List.mem_cons_of_mem _ hy)
    obtain ⟨p, clock, out, rfl, howner⟩ := confirmed_owner hmac h hmem hconfirmed hfree hsecret
    exact hlast p clock out hy howner b hconfirmed) hlive hroom
  exact ⟨hview, fun data src clock tx hdec hallow hlt =>
    (inv_network h).get_value hdec hallow hview hlt⟩

namespace Sample

/-- A later time. -/
def later : Clock := ⟨1700000100, 1700000100, 0, 0⟩

/-- The put of the socket is confirmed. -/
def confirmation : NetEvent × Except Panic (List Datagram) :=
  (.deliver put clock, .ok [⟨reply (.stored 1 socket), socket⟩])

/-- What was sent and delivered before that. -/
def earlier : NetHistory := opened.1 ++ [(.send put, .ok [])]

/-- What the attacker does after it. -/
def afterwards : NetHistory := (net.exec (net.step opened.2 (.deliver put clock)).1 tries).1

theorem attack_eq : opened.1 ++ (run attack).1 = earlier ++ confirmation :: afterwards := by
  have hsend (s : Server (Option ℚ)) : net.step s (.send put) = (s, .ok []) := rfl
  have hout : (net.step opened.2 (.deliver put clock)).2 =
      .ok [⟨reply (.stored 1 socket), socket⟩] := by
    decide +kernel
  rw [run, attack, Machine.exec, Machine.exec, hsend, hout, earlier, List.append_assoc,
    List.singleton_append, confirmation, afterwards]

theorem confirmed : Confirmed Limits.default confirmation socket ([7], 1700003610) :=
  ⟨put, clock, 1, token, rfl, rfl, decode_put, rfl⟩

end Sample

open Sample in
/-- The attacker's put in the name of the socket arrives later; the value stays. -/
theorem put_durable_sample :
    ∃ t s out, (network primitives (new .default key 0) {evil}).Run
        (t ++ [(.deliver spoof later, out)]) s ∧ spoof.sender = .attacker ∧
      s.store.view socket = some ([7], 1700003610) := by
  have hwire : net.enabled (opened.1 ++ (run attack).1) (run attack).2 (.deliver spoof later) :=
    ⟨_, List.mem_of_getLast? rfl⟩
  have hrun := run_attack.step hwire
  refine ⟨_, _, _, hrun, rfl, ?_⟩
  rw [attack_eq, List.append_assoc, List.cons_append] at hrun
  have hafter {p : Packet} {c : Clock} {out out' : Except Panic (List Datagram)}
      (h : (NetEvent.deliver p c, out) ∈ afterwards ++ [(NetEvent.deliver spoof later, out')]) :
      p = ask ∧ c = clock ∨ p = get ∧ c = clock ∨ p = spoof ∧ c = later := by
    have hevent : NetEvent.deliver p c ∈ tries ++ [.deliver spoof later] :=
      List.mem_map_of_mem (f := Prod.fst) h
    simpa [tries] using hevent
  refine (put_durable primitives .default key 0 {evil} macInjective hrun confirmed
    socket_free ?secret ?last ?live ?room).1
  case secret =>
    rintro b ⟨p, out, tx, w, v, hmem, hgiven⟩
    rw [← List.cons_append, ← List.append_assoc, ← attack_eq] at hmem
    rcases List.mem_append.mp hmem with hmem | hmem
    · exact not_givenAway b ⟨p, out, tx, w, v, hmem, hgiven⟩
    · cases congrArg Prod.fst (List.mem_singleton.mp hmem)
  case last =>
    rintro p c out hmem hsender
    rcases hafter hmem with ⟨rfl, -⟩ | ⟨rfl, -⟩ | ⟨rfl, -⟩
    · cases hsender
    · cases hsender
    · cases hsender
  case live =>
    intro p c out hmem
    rcases hafter hmem with ⟨-, rfl⟩ | ⟨-, rfl⟩ | ⟨-, rfl⟩
    · decide
    · decide
    · decide
  case room =>
    -- whoever puts is at one address
    refine .inr ((Nat.mul_le_mul_right 16 (Set.ncard_le_ncard (t := {socket.ip}) ?_)).trans ?_)
    · rintro ip ⟨a, ⟨y, hy, b, p, c, tx, w, rfl, rfl, hdec, -⟩, rfl⟩
      rw [← List.cons_append, ← List.append_assoc, ← attack_eq] at hy
      have hevent : NetEvent.deliver p c ∈ opening ++ attack ++ [.deliver spoof later] :=
        List.mem_map_of_mem (f := Prod.fst) hy
      simp only [opening, attack, tries, List.cons_append, List.nil_append, List.mem_cons,
        reduceCtorEq, NetEvent.deliver.injEq, List.not_mem_nil, or_false, false_or] at hevent
      rcases hevent with ⟨rfl, -⟩ | ⟨rfl, -⟩ | ⟨rfl, -⟩ | ⟨rfl, -⟩ | ⟨rfl, -⟩
      · rfl
      · rfl
      · rw [decode_ask] at hdec
        cases hdec
      · rw [decode_get] at hdec
        cases hdec
      · rfl
    · rw [Set.ncard_singleton]
      decide

end Server

end ContentDiscovery
