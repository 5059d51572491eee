import ContentDiscovery.Machine
import ContentDiscovery.Store
import ContentDiscovery.TimedMap

/-!
# The store refines a timed map

What the store is for is a map from sockets to bytes with an expiry time; the
two indexes beside the map only make collection and quotas cheap. This file
proves that they are never out of step with it:

* `Consistent` — the indexes agree with the map. Every operation is built from
  two moves, dropping one expiry pair with its entry and inserting one entry,
  and both keep it (`Consistent.dropExpiration`, `Consistent.insertEntry`).
* `view` — the timed map a store stands for. Collection is `TimedMap.expire`
  (`view_gc`), and a put is one of the five transitions of `PutSpec`.
* `Bounded` — the limits hold. It only mentions entries, so it survives
  removals (`Bounded.mono`) and is checked at the insertion alone.
-/

namespace ContentDiscovery

namespace Store

variable {F : Type} {limits : Limits F} {s : Store}

/-- The entries held by one address. -/
def held (s : Store) (ip : Ipv4Addr) : ℕ := (s.entries.keys.filter fun a => a.ip = ip).card

/-- The indexes agree with the map. -/
structure Consistent (s : Store) : Prop where
  /-- one expiry pair for each entry, and no other -/
  mem_expirations : ∀ t a, toLex (t, a) ∈ s.expirations ↔ ∃ v, s.entries.lookup a = some ⟨v, t⟩
  /-- the counts are right, and zero counts are absent -/
  lookup_perIp : ∀ ip, s.perIp.lookup ip = if s.held ip = 0 then none else some (s.held ip)

/-- The limits hold. -/
structure Bounded (limits : Limits F) (s : Store) : Prop where
  /-- no address holds more than its quota -/
  held_le : ∀ ip, s.held ip ≤ limits.maxEntriesPerIp
  /-- the store is no larger than configured -/
  len_le : s.len ≤ limits.maxEntries
  /-- no value exceeds either length limit -/
  value_le : ∀ a e, s.entries.lookup a = some e →
    e.value.length ≤ min limits.maxValueLen MAX_VALUE_LEN

/-- The timed map a store stands for. -/
def view (s : Store) : TimedMap SocketAddrV4 (List UInt8) UInt64 :=
  fun a => (s.entries.lookup a).map fun e => (e.value, e.expiresAt)

@[simp] theorem view_eq_some {a : SocketAddrV4} {b : List UInt8 × UInt64} :
    s.view a = some b ↔ s.entries.lookup a = some ⟨b.1, b.2⟩ := by
  simp only [view, Option.map_eq_some_iff]
  refine ⟨?_, fun h => ⟨_, h, rfl⟩⟩
  rintro ⟨e, he, rfl⟩
  exact he

theorem mem_keys_iff {a : SocketAddrV4} :
    a ∈ s.entries.keys ↔ ∃ e, s.entries.lookup a = some e := by
  rw [Finmap.mem_keys, Finmap.mem_iff]

theorem lookup_eq_none_iff {a : SocketAddrV4} :
    s.entries.lookup a = none ↔ a ∉ s.entries.keys := by
  rw [Finmap.lookup_eq_none, Finmap.mem_keys]

theorem bound_view : s.view.bound = ↑s.entries.keys := by
  ext a
  simp [TimedMap.bound, view, mem_keys_iff, Option.isSome_iff_exists]

theorem ncard_bound_view : s.view.bound.ncard = s.len := by
  rw [bound_view, Set.ncard_coe_finset, len]

theorem ncard_bound_view_ip (ip : Ipv4Addr) :
    {a ∈ s.view.bound | a.ip = ip}.ncard = s.held ip := by
  rw [bound_view, held, ← Set.ncard_coe_finset]
  simp

/-! ## Removing an entry -/

theorem held_pos {addr : SocketAddrV4} (h : addr ∈ s.entries.keys) : 0 < s.held addr.ip :=
  Finset.card_pos.mpr ⟨addr, Finset.mem_filter.mpr ⟨h, rfl⟩⟩

@[simp] theorem entries_dropExpiration (e : UInt64 ×ₗ SocketAddrV4) :
    (s.dropExpiration e).entries = s.entries.erase (ofLex e).2 := by
  rw [dropExpiration, removeEntry]
  split
  · rfl
  · rename_i h
    simp only [Option.not_isSome_iff_eq_none] at h
    apply Finmap.ext_lookup
    intro a
    rw [HashMap.lookup_erase_eq]
    split
    · rename_i ha
      rw [ha, h]
    · rfl

@[simp] theorem expirations_dropExpiration (e : UInt64 ×ₗ SocketAddrV4) :
    (s.dropExpiration e).expirations = s.expirations.erase e := by
  rw [dropExpiration, removeEntry]
  split <;> rfl

/-- Dropping an entry lowers the count of its own address by one. -/
theorem held_dropExpiration {t : UInt64} {addr : SocketAddrV4} (h : addr ∈ s.entries.keys)
    (ip : Ipv4Addr) :
    (s.dropExpiration (toLex (t, addr))).held ip =
      if ip = addr.ip then s.held ip - 1 else s.held ip := by
  rw [held, entries_dropExpiration, Finmap.keys_erase, Finset.filter_erase, held]
  split
  · rename_i hip
    exact Finset.card_erase_of_mem (Finset.mem_filter.mpr ⟨h, hip.symm⟩)
  · rename_i hip
    rw [Finset.erase_eq_of_notMem]
    exact fun hmem => hip (Finset.mem_filter.mp hmem).2.symm

/-- The counts after dropping an entry that is there. -/
theorem Consistent.perIp_dropExpiration (hs : s.Consistent) {t : UInt64} {addr : SocketAddrV4}
    (h : addr ∈ s.entries.keys) (ip : Ipv4Addr) :
    (s.dropExpiration (toLex (t, addr))).perIp.lookup ip =
      if ip = addr.ip then (if s.held ip - 1 = 0 then none else some (s.held ip - 1))
      else s.perIp.lookup ip := by
  have hpos : s.held addr.ip ≠ 0 := (held_pos h).ne'
  have hcount : s.perIp.lookup addr.ip = some (s.held addr.ip) := by
    rw [hs.lookup_perIp, if_neg hpos]
  have hsome : (s.entries.lookup addr).isSome := Finmap.lookup_isSome.mpr (Finmap.mem_keys.mp h)
  simp only [dropExpiration, removeEntry, ofLex_toLex, hsome, if_true, hcount]
  by_cases hip : ip = addr.ip
  · subst hip
    rw [if_pos rfl]
    split
    · rw [Finmap.lookup_erase]
    · rw [Finmap.lookup_insert]
  · rw [if_neg hip]
    split
    · rw [Finmap.lookup_erase_ne hip]
    · rw [Finmap.lookup_insert_of_ne _ hip]

/-- Dropping an expiry pair with its entry keeps the indexes in step. -/
theorem Consistent.dropExpiration (hs : s.Consistent) {e : UInt64 ×ₗ SocketAddrV4}
    (he : e ∈ s.expirations) : (s.dropExpiration e).Consistent := by
  obtain ⟨⟨t, addr⟩, rfl⟩ := toLex.surjective e
  obtain ⟨v, hv⟩ := (hs.mem_expirations t addr).mp he
  have hmem : addr ∈ s.entries.keys := mem_keys_iff.mpr ⟨_, hv⟩
  refine ⟨?_, ?_⟩
  · intro t' a
    rw [expirations_dropExpiration, entries_dropExpiration, HashMap.lookup_erase_eq,
      Finset.mem_erase, hs.mem_expirations]
    by_cases ha : a = addr
    · -- the entry of `addr` carries the one time `t`, so no pair of `addr` is left
      subst ha
      simp only [ofLex_toLex, if_true, reduceCtorEq, exists_false, iff_false, not_and]
      rintro hne ⟨v', hv'⟩
      rw [hv] at hv'
      obtain ⟨rfl, rfl⟩ := Entry.mk.inj (Option.some.inj hv')
      exact hne rfl
    · rw [if_neg (show ¬ a = (ofLex (toLex (t, addr))).2 from ha)]
      exact and_iff_right fun heq => ha (Prod.mk.inj (toLex.injective heq)).2
  · intro ip
    rw [hs.perIp_dropExpiration hmem, hs.lookup_perIp, held_dropExpiration hmem]
    by_cases hip : ip = addr.ip
    · rw [if_pos hip, if_pos hip]
    · rw [if_neg hip, if_neg hip]

/-! ## Collection -/

/-- What one pass of collection leaves: the entries that are still live. -/
theorem gcLoop_spec (now : UInt64) :
    ∀ (n : ℕ) (s : Store), s.Consistent → s.expirations.card ≤ n →
      (gcLoop n s now).Consistent ∧
        ∀ a e, (gcLoop n s now).entries.lookup a = some e ↔
          s.entries.lookup a = some e ∧ now < e.expiresAt := by
  intro n
  induction n with
  | zero =>
    intro s hs hcard
    have hempty : s.expirations = ∅ := Finset.card_eq_zero.mp (Nat.le_zero.mp hcard)
    refine ⟨hs, fun a e => ⟨fun h => ?_, And.left⟩⟩
    have hpair : toLex (e.expiresAt, a) ∈ s.expirations := (hs.mem_expirations _ _).mpr ⟨_, h⟩
    rw [hempty] at hpair
    cases hpair
  | succ n ih =>
    intro s hs hcard
    rw [gcLoop]
    rcases hfirst : s.expirations.first with _ | e₀
    · have hempty : s.expirations = ∅ := BTreeSet.first_eq_none.mp hfirst
      refine ⟨hs, fun a e => ⟨fun h => ?_, And.left⟩⟩
      have hpair : toLex (e.expiresAt, a) ∈ s.expirations := (hs.mem_expirations _ _).mpr ⟨_, h⟩
      rw [hempty] at hpair
      cases hpair
    · obtain ⟨hmem, hmin⟩ := BTreeSet.first_eq_some.mp hfirst
      obtain ⟨⟨t, addr⟩, rfl⟩ := toLex.surjective e₀
      dsimp only
      split
      · -- the nearest expiry is in the future, so every expiry is
        rename_i hlt
        refine ⟨hs, fun a e => ⟨fun h => ⟨h, ?_⟩, And.left⟩⟩
        have hpair := hmin _ ((hs.mem_expirations e.expiresAt a).mpr ⟨_, h⟩)
        have hle : t ≤ e.expiresAt := Prod.Lex.monotone_fst _ _ hpair
        exact lt_of_lt_of_le hlt hle
      · rename_i hle
        have hcard' : (s.dropExpiration (toLex (t, addr))).expirations.card ≤ n := by
          rw [expirations_dropExpiration, Finset.card_erase_of_mem hmem]
          omega
        obtain ⟨hcons, hlook⟩ := ih _ (hs.dropExpiration hmem) hcard'
        refine ⟨hcons, fun a e => ?_⟩
        rw [hlook, entries_dropExpiration, HashMap.lookup_erase_eq, ofLex_toLex]
        by_cases ha : a = addr
        · -- the dropped entry had expired
          subst ha
          simp only [if_true, reduceCtorEq, false_and, false_iff, not_and]
          intro he hlt
          obtain ⟨v, hv⟩ := (hs.mem_expirations t a).mp hmem
          rw [hv] at he
          obtain rfl := Option.some.inj he
          exact hle hlt
        · rw [if_neg ha]

theorem Consistent.gc (hs : s.Consistent) (now : UInt64) : (s.gc now).Consistent :=
  (gcLoop_spec now _ s hs le_rfl).1

theorem Consistent.lookup_gc (hs : s.Consistent) {now : UInt64} {a : SocketAddrV4} {e : Entry} :
    (s.gc now).entries.lookup a = some e ↔ s.entries.lookup a = some e ∧ now < e.expiresAt :=
  (gcLoop_spec now _ s hs le_rfl).2 a e

/-- Collection is expiry. -/
theorem Consistent.view_gc (hs : s.Consistent) (now : UInt64) :
    (s.gc now).view = s.view.expire now := by
  funext a
  apply Option.ext
  intro b
  rw [TimedMap.expire_eq_some, view_eq_some, view_eq_some, hs.lookup_gc]

/-! ## Inserting an entry -/

theorem Consistent.getD_perIp (hs : s.Consistent) (ip : Ipv4Addr) :
    (s.perIp.lookup ip).getD 0 = s.held ip := by
  rw [hs.lookup_perIp]
  split
  · rename_i h
    rw [h, Option.getD_none]
  · rfl

@[simp] theorem entries_insertEntry (addr : SocketAddrV4) (v : List UInt8) (t : UInt64) :
    (s.insertEntry addr v t).entries = s.entries.insert addr ⟨v, t⟩ := by
  rw [insertEntry]
  rcases s.entries.lookup addr with _ | previous <;> rfl

/-- The expiry pairs after an insertion: the new one, and those of other sockets. -/
theorem Consistent.mem_expirations_insertEntry (hs : s.Consistent) (addr : SocketAddrV4)
    (v : List UInt8) (t : UInt64) (e : UInt64 ×ₗ SocketAddrV4) :
    e ∈ (s.insertEntry addr v t).expirations ↔
      e = toLex (t, addr) ∨ (ofLex e).2 ≠ addr ∧ e ∈ s.expirations := by
  obtain ⟨⟨t', a⟩, rfl⟩ := toLex.surjective e
  rw [insertEntry]
  rcases hprev : s.entries.lookup addr with _ | previous
  · -- a fresh socket has no pair
    have hno : ∀ x, toLex (x, addr) ∉ s.expirations := by
      intro x hx
      obtain ⟨v', hv'⟩ := (hs.mem_expirations x addr).mp hx
      rw [hprev] at hv'
      cases hv'
    simp only [Finset.mem_insert, ofLex_toLex]
    refine or_congr_right ⟨fun hmem => ⟨?_, hmem⟩, And.right⟩
    rintro rfl
    exact hno _ hmem
  · -- the pair of the entry being replaced is the only one of this socket
    simp only [Finset.mem_insert, Finset.mem_erase, ofLex_toLex]
    refine or_congr_right ⟨fun ⟨hne, hmem⟩ => ⟨?_, hmem⟩, fun ⟨hne, hmem⟩ => ⟨?_, hmem⟩⟩
    · rintro rfl
      obtain ⟨v', hv'⟩ := (hs.mem_expirations t' a).mp hmem
      rw [hprev] at hv'
      obtain rfl := Option.some.inj hv'
      exact hne rfl
    · exact fun heq => hne (Prod.mk.inj (toLex.injective heq)).2

/-- An insertion raises the count of a fresh socket's address by one. -/
theorem held_insertEntry (addr : SocketAddrV4) (v : List UInt8) (t : UInt64) (ip : Ipv4Addr) :
    (s.insertEntry addr v t).held ip =
      if ip = addr.ip ∧ addr ∉ s.entries.keys then s.held ip + 1 else s.held ip := by
  rw [held, entries_insertEntry, HashMap.keys_insert, Finset.filter_insert, held]
  by_cases hip : addr.ip = ip
  · rw [if_pos hip]
    by_cases hmem : addr ∈ s.entries.keys
    · rw [if_neg fun h => h.2 hmem, Finset.insert_eq_of_mem]
      exact Finset.mem_filter.mpr ⟨hmem, hip⟩
    · rw [if_pos ⟨hip.symm, hmem⟩, Finset.card_insert_of_notMem]
      exact fun h => hmem (Finset.mem_filter.mp h).1
  · rw [if_neg hip, if_neg fun h => hip h.1.symm]

/-- The counts after an insertion. -/
theorem Consistent.perIp_insertEntry (hs : s.Consistent) (addr : SocketAddrV4) (v : List UInt8)
    (t : UInt64) (ip : Ipv4Addr) :
    (s.insertEntry addr v t).perIp.lookup ip =
      if ip = addr.ip ∧ addr ∉ s.entries.keys then some (s.held ip + 1)
      else s.perIp.lookup ip := by
  rw [insertEntry]
  rcases hprev : s.entries.lookup addr with _ | previous
  · have hmem : addr ∉ s.entries.keys := lookup_eq_none_iff.mp hprev
    simp only [hs.getD_perIp, HashMap.lookup_insert_eq, hmem, not_false_eq_true, and_true]
    split
    · rename_i hip
      rw [hip]
    · rfl
  · have hmem : addr ∈ s.entries.keys := mem_keys_iff.mpr ⟨_, hprev⟩
    simp only [hmem, not_true_eq_false, and_false, if_false]

/-- Inserting an entry keeps the indexes in step. -/
theorem Consistent.insertEntry (hs : s.Consistent) (addr : SocketAddrV4) (v : List UInt8)
    (t : UInt64) : (s.insertEntry addr v t).Consistent := by
  refine ⟨?_, ?_⟩
  · intro t' a
    rw [hs.mem_expirations_insertEntry, entries_insertEntry, HashMap.lookup_insert_eq, ofLex_toLex]
    by_cases ha : a = addr
    · subst ha
      simp only [ne_eq, not_true_eq_false, false_and, or_false, if_true, Option.some_inj,
        Entry.mk.injEq, exists_and_right, exists_eq', true_and, EmbeddingLike.apply_eq_iff_eq,
        Prod.mk.injEq, and_true]
      exact eq_comm
    · rw [if_neg ha, hs.mem_expirations]
      refine ⟨fun h => ?_, fun h => .inr ⟨ha, h⟩⟩
      rcases h with heq | ⟨-, h⟩
      · exact absurd (Prod.mk.inj (toLex.injective heq)).2 ha
      · exact h
  · intro ip
    rw [hs.perIp_insertEntry, held_insertEntry]
    split
    · rw [if_neg (Nat.succ_ne_zero _)]
    · exact hs.lookup_perIp ip

@[simp] theorem view_insertEntry (addr : SocketAddrV4) (v : List UInt8) (t : UInt64) :
    (s.insertEntry addr v t).view = s.view.bind addr v t := by
  funext a
  rw [TimedMap.bind_apply, view, entries_insertEntry, HashMap.lookup_insert_eq]
  split <;> rfl

/-! ## The limits -/

/-- A store with no other entries than a bounded one is bounded. -/
theorem Bounded.mono {s' : Store} (hs : s.Bounded limits)
    (hsub : ∀ a e, s'.entries.lookup a = some e → s.entries.lookup a = some e) :
    s'.Bounded limits := by
  have hkeys : s'.entries.keys ⊆ s.entries.keys := by
    intro a ha
    obtain ⟨e, he⟩ := mem_keys_iff.mp ha
    exact mem_keys_iff.mpr ⟨e, hsub a e he⟩
  exact {
    held_le := fun ip =>
      (Finset.card_le_card (Finset.filter_subset_filter _ hkeys)).trans (hs.held_le ip)
    len_le := (Finset.card_le_card hkeys).trans hs.len_le
    value_le := fun a e he => hs.value_le a e (hsub a e he) }

theorem lookup_dropExpiration {e : UInt64 ×ₗ SocketAddrV4} {a : SocketAddrV4} {e' : Entry}
    (h : (s.dropExpiration e).entries.lookup a = some e') : s.entries.lookup a = some e' := by
  rw [entries_dropExpiration, HashMap.lookup_erase_eq] at h
  split at h
  · cases h
  · exact h

theorem Consistent.bounded_gc (hc : s.Consistent) (hb : s.Bounded limits) (now : UInt64) :
    (s.gc now).Bounded limits :=
  hb.mono fun _ _ h => (hc.lookup_gc.mp h).1

/-- An insertion respects the limits when the value fits and a fresh socket finds room. -/
theorem Bounded.insertEntry {addr : SocketAddrV4} {v : List UInt8} {t : UInt64}
    (hb : s.Bounded limits) (hv : v.length ≤ min limits.maxValueLen MAX_VALUE_LEN)
    (hroom : addr ∉ s.entries.keys →
      s.held addr.ip < limits.maxEntriesPerIp ∧ s.len < limits.maxEntries) :
    (s.insertEntry addr v t).Bounded limits where
  held_le ip := by
    rw [held_insertEntry]
    split
    · rename_i h
      obtain ⟨rfl, hfresh⟩ := h
      exact (hroom hfresh).1
    · exact hb.held_le ip
  len_le := by
    rw [len, entries_insertEntry, HashMap.keys_insert]
    by_cases hmem : addr ∈ s.entries.keys
    · rw [Finset.insert_eq_of_mem hmem]
      exact hb.len_le
    · rw [Finset.card_insert_of_notMem hmem]
      exact (hroom hmem).2
  value_le a e he := by
    rw [entries_insertEntry, HashMap.lookup_insert_eq] at he
    split at he
    · obtain rfl := Option.some.inj he
      exact hv
    · exact hb.value_le a e he

/-! ## Calls -/

theorem view_dropExpiration (e : UInt64 ×ₗ SocketAddrV4) :
    (s.dropExpiration e).view = s.view.unbind (ofLex e).2 := by
  funext a
  rw [TimedMap.unbind_apply, view, entries_dropExpiration, HashMap.lookup_erase_eq]
  split <;> rfl

/-- The first expiry pair is the nearest binding of the map. -/
theorem Consistent.isNearest_first (hs : s.Consistent) {e : UInt64 ×ₗ SocketAddrV4}
    (h : s.expirations.first = some e) : s.view.IsNearest (ofLex e).2 := by
  obtain ⟨hmem, hmin⟩ := BTreeSet.first_eq_some.mp h
  obtain ⟨⟨t, addr⟩, rfl⟩ := toLex.surjective e
  obtain ⟨v, hv⟩ := (hs.mem_expirations t addr).mp hmem
  refine ⟨v, t, view_eq_some.mpr hv, fun a v' t' ha => ?_⟩
  exact hmin _ ((hs.mem_expirations t' a).mpr ⟨v', view_eq_some.mp ha⟩)

/-- A put on a timed map from which the expired bindings are gone: what it does
to the map, and its answer. -/
inductive PutSpec (limits : Limits F) (live : TimedMap SocketAddrV4 (List UInt8) UInt64)
    (addr : SocketAddrV4) (value : List UInt8) (expiresAt : UInt64) :
    TimedMap SocketAddrV4 (List UInt8) UInt64 → Except PutError Unit → Prop
  /-- the value is longer than one of the limits -/
  | tooLarge (hlen : min limits.maxValueLen MAX_VALUE_LEN < value.length) :
    PutSpec limits live addr value expiresAt live (.error .tooLarge)
  /-- a fresh socket whose address has used up its quota -/
  | quota (hlen : value.length ≤ min limits.maxValueLen MAX_VALUE_LEN)
    (hfresh : addr ∉ live.bound)
    (hquota : limits.maxEntriesPerIp ≤ {a ∈ live.bound | a.ip = addr.ip}.ncard) :
    PutSpec limits live addr value expiresAt live (.error .full)
  /-- a store configured to hold nothing -/
  | noRoom (hlen : value.length ≤ min limits.maxValueLen MAX_VALUE_LEN)
    (hfresh : addr ∉ live.bound) (hzero : limits.maxEntries = 0) :
    PutSpec limits live addr value expiresAt live (.error .full)
  /-- the socket is bound already -/
  | refresh (hlen : value.length ≤ min limits.maxValueLen MAX_VALUE_LEN)
    (hbound : addr ∈ live.bound) :
    PutSpec limits live addr value expiresAt (live.bind addr value expiresAt) (.ok ())
  /-- a fresh socket while there is room -/
  | fresh (hlen : value.length ≤ min limits.maxValueLen MAX_VALUE_LEN)
    (hfresh : addr ∉ live.bound)
    (hquota : {a ∈ live.bound | a.ip = addr.ip}.ncard < limits.maxEntriesPerIp)
    (hroom : live.bound.ncard < limits.maxEntries) :
    PutSpec limits live addr value expiresAt (live.bind addr value expiresAt) (.ok ())
  /-- a fresh socket in a full store: the nearest binding makes way -/
  | evict {oldest : SocketAddrV4} (hlen : value.length ≤ min limits.maxValueLen MAX_VALUE_LEN)
    (hfresh : addr ∉ live.bound)
    (hquota : {a ∈ live.bound | a.ip = addr.ip}.ncard < limits.maxEntriesPerIp)
    (hfull : live.bound.ncard = limits.maxEntries) (holdest : live.IsNearest oldest) :
    PutSpec limits live addr value expiresAt
      ((live.unbind oldest).bind addr value expiresAt) (.ok ())

/-- A binding after a put was there before it, or is the one that was put. -/
theorem PutSpec.origin {live m : TimedMap SocketAddrV4 (List UInt8) UInt64} {addr : SocketAddrV4}
    {v : List UInt8} {t : UInt64} {r : Except PutError Unit}
    (h : PutSpec limits live addr v t m r) {a : SocketAddrV4} {b : List UInt8 × UInt64}
    (hb : m a = some b) : live a = some b ∨ a = addr ∧ b = (v, t) := by
  have hbind {m' : TimedMap SocketAddrV4 (List UInt8) UInt64} (h : m'.bind addr v t a = some b) :
      m' a = some b ∨ a = addr ∧ b = (v, t) := by
    rw [TimedMap.bind_apply] at h
    split at h
    · exact .inr ⟨‹_›, (Option.some.inj h).symm⟩
    · exact .inl h
  cases h with
  | tooLarge | quota | noRoom => exact .inl hb
  | refresh | fresh => exact hbind hb
  | evict =>
    refine (hbind hb).imp_left fun h => ?_
    rw [TimedMap.unbind_apply] at h
    split at h
    · cases h
    · exact h

/-- What a put does on a store within its limits. -/
structure PutOutcome (limits : Limits F) (s : Store) (addr : SocketAddrV4) (value : List UInt8)
    (now : UInt64) : Prop where
  /-- the indexes stay in step -/
  consistent : (s.put addr value now limits).1.Consistent
  /-- the limits still hold -/
  bounded : (s.put addr value now limits).1.Bounded limits
  /-- the map changes as specified -/
  spec : PutSpec limits (s.view.expire now) addr value
    (saturatingAdd now limits.valueTtlSecs) (s.put addr value now limits).1.view
    (s.put addr value now limits).2
  /-- a refused put has only collected expired entries -/
  error : ∀ err, (s.put addr value now limits).2 = .error err →
    (s.put addr value now limits).1 = s.gc now

/-- A put of a value that fits, for which there is room in `s'`. -/
theorem put_of_room {addr : SocketAddrV4} {v : List UInt8} {now : UInt64} {s' : Store}
    (hv : v.length ≤ min limits.maxValueLen MAX_VALUE_LEN)
    (hroom : (s.gc now).makeRoom addr limits = .ok s') :
    s.put addr v now limits =
      (s'.insertEntry addr v (saturatingAdd now limits.valueTtlSecs), .ok ()) := by
  simp only [put, hroom]
  rw [if_neg (by omega)]

/-- A put of a value that fits, for which there is no room. -/
theorem put_of_full {addr : SocketAddrV4} {v : List UInt8} {now : UInt64} {err : PutError}
    (hv : v.length ≤ min limits.maxValueLen MAX_VALUE_LEN)
    (hroom : (s.gc now).makeRoom addr limits = .error err) :
    s.put addr v now limits = (s.gc now, .error err) := by
  simp only [put, hroom]
  rw [if_neg (by omega)]

/-- What the check for room decides on a consistent store. -/
theorem Consistent.makeRoom_cases (hs : s.Consistent) (limits : Limits F) (addr : SocketAddrV4) :
    (s.makeRoom addr limits = .ok s ∧ addr ∈ s.entries.keys) ∨
    addr ∉ s.entries.keys ∧
      ((s.makeRoom addr limits = .error .full ∧ limits.maxEntriesPerIp ≤ s.held addr.ip) ∨
      (s.makeRoom addr limits = .error .full ∧ limits.maxEntries = 0) ∨
      (s.makeRoom addr limits = .ok s ∧ s.held addr.ip < limits.maxEntriesPerIp ∧
        s.len < limits.maxEntries) ∨
      ∃ oldest ∈ s.expirations, s.makeRoom addr limits = .ok (s.dropExpiration oldest) ∧
        s.held addr.ip < limits.maxEntriesPerIp ∧ limits.maxEntries ≤ s.len ∧
        s.view.IsNearest (ofLex oldest).2) := by
  rw [makeRoom]
  rcases hlook : s.entries.lookup addr with _ | e
  · refine .inr ⟨lookup_eq_none_iff.mp hlook, ?_⟩
    simp only [Option.isNone_none, if_true, hs.getD_perIp]
    by_cases hquota : s.held addr.ip ≥ limits.maxEntriesPerIp
    · rw [if_pos hquota]
      exact .inl ⟨rfl, hquota⟩
    rw [if_neg hquota]
    by_cases hfull : s.len ≥ limits.maxEntries
    swap
    · rw [if_neg hfull]
      exact .inr (.inr (.inl ⟨rfl, not_le.mp hquota, not_le.mp hfull⟩))
    rw [if_pos hfull]
    rcases hfirst : s.expirations.first with _ | oldest
    · -- without a pair there is no entry, so the configured limit is zero
      have hnone : s.entries.keys = ∅ := by
        rw [Finset.eq_empty_iff_forall_notMem]
        intro a ha
        obtain ⟨e, he⟩ := mem_keys_iff.mp ha
        have hpair := (hs.mem_expirations e.expiresAt a).mpr ⟨_, he⟩
        rw [BTreeSet.first_eq_none.mp hfirst] at hpair
        cases hpair
      rw [len, hnone, Finset.card_empty] at hfull
      exact .inr (.inl ⟨rfl, Nat.le_zero.mp hfull⟩)
    · exact .inr (.inr (.inr ⟨oldest, (BTreeSet.first_eq_some.mp hfirst).1, rfl, not_le.mp hquota,
        hfull, hs.isNearest_first hfirst⟩))
  · exact .inl ⟨rfl, mem_keys_iff.mpr ⟨e, hlook⟩⟩

/-- The put of a value that does not fit. -/
theorem put_of_long {addr : SocketAddrV4} {v : List UInt8} {now : UInt64}
    (hv : min limits.maxValueLen MAX_VALUE_LEN < v.length) :
    s.put addr v now limits = (s.gc now, .error .tooLarge) := by
  rw [put]
  rw [if_pos (by omega)]

/-- Every put on a consistent store within its limits has the specified outcome. -/
theorem putOutcome (hc : s.Consistent) (hb : s.Bounded limits) (addr : SocketAddrV4)
    (v : List UInt8) (now : UInt64) : PutOutcome limits s addr v now := by
  have hc' : (s.gc now).Consistent := hc.gc now
  have hb' : (s.gc now).Bounded limits := hc.bounded_gc hb now
  have hlen : (s.view.expire now).bound.ncard = (s.gc now).len := by
    rw [← hc.view_gc, ncard_bound_view]
  have hheld : {a ∈ (s.view.expire now).bound | a.ip = addr.ip}.ncard =
      (s.gc now).held addr.ip := by
    rw [← hc.view_gc, ncard_bound_view_ip]
  have hmem : addr ∈ (s.view.expire now).bound ↔ addr ∈ (s.gc now).entries.keys := by
    rw [← hc.view_gc, bound_view, Finset.mem_coe]
  by_cases hv : v.length ≤ min limits.maxValueLen MAX_VALUE_LEN
  swap
  · have hput : s.put addr v now limits = (s.gc now, .error .tooLarge) :=
      put_of_long (not_le.mp hv)
    refine ⟨?_, ?_, ?_, ?_⟩ <;> rw [hput]
    · exact hc'
    · exact hb'
    · rw [hc.view_gc]
      exact .tooLarge (not_le.mp hv)
    · exact fun _ _ => rfl
  rcases hc'.makeRoom_cases limits addr with ⟨hroom, hbound⟩ |
    ⟨hfresh, ⟨hroom, hq⟩ | ⟨hroom, hz⟩ | ⟨hroom, hq, hl⟩ | ⟨oldest, ho, hroom, hq, hl, hnear⟩⟩
  · have hput := put_of_room hv hroom
    refine ⟨?_, ?_, ?_, ?_⟩ <;> rw [hput]
    · exact hc'.insertEntry ..
    · exact hb'.insertEntry hv fun h => absurd hbound h
    · rw [view_insertEntry, hc.view_gc]
      exact .refresh hv (hmem.mpr hbound)
    · exact fun _ h => nomatch h
  · have hput := put_of_full hv hroom
    refine ⟨?_, ?_, ?_, ?_⟩ <;> rw [hput]
    · exact hc'
    · exact hb'
    · rw [hc.view_gc]
      exact .quota hv (hmem.not.mpr hfresh) (hheld ▸ hq)
    · exact fun _ _ => rfl
  · have hput := put_of_full hv hroom
    refine ⟨?_, ?_, ?_, ?_⟩ <;> rw [hput]
    · exact hc'
    · exact hb'
    · rw [hc.view_gc]
      exact .noRoom hv (hmem.not.mpr hfresh) hz
    · exact fun _ _ => rfl
  · have hput := put_of_room hv hroom
    refine ⟨?_, ?_, ?_, ?_⟩ <;> rw [hput]
    · exact hc'.insertEntry ..
    · exact hb'.insertEntry hv fun _ => ⟨hq, hl⟩
    · rw [view_insertEntry, hc.view_gc]
      exact .fresh hv (hmem.not.mpr hfresh) (hheld ▸ hq) (hlen ▸ hl)
    · exact fun _ h => nomatch h
  · have hput := put_of_room hv hroom
    obtain ⟨⟨t, a⟩, rfl⟩ := toLex.surjective oldest
    obtain ⟨w, hw⟩ := (hc'.mem_expirations t a).mp ho
    have ha : a ∈ (s.gc now).entries.keys := mem_keys_iff.mpr ⟨_, hw⟩
    refine ⟨?_, ?_, ?_, ?_⟩ <;> rw [hput]
    · exact (hc'.dropExpiration ho).insertEntry ..
    · refine (hb'.mono fun _ _ => lookup_dropExpiration).insertEntry hv fun _ => ⟨?_, ?_⟩
      · rw [held_dropExpiration ha]
        split <;> omega
      · -- the evicted entry made the place
        have hle := hb'.len_le
        have hpos : 0 < (s.gc now).len := Finset.card_pos.mpr ⟨a, ha⟩
        rw [len, entries_dropExpiration, ofLex_toLex, Finmap.keys_erase,
          Finset.card_erase_of_mem ha, ← len]
        omega
    · rw [view_insertEntry, view_dropExpiration, hc.view_gc]
      refine .evict hv (hmem.not.mpr hfresh) (hheld ▸ hq) ?_ ?_
      · rw [hlen]
        exact le_antisymm hb'.len_le hl
      · rw [← hc.view_gc]
        exact hnear
    · exact fun _ h => nomatch h

theorem Consistent.get_eq_some (hs : s.Consistent) {addr : SocketAddrV4} {now : UInt64}
    {v : List UInt8} :
    (s.get addr now).2 = some v ↔ ∃ t, s.view addr = some (v, t) ∧ now < t := by
  simp only [get, Option.map_eq_some_iff, hs.lookup_gc, view_eq_some]
  refine ⟨?_, fun ⟨t, he, hlt⟩ => ⟨⟨v, t⟩, ⟨he, hlt⟩, rfl⟩⟩
  rintro ⟨⟨v, t⟩, ⟨he, hlt⟩, rfl⟩
  exact ⟨t, he, hlt⟩

/-! ## Runs -/

/-- A call on a store. -/
inductive Op where
  /-- `Store::put` -/
  | put (addr : SocketAddrV4) (value : List UInt8) (now : UInt64)
  /-- `Store::get` -/
  | get (addr : SocketAddrV4) (now : UInt64)
  /-- `Store::gc` -/
  | gc (now : UInt64)

/-- What a call returns. -/
inductive Ret where
  /-- the result of a put -/
  | put (r : Except PutError Unit)
  /-- the value a get found -/
  | get (value : Option (List UInt8))
  /-- collection returns nothing -/
  | gc

/-- A store under fixed limits, called in any order with any times. -/
def machine (limits : Limits F) : Machine Store Op Ret where
  init s := s = new
  enabled _ _ _ := True
  step s
    | .put addr value now => ((s.put addr value now limits).1, .put (s.put addr value now limits).2)
    | .get addr now => ((s.get addr now).1, .get (s.get addr now).2)
    | .gc now => (s.gc now, .gc)

theorem consistent_new : new.Consistent where
  mem_expirations t a := by simp [new]
  lookup_perIp ip := by simp [new, held]

theorem bounded_new : new.Bounded limits where
  held_le ip := by simp [new, held]
  len_le := by simp [new, len]
  value_le a e he := by simp [new] at he

/-- Every call keeps the representation invariant. -/
theorem inv_step (hs : s.Consistent ∧ s.Bounded limits) (op : Op) :
    ((machine limits).step s op).1.Consistent ∧ ((machine limits).step s op).1.Bounded limits := by
  obtain ⟨hc, hb⟩ := hs
  cases op with
  | put addr value now =>
    have h := putOutcome hc hb addr value now
    exact ⟨h.consistent, h.bounded⟩
  | get addr now => exact ⟨hc.gc now, hc.bounded_gc hb now⟩
  | gc now => exact ⟨hc.gc now, hc.bounded_gc hb now⟩

theorem inv_run {t : List (Op × Ret)} (h : (machine limits).Run t s) :
    s.Consistent ∧ s.Bounded limits := by
  refine h.invariant (I := fun _ s => s.Consistent ∧ s.Bounded limits) ?_ ?_
  · rintro s rfl
    exact ⟨consistent_new, bounded_new⟩
  · exact fun _ _ op _ _ hs => inv_step hs op

/-- **The store refines a timed map.** After any calls, the indexes agree with
the map and the limits hold; collection, and so every call, first removes
exactly the bindings whose time has come; a get answers with the binding that is
still live; and a put is the transition of the timed map that `PutSpec`
describes, a refused one having done nothing but collect. -/
theorem refines_timedMap (limits : Limits F) (ops : List Op) :
    let s := ((machine limits).exec new ops).2
    (s.Consistent ∧ s.Bounded limits) ∧
      (∀ now, (s.gc now).view = s.view.expire now) ∧
      (∀ addr now, (s.get addr now).1.view = s.view.expire now ∧
        ∀ v, (s.get addr now).2 = some v ↔ ∃ t, s.view addr = some (v, t) ∧ now < t) ∧
      (∀ addr v now, PutSpec limits (s.view.expire now) addr v
        (saturatingAdd now limits.valueTtlSecs) (s.put addr v now limits).1.view
        (s.put addr v now limits).2) ∧
      ∀ addr v now err, (s.put addr v now limits).2 = .error err →
        (s.put addr v now limits).1 = s.gc now := by
  intro s
  have hs : s.Consistent ∧ s.Bounded limits :=
    inv_run ((machine limits).run_exec (fun _ _ _ => trivial) rfl ops)
  refine ⟨hs, hs.1.view_gc, fun addr now => ⟨hs.1.view_gc now, fun v => hs.1.get_eq_some⟩, ?_, ?_⟩
  · exact fun addr v now => (putOutcome hs.1 hs.2 addr v now).spec
  · exact fun addr v now => (putOutcome hs.1 hs.2 addr v now).error

end Store

end ContentDiscovery
