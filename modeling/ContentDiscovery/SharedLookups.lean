import ContentDiscovery.LookupCache
import ContentDiscovery.Machine
import ContentDiscovery.WeakLocks

/-!
# Lookups that share a cache

`AddrIndex::lookup` of `iroh-mainline-endpoint-discovery/src/addr_index.rs` with a lookup cache,
as any number of callers run it at once on clones of one index. A step is what a caller does
under a mutex, or between two of them; the results of `lookup_uncached`, and when they come, are
inputs. `AddrIndex` runs the same function with its client, and takes for granted that the lock
of a socket is the one its callers hold.

Callers of one socket are one at a time past its lock (`lookups_single_flight`), so they share
what the first of them is answered.
-/

namespace ContentDiscovery

/-- Where a call of `AddrIndex::lookup` stands. -/
inductive Caller where
  /-- not called, or returned -/
  | idle
  /-- nothing was remembered -/
  | missed (addr : SocketAddrV4)
  /-- waits for the lock of its socket -/
  | waiting (addr : SocketAddrV4) (lock : ℕ)
  /-- has locked it -/
  | locked (addr : SocketAddrV4) (lock : ℕ)
  /-- waits for `lookup_uncached` -/
  | resolving (addr : SocketAddrV4) (lock : ℕ)
  /-- about to drop the guard -/
  | releasing (addr : SocketAddrV4) (lock : ℕ)
  /-- about to drop the reference -/
  | dropping (addr : SocketAddrV4) (lock : ℕ)
  deriving DecidableEq

namespace Caller

/-- The socket whose lock the call has a reference to. -/
def arc : Caller → Option (SocketAddrV4 × ℕ)
  | .idle | .missed _ => none
  | .waiting addr lock | .locked addr lock | .resolving addr lock | .releasing addr lock
  | .dropping addr lock => some (addr, lock)

/-- The lock that the call has locked. -/
def guard : Caller → Option ℕ
  | .locked _ lock | .resolving _ lock | .releasing _ lock => some lock
  | _ => none

end Caller

/-- The lookup cache of an index, with the calls under way. -/
structure SharedLookups (R κ : Type) where
  /-- what is remembered -/
  cache : LookupCache R
  /-- `pending`: a lock for each socket that is looked up -/
  pending : WeakLocks SocketAddrV4 κ
  /-- where the calls stand -/
  callers : κ → Caller

namespace SharedLookups

/-- A step of a caller. -/
inductive Event (R E κ : Type) where
  /-- `AddrIndex::lookup` is called, and looks at the cache -/
  | lookup (c : κ) (addr : SocketAddrV4) (now : Instant)
  /-- `LookupCache::pending`; the locks of some sockets are dropped meanwhile -/
  | pending (c : κ) (meanwhile : Finset SocketAddrV4)
  /-- the lock is given to the call -/
  | locked (c : κ)
  /-- the second look at the cache -/
  | recheck (c : κ) (now : Instant)
  /-- `lookup_uncached` comes to a result, which is remembered at once -/
  | finish (c : κ) (result : Except E (List R)) (now : Instant)
  /-- the caller gives up -/
  | cancel (c : κ)
  /-- the guard is dropped -/
  | unlock (c : κ)
  /-- the reference is dropped -/
  | drop (c : κ)

/-- When a step that reads the clock is. -/
def Event.time {R E κ : Type} : Event R E κ → Option Instant
  | .lookup _ _ now | .recheck _ now | .finish _ _ now => some now
  | _ => none

/-- What a call of a socket comes to. -/
abbrev Output (R E κ : Type) : Type := Option (κ × SocketAddrV4 × Except E (List R))

variable {R E κ : Type} [DecidableEq κ]

/-- `LookupCache::new`, before any call. -/
def new (ttl : ℕ) : SharedLookups R κ := ⟨.new ttl, .empty, fun _ => .idle⟩

variable (s : SharedLookups R κ)

/-- A call goes on. -/
def move (c : κ) (caller : Caller) : SharedLookups R κ :=
  { s with callers := Function.update s.callers c caller }

/-- One step, if it is enabled. -/
def step : Event R E κ → SharedLookups R κ × Output R E κ
  | .lookup c addr now =>
    let r := s.cache.get addr now
    let s := { s with cache := r.1 }
    match r.2 with
    | some records => (s, some (c, addr, .ok records))
    | none => (s.move c (.missed addr), none)
  | .pending c meanwhile =>
    match s.callers c with
    | .missed addr =>
      let r := s.pending.share addr c meanwhile
      ({ s with pending := r.1 }.move c (.waiting addr r.2), none)
    | _ => (s, none)
  | .locked c =>
    match s.callers c with
    | .waiting addr lock =>
      ({ s with pending := s.pending.lock lock c }.move c (.locked addr lock), none)
    | _ => (s, none)
  | .recheck c now =>
    match s.callers c with
    | .locked addr lock =>
      -- a concurrent caller may have finished the same lookup
      let r := s.cache.get addr now
      let s := { s with cache := r.1 }
      match r.2 with
      | some records => (s.move c (.releasing addr lock), some (c, addr, .ok records))
      | none => (s.move c (.resolving addr lock), none)
    | _ => (s, none)
  | .finish c result now =>
    match s.callers c with
    | .resolving addr lock =>
      let s := s.move c (.releasing addr lock)
      match result with
      | .ok records =>
        ({ s with cache := s.cache.insert addr records now }, some (c, addr, .ok records))
      | .error e => (s, some (c, addr, .error e))
    | _ => (s, none)
  | .cancel c =>
    match s.callers c with
    | .waiting addr lock => (s.move c (.dropping addr lock), none)
    -- the lock may have been given to a caller that has gone
    | .locked addr lock | .resolving addr lock => (s.move c (.releasing addr lock), none)
    | _ => (s, none)
  | .unlock c =>
    match s.callers c with
    | .releasing addr lock =>
      ({ s with pending := s.pending.unlock lock }.move c (.dropping addr lock), none)
    | _ => (s, none)
  | .drop c =>
    match s.callers c with
    | .dropping _ lock => ({ s with pending := s.pending.drop lock c }.move c .idle, none)
    | _ => (s, none)

/-- When a step can happen. -/
def Enabled : Event R E κ → Prop
  | .lookup c _ _ => s.callers c = .idle
  | .pending c _ => ∃ addr, s.callers c = .missed addr
  | .locked c => ∃ addr lock, s.callers c = .waiting addr lock ∧
      (s.pending.locks lock).holder = none
  | .recheck c _ => ∃ addr lock, s.callers c = .locked addr lock
  | .finish c _ _ => ∃ addr lock, s.callers c = .resolving addr lock
  | .cancel c => ∃ addr lock, s.callers c = .waiting addr lock ∨ s.callers c = .locked addr lock ∨
      s.callers c = .resolving addr lock
  | .unlock c => ∃ addr lock, s.callers c = .releasing addr lock
  | .drop c => ∃ addr lock, s.callers c = .dropping addr lock

/-- Callers on clones of one index; the clock does not go back. -/
def machine (R E κ : Type) [DecidableEq κ] (ttl : ℕ) :
    Machine (SharedLookups R κ) (Event R E κ) (Output R E κ) where
  init s := s = new ttl
  enabled t s e := s.Enabled e ∧
    ∀ y ∈ t, ∀ past ∈ y.1.time, ∀ now ∈ e.time, past ≤ now
  step s e := s.step e

/-! ## What a step does -/

/-- What the steps that are enabled do. -/
inductive Does : Event R E κ → SharedLookups R κ → Output R E κ → Prop
  /-- something is remembered -/
  | hit {c : κ} {addr : SocketAddrV4} {now : Instant} {records : List R}
    (hcaller : s.callers c = .idle) (hget : (s.cache.get addr now).2 = some records) :
    Does (.lookup c addr now) { s with cache := (s.cache.get addr now).1 }
      (some (c, addr, .ok records))
  /-- nothing is remembered -/
  | miss {c : κ} {addr : SocketAddrV4} {now : Instant} (hcaller : s.callers c = .idle) :
    Does (.lookup c addr now)
      ({ s with cache := (s.cache.get addr now).1 }.move c (.missed addr)) none
  /-- the lock is shared -/
  | share {c : κ} {addr : SocketAddrV4} {meanwhile : Finset SocketAddrV4}
    (hcaller : s.callers c = .missed addr) :
    Does (.pending c meanwhile)
      ({ s with pending := (s.pending.share addr c meanwhile).1 }.move c
        (.waiting addr (s.pending.share addr c meanwhile).2)) none
  /-- the lock is free -/
  | lock {c : κ} {addr : SocketAddrV4} {lock : ℕ} (hcaller : s.callers c = .waiting addr lock)
    (hfree : (s.pending.locks lock).holder = none) :
    Does (.locked c) ({ s with pending := s.pending.lock lock c }.move c (.locked addr lock)) none
  /-- something is remembered by now -/
  | shared {c : κ} {addr : SocketAddrV4} {lock : ℕ} {now : Instant} {records : List R}
    (hcaller : s.callers c = .locked addr lock)
    (hget : (s.cache.get addr now).2 = some records) :
    Does (.recheck c now)
      ({ s with cache := (s.cache.get addr now).1 }.move c (.releasing addr lock))
      (some (c, addr, .ok records))
  /-- still nothing is remembered -/
  | resolve {c : κ} {addr : SocketAddrV4} {lock : ℕ} {now : Instant}
    (hcaller : s.callers c = .locked addr lock) :
    Does (.recheck c now)
      ({ s with cache := (s.cache.get addr now).1 }.move c (.resolving addr lock)) none
  /-- the result is remembered -/
  | ok {c : κ} {addr : SocketAddrV4} {lock : ℕ} {now : Instant} {records : List R}
    (hcaller : s.callers c = .resolving addr lock) :
    Does (.finish c (.ok records) now)
      { s.move c (.releasing addr lock) with cache := s.cache.insert addr records now }
      (some (c, addr, .ok records))
  /-- the error is not -/
  | error {c : κ} {addr : SocketAddrV4} {lock : ℕ} {now : Instant} {err : E}
    (hcaller : s.callers c = .resolving addr lock) :
    Does (.finish c (.error err) now) (s.move c (.releasing addr lock))
      (some (c, addr, .error err))
  /-- a caller that waits has gone -/
  | leave {c : κ} {addr : SocketAddrV4} {lock : ℕ} (hcaller : s.callers c = .waiting addr lock) :
    Does (.cancel c) (s.move c (.dropping addr lock)) none
  /-- a caller that has the lock has gone -/
  | abandon {c : κ} {addr : SocketAddrV4} {lock : ℕ}
    (hcaller : s.callers c = .locked addr lock ∨ s.callers c = .resolving addr lock) :
    Does (.cancel c) (s.move c (.releasing addr lock)) none
  /-- the lock is free again -/
  | unlock {c : κ} {addr : SocketAddrV4} {lock : ℕ} (hcaller : s.callers c = .releasing addr lock) :
    Does (.unlock c) ({ s with pending := s.pending.unlock lock }.move c (.dropping addr lock))
      none
  /-- the lock may be dropped -/
  | drop {c : κ} {addr : SocketAddrV4} {lock : ℕ} (hcaller : s.callers c = .dropping addr lock) :
    Does (.drop c) ({ s with pending := s.pending.drop lock c }.move c .idle) none

section

variable {s}

theorem does_step {e : Event R E κ} (h : s.Enabled e) : s.Does e (s.step e).1 (s.step e).2 := by
  cases e with
  | lookup c addr now =>
    simp only [step]
    split
    · rename_i hget
      exact .hit h hget
    · exact .miss h
  | pending c meanwhile =>
    obtain ⟨addr, hcaller⟩ := h
    simp only [step, hcaller]
    exact .share hcaller
  | locked c =>
    obtain ⟨addr, lock, hcaller, hfree⟩ := h
    simp only [step, hcaller]
    exact .lock hcaller hfree
  | recheck c now =>
    obtain ⟨addr, lock, hcaller⟩ := h
    simp only [step, hcaller]
    split
    · rename_i hget
      exact .shared hcaller hget
    · exact .resolve hcaller
  | finish c result now =>
    obtain ⟨addr, lock, hcaller⟩ := h
    simp only [step, hcaller]
    cases result with
    | ok records => exact .ok hcaller
    | error err => exact .error hcaller
  | cancel c =>
    obtain ⟨addr, lock, hcaller | hcaller | hcaller⟩ := h
    · simp only [step, hcaller]
      exact .leave hcaller
    · simp only [step, hcaller]
      exact .abandon (.inl hcaller)
    · simp only [step, hcaller]
      exact .abandon (.inr hcaller)
  | unlock c =>
    obtain ⟨addr, lock, hcaller⟩ := h
    simp only [step, hcaller]
    exact .unlock hcaller
  | drop c =>
    obtain ⟨addr, lock, hcaller⟩ := h
    simp only [step, hcaller]
    exact .drop hcaller

variable {s' : SharedLookups R κ} {c : κ} {addr : SocketAddrV4} {records : List R}
  {e : Event R E κ} {out : Output R E κ}

/-! ## The cache -/

theorem Does.ttl (h : s.Does e s' out) : s'.cache.ttl = s.cache.ttl := by
  cases h with
  | hit | miss | shared | resolve => exact LookupCache.ttl_get
  | ok => exact LookupCache.ttl_insert
  | _ => rfl

/-- What is remembered after a step is what a lookup came to, or was remembered before. -/
theorem Does.remembered (h : s.Does e s' out) {expires : Instant}
    (hmem : (addr, expires, records) ∈ s'.cache.entries.entries) :
    (addr, expires, records) ∈ s.cache.entries.entries ∨
      ∃ c now, e = .finish c (.ok records) now ∧ out = some (c, addr, .ok records) ∧
        expires = now + LookupCache.lifetime s.cache.ttl records := by
  cases h with
  | hit | miss | shared | resolve => exact .inl (LookupCache.mem_get hmem)
  | ok =>
    rcases LookupCache.mem_insert hmem with heq | hmem
    · cases heq
      exact .inr ⟨_, _, rfl, rfl, rfl⟩
    · exact .inl hmem
  | _ => exact .inl hmem

/-- Records that are returned are the caller's own result, or are remembered. -/
theorem Does.returned (h : s.Does e s' out) (hout : out = some (c, addr, .ok records)) :
    (∃ now, e = .finish c (.ok records) now) ∨
      ∃ now expires, e.time = some now ∧ (addr, expires, records) ∈ s.cache.entries.entries ∧
        now < expires := by
  cases h with
  | hit _ hget | shared _ hget =>
    cases hout
    obtain ⟨expires, hmem, hlt⟩ := LookupCache.mem_of_get hget
    exact .inr ⟨_, expires, rfl, hmem, hlt⟩
  | ok =>
    cases hout
    exact .inl ⟨_, rfl⟩
  | _ => cases hout

/-- An error that is returned is the caller's own, and nothing is remembered of it. -/
theorem Does.failed (h : s.Does e s' out) {err : E} (hout : out = some (c, addr, .error err)) :
    (∃ now, e = .finish c (.error err) now) ∧ s'.cache = s.cache := by
  cases h with
  | error =>
    cases hout
    exact ⟨⟨_, rfl⟩, rfl⟩
  | _ => cases hout

/-! ## The locks -/

/-- The locks that are pending are those that the calls have. -/
def Held (pending : WeakLocks SocketAddrV4 κ) (callers : κ → Caller) : Prop :=
  pending.Held (Caller.arc ∘ callers) (Caller.guard ∘ callers)

section

variable {pending : WeakLocks SocketAddrV4 κ} {callers : κ → Caller} {caller : Caller}

theorem update_comp {α : Type} {f : Caller → α} (h : f (callers c) = f caller) :
    f ∘ Function.update callers c caller = f ∘ callers := by
  rw [Function.comp_update, ← h]
  exact Function.update_eq_self c (f ∘ callers)

/-- A call goes on, and has what it had. -/
theorem Held.keep (h : Held pending callers) (harc : (callers c).arc = caller.arc)
    (hguard : (callers c).guard = caller.guard) :
    Held pending (Function.update callers c caller) := by
  rw [Held, update_comp harc, update_comp hguard]
  exact h

/-- A call goes on with a reference, or without one. -/
theorem Held.of_arc (hguard : (callers c).guard = caller.guard)
    (h : pending.Held (Function.update (Caller.arc ∘ callers) c caller.arc)
      (Caller.guard ∘ callers)) : Held pending (Function.update callers c caller) := by
  rw [Held, update_comp hguard, Function.comp_update]
  exact h

/-- A call goes on with a guard, or without one. -/
theorem Held.of_guard (harc : (callers c).arc = caller.arc)
    (h : pending.Held (Caller.arc ∘ callers)
      (Function.update (Caller.guard ∘ callers) c caller.guard)) :
    Held pending (Function.update callers c caller) := by
  rw [Held, update_comp harc, Function.comp_update]
  exact h

end

theorem Does.held (h : s.Does e s' out) (hs : Held s.pending s.callers) :
    Held s'.pending s'.callers := by
  cases h with
  | hit => exact hs
  | miss hcaller | shared hcaller | resolve hcaller | ok hcaller | error hcaller | leave hcaller =>
    exact hs.keep (by rw [hcaller]; rfl) (by rw [hcaller]; rfl)
  | abandon hcaller =>
    rcases hcaller with hcaller | hcaller
    · exact hs.keep (by rw [hcaller]; rfl) (by rw [hcaller]; rfl)
    · exact hs.keep (by rw [hcaller]; rfl) (by rw [hcaller]; rfl)
  | @share c addr meanwhile hcaller =>
    refine .of_arc (by rw [hcaller]; rfl) ?_
    exact WeakLocks.Held.share hs (congrArg Caller.arc hcaller) addr meanwhile
  | lock hcaller hfree =>
    refine .of_guard (by rw [hcaller]; rfl) ?_
    exact WeakLocks.Held.lock hs (congrArg Caller.arc hcaller) (congrArg Caller.guard hcaller) hfree
  | unlock hcaller =>
    refine .of_guard (by rw [hcaller]; rfl) ?_
    exact WeakLocks.Held.unlock hs (congrArg Caller.guard hcaller)
  | drop hcaller =>
    refine .of_arc (by rw [hcaller]; rfl) ?_
    exact WeakLocks.Held.drop hs (congrArg Caller.arc hcaller) (congrArg Caller.guard hcaller)

/-! ## Runs -/

/-- A lookup of a socket came to these records, at that time. -/
def Finished (t : List (Event R E κ × Output R E κ)) (addr : SocketAddrV4) (records : List R)
    (time : Instant) : Prop :=
  ∃ c, (.finish c (.ok records) time, some (c, addr, .ok records)) ∈ t

/-- What holds of every run: the locks are those of the calls, and what is remembered are the
results of lookups, for as long as they may be. -/
structure Inv (ttl : ℕ) (t : List (Event R E κ × Output R E κ)) (s : SharedLookups R κ) : Prop where
  held : Held s.pending s.callers
  cache_ttl : s.cache.ttl = ttl
  remembered : ∀ addr expires records, (addr, expires, records) ∈ s.cache.entries.entries →
    ∃ time, Finished t addr records time ∧ expires = time + LookupCache.lifetime ttl records

variable {ttl : ℕ} {t : List (Event R E κ × Output R E κ)}

theorem inv (h : (machine R E κ ttl).Run t s) : Inv ttl t s := by
  refine Machine.Run.invariant ?_ ?_ h
  · rintro s rfl
    exact ⟨WeakLocks.held_empty, rfl, fun _ _ _ hmem => absurd hmem List.not_mem_nil⟩
  · intro t s e hrun hen hinv
    have hdoes := does_step hen.1
    refine ⟨hdoes.held hinv.held, hdoes.ttl.trans hinv.cache_ttl, ?_⟩
    intro addr expires records hmem
    rcases hdoes.remembered hmem with hmem | ⟨c, now, he, hout, hexpires⟩
    · obtain ⟨time, ⟨c, hfinish⟩, hexpires⟩ := hinv.remembered addr expires records hmem
      exact ⟨time, ⟨c, List.mem_append_left _ hfinish⟩, hexpires⟩
    · rw [hinv.cache_ttl] at hexpires
      refine ⟨now, ⟨c, List.mem_append_right _ ?_⟩, hexpires⟩
      exact List.mem_singleton.mpr (Prod.ext he.symm hout.symm)

/-- Lookups that share a cache: one of a socket runs at a time, and waits for calls of the same
socket only; records that are returned came from a lookup of the same socket, the caller's own or
one that is not older than it may be; errors are the caller's own, and are not remembered. -/
theorem lookups_single_flight (h : (machine R E κ ttl).Run t s) :
    (∀ c c' addr lock lock', s.callers c = .resolving addr lock →
      s.callers c' = .resolving addr lock' → c = c') ∧
    (∀ c addr lock, s.callers c = .waiting addr lock → s.Enabled (.locked c : Event R E κ) ∨
      ∃ c', (s.pending.locks lock).holder = some c' ∧ (s.callers c').arc = some (addr, lock)) ∧
    (∀ pre post e c addr records, t = pre ++ (e, some (c, addr, .ok records)) :: post →
      (∃ now, e = .finish c (.ok records) now) ∨
        ∃ now time, e.time = some now ∧ Finished pre addr records time ∧ time ≤ now ∧
          now < time + if records.isEmpty then min ttl MISS_TTL else ttl) ∧
    (∀ pre post e c addr err, t = pre ++ (e, some (c, addr, .error err)) :: post →
      (∃ now, e = .finish c (.error err) now) ∧
        ∃ before, (machine R E κ ttl).Run pre before ∧ (before.step e).1.cache = before.cache) ∧
    (∀ addr expires records, (addr, expires, records) ∈ s.cache.entries.entries →
      ∃ time, Finished t addr records time) := by
  refine ⟨?_, ?_, ?_, ?_, ?_⟩
  · intro c c' addr lock lock' hc hc'
    exact (inv h).held.exclusive (congrArg Caller.arc hc) (congrArg Caller.arc hc')
      (congrArg Caller.guard hc) (congrArg Caller.guard hc')
  · intro c addr lock hc
    cases hholder : (s.pending.locks lock).holder with
    | none => exact .inl ⟨addr, lock, hc, hholder⟩
    | some c' =>
      exact .inr ⟨c', rfl, ((inv h).held.holder_arc (congrArg Caller.arc hc) hholder).1⟩
  · intro pre post e c addr records ht
    obtain ⟨before, hrun, ⟨hen, hclock⟩, hout⟩ := h.stepAt ht
    rcases (does_step hen).returned hout.symm with hown | ⟨now, expires, hnow, hmem, hlt⟩
    · exact .inl hown
    · obtain ⟨time, ⟨c', hfinish⟩, rfl⟩ := (inv hrun).remembered addr expires records hmem
      exact .inr ⟨now, time, hnow, ⟨c', hfinish⟩, hclock _ hfinish _ rfl _ hnow, hlt⟩
  · intro pre post e c addr err ht
    obtain ⟨before, hrun, ⟨hen, -⟩, hout⟩ := h.stepAt ht
    obtain ⟨hown, hcache⟩ := (does_step hen).failed hout.symm
    exact ⟨hown, before, hrun, hcache⟩
  · intro addr expires records hmem
    obtain ⟨time, hfinished, -⟩ := (inv h).remembered addr expires records hmem
    exact ⟨time, hfinished⟩

end

namespace Sample

def addr : SocketAddrV4 := ⟨⟨203, 0, 113, 7⟩, 60125⟩

/-- Five minutes. -/
def TTL : ℕ := 300 * 10 ^ 9

/-- A call that finds nobody, and one that waits for it. -/
def events : List (Event ℕ Unit ℕ) :=
  [.lookup 0 addr 1, .pending 0 ∅, .locked 0, .recheck 0 2, .lookup 1 addr 3, .pending 1 ∅,
    .finish 0 (.ok []) 4, .unlock 0, .locked 1]

/-- What they come to. -/
def before : List (Event ℕ Unit ℕ × Output ℕ Unit ℕ) × SharedLookups ℕ ℕ :=
  (machine ℕ Unit ℕ TTL).exec (new TTL) events

theorem run : (machine ℕ Unit ℕ TTL).Run before.1 before.2 := by
  have hfollows : (machine ℕ Unit ℕ TTL).Follows [] (new TTL) events := by
    refine ⟨⟨rfl, ?_⟩, ⟨⟨_, rfl⟩, ?_⟩, ⟨⟨_, _, rfl, rfl⟩, ?_⟩, ⟨⟨_, _, rfl⟩, ?_⟩, ⟨rfl, ?_⟩,
      ⟨⟨_, rfl⟩, ?_⟩, ⟨⟨_, _, rfl⟩, ?_⟩, ⟨⟨_, _, rfl⟩, ?_⟩, ⟨⟨_, _, rfl, rfl⟩, ?_⟩, trivial⟩
    all_goals decide
  exact Machine.Run.follows (.start rfl) hfollows

end Sample

open Sample in
/-- The call that waited is answered with what the other one was. -/
theorem lookups_single_flight_sample : ∃ time, Finished before.1 addr [] time ∧ time ≤ 5 ∧
    5 < time + MISS_TTL := by
  have henabled : (machine ℕ Unit ℕ TTL).enabled before.1 before.2 (.recheck 1 5) :=
    ⟨⟨_, _, rfl⟩, by decide⟩
  have hrecheck := run.step henabled
  have hreturned := (lookups_single_flight hrecheck).2.2.1 before.1 [] (.recheck 1 5) 1 addr [] rfl
  rcases hreturned with ⟨now, hown⟩ | ⟨now, time, hnow, hfinished, hle, hlt⟩
  · cases hown
  · obtain rfl : 5 = now := Option.some.inj hnow
    exact ⟨time, hfinished, hle, hlt⟩

end SharedLookups

end ContentDiscovery
