import ContentDiscovery.Dns
import ContentDiscovery.Http
import ContentDiscovery.LruCache
import ContentDiscovery.Machine

/-!
# The cache of Pkarr records

`Cache` of `iroh-link-gateway/src/pkarr_redirect.rs`, and the part of `redirect` that uses
it: a request looks a key up, asks Mainline if it has to, and caches what it gets. Any
number of requests do so at once; what Mainline answers, and when, is up to the
environment.

The cache takes what it is given. So a request that was slow and read an old answer may
replace a newer record that another one cached meanwhile (`cache_rolls_back`). If Mainline
tells those that overlap alike (`ToldAlike`), the sequence of a cached record, and the one
served, never decreases (`cache_ascends`).
-/

namespace ContentDiscovery

open Http

/-- `MAX_CACHE_TTL`: how long a changed name can remain stale, 30 seconds. -/
def MAX_CACHE_TTL : ℕ := 30 * 10 ^ 9

/-- `NEWEST_GRACE`: how long to keep reading answers after the first one, 300 milliseconds. -/
def NEWEST_GRACE : ℕ := 300 * 10 ^ 6

/-- `LOOKUP_TIMEOUT`: 60 seconds. -/
def LOOKUP_TIMEOUT : ℕ := 60 * 10 ^ 9

/-- `PACKET_SLOTS`: verified packets kept between requests. -/
def PACKET_SLOTS : ℕ := 1024

/-- A key. -/
abbrev PkarrKey : Type := Vector UInt8 32

/-- `Cache`: the items of the keys, each with the time it expires. -/
abbrev PkarrCache : Type := LruCache PkarrKey (Instant × MutableItem)

namespace PkarrCache

/-- `Cache::get`. -/
def get (cache : PkarrCache) (key : PkarrKey) (now : Instant) : PkarrCache × Option MutableItem :=
  let cache := if ∃ e ∈ cache.peek key, e.1 ≤ now then cache.pop key else cache
  let r := LruCache.get cache key
  (r.1, r.2.map Prod.snd)

/-- How long a packet is cached: as long as all of its answers may be. -/
def ttlOf {Name : Type} (packet : Dns.Packet Name) : ℕ :=
  min (((packet.answers.map fun record => record.ttl.toNat).min?.getD 0) * 10 ^ 9) MAX_CACHE_TTL

/-- `Cache::insert`. -/
def insert {Name : Type} (cache : PkarrCache) (key : PkarrKey) (item : MutableItem)
    (packet : Dns.Packet Name) (now : Instant) : PkarrCache :=
  if ttlOf packet = 0 then cache else cache.put key (now + ttlOf packet, item)

end PkarrCache

/-- What a request does that found no cached item. -/
inductive PkarrRequest where
  /-- it reads answers: the newest one, and when to stop -/
  | resolving (key : PkarrKey) (started : Instant) (newest : Option (MutableItem × Instant))
  /-- it has an item -/
  | resolved (key : PkarrKey) (item : MutableItem)
  deriving DecidableEq

/-- The key of a request. -/
def PkarrRequest.key : PkarrRequest → PkarrKey
  | resolving key .. => key
  | resolved key _ => key

/-- The cache, and the requests that use it. -/
structure PkarrGateway (κ : Type) where
  /-- the time of the last event -/
  now : Instant
  /-- `pkarr` -/
  pkarr : PkarrCache
  /-- the requests that found no cached item -/
  requests : κ → Option PkarrRequest

namespace PkarrGateway

/-- What may happen next. -/
inductive Event (κ : Type) where
  /-- a request for a key -/
  | redirect (call : κ) (key : PkarrKey)
  /-- the lookup fails -/
  | failed (call : κ)
  /-- Mainline answers -/
  | answer (call : κ) (item : MutableItem)
  /-- Mainline has no more answers -/
  | ended (call : κ)
  /-- the window after the first answer closes -/
  | graceOver (call : κ)
  /-- the lookup takes too long -/
  | elapsed (call : κ)
  /-- a request with an item caches and serves it -/
  | serve (call : κ)
  /-- the request is dropped -/
  | dropped (call : κ)

variable {Name κ : Type}

/-- The request of an event. -/
def Event.call : Event κ → κ
  | .redirect call _ => call
  | .failed call => call
  | .answer call _ => call
  | .ended call => call
  | .graceOver call => call
  | .elapsed call => call
  | .serve call => call
  | .dropped call => call

/-- What a request comes to: an error, or the item it serves. -/
abbrev Answer : Type := Except HttpError MutableItem

/-- `verified`: the item is a well-formed answer for the key. -/
def verified (item : MutableItem) (key : PkarrKey) : Except HttpError MutableItem :=
  if item.seq < 0 ∨ item.key ≠ key then
    .error ⟨StatusCode.BAD_GATEWAY, "invalid Pkarr key or timestamp".toList⟩
  else .ok item

/-- The packet of an item. -/
def decode (dns : Dns Name) (item : MutableItem) : Except HttpError (Dns.Packet Name) :=
  match dns.parse item.value with
  | none => .error ⟨StatusCode.BAD_GATEWAY, "invalid Pkarr DNS packet".toList⟩
  | some packet => .ok packet

variable [DecidableEq κ]

/-- A request goes on, or ends. -/
def setRequest (g : PkarrGateway κ) (call : κ) (r : Option PkarrRequest) : PkarrGateway κ :=
  { g with requests := Function.update g.requests call r }

/-- The items of `newest_verified`, after one more. -/
def readAnswer (key : PkarrKey) (started : Instant) (newest : Option (MutableItem × Instant))
    (item : MutableItem) (now : Instant) : Except HttpError PkarrRequest :=
  match verified item key with
  | .error error => .error error
  | .ok item =>
    match newest with
    | none => .ok (.resolving key started (some (item, now + NEWEST_GRACE)))
    | some (best, deadline) =>
      .ok (.resolving key started
        (some (if best.seq < item.seq then item else best, deadline)))

/-- An event of a request that found no cached item. -/
def advance (dns : Dns Name) (g : PkarrGateway κ) (r : PkarrRequest) (now : Instant) :
    Event κ → PkarrGateway κ × Option Answer
  | .redirect .. => (g, none)
  | .failed call =>
    (g.setRequest call none, some (.error ⟨StatusCode.BAD_GATEWAY, "Pkarr lookup failed".toList⟩))
  | .answer call item =>
    match r with
    | .resolving key started newest =>
      match readAnswer key started newest item now with
      | .error error => (g.setRequest call none, some (.error error))
      | .ok r => (g.setRequest call (some r), none)
    | .resolved .. => (g, none)
  | .ended call =>
    match r with
    | .resolving key _ (some (item, _)) => (g.setRequest call (some (.resolved key item)), none)
    | .resolving _ _ none =>
      (g.setRequest call none, some (.error ⟨404, "no Pkarr packet found".toList⟩))
    | .resolved .. => (g, none)
  | .graceOver call =>
    match r with
    | .resolving key _ (some (item, _)) => (g.setRequest call (some (.resolved key item)), none)
    | _ => (g, none)
  | .elapsed call =>
    (g.setRequest call none,
      some (.error ⟨StatusCode.GATEWAY_TIMEOUT, "Pkarr lookup timed out".toList⟩))
  | .serve call =>
    match r with
    | .resolved key item =>
      match decode dns item with
      | .error error => (g.setRequest call none, some (.error error))
      | .ok packet =>
        (setRequest { g with pkarr := g.pkarr.insert key item packet now } call none,
          some (.ok item))
    | .resolving .. => (g, none)
  | .dropped call => (g.setRequest call none, none)

/-- A request looks a key up. -/
def lookUp (dns : Dns Name) (g : PkarrGateway κ) (call : κ) (key : PkarrKey) (now : Instant) :
    PkarrGateway κ × Option Answer :=
  let r := g.pkarr.get key now
  match r.2 with
  | some item => ({ g with pkarr := r.1 }, some ((decode dns item).map fun _ => item))
  | none => (setRequest { g with pkarr := r.1 } call (some (.resolving key now none)), none)

/-- What an event does. -/
def act (dns : Dns Name) (g : PkarrGateway κ) (now : Instant) :
    Event κ → PkarrGateway κ × Option Answer
  | .redirect call key => lookUp dns g call key now
  | e =>
    match g.requests e.call with
    | none => (g, none)
    | some r => advance dns g r now e

/-- One event, at its time. -/
def step (dns : Dns Name) (g : PkarrGateway κ) (x : Instant × Event κ) :
    PkarrGateway κ × Option Answer :=
  ({ (g.act dns x.1 x.2).1 with now := x.1 }, (g.act dns x.1 x.2).2)

/-- What a request may do at a time. -/
def May (r : PkarrRequest) (now : Instant) : Event κ → Prop
  | .redirect .. => False
  | .failed _ => ∃ key started, r = .resolving key started none
  | .answer .. => ∃ key started newest, r = .resolving key started newest
  | .ended _ => ∃ key started newest, r = .resolving key started newest
  | .graceOver _ => ∃ key started item deadline,
      r = .resolving key started (some (item, deadline)) ∧ deadline ≤ now
  | .elapsed _ => ∃ key started newest,
      r = .resolving key started newest ∧ started + LOOKUP_TIMEOUT ≤ now
  | .serve _ => ∃ key item, r = .resolved key item
  | .dropped _ => True

/-- The clock never goes back, and a request does one thing after another. -/
def Enabled (g : PkarrGateway κ) (x : Instant × Event κ) : Prop :=
  g.now ≤ x.1 ∧
    match g.requests x.2.call with
    | none => ∃ call key, x.2 = .redirect call key
    | some r => May r x.1 x.2

/-- A gateway and its requests. -/
def machine (dns : Dns Name) :
    Machine (PkarrGateway κ) (Instant × Event κ) (Option Answer) where
  init g := g.pkarr = .new PACKET_SLOTS ∧ ∀ call, g.requests call = none
  enabled _ g x := g.Enabled x
  step g x := g.step dns x

/-- What has happened. -/
abbrev History (κ : Type) : Type := List ((Instant × Event κ) × Option Answer)

/-- A request looked the key up, and only the events `after` came later. -/
def LookedUp (t : History κ) (call : κ) (key : PkarrKey) (after : History κ) : Prop :=
  ∃ before x, t = before ++ x :: after ∧ x.1.2 = .redirect call key ∧
    ∀ y ∈ after, ∀ key', y.1.2 ≠ .redirect call key'

/-- Mainline gave the request this answer. -/
def Told (after : History κ) (call : κ) (item : MutableItem) : Prop :=
  ∃ now out, ((now, .answer call item), out) ∈ after

/-- Mainline gave the request this answer, and none that is newer. -/
def Newest (after : History κ) (call : κ) (item : MutableItem) : Prop :=
  Told after call item ∧ ∀ other, Told after call other → other.seq ≤ item.seq

/-- Within the events `after`, a request ended that had looked the key up; `told` is what
came between. -/
def Overlaps (t after : History κ) (call : κ) (key : PkarrKey) (ended : Instant)
    (told : History κ) : Prop :=
  ∃ before out rest, t = before ++ ((ended, .serve call), out) :: rest ∧
    ((ended, .serve call), out) :: rest <:+ after ∧ LookedUp before call key told

/-- What Mainline tells a request is as new as what it told those that ended since the request
looked, if their answers may still be cached; and no newer if it may not be cached itself. -/
def ToldAlike (dns : Dns Name) (t : History κ) (x : Instant × Event κ) : Prop :=
  ∀ call key after item packet, x.2 = .serve call → LookedUp t call key after →
    Newest after call item → dns.parse item.value = some packet →
      ∀ call' ended told item' packet', Overlaps t after call' key ended told →
        Newest told call' item' → dns.parse item'.value = some packet' →
          PkarrCache.ttlOf packet' ≠ 0 → x.1 < ended + PkarrCache.ttlOf packet' →
            item'.seq ≤ item.seq ∧ (PkarrCache.ttlOf packet = 0 → item.seq ≤ item'.seq)

/-- What a request has read is the newest of its answers. -/
def Holds (after : History κ) (call : κ) : PkarrRequest → Prop
  | .resolving _ _ none => ∀ item, ¬ Told after call item
  | .resolving _ _ (some (best, _)) => Newest after call best
  | .resolved _ item => Newest after call item

section Enabled

variable {g : PkarrGateway κ} {e : Event κ} {r : PkarrRequest} {now : Instant} {call : κ}
  {key : PkarrKey}

omit [DecidableEq κ] in
theorem enabled_redirect (hnow : g.now ≤ now) (hcall : g.requests call = none) :
    g.Enabled (now, .redirect call key) := by
  refine ⟨hnow, ?_⟩
  rw [Event.call, hcall]
  exact ⟨call, key, rfl⟩

omit [DecidableEq κ] in
theorem enabled_of_may (hnow : g.now ≤ now) (hr : g.requests e.call = some r)
    (hmay : May r now e) : g.Enabled (now, e) := by
  refine ⟨hnow, ?_⟩
  rw [hr]
  exact hmay

end Enabled

/-! ## What a step does to the cache -/

section Step

variable {dns : Dns Name} {g : PkarrGateway κ} {x : Instant × Event κ} {key : PkarrKey}
  {call : κ} {item : MutableItem} {expires now : Instant} {r : PkarrRequest}

/-- A request that finds an item finds the cached one, which has not expired; a request
that finds none leaves none. -/
theorem get_spec (cache : PkarrCache) (key : PkarrKey) (now : Instant) :
    (∀ key' e, (cache.get key now).1.peek key' = some e → cache.peek key' = some e) ∧
      match (cache.get key now).2 with
      | some item => ∃ expires, cache.peek key = some (expires, item) ∧ now < expires ∧
          (cache.get key now).1.peek key = some (expires, item)
      | none => (cache.get key now).1.peek key = none := by
  rw [PkarrCache.get]
  by_cases hexpired : ∃ e ∈ cache.peek key, e.1 ≤ now
  · simp only [if_pos hexpired, LruCache.peek_get, LruCache.snd_get, LruCache.peek_pop_self,
      Option.map_none]
    refine ⟨fun key' e h => ?_, trivial⟩
    by_cases heq : key' = key
    · rw [heq, LruCache.peek_pop_self] at h
      cases h
    · rwa [LruCache.peek_pop_of_ne heq] at h
  · simp only [if_neg hexpired, LruCache.peek_get, LruCache.snd_get]
    refine ⟨fun _ _ h => h, ?_⟩
    cases hpeek : cache.peek key with
    | none => rfl
    | some e =>
      refine ⟨e.1, rfl, ?_, rfl⟩
      rw [not_exists] at hexpired
      exact not_le.mp fun hle => hexpired e ⟨hpeek, hle⟩

/-- What a step can do to the cache and the requests. -/
inductive Effect (dns : Dns Name) (g : PkarrGateway κ) (x : Instant × Event κ)
    (pkarr : PkarrCache) (requests : κ → Option PkarrRequest) : Option Answer → Prop where
  /-- A request finds a cached item. -/
  | found {call : κ} {key : PkarrKey} {item : MutableItem} {expires : Instant}
      (hx : x.2 = .redirect call key) (hcached : g.pkarr.peek key = some (expires, item))
      (hfresh : x.1 < expires)
      (hpeek : ∀ key' e, pkarr.peek key' = some e → g.pkarr.peek key' = some e)
      (hkept : pkarr.peek key = some (expires, item)) (hrequests : requests = g.requests) :
      Effect dns g x pkarr requests (some ((decode dns item).map fun _ => item))
  /-- A request finds none, and asks Mainline. -/
  | missed {call : κ} {key : PkarrKey} (hx : x.2 = .redirect call key)
      (hpeek : ∀ key' e, pkarr.peek key' = some e → g.pkarr.peek key' = some e)
      (hnone : pkarr.peek key = none)
      (hrequests : requests = Function.update g.requests call (some (.resolving key x.1 none))) :
      Effect dns g x pkarr requests none
  /-- A request reads answers. -/
  | reads {r : PkarrRequest} (r' : PkarrRequest) (hx : ∀ call key, x.2 ≠ .redirect call key)
      (hr : g.requests x.2.call = some r) (hkey : r'.key = r.key)
      (hholds : ∀ after out, Holds after x.2.call r → Holds (after ++ [(x, out)]) x.2.call r')
      (hpkarr : pkarr = g.pkarr)
      (hrequests : requests = Function.update g.requests x.2.call (some r')) :
      Effect dns g x pkarr requests none
  /-- A request ends without an item. -/
  | stops (error : Option HttpError) (hx : ∀ call key, x.2 ≠ .redirect call key)
      (hpkarr : pkarr = g.pkarr)
      (hrequests : requests = Function.update g.requests x.2.call none) :
      Effect dns g x pkarr requests (error.map .error)
  /-- A request serves its item. -/
  | serves {call : κ} {key : PkarrKey} {item : MutableItem} {packet : Dns.Packet Name}
      (hx : x.2 = .serve call) (hr : g.requests call = some (.resolved key item))
      (hparse : dns.parse item.value = some packet)
      (hpkarr : pkarr = g.pkarr.insert key item packet x.1)
      (hrequests : requests = Function.update g.requests call none) :
      Effect dns g x pkarr requests (some (.ok item))
  /-- Nothing happens. -/
  | idle (hx : ∀ call key, x.2 ≠ .redirect call key)
      (hanswer : g.Enabled x → ∀ call item, x.2 ≠ .answer call item) (hpkarr : pkarr = g.pkarr)
      (hrequests : requests = g.requests) : Effect dns g x pkarr requests none

theorem lookUp_effect (dns : Dns Name) (g : PkarrGateway κ) (call : κ) (key : PkarrKey)
    (now : Instant) :
    Effect dns g (now, .redirect call key) (lookUp dns g call key now).1.pkarr
      (lookUp dns g call key now).1.requests (lookUp dns g call key now).2 := by
  obtain ⟨hpeek, hget⟩ := get_spec g.pkarr key now
  rw [lookUp]
  cases hitem : (g.pkarr.get key now).2 with
  | none =>
    rw [hitem] at hget
    simp only
    exact .missed rfl hpeek hget rfl
  | some item =>
    rw [hitem] at hget
    obtain ⟨expires, hcached, hfresh, hkept⟩ := hget
    simp only
    exact .found rfl hcached hfresh hpeek hkept rfl

omit [DecidableEq κ] in
theorem told_concat {after : History κ} {out : Option Answer} :
    Told (after ++ [(x, out)]) call item ↔ Told after call item ∨ x.2 = .answer call item := by
  refine ⟨?_, ?_⟩
  · rintro ⟨now, out', hmem⟩
    rcases List.mem_append.mp hmem with hmem | hmem
    · exact .inl ⟨now, out', hmem⟩
    · cases List.mem_singleton.mp hmem
      exact .inr rfl
  · rintro (⟨now, out', hmem⟩ | hx)
    · exact ⟨now, out', List.mem_append_left _ hmem⟩
    · exact ⟨x.1, out, List.mem_append_right _ (List.mem_singleton.mpr (by rw [← hx]))⟩

omit [DecidableEq κ] in
/-- What is no answer to the request tells it nothing. -/
theorem Holds.concat {after : History κ} {out : Option Answer} (h : Holds after call r)
    (hx : ∀ item, x.2 ≠ .answer call item) : Holds (after ++ [(x, out)]) call r := by
  have htold (item : MutableItem) : Told (after ++ [(x, out)]) call item ↔ Told after call item :=
    told_concat.trans (or_iff_left (hx item))
  have hnewest {item : MutableItem} (h : Newest after call item) :
      Newest (after ++ [(x, out)]) call item :=
    ⟨(htold item).mpr h.1, fun other hother => h.2 other ((htold other).mp hother)⟩
  match r with
  | .resolving _ _ none => exact fun item hitem => h item ((htold item).mp hitem)
  | .resolving _ _ (some _) => exact hnewest h
  | .resolved _ _ => exact hnewest h

omit [DecidableEq κ] in
/-- One more answer leaves a request for the same key, which has read the newest one. -/
theorem readAnswer_spec {started : Instant} {newest : Option (MutableItem × Instant)}
    (h : readAnswer key started newest item now = .ok r) :
    r.key = key ∧ ∀ (call : κ) after out, Holds after call (.resolving key started newest) →
      Holds (after ++ [((now, .answer call item), out)]) call r := by
  rw [readAnswer] at h
  cases hverified : verified item key with
  | error error =>
    rw [hverified] at h
    cases h
  | ok item' =>
    obtain rfl : item' = item := by
      rw [verified] at hverified
      split at hverified
      · cases hverified
      · exact (Except.ok.inj hverified).symm
    rw [hverified] at h
    cases newest with
    | none =>
      cases h
      refine ⟨rfl, fun call after out hholds => ⟨told_concat.mpr (.inr rfl), ?_⟩⟩
      intro other hother
      rcases told_concat.mp hother with htold | hx
      · exact absurd htold (hholds other)
      · cases hx
        exact le_rfl
    | some newest =>
      cases h
      refine ⟨rfl, fun call after out hholds => ?_⟩
      obtain ⟨hbest, hall⟩ : Newest after call newest.1 := hholds
      simp only [Holds]
      split
      · rename_i hlt
        refine ⟨told_concat.mpr (.inr rfl), fun other hother => ?_⟩
        rcases told_concat.mp hother with htold | hx
        · exact (hall other htold).trans hlt.le
        · cases hx
          exact le_rfl
      · rename_i hge
        refine ⟨told_concat.mpr (.inl hbest), fun other hother => ?_⟩
        rcases told_concat.mp hother with htold | hx
        · exact hall other htold
        · cases hx
          exact not_lt.mp hge

/-- An event of a request that found no cached item. -/
theorem advance_effect (dns : Dns Name) (hr : g.requests x.2.call = some r)
    (hx : ∀ call key, x.2 ≠ .redirect call key) :
    Effect dns g x (advance dns g r x.1 x.2).1.pkarr (advance dns g r x.1 x.2).1.requests
      (advance dns g r x.1 x.2).2 := by
  obtain ⟨now, e⟩ := x
  have hread {r' : PkarrRequest} (hanswer : ∀ call item, e ≠ .answer call item)
      (hr' : ∀ after, Holds after e.call r → Holds after e.call r') (after : History κ)
      (out : Option Answer) (h : Holds after e.call r) :
      Holds (after ++ [((now, e), out)]) e.call r' :=
    (hr' after h).concat (hanswer e.call)
  cases e with
  | redirect call key => exact absurd rfl (hx call key)
  | failed call => exact .stops (some _) hx rfl rfl
  | elapsed call => exact .stops (some _) hx rfl rfl
  | dropped call => exact .stops none hx rfl rfl
  | answer call item =>
    cases r with
    | resolved key' item' =>
      refine .idle hx (fun hen => ?_) rfl rfl
      -- a request that has an item reads no more answers
      obtain ⟨-, hmay⟩ := hen
      rw [hr] at hmay
      obtain ⟨_, _, _, heq⟩ := hmay
      cases heq
    | resolving key started newest =>
      simp only [advance]
      cases hanswer : readAnswer key started newest item now with
      | error error => exact .stops (some _) hx rfl rfl
      | ok r' =>
        obtain ⟨hkey, hholds⟩ := readAnswer_spec hanswer
        exact .reads r' hx hr hkey (hholds call) rfl rfl
  | ended call =>
    cases r with
    | resolved key item => exact .idle hx (fun _ => nofun) rfl rfl
    | resolving key started newest =>
      cases newest with
      | none => exact .stops (some _) hx rfl rfl
      | some newest =>
        exact .reads (.resolved key newest.1) hx hr rfl (hread nofun fun _ h => h) rfl rfl
  | graceOver call =>
    cases r with
    | resolved key item => exact .idle hx (fun _ => nofun) rfl rfl
    | resolving key started newest =>
      cases newest with
      | none => exact .idle hx (fun _ => nofun) rfl rfl
      | some newest =>
        exact .reads (.resolved key newest.1) hx hr rfl (hread nofun fun _ h => h) rfl rfl
  | serve call =>
    cases r with
    | resolving key started newest => exact .idle hx (fun _ => nofun) rfl rfl
    | resolved key item =>
      cases hparse : dns.parse item.value with
      | none =>
        simp only [advance, decode, hparse]
        exact .stops (some _) hx rfl rfl
      | some packet =>
        simp only [advance, decode, hparse]
        exact .serves rfl hr hparse rfl rfl

theorem step_effect (dns : Dns Name) (g : PkarrGateway κ) (x : Instant × Event κ) :
    Effect dns g x (g.step dns x).1.pkarr (g.step dns x).1.requests (g.step dns x).2 := by
  rw [step]
  by_cases hredirect : ∃ call key, x.2 = .redirect call key
  · obtain ⟨now, e⟩ := x
    obtain ⟨call, key, rfl⟩ := hredirect
    exact lookUp_effect dns g call key now
  · have hx : ∀ call key, x.2 ≠ .redirect call key :=
      fun call key h => hredirect ⟨call, key, h⟩
    have hact : g.act dns x.1 x.2 = match g.requests x.2.call with
        | none => (g, none)
        | some r => advance dns g r x.1 x.2 := by
      obtain ⟨now, e⟩ := x
      cases e with
      | redirect call key => exact absurd rfl (hx call key)
      | _ => rfl
    rw [hact]
    cases hr : g.requests x.2.call with
    | none =>
      refine .idle hx (fun hen => ?_) rfl rfl
      obtain ⟨-, hmay⟩ := hen
      rw [hr] at hmay
      obtain ⟨call, key, hredirect⟩ := hmay
      exact absurd hredirect (hx call key)
    | some r => exact advance_effect dns hr hx

/-- An item in the cache after an insertion was there before, or is the new one. -/
theorem peek_insert {cache : PkarrCache} {key' : PkarrKey} {item' : MutableItem}
    {packet : Dns.Packet Name}
    (h : (cache.insert key' item' packet now).peek key = some (expires, item)) :
    cache.peek key = some (expires, item) ∧ (key = key' → PkarrCache.ttlOf packet = 0) ∨
      key = key' ∧ item = item' ∧ PkarrCache.ttlOf packet ≠ 0 ∧
        expires = now + PkarrCache.ttlOf packet := by
  rw [PkarrCache.insert] at h
  split at h
  · rename_i hzero
    exact .inl ⟨h, fun _ => hzero⟩
  · rename_i httl
    by_cases hkey : key = key'
    · subst hkey
      have hroom := LruCache.capacity_pos h
      rw [LruCache.capacity_put] at hroom
      rw [LruCache.peek_put_self _ _ hroom] at h
      cases h
      exact .inr ⟨rfl, rfl, httl, rfl⟩
    · exact .inl ⟨LruCache.peek_of_put hkey h, fun heq => absurd heq hkey⟩

/-- An item in the cache was there before, or a request has just cached and served it. -/
theorem peek_step (h : (g.step dns x).1.pkarr.peek key = some (expires, item)) :
    g.pkarr.peek key = some (expires, item) ∨
      ∃ call packet, x.2 = .serve call ∧ g.requests call = some (.resolved key item) ∧
        dns.parse item.value = some packet ∧ PkarrCache.ttlOf packet ≠ 0 ∧
          expires = x.1 + PkarrCache.ttlOf packet ∧ (g.step dns x).2 = some (.ok item) := by
  have heffect := step_effect dns g x
  generalize (g.step dns x).1.pkarr = pkarr at h heffect
  generalize (g.step dns x).2 = out at heffect ⊢
  cases heffect with
  | found _ _ _ hpeek => exact .inl (hpeek _ _ h)
  | missed _ hpeek => exact .inl (hpeek _ _ h)
  | reads _ _ _ _ _ hpkarr => exact .inl (hpkarr ▸ h)
  | stops _ _ hpkarr => exact .inl (hpkarr ▸ h)
  | idle _ _ hpkarr => exact .inl (hpkarr ▸ h)
  | @serves call key' item' packet hx hr hparse hpkarr =>
    rw [hpkarr] at h
    rcases peek_insert h with ⟨hold, -⟩ | ⟨rfl, rfl, httl, hexpires⟩
    · exact .inl hold
    · exact .inr ⟨call, packet, hx, hr, hparse, httl, hexpires, rfl⟩

/-- A request was there before, and has read the newest of its answers if it had; or it has
just looked its key up and found nothing. -/
theorem requests_step (hen : g.Enabled x) (h : (g.step dns x).1.requests call = some r) :
    (∃ r₀, g.requests call = some r₀ ∧ r.key = r₀.key ∧ (∀ key, x.2 ≠ .redirect call key) ∧
        ∀ after out, Holds after call r₀ → Holds (after ++ [(x, out)]) call r) ∨
      x.2 = .redirect call r.key ∧ r = .resolving r.key x.1 none ∧
        (g.step dns x).1.pkarr.peek r.key = none := by
  have hother {call' : κ} {key : PkarrKey} {r₀ : PkarrRequest} (hr₀ : g.requests call' = some r₀) :
      x.2 ≠ .redirect call' key := by
    intro hx
    have hmay := hen.2
    rw [hx, Event.call, hr₀] at hmay
    exact hmay
  have hkeep (h : g.requests call = some r) (hx : ∀ item, x.2 ≠ .answer call item) :
      ∃ r₀, g.requests call = some r₀ ∧ r.key = r₀.key ∧ (∀ key, x.2 ≠ .redirect call key) ∧
        ∀ after out, Holds after call r₀ → Holds (after ++ [(x, out)]) call r :=
    ⟨r, h, rfl, fun key => hother h, fun after out hholds => hholds.concat hx⟩
  have hcall {call' : κ} (hne : call ≠ call') (hx : x.2.call = call') (item : MutableItem) :
      x.2 ≠ .answer call item := by
    intro hanswer
    rw [hanswer] at hx
    exact hne hx
  have heffect := step_effect dns g x
  generalize (g.step dns x).1.pkarr = pkarr at heffect ⊢
  generalize (g.step dns x).1.requests = requests at h heffect
  generalize (g.step dns x).2 = out at heffect
  cases heffect with
  | found hx _ _ _ _ hrequests => exact .inl (hkeep (hrequests ▸ h) (by simp [hx]))
  | @missed call' key' hx _ hnone hrequests =>
    rw [hrequests, Function.update_apply] at h
    split at h
    · rename_i heq
      cases h
      subst heq
      exact .inr ⟨hx, rfl, hnone⟩
    · exact .inl (hkeep h (by simp [hx]))
  | @reads r₀ r' hx hr hkey hholds _ hrequests =>
    rw [hrequests, Function.update_apply] at h
    split at h
    · rename_i heq
      cases h
      subst heq
      exact .inl ⟨r₀, hr, hkey, fun key => hother hr, hholds⟩
    · rename_i hne
      exact .inl (hkeep h (hcall hne rfl))
  | stops _ _ _ hrequests =>
    rw [hrequests, Function.update_apply] at h
    split at h
    · cases h
    · rename_i hne
      exact .inl (hkeep h (hcall hne rfl))
  | serves hx _ _ _ hrequests =>
    rw [hrequests, Function.update_apply] at h
    split at h
    · cases h
    · exact .inl (hkeep h (by simp [hx]))
  | idle _ hanswer _ hrequests =>
    exact .inl (hkeep (hrequests ▸ h) fun item => hanswer hen call item)

end Step

/-! ## Whole runs -/

section Runs

variable {dns : Dns Name} {t : History κ} {g : PkarrGateway κ} {x : Instant × Event κ}
  {key : PkarrKey} {call : κ} {item cached : MutableItem} {expires : Instant}

omit [DecidableEq κ] in
/-- A look-up stays the last one of its request until the next one. -/
theorem LookedUp.concat {after : History κ} {y : (Instant × Event κ) × Option Answer}
    (h : LookedUp t call key after) (hy : ∀ key', y.1.2 ≠ .redirect call key') :
    LookedUp (t ++ [y]) call key (after ++ [y]) := by
  obtain ⟨before, x, rfl, hx, hafter⟩ := h
  refine ⟨before, x, by simp, hx, ?_⟩
  rw [List.forall_mem_append, List.forall_mem_singleton]
  exact ⟨hafter, hy⟩

omit [DecidableEq κ] in
theorem Overlaps.concat {after told : History κ} {ended : Instant}
    (h : Overlaps t after call key ended told) (y : (Instant × Event κ) × Option Answer) :
    Overlaps (t ++ [y]) (after ++ [y]) call key ended told := by
  obtain ⟨before, out, rest, rfl, ⟨mid, rfl⟩, hlooked⟩ := h
  exact ⟨before, out, rest ++ [y], by simp, ⟨mid, by simp⟩, hlooked⟩

/-- The item is the newest answer of a request that ended within the events `after`. -/
def CachedSince (dns : Dns Name) (t after : History κ) (key : PkarrKey) (expires : Instant)
    (item : MutableItem) : Prop :=
  ∃ call ended told packet, Overlaps t after call key ended told ∧ Newest told call item ∧
    dns.parse item.value = some packet ∧ PkarrCache.ttlOf packet ≠ 0 ∧
      expires = ended + PkarrCache.ttlOf packet

omit [DecidableEq κ] in
theorem CachedSince.concat {after : History κ} (h : CachedSince dns t after key expires item)
    (y : (Instant × Event κ) × Option Answer) :
    CachedSince dns (t ++ [y]) (after ++ [y]) key expires item := by
  obtain ⟨call, ended, told, packet, hoverlaps, h⟩ := h
  exact ⟨call, ended, told, packet, hoverlaps.concat y, h⟩

/-- What the requests know: each has read the newest of its answers, and what is cached for
its key was cached since it looked. -/
def Inv (dns : Dns Name) (t : History κ) (g : PkarrGateway κ) : Prop :=
  ∀ call r, g.requests call = some r → ∃ after, LookedUp t call r.key after ∧
    Holds after call r ∧ ∀ expires item, g.pkarr.peek r.key = some (expires, item) →
      CachedSince dns t after r.key expires item

theorem inv_step (h : Inv dns t g) (hen : g.Enabled x) :
    Inv dns (t ++ [(x, (g.step dns x).2)]) (g.step dns x).1 := by
  intro call r hr
  rcases requests_step hen hr with ⟨r₀, hr₀, hkey, hother, hholds⟩ | ⟨hx, hnew, hnone⟩
  · obtain ⟨after, hlooked, hread, hcached⟩ := h call r₀ hr₀
    rw [hkey]
    refine ⟨after ++ [(x, (g.step dns x).2)], hlooked.concat hother, hholds _ _ hread, ?_⟩
    intro expires item hpeek
    rcases peek_step hpeek with hold | ⟨call', packet, hx, hr', hparse, httl, hexpires, -⟩
    · exact (hcached expires item hold).concat _
    · -- the newest answer of another request has just been cached
      obtain ⟨told, hlooked', hnewest, -⟩ := h call' _ hr'
      obtain ⟨now, e⟩ := x
      obtain rfl : e = .serve call' := hx
      exact ⟨call', now, told, packet, ⟨t, _, [], rfl, List.suffix_append _ _, hlooked'⟩, hnewest,
        hparse, httl, hexpires⟩
  · refine ⟨[], ⟨t, _, rfl, hx, nofun⟩, ?_, fun expires item hpeek => ?_⟩
    · rw [hnew]
      rintro item ⟨now, out, hmem⟩
      cases hmem
    · rw [hnone] at hpeek
      cases hpeek

theorem inv_run (h : (machine dns).Run t g) : Inv dns t g := by
  refine h.invariant (I := Inv dns) ?_ fun t g x _ hen hinv => inv_step hinv hen
  rintro g ⟨-, hnone⟩ call r hr
  rw [hnone] at hr
  cases hr

/-- The step serves an item for a key. -/
def Serves (dns : Dns Name) (g : PkarrGateway κ) (x : Instant × Event κ) (key : PkarrKey)
    (item : MutableItem) : Prop :=
  (g.step dns x).2 = some (.ok item) ∧
    ((∃ call, x.2 = .redirect call key) ∨
      ∃ call item', x.2 = .serve call ∧ g.requests call = some (.resolved key item'))

omit [DecidableEq κ] in
/-- A request that serves an item of its own was told as new a one as is cached. -/
theorem newest_of_resolved (h : Inv dns t g) (htold : ToldAlike dns t x)
    {packet : Dns.Packet Name} (hx : x.2 = .serve call)
    (hr : g.requests call = some (.resolved key item)) (hparse : dns.parse item.value = some packet)
    (hcached : g.pkarr.peek key = some (expires, cached)) (hfresh : x.1 < expires) :
    cached.seq ≤ item.seq ∧ (PkarrCache.ttlOf packet = 0 → item.seq ≤ cached.seq) := by
  obtain ⟨after, hlooked, hnewest, hsince⟩ := h call _ hr
  obtain ⟨call', ended, told, packet', hoverlaps, hnewest', hparse', httl, rfl⟩ :=
    hsince expires cached hcached
  exact htold call key after item packet hx hlooked hnewest hparse call' ended told cached packet'
    hoverlaps hnewest' hparse' httl hfresh

/-- No cached item is replaced by an older one before it expires. -/
theorem cached_ascends (h : Inv dns t g) (htold : ToldAlike dns t x)
    (hcached : g.pkarr.peek key = some (expires, cached)) (hfresh : x.1 < expires)
    {expires' : Instant} (hnext : (g.step dns x).1.pkarr.peek key = some (expires', item)) :
    cached.seq ≤ item.seq := by
  rcases peek_step hnext with hold | ⟨call, packet, hx, hr, hparse, -⟩
  · rw [hcached] at hold
    cases hold
    exact le_rfl
  · exact (newest_of_resolved h htold hx hr hparse hcached hfresh).1

/-- What is served is as new as the cached item, and what is cached then is as new as what
was served. -/
theorem served_cached (h : Inv dns t g) (htold : ToldAlike dns t x)
    (hserves : Serves dns g x key item) :
    (∀ expires cached, g.pkarr.peek key = some (expires, cached) → x.1 < expires →
        cached.seq ≤ item.seq) ∧
      ∀ expires cached, (g.step dns x).1.pkarr.peek key = some (expires, cached) → x.1 < expires →
        item.seq ≤ cached.seq := by
  obtain ⟨hout, hkind⟩ := hserves
  have heffect := step_effect dns g x
  generalize (g.step dns x).1.pkarr = pkarr at heffect ⊢
  generalize (g.step dns x).1.requests = requests at heffect
  generalize (g.step dns x).2 = out at heffect hout
  cases heffect with
  | missed => cases hout
  | reads => cases hout
  | idle => cases hout
  | stops error =>
    cases error with
    | none => cases hout
    | some error => cases hout
  | @found call key' item' expires hx hcached hfresh _ hkept =>
    -- what is served is the cached item
    obtain rfl : key' = key := by
      rcases hkind with ⟨_, hx'⟩ | ⟨_, _, hx', -⟩
      · cases hx.symm.trans hx'
        rfl
      · cases hx.symm.trans hx'
    obtain rfl : item' = item := by
      cases hdecode : decode dns item' with
      | error error =>
        rw [hdecode] at hout
        cases hout
      | ok packet =>
        rw [hdecode] at hout
        cases hout
        rfl
    refine ⟨fun expires' cached hpeek _ => ?_, fun expires' cached hpeek _ => ?_⟩
    · rw [hcached] at hpeek
      cases hpeek
      exact le_rfl
    · rw [hkept] at hpeek
      cases hpeek
      exact le_rfl
  | @serves call key' item' packet hx hr hparse hpkarr =>
    -- it is an item of the request's own
    cases hout
    obtain rfl : key' = key := by
      rcases hkind with ⟨_, hx'⟩ | ⟨_, _, hx', hr'⟩
      · cases hx.symm.trans hx'
      · cases hx.symm.trans hx'
        cases hr.symm.trans hr'
        rfl
    refine ⟨fun expires cached hpeek hfresh => ?_, fun expires cached hpeek hfresh => ?_⟩
    · exact (newest_of_resolved h htold hx hr hparse hpeek hfresh).1
    · rw [hpkarr] at hpeek
      rcases peek_insert hpeek with ⟨hold, hzero⟩ | ⟨-, rfl, -⟩
      · exact (newest_of_resolved h htold hx hr hparse hold hfresh).2 (hzero rfl)
      · exact le_rfl

/-- A sequence was served for the key, and the key has been cached since. -/
inductive ServedSince (dns : Dns Name) (M : Machine (PkarrGateway κ) (Instant × Event κ)
    (Option Answer)) (key : PkarrKey) (seq : ℤ) : History κ → PkarrGateway κ → Prop where
  /-- it is served now -/
  | serves {t : History κ} {g : PkarrGateway κ} {x : Instant × Event κ} {item : MutableItem}
      (hrun : M.Run t g) (hen : M.enabled t g x) (hserves : Serves dns g x key item)
      (hseq : item.seq = seq) :
      ServedSince dns M key seq (t ++ [(x, (M.step g x).2)]) (M.step g x).1
  /-- it was served before, and the cached item has not expired -/
  | stays {t : History κ} {g : PkarrGateway κ} {x : Instant × Event κ} {expires : Instant}
      {cached : MutableItem} (hserved : ServedSince dns M key seq t g) (hen : M.enabled t g x)
      (hcached : g.pkarr.peek key = some (expires, cached)) (hfresh : x.1 < expires) :
      ServedSince dns M key seq (t ++ [(x, (M.step g x).2)]) (M.step g x).1

/-- The runs in which Mainline tells the requests alike that overlap. -/
def alike (dns : Dns Name) : Machine (PkarrGateway κ) (Instant × Event κ) (Option Answer) :=
  (machine dns).restrict fun t _ x => ToldAlike dns t x

theorem ServedSince.run {M : Machine (PkarrGateway κ) (Instant × Event κ) (Option Answer)}
    {seq : ℤ} (h : ServedSince dns M key seq t g) : M.Run t g := by
  induction h with
  | serves hrun hen => exact hrun.step hen
  | stays _ hen _ _ ih => exact ih.step hen

/-- What is cached is as new as what was served. -/
theorem ServedSince.le_cached {seq : ℤ} (h : ServedSince dns (alike dns) key seq t g)
    (hcached : g.pkarr.peek key = some (expires, cached)) (hfresh : g.now < expires) :
    seq ≤ cached.seq := by
  induction h generalizing expires cached with
  | serves hrun hen hserves hseq =>
    rw [← hseq]
    exact (served_cached (inv_run hrun.of_restrict) hen.2 hserves).2 expires cached hcached hfresh
  | @stays t g x expires₀ cached₀ hserved hen hcached₀ hfresh₀ ih =>
    exact (ih hcached₀ (hen.1.1.trans_lt hfresh₀)).trans
      (cached_ascends (inv_run hserved.run.of_restrict) hen.2 hcached₀ hfresh₀ hcached)

/-- If Mainline tells the requests alike that overlap, a cached item is not replaced by an older one
before it expires, and as long as the key is cached, no older item is served for it than
was served before. -/
theorem cache_ascends (h : (alike dns).Run t g) (hen : (alike dns).enabled t g x) :
    (∀ key expires cached expires' item, g.pkarr.peek key = some (expires, cached) →
        x.1 < expires → (g.step dns x).1.pkarr.peek key = some (expires', item) →
          cached.seq ≤ item.seq) ∧
      ∀ key seq expires cached item, ServedSince dns (alike dns) key seq t g →
        g.pkarr.peek key = some (expires, cached) → x.1 < expires →
          Serves dns g x key item → seq ≤ item.seq := by
  have hinv := inv_run h.of_restrict
  refine ⟨fun key expires cached expires' item hcached hfresh hnext => ?_, ?_⟩
  · exact cached_ascends hinv hen.2 hcached hfresh hnext
  · intro key seq expires cached item hserved hcached hfresh hserves
    calc
      seq ≤ cached.seq := hserved.le_cached hcached (hen.1.1.trans_lt hfresh)
      _ ≤ item.seq := (served_cached hinv hen.2 hserves).1 expires cached hcached hfresh

omit [DecidableEq κ] in
theorem LookedUp.subset {after : History κ} (h : LookedUp t call key after) : after ⊆ t := by
  obtain ⟨before, y, rfl, -⟩ := h
  exact fun z hz => List.mem_append_right _ (List.mem_cons_of_mem _ hz)

omit [DecidableEq κ] in
theorem Overlaps.subset {after told : History κ} {ended : Instant}
    (h : Overlaps t after call key ended told) : told ⊆ t := by
  obtain ⟨before, out, rest, rfl, -, hlooked⟩ := h
  exact fun z hz => List.mem_append_left _ (hlooked.subset hz)

omit [DecidableEq κ] in
/-- There is nothing to compare if no other request has ended since the request looked. -/
theorem toldAlike_of_alone
    (h : ∀ call key after, x.2 = .serve call → LookedUp t call key after →
      ∀ y ∈ after, ∀ call', y.1.2 ≠ .serve call') : ToldAlike dns t x := by
  intro call key after item packet hx hlooked _ _ call' ended told item' packet' hoverlaps
  obtain ⟨before, out, rest, -, hsuffix, -⟩ := hoverlaps
  exact absurd rfl (h call key after hx hlooked _ (hsuffix.subset List.mem_cons_self) call')

omit [DecidableEq κ] in
theorem toldAlike_of_unserved (h : ∀ y ∈ t, ∀ call, y.1.2 ≠ .serve call) : ToldAlike dns t x := by
  apply toldAlike_of_alone
  intro call key after _ hlooked y hy
  exact h y (hlooked.subset hy)

end Runs

namespace Sample

/-- A packet with one record: `example.com` is an alias of `target.example`. -/
def packet : Dns.Packet Str :=
  ⟨[⟨"example.com".toList, .IN, 300, .HTTPS ⟨0, "target.example".toList, []⟩⟩]⟩

/-- Its bytes. -/
def wire : List UInt8 :=
  [0, 0, 0x80, 0, 0, 0, 0, 1, 0, 0, 0, 0,
    7, 101, 120, 97, 109, 112, 108, 101, 3, 99, 111, 109, 0, 0, 65, 0, 1, 0, 0, 1, 44, 0, 18,
    0, 0, 6, 116, 97, 114, 103, 101, 116, 7, 101, 120, 97, 109, 112, 108, 101, 0]

/-- What the crate does with this packet. -/
def dns : Dns Str where
  newName := some
  toStr := id
  parse bytes := if bytes = wire then some packet else none
  build p := if p = packet then some wire else none

def key : PkarrKey := .replicate 32 9

/-- A record, and a newer one. -/
def stale : MutableItem := ⟨key, 100, wire, none⟩

def current : MutableItem := ⟨key, 200, wire, none⟩

def start : PkarrGateway ℕ := ⟨0, .new PACKET_SLOTS, fun _ => none⟩

abbrev Input : Type := Instant × Event ℕ

def MILLI : ℕ := 10 ^ 6

/-- Two requests overlap. The slower one is told of the old record first, and then of the new one
too. -/
def inputs : List Input :=
  [(0, .redirect 1 key), (0, .redirect 2 key), (20 * MILLI, .answer 2 current),
    (100 * MILLI, .answer 1 stale), (120 * MILLI, .answer 1 current), (320 * MILLI, .graceOver 2),
    (320 * MILLI, .serve 2), (400 * MILLI, .graceOver 1)]

/-- Both are told of the new record. -/
theorem toldAlike {t : History ℕ} (ht : t.map Prod.fst = inputs) {now : Instant} :
    ToldAlike dns t (now, .serve 1) := by
  have hitems {after : History ℕ} (hsub : after ⊆ t) {call : ℕ} {item : MutableItem}
      (htold : Told after call item) : item = current ∨ item = stale := by
    obtain ⟨now, out, hmem⟩ := htold
    have hevent : (now, Event.answer call item) ∈ inputs :=
      ht ▸ List.mem_map_of_mem (f := Prod.fst) (hsub hmem)
    simp only [inputs, List.mem_cons, Prod.mk.injEq, reduceCtorEq, and_false, Event.answer.injEq,
      List.not_mem_nil, or_false, false_or] at hevent
    rcases hevent with ⟨-, -, rfl⟩ | ⟨-, -, rfl⟩ | ⟨-, -, rfl⟩
    · exact .inl rfl
    · exact .inr rfl
    · exact .inl rfl
  intro call key' after item packet hx hlooked hnewest hparse call' ended told item' packet'
    hoverlaps hnewest' _ _ _
  obtain rfl := Event.serve.inj hx
  have hcurrent : Told after 1 current := by
    obtain ⟨before, y, rfl, hy, -⟩ := hlooked
    rw [List.map_append, List.map_cons] at ht
    cases before with
    | nil =>
      obtain ⟨-, hafter⟩ := List.cons.inj ht
      have hmem : (120 * MILLI, Event.answer 1 current) ∈ after.map Prod.fst := by
        rw [hafter]
        simp
      obtain ⟨⟨_, out⟩, hmem, rfl⟩ := List.mem_map.mp hmem
      exact ⟨_, out, hmem⟩
    | cons z before =>
      -- the first request looks up only once
      have hrest : before.map Prod.fst ++ y.1 :: after.map Prod.fst = inputs.tail :=
        (List.cons.inj ht).2
      have hmem : y.1 ∈ inputs.tail :=
        hrest ▸ List.mem_append_right _ List.mem_cons_self
      obtain ⟨⟨at', e⟩, out⟩ := y
      simp only at hy
      subst hy
      simp [inputs] at hmem
  have hle := hnewest.2 current hcurrent
  rcases hitems hlooked.subset hnewest.1 with rfl | rfl
  · refine ⟨?_, fun hzero => ?_⟩
    · rcases hitems hoverlaps.subset hnewest'.1 with rfl | rfl
      · exact le_rfl
      · decide
    · have hpacket : dns.parse current.value = some Sample.packet := by decide +kernel
      obtain rfl := Option.some.inj (hparse.symm.trans hpacket)
      exact absurd hzero (by decide +kernel)
  · exact absurd hle (by decide)

end Sample

open Sample in
/-- Two requests overlap, and both are told of the new record: the one that ends last does not
roll the name back. -/
theorem cache_ascends_sample : ∃ (t : History ℕ) (g : PkarrGateway ℕ) (item : MutableItem),
    ServedSince dns (alike dns) key 200 t g ∧ t.map Prod.fst = inputs ∧
      (alike dns).enabled t g (400 * MILLI, .serve 1) ∧
      g.pkarr.peek key = some (320 * MILLI + MAX_CACHE_TTL, current) ∧
      Serves dns g (400 * MILLI, .serve 1) key item ∧ 200 ≤ item.seq := by
  have h₀ : (alike dns).Run [] start := .start ⟨rfl, fun _ => rfl⟩
  have h₁ := h₀.step (a := ((0, .redirect 1 key) : Input))
    ⟨enabled_redirect (by decide) (by rfl), toldAlike_of_unserved (by simp)⟩
  have h₂ := h₁.step (a := ((0, .redirect 2 key) : Input))
    ⟨enabled_redirect (by decide) (by rfl), toldAlike_of_unserved (by simp)⟩
  have h₃ := h₂.step (a := ((20 * MILLI, .answer 2 current) : Input))
    ⟨enabled_of_may (by decide) (by rfl) (by exact ⟨_, _, _, rfl⟩),
      toldAlike_of_unserved (by simp)⟩
  have h₄ := h₃.step (a := ((100 * MILLI, .answer 1 stale) : Input))
    ⟨enabled_of_may (by decide) (by rfl) (by exact ⟨_, _, _, rfl⟩),
      toldAlike_of_unserved (by simp)⟩
  have h₅ := h₄.step (a := ((120 * MILLI, .answer 1 current) : Input))
    ⟨enabled_of_may (by decide) (by rfl) (by exact ⟨_, _, _, rfl⟩),
      toldAlike_of_unserved (by simp)⟩
  have h₆ := h₅.step (a := ((320 * MILLI, .graceOver 2) : Input))
    ⟨enabled_of_may (by decide) (by rfl) (by exact ⟨_, _, _, _, rfl, le_rfl⟩),
      toldAlike_of_unserved (by simp)⟩
  have h₇ : ServedSince dns (alike dns) key 200 _ _ :=
    .serves (x := ((320 * MILLI, .serve 2) : Input)) h₆
      ⟨enabled_of_may (by decide) (by rfl) (by exact ⟨_, _, rfl⟩),
        toldAlike_of_unserved (by simp)⟩
      (show Serves dns _ _ key current from ⟨by rfl, .inr ⟨2, current, rfl, by rfl⟩⟩) rfl
  have h₈ : ServedSince dns (alike dns) key 200 _ _ :=
    .stays (x := ((400 * MILLI, .graceOver 1) : Input)) h₇
      ⟨enabled_of_may (by decide) (by rfl) (by exact ⟨_, _, _, _, rfl, by decide⟩),
        fun _ _ _ _ _ hx => (nomatch hx)⟩
      (show (PkarrGateway.pkarr _).peek key = some (320 * MILLI + MAX_CACHE_TTL, current) from
        by decide +kernel) (by decide)
  refine ⟨_, _, current, h₈, by rfl, ?enabled, by decide +kernel, ?serves, ?ascends⟩
  case enabled =>
    exact ⟨enabled_of_may (by decide) (by rfl) (by exact ⟨_, _, rfl⟩), toldAlike (by rfl)⟩
  case serves => exact ⟨by rfl, .inr ⟨1, current, rfl, by rfl⟩⟩
  case ascends =>
    have hascends := cache_ascends h₈.run (x := ((400 * MILLI, .serve 1) : Input))
      ⟨enabled_of_may (by decide) (by rfl) (by exact ⟨_, _, rfl⟩), toldAlike (by rfl)⟩
    exact hascends.2 key 200 (320 * MILLI + MAX_CACHE_TTL) current current h₈ (by decide +kernel)
      (by decide) ⟨by rfl, .inr ⟨1, current, rfl, by rfl⟩⟩

open Sample in
/-- A slow request has read an old answer when another one caches a newer item. It caches
the old one in its place. -/
theorem cache_rolls_back :
    ¬ ∀ t (g : PkarrGateway ℕ) x, (machine dns).Run t g → g.Enabled x →
      ∀ key expires cached expires' item, g.pkarr.peek key = some (expires, cached) →
        x.1 < expires → (g.step dns x).1.pkarr.peek key = some (expires', item) →
          cached.seq ≤ item.seq := by
  intro hall
  have h₀ : (machine dns).Run [] start := .start ⟨rfl, fun _ => rfl⟩
  have h₁ := h₀.step (a := ((0, .redirect 1 key) : Input))
    (enabled_redirect (by decide) (by rfl))
  have h₂ := h₁.step (a := ((0, .redirect 2 key) : Input))
    (enabled_redirect (by decide) (by rfl))
  have h₃ := h₂.step (a := ((20 * MILLI, .answer 2 current) : Input))
    (enabled_of_may (by decide) (by rfl) (by exact ⟨_, _, _, rfl⟩))
  have h₄ := h₃.step (a := ((100 * MILLI, .answer 1 stale) : Input))
    (enabled_of_may (by decide) (by rfl) (by exact ⟨_, _, _, rfl⟩))
  have h₅ := h₄.step (a := ((320 * MILLI, .graceOver 2) : Input))
    (enabled_of_may (by decide) (by rfl) (by exact ⟨_, _, _, _, rfl, Nat.le_refl _⟩))
  have h₆ := h₅.step (a := ((320 * MILLI, .serve 2) : Input))
    (enabled_of_may (by decide) (by rfl) (by exact ⟨_, _, rfl⟩))
  have h₇ := h₆.step (a := ((400 * MILLI, .graceOver 1) : Input))
    (enabled_of_may (by decide) (by rfl) (by exact ⟨_, _, _, _, rfl, Nat.le_refl _⟩))
  have hle := hall _ _ ((400 * MILLI, .serve 1) : Input) h₇
    (enabled_of_may (by decide) (by rfl) (by exact ⟨_, _, rfl⟩)) key
    (320 * MILLI + MAX_CACHE_TTL) current (400 * MILLI + MAX_CACHE_TTL) stale (by decide +kernel)
    (by decide) (by decide +kernel)
  exact absurd hle (by decide)

end PkarrGateway

end ContentDiscovery
