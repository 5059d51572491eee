import ContentDiscovery.Addr
import ContentDiscovery.LruCache

/-!
# The cache of lookups

`iroh-mainline-endpoint-discovery/src/lookup_cache.rs`, over a cache that forgets what
was not used for the longest time.

The locks of the lookups in flight are not here: a lock is held as long as a caller
holds it, so the callers' states say which are (`AddrIndex`).
-/

namespace ContentDiscovery

/-- `CAPACITY`: sockets remembered at once. -/
def CAPACITY : ℕ := 4096

/-- `MISS_TTL`: longest time an empty result is remembered, 30 seconds. -/
def MISS_TTL : ℕ := 30 * 10 ^ 9

/-- `LookupCache`: remembers which endpoints listed a socket. -/
structure LookupCache (R : Type) where
  /-- how long a result is remembered -/
  ttl : ℕ
  /-- the results, each with the time it expires -/
  entries : LruCache SocketAddrV4 (Instant × List R)

namespace LookupCache

variable {R : Type}

/-- `LookupCache::new`. -/
def new (ttl : ℕ) : LookupCache R := ⟨ttl, .new CAPACITY⟩

/-- How long the result of a lookup is remembered. -/
def lifetime (ttl : ℕ) (records : List R) : ℕ := if records.isEmpty then min ttl MISS_TTL else ttl

variable (cache : LookupCache R)

/-- `LookupCache::get`: the records remembered for `addr`, unless they expired. -/
def get (addr : SocketAddrV4) (now : Instant) : LookupCache R × Option (List R) :=
  if ∃ e ∈ cache.entries.peek addr, e.1 ≤ now then
    ({ cache with entries := cache.entries.pop addr }, none)
  else
    let r := cache.entries.get addr
    ({ cache with entries := r.1 }, r.2.map Prod.snd)

/-- `LookupCache::insert`: remembers a successful lookup, an empty one for at most
`MISS_TTL`. -/
def insert (addr : SocketAddrV4) (records : List R) (now : Instant) : LookupCache R :=
  let ttl := if records.isEmpty then min cache.ttl MISS_TTL else cache.ttl
  if ttl = 0 then cache
  else { cache with entries := cache.entries.put addr (now + ttl, records) }

/-- The records remembered for `addr`. -/
def Remembers (addr : SocketAddrV4) (records : List R) : Prop :=
  ∃ expires, (addr, expires, records) ∈ cache.entries.entries

variable {cache} {addr addr' : SocketAddrV4} {now : Instant} {records records' : List R}
  {x : SocketAddrV4 × Instant × List R}

@[simp] theorem ttl_get : (cache.get addr now).1.ttl = cache.ttl := by
  rw [get]
  split
  · rfl
  · rfl

@[simp] theorem ttl_insert : (cache.insert addr records now).ttl = cache.ttl := by
  simp only [insert]
  generalize (if records.isEmpty then min cache.ttl MISS_TTL else cache.ttl) = ttl
  split
  · rfl
  · rfl

theorem mem_get (h : x ∈ (cache.get addr now).1.entries.entries) : x ∈ cache.entries.entries := by
  rw [get] at h
  split at h
  · exact LruCache.mem_pop h
  · exact LruCache.mem_get h

/-- What is found was remembered for this socket, and has not expired. -/
theorem mem_of_get (h : (cache.get addr now).2 = some records) :
    ∃ expires, (addr, expires, records) ∈ cache.entries.entries ∧ now < expires := by
  rw [get] at h
  split at h
  · cases h
  · rename_i hexpired
    obtain ⟨⟨expires, found⟩, hfound, rfl⟩ := Option.map_eq_some_iff.mp h
    rw [LruCache.snd_get] at hfound
    refine ⟨expires, LruCache.mem_of_peek hfound, ?_⟩
    exact Nat.lt_of_not_le fun hle => hexpired ⟨_, hfound, hle⟩

/-- What is remembered then is the new result, for as long as it may be, or was before. -/
theorem mem_insert (h : x ∈ (cache.insert addr records now).entries.entries) :
    x = (addr, now + lifetime cache.ttl records, records) ∨ x ∈ cache.entries.entries := by
  simp only [insert] at h
  rw [lifetime]
  generalize (if records.isEmpty then min cache.ttl MISS_TTL else cache.ttl) = ttl at h ⊢
  split at h
  · exact .inr h
  · exact LruCache.mem_put h

theorem remembers_get (h : (cache.get addr now).1.Remembers addr' records) :
    cache.Remembers addr' records := by
  obtain ⟨expires, h⟩ := h
  exact ⟨expires, mem_get h⟩

/-- What is found was remembered for this socket. -/
theorem remembers_of_get (h : (cache.get addr now).2 = some records) :
    cache.Remembers addr records := by
  obtain ⟨expires, h, -⟩ := mem_of_get h
  exact ⟨expires, h⟩

theorem remembers_insert (h : (cache.insert addr records now).Remembers addr' records') :
    (addr', records') = (addr, records) ∨ cache.Remembers addr' records' := by
  obtain ⟨expires, h⟩ := h
  rcases mem_insert h with heq | h
  · cases heq
    exact .inl rfl
  · exact .inr ⟨expires, h⟩

end LookupCache

end ContentDiscovery
