import ContentDiscovery.Addr
import ContentDiscovery.LruCache

/-!
# The cache of providers

`iroh-link-gateway/src/provider_cache.rs`: which endpoints recently served a hash, and
which hashes nobody did. `Clear` says that a remembered miss and a known provider exclude
each other; every operation keeps it but `recordMissing`, which keeps it for a hash
without a known provider.
-/

namespace ContentDiscovery

/-- `Probed`: a provider's last passed probe for a hash. -/
structure Probed where
  /-- when the probe passed -/
  passed : Instant
  /-- how long it took -/
  latency : ℕ
  deriving DecidableEq

/-- `Miss`: why a lookup for a hash came back without a provider. -/
inductive Miss where
  | NotFound
  | TimedOut
  deriving DecidableEq

namespace ProviderCache

/-- `Entry`. -/
structure Entry (EndpointId : Type) where
  /-- providers and their last passed probe, most recent first -/
  providers : List (EndpointId × Probed)
  /-- the last miss -/
  missing : Option (Miss × Instant)
  deriving DecidableEq

end ProviderCache

/-- `ProviderCache`: recently verified providers per hash, and recent failed lookups. -/
structure ProviderCache (Hash EndpointId : Type) where
  /-- the entries of the hashes -/
  entries : LruCache Hash (ProviderCache.Entry EndpointId)

namespace ProviderCache

/-- `PROVIDER_TTL`: how long a provider stays known, 5 minutes. -/
def PROVIDER_TTL : ℕ := 5 * 60 * 10 ^ 9

/-- `MISS_TTL`: how long a lookup that found nobody is remembered, 5 seconds. -/
def MISS_TTL : ℕ := 5 * 10 ^ 9

/-- `MAX_PROVIDERS`: providers remembered per hash. -/
def MAX_PROVIDERS : ℕ := 4

/-- `SLOTS`: hashes remembered at once. -/
def SLOTS : ℕ := 4096

variable {Hash EndpointId : Type}

/-- `Entry::default`. -/
def Entry.default : Entry EndpointId := ⟨[], none⟩

/-- `ProviderCache::default`. -/
def default : ProviderCache Hash EndpointId := ⟨.new SLOTS⟩

/-- A passed probe still counts. -/
def isFresh (now : Instant) (p : EndpointId × Probed) : Bool := now - p.2.passed < PROVIDER_TTL

variable [DecidableEq Hash] (cache : ProviderCache Hash EndpointId)

/-- `ProviderCache::providers`: the providers that recently passed a probe for `hash`,
fastest first. -/
def providers (hash : Hash) (now : Instant) :
    ProviderCache Hash EndpointId × List (EndpointId × Probed) :=
  match cache.entries.peek hash with
  | none => (cache, [])
  | some entry =>
    let known := entry.providers.filter (isFresh now)
    (⟨cache.entries.put hash ⟨known, entry.missing⟩⟩,
      known.mergeSort fun p q => p.2.latency ≤ q.2.latency)

/-- `ProviderCache::missing`: how a recent lookup for `hash` failed, if one did. -/
def missing (hash : Hash) (now : Instant) : ProviderCache Hash EndpointId × Option Miss :=
  match cache.entries.peek hash with
  | none => (cache, none)
  | some ⟨known, some (miss, since)⟩ =>
    if now - since < MISS_TTL then
      (⟨cache.entries.put hash ⟨known, some (miss, since)⟩⟩, some miss)
    else (⟨cache.entries.put hash ⟨known, none⟩⟩, none)
  | some ⟨known, none⟩ => (⟨cache.entries.put hash ⟨known, none⟩⟩, none)

/-- `ProviderCache::record_missing`: a lookup for `hash` found no provider. -/
def recordMissing (hash : Hash) (miss : Miss) (now : Instant) : ProviderCache Hash EndpointId :=
  ⟨cache.entries.modifyOr hash .default fun entry => { entry with missing := some (miss, now) }⟩

variable [DecidableEq EndpointId]

/-- `ProviderCache::confirm`: `provider` passed a probe for `hash`. -/
def confirm (hash : Hash) (provider : EndpointId) (latency : ℕ) (now : Instant) :
    ProviderCache Hash EndpointId :=
  ⟨cache.entries.modifyOr hash .default fun entry =>
    { providers := ((provider, ⟨now, latency⟩) ::
        entry.providers.filter (·.1 ≠ provider)).take MAX_PROVIDERS
      missing := none }⟩

/-- `ProviderCache::forget`: `provider` failed a probe for `hash`. -/
def forget (hash : Hash) (provider : EndpointId) : ProviderCache Hash EndpointId :=
  ⟨cache.entries.modify hash fun entry =>
    { entry with providers := entry.providers.filter (·.1 ≠ provider) }⟩

/-! ## Misses and known providers -/

/-- No provider of the entry counts any more. -/
def Stale (now : Instant) (entry : Entry EndpointId) : Prop :=
  ∀ p ∈ entry.providers, isFresh now p = false

/-- What has a remembered miss has no known provider. -/
def Clear (cache : ProviderCache Hash EndpointId) (now : Instant) : Prop :=
  ∀ hash entry, cache.entries.peek hash = some entry → entry.missing ≠ none → Stale now entry

omit [DecidableEq EndpointId]

variable {cache} {hash : Hash} {now now' : Instant} {entry : Entry EndpointId}

/-- A probe that does not count now will not count later. -/
theorem Stale.mono (h : Stale now entry) (hle : now ≤ now') : Stale now' entry := by
  intro p hp
  have hold := h p hp
  simp only [isFresh, decide_eq_false_iff_not, not_lt] at hold ⊢
  exact hold.trans (Nat.sub_le_sub_right hle _)

theorem Clear.mono (h : cache.Clear now) (hle : now ≤ now') : cache.Clear now' :=
  fun hash entry hpeek hmiss => (h hash entry hpeek hmiss).mono hle

/-- The known providers of a hash are the ones of its entry that count. -/
theorem providers_eq_nil :
    (cache.providers hash now).2 = [] ↔
      ∀ entry, cache.entries.peek hash = some entry → Stale now entry := by
  rw [providers]
  cases hpeek : cache.entries.peek hash with
  | none => simp
  | some entry =>
    have hperm := List.mergeSort_perm (entry.providers.filter (isFresh now))
      fun p q => p.2.latency ≤ q.2.latency
    simp only [Option.some.injEq, forall_eq']
    constructor
    · intro h
      rw [h, List.nil_perm, List.filter_eq_nil_iff] at hperm
      exact fun p hp => Bool.eq_false_iff.mpr (hperm p hp)
    · intro h
      rw [List.filter_eq_nil_iff.mpr fun p hp => Bool.eq_false_iff.mp (h p hp), List.perm_nil]
        at hperm
      rwa [List.filter_eq_nil_iff.mpr fun p hp => Bool.eq_false_iff.mp (h p hp)]

/-- A change of one entry keeps the others apart from their misses. -/
theorem Clear.put (h : cache.Clear now) (hentry : entry.missing ≠ none → Stale now entry) :
    Clear ⟨cache.entries.put hash entry⟩ now := by
  intro hash' entry' hpeek hmiss
  by_cases heq : hash' = hash
  · subst heq
    have hmem := LruCache.mem_of_peek hpeek
    have hself : (hash', entry') ∈ (hash', entry) :: LruCache.others hash' cache.entries.entries :=
      List.mem_of_mem_take hmem
    rcases List.mem_cons.mp hself with heq | hother
    · cases heq
      exact hentry hmiss
    · exact absurd rfl (of_decide_eq_true (List.mem_filter.mp hother).2)
  · exact h hash' entry' (LruCache.peek_of_put heq hpeek) hmiss

theorem clear_default : (default : ProviderCache Hash EndpointId).Clear now :=
  fun _ _ hpeek => (nomatch hpeek)

theorem Clear.providers (h : cache.Clear now) : (cache.providers hash now).1.Clear now := by
  rw [ProviderCache.providers]
  split
  · exact h
  · rename_i entry hpeek
    refine h.put fun hmiss => ?_
    intro p hp
    exact h hash entry hpeek hmiss p (List.mem_of_mem_filter hp)

theorem Clear.missing (h : cache.Clear now) : (cache.missing hash now).1.Clear now := by
  rw [ProviderCache.missing]
  split
  · exact h
  · rename_i hpeek
    split
    · exact h.put fun hmiss => h hash _ hpeek hmiss
    · exact h.put fun hmiss => absurd rfl hmiss
  · exact h.put fun hmiss => absurd rfl hmiss

/-- A miss is recorded for a hash without a known provider. -/
theorem Clear.recordMissing (h : cache.Clear now) (hnone : (cache.providers hash now).2 = [])
    {miss : Miss} : (cache.recordMissing hash miss now).Clear now := by
  refine h.put fun _ => ?_
  intro p hp
  cases hpeek : cache.entries.peek hash with
  | none =>
    rw [hpeek] at hp
    cases hp
  | some entry =>
    rw [hpeek] at hp
    exact providers_eq_nil.mp hnone entry hpeek p hp

/-- A remembered miss is of an entry that has one. -/
theorem peek_of_missing {miss : Miss} (h : (cache.missing hash now).2 = some miss) :
    ∃ entry, cache.entries.peek hash = some entry ∧ entry.missing ≠ none := by
  rw [ProviderCache.missing] at h
  split at h
  · cases h
  · rename_i hpeek
    refine ⟨_, hpeek, ?_⟩
    intro hnone
    cases hnone
  · cases h

/-- A miss recorded for a hash with a known provider is found together with it. -/
theorem missing_recordMissing (miss : Miss) (h : (cache.providers hash now).2 ≠ []) :
    ((cache.recordMissing hash miss now).missing hash now).2 = some miss ∧
      ((cache.recordMissing hash miss now).providers hash now).2 ≠ [] := by
  rw [ne_eq, providers_eq_nil] at h ⊢
  simp only [not_forall] at h ⊢
  obtain ⟨entry, hpeek, hfresh⟩ := h
  have hput : (cache.recordMissing hash miss now).entries.peek hash =
      some ⟨entry.providers, some (miss, now)⟩ := by
    rw [ProviderCache.recordMissing, LruCache.modifyOr, hpeek, Option.getD_some]
    exact LruCache.peek_put_self _ _ (LruCache.capacity_pos hpeek)
  refine ⟨?_, _, hput, hfresh⟩
  rw [ProviderCache.missing, hput]
  simp only [Nat.sub_self]
  rfl

variable [DecidableEq EndpointId] {provider : EndpointId}

theorem Clear.confirm (h : cache.Clear now) {latency : ℕ} :
    (cache.confirm hash provider latency now).Clear now :=
  h.put fun hmiss => absurd rfl hmiss

theorem Clear.forget (h : cache.Clear now) : (cache.forget hash provider).Clear now := by
  rw [ProviderCache.forget, LruCache.modify]
  split
  · exact h
  · rename_i entry hpeek
    refine h.put fun hmiss => ?_
    intro p hp
    exact h hash entry hpeek hmiss p (List.mem_of_mem_filter hp)

end ProviderCache

end ContentDiscovery
