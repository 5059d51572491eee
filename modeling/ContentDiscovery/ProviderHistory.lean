import ContentDiscovery.ProviderCache
import ContentDiscovery.Recency

/-!
# The history of known providers

What `iroh-link-gateway/src/provider_cache.rs` answers after any sequence of calls, told by the
calls. Which providers of a hash are kept depends on when they were confirmed last, their order in
an answer on how fast they were, and what has expired is dropped only by a look at it.

`entryAfter` is the entry of a hash if nothing were dropped: it reads the calls that write. The
entry in the cache is the same as far as it counts (`same_after`), if there is room for all
hashes; so what is asked in between changes no answer (`answers_history`).
-/

namespace ContentDiscovery

namespace ProviderCache

/-- A call of the cache. -/
inductive Call (Hash EndpointId : Type) where
  /-- `confirm` -/
  | confirm (hash : Hash) (provider : EndpointId) (latency : ℕ)
  /-- `forget` -/
  | forget (hash : Hash) (provider : EndpointId)
  /-- `record_missing` -/
  | recordMissing (hash : Hash) (miss : Miss)
  /-- `providers` -/
  | providers (hash : Hash)
  /-- `missing` -/
  | missing (hash : Hash)
  deriving DecidableEq

variable {Hash EndpointId : Type}

namespace Call

/-- The hash of a call. -/
def hash : Call Hash EndpointId → Hash
  | confirm hash .. => hash
  | forget hash _ => hash
  | recordMissing hash _ => hash
  | providers hash => hash
  | missing hash => hash

/-- The call records something. -/
def writes : Call Hash EndpointId → Bool
  | confirm .. => true
  | forget .. => true
  | recordMissing .. => true
  | providers _ => false
  | missing _ => false

/-- The call is the outcome of a probe of the provider for the hash. -/
def Probes (hash : Hash) (provider : EndpointId) (call : Call Hash EndpointId) : Prop :=
  (∃ latency, call = confirm hash provider latency) ∨ call = forget hash provider

/-- The call decides whether the hash has a miss. -/
def Settles (hash : Hash) (call : Call Hash EndpointId) : Prop :=
  (∃ provider latency, call = confirm hash provider latency) ∨
    ∃ miss, call = recordMissing hash miss

/-- The provider that the call confirms for the hash. -/
def confirmed [DecidableEq Hash] (hash : Hash) : Call Hash EndpointId → Option EndpointId
  | confirm hash' provider _ => if hash' = hash then some provider else none
  | _ => none

end Call

/-- Calls at their times. -/
abbrev Calls (Hash EndpointId : Type) : Type := List (Instant × Call Hash EndpointId)

/-- A miss still counts. -/
def isRecent (now : Instant) (miss : Miss × Instant) : Bool := now - miss.2 < MISS_TTL

/-- What a call does to the entry of its hash. -/
def Entry.act [DecidableEq EndpointId] (entry : Entry EndpointId) (now : Instant) :
    Call Hash EndpointId → Entry EndpointId
  | .confirm _ provider latency =>
    ⟨Recency.front Prod.fst MAX_PROVIDERS [(provider, ⟨now, latency⟩)] entry.providers, none⟩
  | .forget _ provider => { entry with providers := entry.providers.filter (·.1 ≠ provider) }
  | .recordMissing _ miss => { entry with missing := some (miss, now) }
  | .providers _ => { entry with providers := entry.providers.filter (isFresh now) }
  | .missing _ => { entry with missing := entry.missing.filter (isRecent now) }

/-- What it does if nothing is dropped. -/
def Entry.write [DecidableEq EndpointId] (entry : Entry EndpointId) (now : Instant)
    (call : Call Hash EndpointId) : Entry EndpointId :=
  if call.writes then entry.act now call else entry

variable [DecidableEq Hash] [DecidableEq EndpointId]

/-- A call. -/
def perform (cache : ProviderCache Hash EndpointId) (x : Instant × Call Hash EndpointId) :
    ProviderCache Hash EndpointId :=
  match x.2 with
  | .confirm hash provider latency => cache.confirm hash provider latency x.1
  | .forget hash provider => cache.forget hash provider
  | .recordMissing hash miss => cache.recordMissing hash miss x.1
  | .providers hash => (cache.providers hash x.1).1
  | .missing hash => (cache.missing hash x.1).1

/-- The cache after calls, the first one first. -/
def after (calls : Calls Hash EndpointId) : ProviderCache Hash EndpointId :=
  calls.foldl perform default

/-- The entry of a hash, which has nothing in it if there is none. -/
def entryOf (cache : ProviderCache Hash EndpointId) (hash : Hash) : Entry EndpointId :=
  (cache.entries.peek hash).getD .default

/-- The entry of a hash after calls, if nothing is dropped. -/
def entryAfter (hash : Hash) (calls : Calls Hash EndpointId) : Entry EndpointId :=
  calls.foldl (fun entry x => if x.2.hash = hash then entry.write x.1 x.2 else entry) .default

/-- The hashes of calls. -/
def hashes (calls : Calls Hash EndpointId) : Finset Hash := (calls.map fun x => x.2.hash).toFinset

/-- The providers that calls confirm for a hash. -/
def confirmedIn (hash : Hash) (calls : Calls Hash EndpointId) : Finset EndpointId :=
  (calls.filterMap fun x => x.2.confirmed hash).toFinset

/-- The clock does not go back, up to now, and the cache has room for all hashes. -/
structure Timely (calls : Calls Hash EndpointId) (now : Instant) : Prop where
  clock : (calls.map Prod.fst).Pairwise (· ≤ ·)
  past : ∀ x ∈ calls, x.1 ≤ now
  room : (hashes calls).card ≤ SLOTS

/-! ## The entries -/

section Entries

variable {cache : ProviderCache Hash EndpointId} {hash : Hash}
  {x : Instant × Call Hash EndpointId} {entry : Entry EndpointId}

/-- A probe that passed comes first. -/
theorem front_singleton (x : EndpointId × Probed) (old : List (EndpointId × Probed)) :
    Recency.front Prod.fst MAX_PROVIDERS [x] old =
      (x :: old.filter (·.1 ≠ x.1)).take MAX_PROVIDERS := by
  rw [Recency.front, List.map_singleton, List.singleton_append]
  simp only [List.mem_singleton]

theorem filter_isRecent (miss : Miss) (since now : Instant) :
    (some (miss, since)).filter (isRecent now) =
      if now - since < MISS_TTL then some (miss, since) else none := by
  rw [Option.filter_some, isRecent]
  simp only [decide_eq_true_eq]

/-- A call puts the changed entry of its hash, unless there is none to change. -/
theorem perform_cases (cache : ProviderCache Hash EndpointId)
    (x : Instant × Call Hash EndpointId) :
    cache.perform x =
        ⟨cache.entries.put x.2.hash ((cache.entryOf x.2.hash).act x.1 x.2)⟩ ∨
      cache.perform x = cache ∧
        (cache.entryOf x.2.hash).act x.1 x.2 = cache.entryOf x.2.hash := by
  obtain ⟨now, call⟩ := x
  cases call with
  | confirm hash provider latency =>
    left
    rw [Entry.act, front_singleton]
    rfl
  | recordMissing hash miss => exact .inl rfl
  | forget hash provider =>
    simp only [perform, forget, LruCache.modify, Call.hash, entryOf]
    cases cache.entries.peek hash with
    | none => exact .inr ⟨rfl, rfl⟩
    | some entry => exact .inl rfl
  | providers hash =>
    simp only [perform, ProviderCache.providers, Call.hash, entryOf]
    cases cache.entries.peek hash with
    | none => exact .inr ⟨rfl, rfl⟩
    | some entry => exact .inl rfl
  | missing hash =>
    simp only [perform, ProviderCache.missing, Call.hash, entryOf]
    cases cache.entries.peek hash with
    | none => exact .inr ⟨rfl, rfl⟩
    | some entry =>
      obtain ⟨known, _ | ⟨miss, since⟩⟩ := entry
      · exact .inl rfl
      · left
        simp only [Entry.act, Option.getD_some, filter_isRecent]
        split
        · rfl
        · rfl

/-- A call changes the entry of its hash, and no other one. -/
theorem entryOf_perform
    (hroom : (insert x.2.hash cache.entries.keys).card ≤ cache.entries.capacity) (hash : Hash) :
    (cache.perform x).entryOf hash =
      if x.2.hash = hash then (cache.entryOf hash).act x.1 x.2 else cache.entryOf hash := by
  rcases perform_cases cache x with hput | ⟨hsame, hact⟩
  · rw [hput, entryOf, LruCache.peek_put_of_room hroom]
    by_cases heq : hash = x.2.hash
    · rw [if_pos heq, if_pos heq.symm, heq]
      rfl
    · rw [if_neg heq, if_neg (Ne.symm heq)]
      rfl
  · rw [hsame]
    split
    · rename_i heq
      rw [← heq, hact]
    · rfl

theorem keys_perform :
    (cache.perform x).entries.keys ⊆ insert x.2.hash cache.entries.keys ∧
      (cache.perform x).entries.capacity = cache.entries.capacity := by
  rcases perform_cases cache x with hput | ⟨hsame, -⟩
  · rw [hput]
    exact ⟨LruCache.keys_put_subset _ _ _, rfl⟩
  · rw [hsame]
    exact ⟨Finset.subset_insert _ _, rfl⟩

end Entries

/-! ## What counts -/

/-- The probes of an entry passed before now, the last one first. -/
structure Past (now : Instant) (entry : Entry EndpointId) : Prop where
  past : ∀ x ∈ entry.providers, x.2.passed ≤ now
  sorted : entry.providers.Pairwise fun x y => y.2.passed ≤ x.2.passed

/-- Two entries do not differ in what counts now. -/
structure Same (now : Instant) (entry entry' : Entry EndpointId) : Prop where
  fresh : entry.providers.filter (isFresh now) = entry'.providers.filter (isFresh now)
  recent : entry.missing.filter (isRecent now) = entry'.missing.filter (isRecent now)

section Counts

variable {now now' : Instant} {entry entry' : Entry EndpointId} {x y : EndpointId × Probed}
  {call : Call Hash EndpointId}

omit [DecidableEq Hash] [DecidableEq EndpointId]

theorem isFresh_of_le (hle : y.2.passed ≤ x.2.passed) (h : isFresh now y = true) :
    isFresh now x = true := by
  rw [isFresh, decide_eq_true_eq] at h ⊢
  exact (Nat.sub_le_sub_left hle now).trans_lt h

theorem isFresh_mono (hle : now ≤ now') (h : isFresh now' x = true) : isFresh now x = true := by
  rw [isFresh, decide_eq_true_eq] at h ⊢
  exact (Nat.sub_le_sub_right hle _).trans_lt h

theorem isRecent_mono {miss : Miss × Instant} (hle : now ≤ now')
    (h : isRecent now' miss = true) : isRecent now miss = true := by
  rw [isRecent, decide_eq_true_eq] at h ⊢
  exact (Nat.sub_le_sub_right hle _).trans_lt h

/-- The probes that count are the first ones. -/
theorem Past.fresh_first (h : Past now entry) (now' : Instant) :
    entry.providers.Pairwise fun x y => isFresh now' y = true → isFresh now' x = true :=
  h.sorted.imp fun hle hfresh => isFresh_of_le hle hfresh

theorem Past.mono (h : Past now entry) (hle : now ≤ now') : Past now' entry :=
  ⟨fun x hx => (h.past x hx).trans hle, h.sorted⟩

theorem Past.sublist (h : Past now entry)
    (hsub : entry'.providers.Sublist entry.providers) : Past now entry' :=
  ⟨fun x hx => h.past x (hsub.mem hx), h.sorted.sublist hsub⟩

theorem same_refl (now : Instant) (entry : Entry EndpointId) : Same now entry entry := ⟨rfl, rfl⟩

theorem Same.trans {entry'' : Entry EndpointId} (h : Same now entry entry')
    (h' : Same now entry' entry'') : Same now entry entry'' :=
  ⟨h.fresh.trans h'.fresh, h.recent.trans h'.recent⟩

theorem filter_isFresh_of_le (hle : now ≤ now') (l : List (EndpointId × Probed)) :
    l.filter (isFresh now') = (l.filter (isFresh now)).filter (isFresh now') := by
  rw [List.filter_filter]
  refine List.filter_congr fun x _ => ?_
  rw [Bool.eq_iff_iff, Bool.and_eq_true]
  exact ⟨fun h => ⟨h, isFresh_mono hle h⟩, And.left⟩

theorem filter_isRecent_of_le (hle : now ≤ now') (miss : Option (Miss × Instant)) :
    miss.filter (isRecent now') = (miss.filter (isRecent now)).filter (isRecent now') := by
  rw [Option.filter_filter]
  congr 1
  funext x
  rw [Bool.eq_iff_iff, Bool.and_eq_true]
  exact ⟨fun h => ⟨isRecent_mono hle h, h⟩, And.right⟩

/-- What does not count does not count later. -/
theorem Same.mono (h : Same now entry entry') (hle : now ≤ now') : Same now' entry entry' := by
  refine ⟨?_, ?_⟩
  · rw [filter_isFresh_of_le hle, h.fresh, ← filter_isFresh_of_le hle]
  · rw [filter_isRecent_of_le hle, h.recent, ← filter_isRecent_of_le hle]

variable [DecidableEq EndpointId]

theorem Past.act (h : Past now entry) (hle : now ≤ now') : Past now' (entry.act now' call) := by
  have hmono := h.mono hle
  cases call with
  | confirm hash provider latency =>
    simp only [Entry.act, front_singleton]
    have hall : Past now' ⟨(provider, ⟨now', latency⟩) ::
        entry.providers.filter (·.1 ≠ provider), none⟩ := by
      refine ⟨fun x hx => ?_, List.pairwise_cons.mpr ⟨fun x hx => ?_, ?_⟩⟩
      · rcases List.mem_cons.mp hx with rfl | hx
        · exact Nat.le_refl _
        · exact hmono.past x (List.mem_of_mem_filter hx)
      · exact hmono.past x (List.mem_of_mem_filter hx)
      · exact hmono.sorted.sublist List.filter_sublist
    exact hall.sublist (List.take_sublist _ _)
  | forget hash provider => exact hmono.sublist List.filter_sublist
  | recordMissing hash miss => exact hmono.sublist (List.Sublist.refl _)
  | providers hash => exact hmono.sublist List.filter_sublist
  | missing hash => exact hmono.sublist (List.Sublist.refl _)

theorem Past.write (h : Past now entry) (hle : now ≤ now') :
    Past now' (entry.write now' call) := by
  rw [Entry.write]
  split
  · exact h.act hle
  · exact h.mono hle

/-- A look at an entry drops nothing that counts. -/
theorem same_read (h : call.writes = false) : Same now (entry.act now call) entry := by
  cases call with
  | confirm | forget | recordMissing => cases h
  | providers hash => exact ⟨by rw [Entry.act, List.filter_filter]; simp, rfl⟩
  | missing hash => exact ⟨rfl, by rw [Entry.act, Option.filter_filter]; simp⟩

/-- A call that records something does so for both entries. -/
theorem Same.write (h : Same now entry entry') (hpast : Past now entry)
    (hpast' : Past now entry') (hle : now ≤ now') (hwrites : call.writes = true) :
    Same now' (entry.act now' call) (entry'.act now' call) := by
  have hmono := h.mono hle
  cases call with
  | confirm hash provider latency =>
    have hself : ∀ x ∈ [((provider, ⟨now', latency⟩) : EndpointId × Probed)],
        isFresh now' x = true := by
      intro x hx
      rw [List.mem_singleton.mp hx, isFresh, decide_eq_true_eq, Nat.sub_self]
      decide
    refine ⟨?_, rfl⟩
    simp only [Entry.act]
    rw [Recency.filter_front hself (hpast.fresh_first now'),
      Recency.filter_front hself (hpast'.fresh_first now'), hmono.fresh]
  | forget hash provider =>
    refine ⟨?_, hmono.recent⟩
    simp only [Entry.act]
    rw [List.filter_comm, hmono.fresh, List.filter_comm]
  | recordMissing hash miss => exact ⟨hmono.fresh, rfl⟩
  | providers | missing => cases hwrites

/-- The entry in the cache and the one that nothing is dropped of stay the same. -/
theorem Same.act (h : Same now entry entry') (hpast : Past now entry) (hpast' : Past now entry')
    (hle : now ≤ now') : Same now' (entry.act now' call) (entry'.write now' call) := by
  rw [Entry.write]
  split
  · rename_i hwrites
    exact h.write hpast hpast' hle hwrites
  · rename_i hreads
    exact (same_read (Bool.eq_false_iff.mpr hreads)).trans (h.mono hle)

end Counts

/-! ## Runs -/

section Runs

variable {calls later : Calls Hash EndpointId} {now time : Instant} {hash : Hash}
  {x : Instant × Call Hash EndpointId} {p : EndpointId}

@[simp] theorem after_concat : after (calls ++ [x]) = (after calls).perform x :=
  List.foldl_concat ..

theorem entryAfter_concat : entryAfter hash (calls ++ [x]) =
    if x.2.hash = hash then (entryAfter hash calls).write x.1 x.2 else entryAfter hash calls :=
  List.foldl_concat ..

omit [DecidableEq EndpointId] in
theorem hashes_concat : hashes (calls ++ [x]) = insert x.2.hash (hashes calls) := by
  rw [hashes, List.map_append, List.toFinset_append, hashes, Finset.union_comm]
  rfl

omit [DecidableEq EndpointId] in
/-- Before the last call, the clock had come to its time at most. -/
theorem Timely.init (h : Timely (calls ++ [x]) now) : Timely calls x.1 ∧ x.1 ≤ now := by
  obtain ⟨hclock, hpast, hroom⟩ := h
  rw [List.map_append, List.pairwise_append] at hclock
  refine ⟨⟨hclock.1, fun y hy => ?_, ?_⟩, hpast x (by simp)⟩
  · exact hclock.2.2 y.1 (List.mem_map_of_mem hy) x.1 List.mem_cons_self
  · rw [hashes_concat] at hroom
    exact (Finset.card_le_card (Finset.subset_insert _ _)).trans hroom

/-- The cache has room for the hashes, and has the entries that nothing is dropped of, as far as
they count. -/
theorem same_after (h : Timely calls now) :
    (after calls).entries.capacity = SLOTS ∧ (after calls).entries.keys ⊆ hashes calls ∧
      ∀ hash, Past now ((after calls).entryOf hash) ∧ Past now (entryAfter hash calls) ∧
        Same now ((after calls).entryOf hash) (entryAfter hash calls) := by
  induction calls using List.reverseRecOn generalizing now with
  | nil => exact ⟨rfl, Finset.Subset.refl _, fun hash =>
      ⟨⟨nofun, List.Pairwise.nil⟩, ⟨nofun, List.Pairwise.nil⟩, same_refl _ _⟩⟩
  | append_singleton calls x ih =>
    obtain ⟨hinit, hnow⟩ := h.init
    obtain ⟨hcapacity, hkeys, hentries⟩ := ih hinit
    have hinsert : insert x.2.hash (after calls).entries.keys ⊆ hashes (calls ++ [x]) := by
      rw [hashes_concat]
      exact Finset.insert_subset_insert _ hkeys
    have hroom : (insert x.2.hash (after calls).entries.keys).card ≤
        (after calls).entries.capacity :=
      (Finset.card_le_card hinsert).trans (h.room.trans_eq hcapacity.symm)
    -- with room for all hashes, a call never makes the cache forget the entry of another one
    rw [after_concat]
    refine ⟨keys_perform.2.trans hcapacity, keys_perform.1.trans hinsert, fun hash => ?_⟩
    obtain ⟨hpast, hpast', hsame⟩ := hentries hash
    rw [entryOf_perform hroom, entryAfter_concat]
    split
    · have hact : Past x.1 (((after calls).entryOf hash).act x.1 x.2) := hpast.act le_rfl
      have hwrite : Past x.1 ((entryAfter hash calls).write x.1 x.2) := hpast'.write le_rfl
      exact ⟨hact.mono hnow, hwrite.mono hnow, (hsame.act hpast hpast' le_rfl).mono hnow⟩
    · exact ⟨hpast.mono hnow, hpast'.mono hnow, hsame.mono hnow⟩

/-- The answers depend on the entries that nothing is dropped of. -/
theorem providers_after (h : Timely calls now) (hash : Hash) :
    ((after calls).providers hash now).2 =
      ((entryAfter hash calls).providers.filter (isFresh now)).mergeSort
        fun x y => x.2.latency ≤ y.2.latency := by
  obtain ⟨-, -, hentries⟩ := same_after h
  rw [← (hentries hash).2.2.fresh, entryOf, ProviderCache.providers]
  cases (after calls).entries.peek hash with
  | none => exact List.mergeSort_nil.symm
  | some entry => rfl

theorem missing_after (h : Timely calls now) (hash : Hash) :
    ((after calls).missing hash now).2 =
      ((entryAfter hash calls).missing.filter (isRecent now)).map Prod.fst := by
  obtain ⟨-, -, hentries⟩ := same_after h
  rw [← (hentries hash).2.2.recent, entryOf, ProviderCache.missing]
  cases (after calls).entries.peek hash with
  | none => rfl
  | some entry =>
    obtain ⟨known, _ | ⟨miss, since⟩⟩ := entry
    · rfl
    · simp only [Option.getD_some, filter_isRecent]
      split
      · rfl
      · rfl

/-! ## What the entries have of the calls -/

/-- What is listed was the outcome of the last probe. -/
theorem listed_of_mem {x : EndpointId × Probed} (h : x ∈ (entryAfter hash calls).providers) :
    Recency.Since (fun y => ¬ y.2.Probes hash x.1)
      (x.2.passed, .confirm hash x.1 x.2.latency) calls := by
  induction calls using List.reverseRecOn with
  | nil => cases h
  | append_singleton calls y ih =>
    rw [entryAfter_concat] at h
    rw [Recency.since_concat]
    obtain ⟨time, call⟩ := y
    split at h
    · rename_i hhash
      cases call with
      | confirm hash' provider latency =>
        obtain rfl : hash' = hash := hhash
        -- it is the provider that was confirmed, or another one that was listed before
        rcases Recency.mem_of_mem_front h with h | ⟨h, hne⟩
        · rw [List.mem_singleton.mp h]
          exact .inl rfl
        · refine .inr ⟨ih h, ?_⟩
          rintro (⟨latency', heq⟩ | heq)
          · cases heq
            exact hne List.mem_cons_self
          · cases heq
      | forget hash' provider =>
        obtain rfl : hash' = hash := hhash
        obtain ⟨h, hne⟩ := List.mem_filter.mp h
        refine .inr ⟨ih h, ?_⟩
        rintro (⟨latency', heq⟩ | heq)
        · cases heq
        · cases heq
          simp at hne
      | recordMissing => exact .inr ⟨ih h, by rintro (⟨_, heq⟩ | heq) <;> cases heq⟩
      | providers => exact .inr ⟨ih h, by rintro (⟨_, heq⟩ | heq) <;> cases heq⟩
      | missing => exact .inr ⟨ih h, by rintro (⟨_, heq⟩ | heq) <;> cases heq⟩
    · rename_i hhash
      refine .inr ⟨ih h, ?_⟩
      rintro (⟨latency', heq⟩ | heq)
      · exact hhash (congrArg Call.hash heq)
      · exact hhash (congrArg Call.hash heq)

theorem nodup_entryAfter :
    ((entryAfter hash calls).providers.map Prod.fst).Nodup ∧
      (entryAfter hash calls).providers.length ≤ MAX_PROVIDERS := by
  induction calls using List.reverseRecOn with
  | nil => exact ⟨List.nodup_nil, Nat.zero_le _⟩
  | append_singleton calls y ih =>
    rw [entryAfter_concat]
    obtain ⟨time, call⟩ := y
    split
    · cases call with
      | confirm hash' provider latency =>
        exact ⟨Recency.nodup_front (List.nodup_singleton _) ih.1, Recency.length_front_le⟩
      | forget hash' provider =>
        exact ⟨ih.1.sublist (List.filter_sublist.map _), (List.length_filter_le _ _).trans ih.2⟩
      | recordMissing | providers | missing => exact ih
    · exact ih

/-- No hash has more providers than it may, even if there is no room for all hashes. -/
def Few (cache : ProviderCache Hash EndpointId) : Prop :=
  ∀ x ∈ cache.entries.entries, x.2.providers.length ≤ MAX_PROVIDERS

omit [DecidableEq EndpointId] in
theorem Few.entryOf {cache : ProviderCache Hash EndpointId} (h : cache.Few) (hash : Hash) :
    (cache.entryOf hash).providers.length ≤ MAX_PROVIDERS := by
  rw [ProviderCache.entryOf]
  cases hpeek : cache.entries.peek hash with
  | none => exact Nat.zero_le _
  | some entry => exact h _ (LruCache.mem_of_peek hpeek)

theorem Few.perform {cache : ProviderCache Hash EndpointId} (h : cache.Few)
    (x : Instant × Call Hash EndpointId) : (cache.perform x).Few := by
  have hact : ((cache.entryOf x.2.hash).act x.1 x.2).providers.length ≤ MAX_PROVIDERS := by
    have hentry := h.entryOf x.2.hash
    generalize cache.entryOf x.2.hash = entry at hentry ⊢
    cases x.2 with
    | confirm => exact Recency.length_front_le
    | forget | providers => exact (List.length_filter_le _ _).trans hentry
    | recordMissing | missing => exact hentry
  rcases perform_cases cache x with heq | ⟨heq, -⟩
  · rw [heq]
    intro y hy
    rcases LruCache.mem_put hy with rfl | hy
    · exact hact
    · exact h y hy
  · rw [heq]
    exact h

theorem few_after (calls : Calls Hash EndpointId) : (after calls).Few := by
  induction calls using List.reverseRecOn with
  | nil => exact fun x hx => nomatch hx
  | append_singleton calls x ih =>
    rw [after_concat]
    exact ih.perform x

omit [DecidableEq EndpointId] in
/-- So few providers of a hash are known. -/
theorem Few.providers {cache : ProviderCache Hash EndpointId} (h : cache.Few) (hash : Hash)
    (now : Instant) : (cache.providers hash now).2.length ≤ MAX_PROVIDERS := by
  rw [ProviderCache.providers]
  cases hpeek : cache.entries.peek hash with
  | none => exact Nat.zero_le _
  | some entry =>
    rw [List.length_mergeSort]
    exact (List.length_filter_le _ _).trans (h _ (LruCache.mem_of_peek hpeek))

theorem confirmedIn_concat : confirmedIn hash (later ++ [x]) =
    confirmedIn hash later ∪ (x.2.confirmed hash).toList.toFinset := by
  rw [confirmedIn, List.filterMap_append, List.toFinset_append, confirmedIn]
  cases h : x.2.confirmed hash <;> simp [h]

omit [DecidableEq Hash] in
theorem ahead_confirm (x : EndpointId × Probed) (old : List (EndpointId × Probed)) :
    Recency.Ahead Prod.fst x ∅ (Recency.front Prod.fst MAX_PROVIDERS [x] old) :=
  Recency.ahead_front_new (List.nil_append [x]).symm (Nat.zero_lt_succ 3)

/-- A provider that was confirmed and not forgotten is listed, and before it only those that
were confirmed later, as long as these are not too many. -/
theorem ahead_entryAfter (before : Calls Hash EndpointId) (latency : ℕ)
    (hclock : ∀ y ∈ later, time ≤ y.1) (hkept : ∀ y ∈ later, y.2 ≠ .forget hash p)
    (hfew : ((confirmedIn hash later).erase p).card < MAX_PROVIDERS) :
    ∃ probed : Probed, time ≤ probed.passed ∧
      Recency.Ahead Prod.fst (p, probed) (confirmedIn hash later)
        (entryAfter hash (before ++ (time, .confirm hash p latency) :: later)).providers := by
  induction later using List.reverseRecOn with
  | nil =>
    refine ⟨⟨time, latency⟩, Nat.le_refl _, ?_⟩
    have hhash : ((time, .confirm hash p latency) : Instant × Call Hash EndpointId).2.hash = hash :=
      rfl
    rw [entryAfter_concat, if_pos hhash]
    exact ahead_confirm _ _
  | append_singleton later y ih =>
    rw [List.forall_mem_append, List.forall_mem_singleton] at hclock hkept
    have hsub : confirmedIn hash later ⊆ confirmedIn hash (later ++ [y]) := by
      rw [confirmedIn_concat]
      exact Finset.subset_union_left
    obtain ⟨probed, hpassed, hahead⟩ := ih hclock.1 hkept.1
      ((Finset.card_le_card (Finset.erase_subset_erase p hsub)).trans_lt hfew)
    rw [← List.cons_append, ← List.append_assoc, entryAfter_concat]
    obtain ⟨time', call⟩ := y
    split
    · rename_i hhash
      cases call with
      | confirm hash' provider latency' =>
        obtain rfl : hash' = hash := hhash
        -- confirmed again it is in front; another provider comes before it, and counts
        by_cases heq : provider = p
        · subst heq
          refine ⟨⟨time', latency'⟩, hclock.2, ?_⟩
          exact (ahead_confirm _ _).mono (Finset.empty_subset _)
        · refine ⟨probed, hpassed, ?_⟩
          have hset : confirmedIn hash' (later ++ [(time', .confirm hash' provider latency')]) =
              ([(provider, (⟨time', latency'⟩ : Probed))].map Prod.fst).toFinset ∪
                confirmedIn hash' later := by
            rw [confirmedIn_concat, Finset.union_comm]
            simp [Call.confirmed]
          rw [hset] at hfew ⊢
          refine hahead.front (List.nodup_singleton _) nodup_entryAfter.1 ?_ hfew
          rw [List.map_singleton, List.mem_singleton]
          exact Ne.symm heq
      | forget hash' provider =>
        obtain rfl : hash' = hash := hhash
        have hne : p ≠ provider := by
          rintro rfl
          exact hkept.2 rfl
        exact ⟨probed, hpassed, (hahead.filter (decide_eq_true hne)).mono hsub⟩
      | recordMissing | providers | missing => exact ⟨probed, hpassed, hahead.mono hsub⟩
    · exact ⟨probed, hpassed, hahead.mono hsub⟩

/-- The miss of an entry was recorded last, and no provider confirmed since. -/
theorem missing_entryAfter {miss : Miss} : (entryAfter hash calls).missing = some (miss, time) ↔
    Recency.Since (fun y => ¬ y.2.Settles hash) (time, .recordMissing hash miss) calls := by
  induction calls using List.reverseRecOn with
  | nil => exact ⟨nofun, fun h => absurd h Recency.not_since_nil⟩
  | append_singleton calls y ih =>
    rw [entryAfter_concat, Recency.since_concat]
    obtain ⟨time', call⟩ := y
    have hother (hnot : ¬ call.Settles hash) :
        Recency.Since (fun y => ¬ y.2.Settles hash) (time, .recordMissing hash miss) calls ↔
          (time, .recordMissing hash miss) = (time', call) ∨
            Recency.Since (fun y => ¬ y.2.Settles hash) (time, .recordMissing hash miss) calls ∧
              ¬ call.Settles hash := by
      refine ⟨fun h => .inr ⟨h, hnot⟩, ?_⟩
      rintro (heq | ⟨h, -⟩)
      · cases heq
        exact absurd (.inr ⟨miss, rfl⟩) hnot
      · exact h
    split
    · rename_i hhash
      cases call with
      | confirm hash' provider latency =>
        obtain rfl : hash' = hash := hhash
        constructor
        · intro h
          cases h
        · rintro (heq | ⟨-, hnot⟩)
          · cases heq
          · exact absurd (.inl ⟨provider, latency, rfl⟩) hnot
      | recordMissing hash' miss' =>
        obtain rfl : hash' = hash := hhash
        constructor
        · intro h
          cases h
          exact .inl rfl
        · rintro (heq | ⟨-, hnot⟩)
          · cases heq
            rfl
          · exact absurd (.inr ⟨miss', rfl⟩) hnot
      | forget | providers | missing =>
        exact ih.trans (hother (by rintro (⟨_, _, heq⟩ | ⟨_, heq⟩) <;> cases heq))
    · rename_i hhash
      refine ih.trans (hother ?_)
      rintro (⟨provider, latency, heq⟩ | ⟨miss', heq⟩)
      · exact hhash (congrArg Call.hash heq)
      · exact hhash (congrArg Call.hash heq)

/-- An entry depends on the calls that record something. -/
theorem entryAfter_writes (hash : Hash) (calls : Calls Hash EndpointId) :
    entryAfter hash (calls.filter fun x => x.2.writes) = entryAfter hash calls := by
  induction calls using List.reverseRecOn with
  | nil => rfl
  | append_singleton calls y ih =>
    rw [List.filter_append, entryAfter_concat, ← ih]
    cases hwrites : y.2.writes with
    | true => simp [hwrites, entryAfter_concat]
    | false => simp [hwrites, Entry.write]

/-- The answers about a hash, told by the calls. The known providers are different ones, at most
four, the fastest probe first; each of them passed its last probe, less than `PROVIDER_TTL` ago.
One that passed a probe so recently and failed none since is known, if fewer than four others
passed one meanwhile. A miss is remembered if it was recorded last, less than `MISS_TTL` ago, and
no provider passed a probe since. What is asked in between changes no answer. -/
theorem answers_history (h : Timely calls now) (hash : Hash) :
    (((((after calls).providers hash now).2).map Prod.fst).Nodup ∧
      ((after calls).providers hash now).2.length ≤ 4 ∧
      ((after calls).providers hash now).2.Pairwise fun x y => x.2.latency ≤ y.2.latency) ∧
    (∀ x ∈ ((after calls).providers hash now).2, now - x.2.passed < PROVIDER_TTL ∧
      Recency.Since (fun y => ¬ y.2.Probes hash x.1)
        (x.2.passed, .confirm hash x.1 x.2.latency) calls) ∧
    (∀ before time p latency later, calls = before ++ (time, .confirm hash p latency) :: later →
      now - time < PROVIDER_TTL → (∀ y ∈ later, y.2 ≠ .forget hash p) →
        ((confirmedIn hash later).erase p).card < 4 →
          p ∈ ((after calls).providers hash now).2.map Prod.fst) ∧
    (∀ miss, ((after calls).missing hash now).2 = some miss ↔
      ∃ time, now - time < MISS_TTL ∧
        Recency.Since (fun y => ¬ y.2.Settles hash) (time, .recordMissing hash miss) calls) ∧
    (∀ calls', Timely calls' now →
      (calls'.filter fun x => x.2.writes) = calls.filter (fun x => x.2.writes) →
        ((after calls').providers hash now).2 = ((after calls).providers hash now).2 ∧
          ((after calls').missing hash now).2 = ((after calls).missing hash now).2) := by
  have hperm := List.mergeSort_perm ((entryAfter hash calls).providers.filter (isFresh now))
    fun x y => x.2.latency ≤ y.2.latency
  rw [← providers_after h] at hperm
  have hlisted : ((entryAfter hash calls).providers.map Prod.fst).Nodup ∧
      (entryAfter hash calls).providers.length ≤ MAX_PROVIDERS := nodup_entryAfter
  refine ⟨⟨?_, ?_, ?_⟩, fun x hx => ?_, fun before time p latency later heq hfresh hkept hfew => ?_,
    fun miss => ?_, fun calls' h' heq => ⟨?_, ?_⟩⟩
  · exact (hperm.map Prod.fst).nodup_iff.mpr (hlisted.1.sublist (List.filter_sublist.map _))
  · rw [hperm.length_eq]
    exact (List.length_filter_le _ _).trans hlisted.2
  · rw [providers_after h]
    refine (List.pairwise_mergeSort (fun x y z hxy hyz => ?_) (fun x y => ?_) _).imp
      of_decide_eq_true
    · rw [decide_eq_true_eq] at hxy hyz ⊢
      exact hxy.trans hyz
    · rw [Bool.or_eq_true, decide_eq_true_eq, decide_eq_true_eq]
      exact le_total _ _
  · obtain ⟨hmem, hfresh⟩ := List.mem_filter.mp (hperm.mem_iff.mp hx)
    exact ⟨of_decide_eq_true hfresh, listed_of_mem hmem⟩
  · have hclock := h.clock
    rw [heq, List.map_append, List.map_cons, List.pairwise_append, List.pairwise_cons] at hclock
    have hlater : ∀ y ∈ later, time ≤ y.1 :=
      fun y hy => hclock.2.1.1 y.1 (List.mem_map_of_mem hy)
    -- the probe that is listed is no older than the one in question
    obtain ⟨probed, hpassed, hahead⟩ := ahead_entryAfter before latency hlater hkept hfew
    rw [← heq] at hahead
    refine List.mem_map.mpr ⟨(p, probed), hperm.mem_iff.mpr ?_, rfl⟩
    refine List.mem_filter.mpr ⟨hahead.mem, decide_eq_true ?_⟩
    exact (Nat.sub_le_sub_left hpassed now).trans_lt hfresh
  · rw [missing_after h, Option.map_eq_some_iff]
    constructor
    · rintro ⟨⟨miss', time⟩, hfilter, rfl⟩
      obtain ⟨hmiss, hrecent⟩ := Option.filter_eq_some_iff.mp hfilter
      exact ⟨time, of_decide_eq_true hrecent, missing_entryAfter.mp hmiss⟩
    · rintro ⟨time, hrecent, hsince⟩
      refine ⟨(miss, time), Option.filter_eq_some_iff.mpr ⟨?_, decide_eq_true hrecent⟩, rfl⟩
      exact missing_entryAfter.mpr hsince
  · rw [providers_after h, providers_after h', ← entryAfter_writes, heq, entryAfter_writes]
  · rw [missing_after h, missing_after h', ← entryAfter_writes, heq, entryAfter_writes]

end Runs

namespace Sample

/-- Two probes pass, the provider of the first one is forgotten, and then nobody is found. -/
def calls : Calls ℕ ℕ :=
  [(0, .confirm 1 7 50), (1, .confirm 1 8 20), (2, .providers 1), (3, .forget 1 7),
    (4, .recordMissing 1 .NotFound)]

end Sample

/-- The other provider is known, and so is the miss. -/
theorem answers_history_sample :
    ((after Sample.calls).providers 1 5).2 = [(8, ⟨1, 20⟩)] ∧
      ((after Sample.calls).missing 1 5).2 = some .NotFound ∧
      ((after Sample.calls).providers 1 5).2.length ≤ 4 := by
  have htimely : Timely Sample.calls 5 := ⟨by decide, by decide, by decide⟩
  exact ⟨by decide +kernel, by decide +kernel, (answers_history htimely 1).1.2.1⟩

end ProviderCache

end ContentDiscovery
