import ContentDiscovery.Hints

/-!
# The history of provider hints

What `iroh-link-gateway/src/hints.rs` answers after any sequence of calls, told by the calls. To be
named moves a provider to the front and renews it; to serve the hash only renews it. What has
expired is dropped by the next look at the hash, and what is too much when others are named.

`knownAfter` reads the calls of one hash; the cache has it as long as there is room for all hashes
(`hintsOf_after`), and the answers follow from it (`get_history`).
-/

namespace ContentDiscovery

namespace Hints

/-- A call of the hints. -/
inductive Call (Hash EndpointId : Type) where
  /-- `add_from_query` -/
  | addFromQuery (hash : Hash) (query : Option Str)
  /-- `confirm` -/
  | confirm (hash : Hash) (provider : EndpointId)
  /-- `get`, with what it reads from the clock -/
  | get (hash : Hash) (clock : ℕ → Instant)

variable {Hash EndpointId : Type}

/-- The hash of a call. -/
def Call.hash : Call Hash EndpointId → Hash
  | addFromQuery hash _ => hash
  | confirm hash _ => hash
  | get hash _ => hash

/-- Calls at their times. -/
abbrev Calls (Hash EndpointId : Type) : Type := List (Instant × Call Hash EndpointId)

/-- A call is over by a time. -/
def Over (x : Instant × Call Hash EndpointId) (time : Instant) : Prop :=
  x.1 ≤ time ∧ ∀ hash clock, x.2 = .get hash clock → ∀ i, x.1 ≤ clock i ∧ clock i ≤ time

variable [DecidableEq Hash] [DecidableEq EndpointId] (z : Z32) (K : EndpointIds EndpointId)

/-- A call. -/
def perform (hints : Hints Hash EndpointId) (x : Instant × Call Hash EndpointId) :
    Hints Hash EndpointId :=
  match x.2 with
  | .addFromQuery hash query => (hints.addFromQuery z K hash query x.1).1
  | .confirm hash provider => hints.confirm hash provider x.1
  | .get hash clock => (hints.get hash clock).1

/-- What a call does to the hints of its hash. -/
def act (known : List (Hint EndpointId)) (now : Instant) :
    Call Hash EndpointId → List (Hint EndpointId)
  | .addFromQuery _ query =>
    match parseQuery z K query with
    | .error _ => known
    | .ok providers =>
      if providers = [] then known
      else Recency.front Hint.provider MAX_PER_HASH (providers.map fun p => ⟨p, now⟩) known
  | .confirm _ provider => renew provider now known
  | .get _ clock => live clock known

/-- The providers that a call names for a hash, as its query does. -/
def named (hash : Hash) : Call Hash EndpointId → List EndpointId
  | .addFromQuery hash' query =>
    match parseQuery z K query with
    | .error _ => []
    | .ok _ => if hash' = hash then providersOf z K query else []
  | .confirm .. => []
  | .get .. => []

/-- A call names a provider for a hash, or confirms it. -/
def touches (hash : Hash) (p : EndpointId) : Call Hash EndpointId → Bool
  | .addFromQuery hash' query => decide (p ∈ named z K hash (.addFromQuery hash' query))
  | .confirm hash' provider => decide (hash' = hash ∧ provider = p)
  | .get .. => false

/-- The hints after calls, the first one first. -/
def after (calls : Calls Hash EndpointId) : Hints Hash EndpointId :=
  calls.foldl (perform z K) default

/-- The hints of a hash. -/
def hintsOf (hints : Hints Hash EndpointId) (hash : Hash) : List (Hint EndpointId) :=
  (hints.entries.peek hash).getD []

/-- The hints of a hash after calls. -/
def knownAfter (hash : Hash) (calls : Calls Hash EndpointId) : List (Hint EndpointId) :=
  calls.foldl (fun known x => if x.2.hash = hash then act z K known x.1 x.2 else known) []

/-- The providers named for a hash, by the last URL first. -/
def namings (hash : Hash) (calls : Calls Hash EndpointId) : List EndpointId :=
  calls.foldl (fun names x => named z K hash x.2 ++ names) []

/-- The providers that calls name for a hash. -/
def namedIn (hash : Hash) (calls : Calls Hash EndpointId) : Finset EndpointId :=
  (calls.flatMap fun x => named z K hash x.2).toFinset

/-- The times when a provider was named for a hash or confirmed. -/
def touchTimes (hash : Hash) (p : EndpointId) (calls : Calls Hash EndpointId) : List Instant :=
  (calls.filter fun x => touches z K hash p x.2).map Prod.fst

/-- The hashes of calls. -/
def hashes (calls : Calls Hash EndpointId) : Finset Hash := (calls.map fun x => x.2.hash).toFinset

/-- One call is over before the next one, all of them by now, and there is room for all hashes. -/
structure Timely (calls : Calls Hash EndpointId) (now : Instant) : Prop where
  clock : calls.Pairwise fun x y => Over x y.1
  past : ∀ x ∈ calls, Over x now
  room : (hashes calls).card ≤ SLOTS

variable {z K}

/-! ## The hints of a hash -/

section Known

variable {known : List (Hint EndpointId)} {hint : Hint EndpointId} {p provider : EndpointId}
  {now : Instant} {clock : ℕ → Instant} {s : Finset EndpointId}

omit [DecidableEq Hash]

theorem provider_renew :
    (renew provider now known).map Hint.provider = known.map Hint.provider := by
  induction known with
  | nil => rfl
  | cons hint known ih =>
    rw [renew]
    split
    · rfl
    · rw [List.map_cons, ih, List.map_cons]

/-- Of different hints, the one of the provider is renewed. -/
theorem renew_eq_map (h : (known.map Hint.provider).Nodup) : renew provider now known =
    known.map fun hint =>
      if hint.provider = provider then { hint with confirmed := now } else hint := by
  induction known with
  | nil => rfl
  | cons hint known ih =>
    rw [List.map_cons, List.nodup_cons] at h
    rw [renew, List.map_cons]
    split
    · rename_i heq
      have hsame : ∀ other ∈ known, (if other.provider = provider then
          { other with confirmed := now } else other) = other := by
        intro other hother
        refine if_neg fun heq' => h.1 ?_
        rw [heq, ← heq']
        exact List.mem_map_of_mem hother
      rw [List.map_congr_left hsame, List.map_id']
    · rw [ih h.2]

omit [DecidableEq EndpointId] in
theorem live_sublist : (live clock known).Sublist known := by
  have hall : (known.zipIdx.map Prod.fst) = known := List.zipIdx_map_fst _ _
  conv_rhs => rw [← hall]
  exact List.filter_sublist.map Prod.fst

omit [DecidableEq EndpointId] in
theorem mem_live (h : hint ∈ live clock known) : ∃ i, clock i - hint.confirmed < HINT_TTL := by
  obtain ⟨⟨hint', i⟩, hx, rfl⟩ := List.mem_map.mp h
  exact ⟨i, of_decide_eq_true (List.mem_filter.mp hx).2⟩

omit [DecidableEq EndpointId] in
/-- A hint that is live whenever the clock is read stays. -/
theorem ahead_live (h : Recency.Ahead Hint.provider hint s known)
    (hlive : ∀ i, clock i - hint.confirmed < HINT_TTL) :
    Recency.Ahead Hint.provider hint s (live clock known) := by
  obtain ⟨l₁, l₂, rfl, hs⟩ := h
  have hkept : decide (clock (0 + l₁.length) - hint.confirmed < HINT_TTL) = true :=
    decide_eq_true (hlive _)
  rw [live, List.zipIdx_append, List.zipIdx_cons, List.filter_append, List.filter_cons,
    if_pos hkept, List.map_append, List.map_cons]
  refine ⟨_, _, rfl, fun y hy => ?_⟩
  obtain ⟨x, hx, rfl⟩ := List.mem_map.mp hy
  have hmem : x.1 ∈ l₁.zipIdx.map Prod.fst := List.mem_map_of_mem (List.mem_of_mem_filter hx)
  rw [List.zipIdx_map_fst] at hmem
  exact hs x.1 hmem

end Known

/-! ## Room for all hashes -/

section Room

variable {hints : Hints Hash EndpointId} {x : Instant × Call Hash EndpointId} {hash : Hash}
  {calls : Calls Hash EndpointId} {now : Instant}

/-- `add` puts the providers in front. -/
theorem add_eq (hints : Hints Hash EndpointId) (hash : Hash) (providers : List EndpointId)
    (now : Instant) : hints.add hash providers now =
      ⟨hints.entries.put hash (Recency.front Hint.provider MAX_PER_HASH
        (providers.map fun p => ⟨p, now⟩) (hints.hintsOf hash))⟩ := by
  rw [add, LruCache.modifyOr, Recency.front, List.map_map]
  have hproviders : providers.map (Hint.provider ∘ fun p => (⟨p, now⟩ : Hint EndpointId)) =
      providers := List.map_id' _
  rw [hproviders]
  rfl

/-- A call puts the changed hints of its hash, or takes them away if none is left, or there is
nothing to change. -/
theorem perform_cases (hints : Hints Hash EndpointId) (x : Instant × Call Hash EndpointId) :
    perform z K hints x =
        ⟨hints.entries.put x.2.hash (act z K (hints.hintsOf x.2.hash) x.1 x.2)⟩ ∨
      perform z K hints x = ⟨(hints.entries.put x.2.hash []).pop x.2.hash⟩ ∧
        act z K (hints.hintsOf x.2.hash) x.1 x.2 = [] ∨
      perform z K hints x = hints ∧
        act z K (hints.hintsOf x.2.hash) x.1 x.2 = hints.hintsOf x.2.hash := by
  obtain ⟨now, call⟩ := x
  cases call with
  | addFromQuery hash query =>
    simp only [perform, addFromQuery, act, Call.hash]
    cases parseQuery z K query with
    | error error => exact .inr (.inr ⟨rfl, rfl⟩)
    | ok providers =>
      by_cases hnone : providers = []
      · refine .inr (.inr ⟨?_, if_pos hnone⟩)
        exact congrArg Prod.fst (if_pos hnone)
      · simp only [if_neg hnone]
        exact .inl (add_eq _ _ _ _)
  | confirm hash provider =>
    simp only [perform, confirm, LruCache.modify, act, Call.hash, hintsOf]
    cases hints.entries.peek hash with
    | none => exact .inr (.inr ⟨rfl, rfl⟩)
    | some known => exact .inl rfl
  | get hash clock =>
    simp only [perform, get, act, Call.hash, hintsOf]
    cases hints.entries.peek hash with
    | none => exact .inr (.inr ⟨rfl, rfl⟩)
    | some known =>
      by_cases hnone : live clock known = []
      · refine .inr (.inl ⟨?_, hnone⟩)
        simp only [if_pos hnone]
        rw [hnone]
      · simp only [if_neg hnone, Option.getD_some]
        exact .inl trivial

/-- A call changes the hints of its hash, and no others. -/
theorem hintsOf_perform
    (hroom : (insert x.2.hash hints.entries.keys).card ≤ hints.entries.capacity) (hash : Hash) :
    (perform z K hints x).hintsOf hash =
      if x.2.hash = hash then act z K (hints.hintsOf hash) x.1 x.2 else hints.hintsOf hash := by
  rcases perform_cases hints x with hput | ⟨hpop, hact⟩ | ⟨hsame, hact⟩
  · rw [hput, hintsOf, LruCache.peek_put_of_room hroom]
    by_cases heq : hash = x.2.hash
    · rw [if_pos heq, if_pos heq.symm, heq]
      rfl
    · rw [if_neg heq, if_neg (Ne.symm heq)]
      rfl
  · rw [hpop, hintsOf]
    by_cases heq : hash = x.2.hash
    · rw [if_pos heq.symm, heq, hact, LruCache.peek_pop_self]
      rfl
    · rw [if_neg (Ne.symm heq), LruCache.peek_pop_of_ne heq, LruCache.peek_put_of_room hroom,
        if_neg heq]
      rfl
  · rw [hsame]
    split
    · rename_i heq
      rw [← heq, hact]
    · rfl

theorem keys_perform :
    (perform z K hints x).entries.keys ⊆ insert x.2.hash hints.entries.keys ∧
      (perform z K hints x).entries.capacity = hints.entries.capacity := by
  rcases perform_cases hints x with hput | ⟨hpop, -⟩ | ⟨hsame, -⟩
  · rw [hput]
    exact ⟨LruCache.keys_put_subset _ _ _, rfl⟩
  · rw [hpop]
    exact ⟨(LruCache.keys_pop_subset _ _).trans (LruCache.keys_put_subset _ _ _), rfl⟩
  · rw [hsame]
    exact ⟨Finset.subset_insert _ _, rfl⟩

theorem after_concat : after z K (calls ++ [x]) = perform z K (after z K calls) x :=
  List.foldl_concat ..

theorem knownAfter_concat : knownAfter z K hash (calls ++ [x]) =
    if x.2.hash = hash then act z K (knownAfter z K hash calls) x.1 x.2
    else knownAfter z K hash calls :=
  List.foldl_concat ..

omit [DecidableEq EndpointId] in
theorem hashes_concat : hashes (calls ++ [x]) = insert x.2.hash (hashes calls) := by
  rw [hashes, List.map_append, List.toFinset_append, hashes, Finset.union_comm]
  rfl

omit [DecidableEq EndpointId] in
theorem Timely.init (h : Timely (calls ++ [x]) now) : Timely calls x.1 := by
  obtain ⟨hclock, -, hroom⟩ := h
  rw [List.pairwise_append] at hclock
  refine ⟨hclock.1, fun y hy => hclock.2.2 y hy x List.mem_cons_self, ?_⟩
  rw [hashes_concat] at hroom
  exact (Finset.card_le_card (Finset.subset_insert _ _)).trans hroom

/-- With room for all hashes, the hints of each are told by its calls. -/
theorem hintsOf_after (h : Timely calls now) :
    (after z K calls).entries.capacity = SLOTS ∧ (after z K calls).entries.keys ⊆ hashes calls ∧
      ∀ hash, (after z K calls).hintsOf hash = knownAfter z K hash calls := by
  induction calls using List.reverseRecOn generalizing now with
  | nil => exact ⟨rfl, Finset.Subset.refl _, fun hash => rfl⟩
  | append_singleton calls x ih =>
    obtain ⟨hcapacity, hkeys, hknown⟩ := ih h.init
    have hinsert : insert x.2.hash (after z K calls).entries.keys ⊆ hashes (calls ++ [x]) := by
      rw [hashes_concat]
      exact Finset.insert_subset_insert _ hkeys
    have hroom : (insert x.2.hash (after z K calls).entries.keys).card ≤
        (after z K calls).entries.capacity :=
      (Finset.card_le_card hinsert).trans (h.room.trans_eq hcapacity.symm)
    rw [after_concat]
    refine ⟨keys_perform.2.trans hcapacity, keys_perform.1.trans hinsert, fun hash => ?_⟩
    rw [hintsOf_perform hroom, knownAfter_concat, hknown]

theorem get_after (h : Timely calls now) (hash : Hash) (clock : ℕ → Instant) :
    ((after z K calls).get hash clock).2 =
      (live clock (knownAfter z K hash calls)).map Hint.provider := by
  obtain ⟨-, -, hknown⟩ := hintsOf_after (z := z) (K := K) h
  rw [← hknown, hintsOf, get]
  cases (after z K calls).entries.peek hash with
  | none => rfl
  | some known => rfl

end Room

/-! ## What the hints are -/

section Runs

variable {calls later : Calls Hash EndpointId} {x : Instant × Call Hash EndpointId} {hash : Hash}
  {p : EndpointId} {providers : List EndpointId} {known : List (Hint EndpointId)}
  {hint : Hint EndpointId} {now : Instant} {query : Option Str}

theorem namings_concat :
    namings z K hash (calls ++ [x]) = named z K hash x.2 ++ namings z K hash calls :=
  List.foldl_concat ..

theorem namedIn_concat :
    namedIn z K hash (calls ++ [x]) = namedIn z K hash calls ∪ (named z K hash x.2).toFinset := by
  rw [namedIn, List.flatMap_append, List.toFinset_append, namedIn, List.flatMap_cons,
    List.flatMap_nil, List.append_nil]

theorem touchTimes_concat : touchTimes z K hash p (calls ++ [x]) =
    touchTimes z K hash p calls ++ if touches z K hash p x.2 then [x.1] else [] := by
  rw [touchTimes, List.filter_append, List.map_append, List.filter_singleton, touchTimes]
  cases touches z K hash p x.2 <;> rfl

/-- A call for another hash does not name a provider. -/
theorem named_of_ne (h : x.2.hash ≠ hash) : named z K hash x.2 = [] := by
  obtain ⟨now, call⟩ := x
  cases call with
  | addFromQuery hash' query =>
    rw [named]
    split
    · rfl
    · exact if_neg h
  | confirm hash' provider => rfl
  | get hash' clock => rfl

/-- Nor does it touch one. -/
theorem touches_of_ne (h : x.2.hash ≠ hash) (p : EndpointId) :
    touches z K hash p x.2 = false := by
  have hnamed := named_of_ne (z := z) (K := K) h
  obtain ⟨now, call⟩ := x
  cases call with
  | addFromQuery hash' query =>
    refine decide_eq_false ?_
    rw [hnamed]
    exact List.not_mem_nil
  | confirm hash' provider => exact decide_eq_false fun h' => h h'.1
  | get hash' clock => rfl

omit [DecidableEq Hash] [DecidableEq EndpointId] in
theorem provider_hints : (providers.map fun p => (⟨p, now⟩ : Hint EndpointId)).map Hint.provider =
    providers := by
  rw [List.map_map]
  exact List.map_id' _

/-- How a call changes the hints of a hash, with whom it names for the hash and whom it touches. -/
inductive Change (x : Instant × Call Hash EndpointId) (known : List (Hint EndpointId)) :
    List EndpointId → (EndpointId → Bool) → List (Hint EndpointId) → Prop
  | name (names providers : List EndpointId) (hnodup : providers.Nodup)
      (hlength : providers.length ≤ MAX_PER_URL) (hmem : ∀ p, p ∈ providers ↔ p ∈ names)
      (hordered : providers.Pairwise fun p q => names.idxOf p < names.idxOf q) :
      Change x known names (fun p => decide (p ∈ names)) (Recency.front Hint.provider MAX_PER_HASH
        (providers.map fun p => ⟨p, x.1⟩) known)
  | confirm (provider : EndpointId) :
      Change x known [] (fun p => decide (provider = p)) (renew provider x.1 known)
  | look (clock : ℕ → Instant) (hclock : ∀ time, Over x time → ∀ i, clock i ≤ time) :
      Change x known [] (fun _ => false) (live clock known)
  | leave : Change x known [] (fun _ => false) known

omit [DecidableEq Hash] in
/-- A call that neither names nor touches changes nothing. -/
theorem Change.of_not {names : List EndpointId} {touched : EndpointId → Bool}
    (hnames : names = []) (htouched : ∀ p, touched p = false) :
    Change x known names touched known := by
  obtain rfl : touched = fun _ => false := funext htouched
  rw [hnames]
  exact .leave

theorem change_act (hash : Hash) (x : Instant × Call Hash EndpointId)
    (known : List (Hint EndpointId)) : Change x known (named z K hash x.2)
      (fun p => touches z K hash p x.2)
      (if x.2.hash = hash then act z K known x.1 x.2 else known) := by
  by_cases hhash : x.2.hash = hash
  · rw [if_pos hhash]
    obtain ⟨now, call⟩ := x
    cases call with
    | addFromQuery hash' query =>
      obtain rfl : hash' = hash := hhash
      cases hparse : parseQuery z K query with
      | error error =>
        have hnames : named z K hash' (.addFromQuery hash' query) = [] := by
          rw [named, hparse]
        rw [act, hparse]
        refine .of_not hnames fun p => decide_eq_false ?_
        rw [hnames]
        exact List.not_mem_nil
      | ok providers =>
        obtain ⟨hnodup, hmem, hordered⟩ := parseQuery_ok hparse
        have hnames : named z K hash' (.addFromQuery hash' query) = providersOf z K query := by
          rw [named, hparse]
          exact if_pos rfl
        have hlength : providers.length ≤ MAX_PER_URL := length_parseQuery hparse
        simp only [act, hparse, touches]
        rw [hnames]
        split
        · rename_i hnone
          have hnil : providersOf z K query = [] := by
            refine List.eq_nil_iff_forall_not_mem.mpr fun p hp => ?_
            rw [← hmem, hnone] at hp
            exact List.not_mem_nil hp
          refine .of_not hnil fun p => decide_eq_false ?_
          rw [hnil]
          exact List.not_mem_nil
        · exact .name _ _ hnodup hlength hmem hordered
    | confirm hash' provider =>
      obtain rfl : hash' = hash := hhash
      have htouches : (fun p => touches z K hash' p (.confirm hash' provider)) =
          fun p => decide (provider = p) := by
        funext p
        rw [touches, decide_eq_decide]
        exact and_iff_right rfl
      rw [htouches]
      exact .confirm provider
    | get hash' clock => exact .look clock fun time hover i => (hover.2 hash' clock rfl i).2
  · rw [if_neg hhash]
    exact .of_not (named_of_ne hhash) (touches_of_ne hhash)

section Steps

variable {names names' : List EndpointId} {touched : EndpointId → Bool}
  {known' : List (Hint EndpointId)} {s : Finset EndpointId} {confirmed stop : Instant}

omit [DecidableEq Hash]

/-- The hints stay distinct, and few. -/
theorem Change.nodup (h : Change x known names touched known')
    (hknown : (known.map Hint.provider).Nodup ∧ known.length ≤ MAX_PER_HASH) :
    (known'.map Hint.provider).Nodup ∧ known'.length ≤ MAX_PER_HASH := by
  cases h with
  | name names providers hnodup hlength hmem hordered =>
    refine ⟨Recency.nodup_front ?_ hknown.1, Recency.length_front_le⟩
    rw [provider_hints]
    exact hnodup
  | confirm provider =>
    have hlength : (renew provider x.1 known).length = known.length := by
      rw [← List.length_map Hint.provider, provider_renew, List.length_map]
    rw [provider_renew, hlength]
    exact hknown
  | look clock hclock =>
    exact ⟨hknown.1.sublist (live_sublist.map _), live_sublist.length_le.trans hknown.2⟩
  | leave => exact hknown

/-- They stay in the order of the namings. -/
theorem Change.ordered (h : Change x known names touched known')
    (hknown : Recency.Ordered Hint.provider names' known) :
    Recency.Ordered Hint.provider (names ++ names') known' := by
  cases h with
  | name names providers hnodup hlength hmem hordered =>
    refine hknown.front ?_ fun p => ?_
    · rw [Recency.Ordered, provider_hints]
      exact hordered
    · rw [provider_hints]
      exact (hmem p).symm
  | confirm provider =>
    rw [Recency.Ordered, provider_renew]
    exact hknown
  | look clock hclock => exact hknown.sublist live_sublist
  | leave => exact hknown

theorem mem_renew {provider : EndpointId} {now : Instant}
    (h : hint ∈ renew provider now known) :
    hint ∈ known ∨ hint = ⟨provider, now⟩ ∧ provider ∈ known.map Hint.provider := by
  induction known with
  | nil => exact .inl h
  | cons first known ih =>
    rw [renew] at h
    split at h
    · rename_i heq
      rcases List.mem_cons.mp h with rfl | h
      · rw [← heq]
        exact .inr ⟨rfl, List.mem_cons_self⟩
      · exact .inl (List.mem_cons_of_mem _ h)
    · rcases List.mem_cons.mp h with rfl | h
      · exact .inl List.mem_cons_self
      · rcases ih h with h | ⟨h, hmem⟩
        · exact .inl (List.mem_cons_of_mem _ h)
        · exact .inr ⟨h, List.mem_cons_of_mem _ hmem⟩

/-- A hint is new or renewed only if its provider is touched, and new only if it is named. -/
theorem Change.told (h : Change x known names touched known') (hhint : hint ∈ known') :
    hint ∈ known ∨ hint.confirmed = x.1 ∧ touched hint.provider = true ∧
      (hint.provider ∈ names ∨ hint.provider ∈ known.map Hint.provider) := by
  cases h with
  | name names providers hnodup hlength hmem hordered =>
    rcases Recency.mem_of_mem_front hhint with hnew | ⟨hold, -⟩
    · obtain ⟨p, hp, rfl⟩ := List.mem_map.mp hnew
      have hnames : p ∈ names := (hmem p).mp hp
      exact .inr ⟨rfl, decide_eq_true hnames, .inl hnames⟩
    · exact .inl hold
  | confirm provider =>
    rcases mem_renew hhint with hold | ⟨rfl, hmem⟩
    · exact .inl hold
    · exact .inr ⟨rfl, decide_eq_true rfl, .inr hmem⟩
  | look clock hclock => exact .inl (live_sublist.subset hhint)
  | leave => exact .inl hhint

/-- A provider that is named is behind those that are named before it. -/
theorem Change.ahead_of_name (h : Change x known names touched known') (hp : p ∈ names) :
    Recency.Ahead Hint.provider ⟨p, x.1⟩ (names.take (names.idxOf p)).toFinset known' := by
  cases h with
  | name names providers hnodup hlength hmem hordered =>
    obtain ⟨l₁, l₂, rfl⟩ := List.append_of_mem ((hmem p).mpr hp)
    have hlt : l₁.length < MAX_PER_HASH := by
      rw [List.length_append, List.length_cons] at hlength
      have hle : MAX_PER_URL ≤ MAX_PER_HASH := by decide
      omega
    have hnew : ((l₁ ++ p :: l₂).map fun p => (⟨p, x.1⟩ : Hint EndpointId)) =
        (l₁.map fun p => ⟨p, x.1⟩) ++ ⟨p, x.1⟩ :: l₂.map fun p => ⟨p, x.1⟩ := by
      rw [List.map_append, List.map_cons]
    refine (Recency.ahead_front_new hnew ?_).mono fun q hq => ?_
    · rw [List.length_map]
      exact hlt
    · rw [List.mem_toFinset, provider_hints] at hq
      have hlt' := (List.pairwise_append.mp hordered).2.2 q hq p List.mem_cons_self
      have hq' : q ∈ names := (hmem q).mp (List.mem_append_left _ hq)
      rw [List.mem_toFinset, List.mem_take_iff_idxOf_lt hq']
      exact hlt'
  | confirm provider => exact absurd hp List.not_mem_nil
  | look clock hclock => exact absurd hp List.not_mem_nil
  | leave => exact absurd hp List.not_mem_nil

/-- Later it stays behind these and the ones that are named later, as long as they are few and it
is touched in time. A touch renews it. -/
theorem Change.ahead (h : Change x known names touched known')
    (hahead : Recency.Ahead Hint.provider ⟨p, confirmed⟩ s known)
    (hknown : (known.map Hint.provider).Nodup) (hover : Over x stop)
    (hfew : ((names.toFinset ∪ s).erase p).card < MAX_PER_HASH)
    (hlive : touched p = false → stop - confirmed < HINT_TTL) :
    Recency.Ahead Hint.provider ⟨p, if touched p then x.1 else confirmed⟩ (names.toFinset ∪ s)
      known' := by
  cases h with
  | name names providers hnodup hlength hmem hordered =>
    -- named again it moves to the front part; otherwise the new names come before it
    by_cases hp : p ∈ names
    · rw [if_pos (decide_eq_true hp)]
      have hchange : Change x known names (fun p => decide (p ∈ names)) _ :=
        .name names providers hnodup hlength hmem hordered
      have hnamed := hchange.ahead_of_name hp
      refine hnamed.mono fun q hq => Finset.mem_union_left _ ?_
      rw [List.mem_toFinset] at hq ⊢
      exact List.mem_of_mem_take hq
    · have hnot : ¬ decide (p ∈ names) = true := fun h => hp (of_decide_eq_true h)
      have hset : ((providers.map fun p => (⟨p, x.1⟩ : Hint EndpointId)).map
          Hint.provider).toFinset = names.toFinset := by
        ext q
        rw [provider_hints, List.mem_toFinset, List.mem_toFinset, hmem]
      rw [if_neg hnot, ← hset]
      rw [← hset] at hfew
      refine hahead.front ?_ hknown ?_ hfew
      · rw [provider_hints]
        exact hnodup
      · rw [provider_hints, hmem]
        exact hp
  | confirm provider =>
    have hmap := hahead.map (f := fun hint =>
      if hint.provider = provider then { hint with confirmed := x.1 } else hint) fun hint => by
        split <;> rfl
    rw [← renew_eq_map hknown] at hmap
    rw [List.toFinset_nil, Finset.empty_union]
    by_cases hp : provider = p
    · rw [if_pos hp.symm] at hmap
      rw [if_pos (decide_eq_true hp)]
      exact hmap
    · have hnot : ¬ decide (provider = p) = true := fun h => hp (of_decide_eq_true h)
      rw [if_neg (Ne.symm hp)] at hmap
      rw [if_neg hnot]
      exact hmap
  | look clock hclock =>
    rw [List.toFinset_nil, Finset.empty_union, if_neg Bool.false_ne_true]
    refine ahead_live hahead fun i => ?_
    exact (Nat.sub_le_sub_right (hclock stop hover i) confirmed).trans_lt (hlive rfl)
  | leave =>
    rw [List.toFinset_nil, Finset.empty_union, if_neg Bool.false_ne_true]
    exact hahead

end Steps

/-! ## Over all calls -/

/-- No hash has more hints than it may, even if there is no room for all hashes. -/
def Few (hints : Hints Hash EndpointId) : Prop :=
  ∀ x ∈ hints.entries.entries, (x.2.map Hint.provider).Nodup ∧ x.2.length ≤ MAX_PER_HASH

omit [DecidableEq EndpointId] in
theorem Few.hintsOf {hints : Hints Hash EndpointId} (h : hints.Few) (hash : Hash) :
    ((hints.hintsOf hash).map Hint.provider).Nodup ∧
      (hints.hintsOf hash).length ≤ MAX_PER_HASH := by
  rw [Hints.hintsOf]
  cases hpeek : hints.entries.peek hash with
  | none => exact ⟨List.nodup_nil, Nat.zero_le _⟩
  | some known => exact h _ (LruCache.mem_of_peek hpeek)

theorem Few.perform {hints : Hints Hash EndpointId} (h : hints.Few)
    (x : Instant × Call Hash EndpointId) : (Hints.perform z K hints x).Few := by
  have hact : ((act z K (hints.hintsOf x.2.hash) x.1 x.2).map Hint.provider).Nodup ∧
      (act z K (hints.hintsOf x.2.hash) x.1 x.2).length ≤ MAX_PER_HASH := by
    have hchange := (change_act (z := z) (K := K) x.2.hash x _).nodup (h.hintsOf x.2.hash)
    rwa [if_pos rfl] at hchange
  have hput : ∀ y ∈ (hints.entries.put x.2.hash
      (act z K (hints.hintsOf x.2.hash) x.1 x.2)).entries,
      (y.2.map Hint.provider).Nodup ∧ y.2.length ≤ MAX_PER_HASH := by
    intro y hy
    rcases LruCache.mem_put hy with rfl | hy
    · exact hact
    · exact h y hy
  rcases perform_cases hints x with heq | ⟨heq, hnone⟩ | ⟨heq, -⟩
  · rw [heq]
    exact hput
  · rw [heq]
    rw [hnone] at hput
    exact fun y hy => hput y (LruCache.mem_pop hy)
  · rw [heq]
    exact h

theorem few_after (calls : Calls Hash EndpointId) : (after z K calls).Few := by
  induction calls using List.reverseRecOn with
  | nil => exact fun x hx => nomatch hx
  | append_singleton calls x ih =>
    rw [after_concat]
    exact ih.perform x

omit [DecidableEq EndpointId] in
/-- So a look at a hash finds few providers. -/
theorem Few.get {hints : Hints Hash EndpointId} (h : hints.Few) (hash : Hash)
    (clock : ℕ → Instant) : (hints.get hash clock).2.length ≤ MAX_PER_HASH := by
  rw [Hints.get]
  cases hpeek : hints.entries.peek hash with
  | none => exact Nat.zero_le _
  | some known =>
    rw [List.length_map]
    exact live_sublist.length_le.trans (h _ (LruCache.mem_of_peek hpeek)).2

theorem nodup_knownAfter (hash : Hash) (calls : Calls Hash EndpointId) :
    ((knownAfter z K hash calls).map Hint.provider).Nodup ∧
      (knownAfter z K hash calls).length ≤ MAX_PER_HASH := by
  induction calls using List.reverseRecOn with
  | nil => exact ⟨List.nodup_nil, Nat.zero_le _⟩
  | append_singleton calls x ih =>
    rw [knownAfter_concat]
    exact (change_act hash x _).nodup ih

/-- The hints stand in the order in which the last URLs named them. -/
theorem ordered_knownAfter (hash : Hash) (calls : Calls Hash EndpointId) :
    Recency.Ordered Hint.provider (namings z K hash calls) (knownAfter z K hash calls) := by
  induction calls using List.reverseRecOn with
  | nil => exact List.Pairwise.nil
  | append_singleton calls x ih =>
    rw [knownAfter_concat, namings_concat]
    exact (change_act hash x _).ordered ih

/-- A hint was named for the hash, and touched when it was confirmed. -/
theorem told_knownAfter (hhint : hint ∈ knownAfter z K hash calls) :
    hint.provider ∈ namedIn z K hash calls ∧
      hint.confirmed ∈ touchTimes z K hash hint.provider calls := by
  induction calls using List.reverseRecOn generalizing hint with
  | nil => cases hhint
  | append_singleton calls x ih =>
    rw [knownAfter_concat] at hhint
    rw [namedIn_concat, touchTimes_concat, Finset.mem_union, List.mem_append]
    rcases (change_act hash x _).told hhint with hold | ⟨hnow, htouched, hnamed⟩
    · exact ⟨.inl (ih hold).1, .inl (ih hold).2⟩
    · rw [if_pos htouched]
      refine ⟨?_, .inr (hnow ▸ List.mem_singleton_self _)⟩
      rcases hnamed with hnamed | hold
      · exact .inr (List.mem_toFinset.mpr hnamed)
      · obtain ⟨other, hother, heq⟩ := List.mem_map.mp hold
        rw [← heq]
        exact .inl (ih hother).1

/-- A provider is touched by the call that names it. -/
theorem touches_of_mem_named (hp : p ∈ named z K hash x.2) : touches z K hash p x.2 = true := by
  obtain ⟨now, call⟩ := x
  cases call with
  | addFromQuery hash' query => exact decide_eq_true hp
  | confirm hash' provider => cases hp
  | get hash' clock => cases hp

/-- A provider that is named stays behind those named before it by the same URL and those that
are named later, as long as they are few and it is touched in time. -/
theorem ahead_knownAfter {e : Instant × Call Hash EndpointId} {stop : Instant}
    (before : Calls Hash EndpointId) (hp : p ∈ named z K hash e.2)
    (hclock : later.Pairwise fun x y => Over x y.1) (hpast : ∀ x ∈ later, Over x stop)
    (hlive : (touchTimes z K hash p (e :: later) ++ [stop]).IsChain fun a b => b - a < HINT_TTL)
    (hfew : ((((named z K hash e.2).take ((named z K hash e.2).idxOf p)).toFinset ∪
      namedIn z K hash later).erase p).card < MAX_PER_HASH) :
    ∃ confirmed, (touchTimes z K hash p (e :: later)).getLast? = some confirmed ∧
      Recency.Ahead Hint.provider ⟨p, confirmed⟩
        (((named z K hash e.2).take ((named z K hash e.2).idxOf p)).toFinset ∪
          namedIn z K hash later) (knownAfter z K hash (before ++ e :: later)) := by
  induction later using List.reverseRecOn generalizing stop with
  | nil =>
    have htouch : touchTimes z K hash p [e] = [e.1] := by
      rw [touchTimes, List.filter_singleton, touches_of_mem_named hp]
      rfl
    refine ⟨e.1, by rw [htouch]; rfl, ?_⟩
    rw [knownAfter_concat]
    exact ((change_act hash e _).ahead_of_name hp).mono Finset.subset_union_left
  | append_singleton later x ih =>
    rw [List.pairwise_append] at hclock
    have hover : Over x stop := hpast x (List.mem_append_right _ List.mem_cons_self)
    rw [← List.cons_append, touchTimes_concat] at hlive
    rw [namedIn_concat, Finset.union_comm (namedIn z K hash later), Finset.union_left_comm] at hfew
    -- the touches so far are in time for this call
    have hlive' : (touchTimes z K hash p (e :: later) ++ [x.1]).IsChain
        fun a b => b - a < HINT_TTL := by
      split at hlive
      · exact hlive.left_of_append
      · rw [List.append_nil, List.isChain_append] at hlive
        refine List.isChain_append.mpr ⟨hlive.1, List.isChain_singleton _, fun a ha b hb => ?_⟩
        obtain rfl : x.1 = b := Option.some.inj hb
        exact (Nat.sub_le_sub_right hover.1 a).trans_lt (hlive.2.2 a ha stop rfl)
    obtain ⟨confirmed, hlast, hahead⟩ := ih hclock.1
      (fun y hy => hclock.2.2 y hy x List.mem_cons_self) hlive'
      ((Finset.card_le_card (Finset.erase_subset_erase p Finset.subset_union_right)).trans_lt hfew)
    have hnext := (change_act hash x _).ahead hahead (nodup_knownAfter hash _).1 hover hfew
      fun hnot => by
        rw [hnot, if_neg Bool.false_ne_true, List.append_nil, List.isChain_append] at hlive
        exact hlive.2.2 confirmed hlast stop rfl
    rw [← List.cons_append, touchTimes_concat, ← List.append_assoc, knownAfter_concat,
      namedIn_concat, Finset.union_comm (namedIn z K hash later), Finset.union_left_comm]
    refine ⟨_, ?_, hnext⟩
    split
    · exact List.getLast?_concat
    · rw [List.append_nil]
      exact hlast

/-- Who serves a hash is not named for it. -/
theorem providers_confirm (hints : Hints Hash EndpointId) (hash' : Hash) (provider : EndpointId)
    (now : Instant) : ((hints.confirm hash' provider now).hintsOf hash).map Hint.provider =
      (hints.hintsOf hash).map Hint.provider := by
  rw [hintsOf, confirm, LruCache.peek_modify]
  split
  · rename_i heq
    rw [hintsOf, heq]
    cases hints.entries.peek hash' with
    | none => rfl
    | some known => exact provider_renew
  · rfl

theorem addFromQuery_eq_error (hints : Hints Hash EndpointId) {hash : Hash}
    {error : Http.HttpError} :
    (hints.addFromQuery z K hash query now).2 = .error error ↔
      parseQuery z K query = .error error := by
  rw [addFromQuery]
  cases parseQuery z K query with
  | error error' => simp
  | ok providers =>
    by_cases hnone : providers = []
    · simp [hnone]
    · simp [hnone]

/-- A call that is an error could as well not have been made. -/
theorem after_error (before later : Calls Hash EndpointId) (hash : Hash) (now : Instant)
    {error : Http.HttpError} (h : parseQuery z K query = .error error) :
    after z K (before ++ (now, .addFromQuery hash query) :: later) =
      after z K (before ++ later) := by
  have hsame : perform z K (after z K before) (now, .addFromQuery hash query) =
      after z K before := by
    simp only [perform, addFromQuery, h]
  rw [after, List.foldl_append, List.foldl_cons, ← after, hsame]
  exact List.foldl_append.symm

/-- What is answered after any calls. The providers are distinct, at most eight, and in the order
in which the last URLs named them; each was named for the hash, and named or confirmed less than
`HINT_TTL` ago. One that was named is known as long as no `HINT_TTL` passes without it being named
or confirmed, if fewer than eight others are named for the hash later, or earlier by the same URL.
A confirmation adds no provider. A query is an error if it has a malformed provider or more than
four, and then it is as if it had not been taken at all. -/
theorem get_history (h : Timely calls now) (hash : Hash) {clock : ℕ → Instant} {stop : Instant}
    (hclock : ∀ i, now ≤ clock i ∧ clock i ≤ stop) :
    (((after z K calls).get hash clock).2.Nodup ∧ ((after z K calls).get hash clock).2.length ≤ 8 ∧
      ((after z K calls).get hash clock).2.Pairwise fun p q =>
        (namings z K hash calls).idxOf p < (namings z K hash calls).idxOf q) ∧
    (∀ p ∈ ((after z K calls).get hash clock).2, p ∈ namedIn z K hash calls ∧
      ∃ time ∈ touchTimes z K hash p calls, now - time < HINT_TTL) ∧
    (∀ before e later p, calls = before ++ e :: later → p ∈ named z K hash e.2 →
      ((touchTimes z K hash p (e :: later) ++ [stop]).IsChain fun a b => b - a < HINT_TTL) →
        ((((named z K hash e.2).take ((named z K hash e.2).idxOf p)).toFinset ∪
          namedIn z K hash later).erase p).card < 8 →
            p ∈ ((after z K calls).get hash clock).2) ∧
    (∀ hash' provider time,
      (((after z K calls).confirm hash' provider time).hintsOf hash).map Hint.provider =
        ((after z K calls).hintsOf hash).map Hint.provider) ∧
    (∀ (before later : Calls Hash EndpointId) hash' query time,
      ((∃ error, ((after z K before).addFromQuery z K hash' query time).2 = .error error) ↔
        (∃ value ∈ valuesOf query, parseProvider z K value = none) ∨
          4 < (providersOf z K query).toFinset.card) ∧
      ∀ error, ((after z K before).addFromQuery z K hash' query time).2 = .error error →
        after z K (before ++ (time, .addFromQuery hash' query) :: later) =
          after z K (before ++ later)) := by
  obtain ⟨hnodup, hlength⟩ := nodup_knownAfter (z := z) (K := K) hash calls
  rw [get_after h]
  refine ⟨⟨?_, ?_, ?_⟩, fun p hp => ?_, fun before e later p heq hp hlive hfew => ?_,
    fun hash' provider time => providers_confirm _ _ _ _,
    fun before later hash' query time => ⟨?_, fun error herror => ?_⟩⟩
  · exact hnodup.sublist (live_sublist.map _)
  · rw [List.length_map]
    exact live_sublist.length_le.trans hlength
  · exact (ordered_knownAfter hash calls).sublist live_sublist
  · obtain ⟨hint, hhint, rfl⟩ := List.mem_map.mp hp
    obtain ⟨hnamed, htouched⟩ := told_knownAfter (live_sublist.subset hhint)
    obtain ⟨i, hrecent⟩ := mem_live hhint
    exact ⟨hnamed, hint.confirmed, htouched,
      (Nat.sub_le_sub_right (hclock i).1 _).trans_lt hrecent⟩
  · have hcalls := h.clock
    have hpast := h.past
    rw [heq, List.pairwise_append, List.pairwise_cons] at hcalls
    have hover : ∀ x ∈ later, Over x stop := by
      intro x hx
      have hnow : Over x now := hpast x (heq ▸ List.mem_append_right _ (List.mem_cons_of_mem _ hx))
      have hstop : now ≤ stop := (hclock 0).1.trans (hclock 0).2
      exact ⟨hnow.1.trans hstop, fun hash clock hget i =>
        ⟨(hnow.2 hash clock hget i).1, (hnow.2 hash clock hget i).2.trans hstop⟩⟩
    obtain ⟨confirmed, hlast, hahead⟩ := ahead_knownAfter before hp hcalls.2.1.2 hover hlive hfew
    rw [List.isChain_append] at hlive
    rw [← heq] at hahead
    -- and the last touch is in time for this call
    have hkept := ahead_live hahead fun i =>
      (Nat.sub_le_sub_right (hclock i).2 _).trans_lt (hlive.2.2 confirmed hlast stop rfl)
    exact List.mem_map_of_mem hkept.mem
  · simp only [addFromQuery_eq_error]
    rw [parseQuery_eq_error (z := z) (K := K), length_distinct]
    rfl
  · exact after_error before later hash' time ((addFromQuery_eq_error _).mp herror)

end Runs

namespace Sample

/-- The base point of the curve, in hex. -/
def basePoint : Str := "5866666666666666666666666666666666666666666666666666666666666666".toList

/-- Another key, in hex. -/
def otherKey : Str := "d75a980182b10ab7d54bfed3c964073a0ee172f3daa62325af021a68f707511a".toList

/-- A decoder that knows the two keys. -/
def ids : EndpointIds ℕ :=
  ⟨fun _ => none, fun value =>
    if value = basePoint then some 1 else if value = otherKey then some 2 else none⟩

/-- A query that names both keys, one of them twice. -/
def query : Str :=
  "x=1&provider=".toList ++ basePoint ++ "&provider=".toList ++ otherKey ++ "&provider=".toList ++
    basePoint

/-- Both keys are named and asked for, one of them serves the hash, and a query is malformed. -/
def calls : Calls ℕ ℕ :=
  [(0, .addFromQuery 1 (some query)), (1, .get 1 fun _ => 1), (2, .confirm 1 2),
    (3, .addFromQuery 1 (some "provider=nope".toList))]

end Sample

/-- Only the one that served the hash is known after `HINT_TTL`. -/
theorem get_history_sample :
    ((after Z32.standard Sample.ids Sample.calls).get 1 fun _ => HINT_TTL + 1).2 = [2] ∧
      2 ∈ ((after Z32.standard Sample.ids Sample.calls).get 1 fun _ => HINT_TTL + 1).2 := by
  have hover : ∀ x ∈ Sample.calls, ∀ time, x.1 ≤ time → Over x time := by
    intro x hx time hle
    refine ⟨hle, fun hash clock hget i => ?_⟩
    simp only [Sample.calls, List.mem_cons, List.not_mem_nil, or_false] at hx
    rcases hx with rfl | rfl | rfl | rfl <;> cases hget
    exact ⟨le_rfl, hle⟩
  have htimely : Timely Sample.calls (HINT_TTL + 1) := by
    have hsorted : Sample.calls.Pairwise fun x y => x.1 ≤ y.1 := by decide
    refine ⟨hsorted.imp_of_mem fun {x y} hx _ hle => hover x hx y.1 hle, fun x hx => ?_, by decide⟩
    have hpast : ∀ x ∈ Sample.calls, x.1 ≤ HINT_TTL + 1 := by decide
    exact hover x hx _ (hpast x hx)
  refine ⟨by decide +kernel, ?_⟩
  refine (get_history htimely 1 fun i => ⟨le_rfl, le_rfl⟩).2.2.1 [] _ _ 2 rfl ?_ ?_ ?_
  · decide +kernel
  · decide +kernel
  · decide +kernel

end Hints

end ContentDiscovery
