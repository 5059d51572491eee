import ContentDiscovery.Http
import ContentDiscovery.LruCache
import ContentDiscovery.Recency
import ContentDiscovery.Z32

/-!
# Provider hints

`iroh-link-gateway/src/hints.rs`: the providers that links named for a hash, and the parser of the
queries that name them. A query is taken whole or not at all: a malformed provider, or too many of
them, is an error (`parseQuery_eq_error`), and otherwise each provider is named once, in the order
of the query (`parseQuery_ok`).
-/

namespace ContentDiscovery

open Http

/-- What is used of `EndpointId`. -/
structure EndpointIds (EndpointId : Type) where
  /-- `EndpointId::from_bytes` -/
  fromBytes : Vector UInt8 32 → Option EndpointId
  /-- `EndpointId::from_str` -/
  fromStr : Str → Option EndpointId

/-- `Hint`: a provider named for a hash. -/
structure Hint (EndpointId : Type) where
  /-- the provider -/
  provider : EndpointId
  /-- when it was last named or served the hash -/
  confirmed : Instant
  deriving DecidableEq

/-- `Hints`: providers that links named, per hash. -/
structure Hints (Hash EndpointId : Type) where
  /-- the hints of the hashes -/
  entries : LruCache Hash (List (Hint EndpointId))

namespace Hints

/-- `PARAM`: the query parameter naming a provider. -/
def PARAM : Str := "provider".toList

/-- `MAX_PER_URL`: providers a single URL may name. -/
def MAX_PER_URL : ℕ := 4

/-- `MAX_PER_HASH`: providers remembered per hash. -/
def MAX_PER_HASH : ℕ := 8

/-- `SLOTS`: hashes remembered at once. -/
def SLOTS : ℕ := 1024

/-- `HINT_TTL`: how long a hint lasts, 10 minutes. -/
def HINT_TTL : ℕ := 10 * 60 * 10 ^ 9

variable {Hash EndpointId : Type}

/-- `Hints::default`. -/
def default : Hints Hash EndpointId := ⟨.new SLOTS⟩

/-! ## Queries -/

section Parse

variable (z : Z32) (K : EndpointIds EndpointId)

/-- `parse_provider`: an endpoint ID in z-base-32 or in hex. -/
def parseProvider (value : Str) : Option EndpointId :=
  match parseZ32Bytes z value with
  | some bytes => K.fromBytes bytes
  | none => K.fromStr value

/-- The value of a pair, if it is one of the parameter. -/
def paramValue (pair : Str) : Option Str :=
  match Str.splitOnce '=' pair with
  | some (name, value) =>
    if name = PARAM then some value else if pair = PARAM then some [] else none
  | none => if pair = PARAM then some [] else none

/-- The pairs of a query. -/
def pairsOf (query : Option Str) : List Str := query.toList.flatMap fun query => query.splitOn '&'

/-- The error for a value that is no endpoint ID. -/
def invalidProvider : HttpError :=
  ⟨StatusCode.BAD_REQUEST, "invalid provider: expected an endpoint ID in z-base-32 or hex".toList⟩

/-- The error for a query that names more than `MAX_PER_URL` providers. -/
def tooManyProviders : HttpError :=
  ⟨StatusCode.BAD_REQUEST, "a URL may name at most four providers".toList⟩

variable [DecidableEq EndpointId]

/-- The loop of `parse_query`, with the providers so far. -/
def parsePairs : List EndpointId → List Str → Except HttpError (List EndpointId)
  | providers, [] => .ok providers
  | providers, pair :: pairs =>
    match paramValue pair with
    | none => parsePairs providers pairs
    | some value =>
      match parseProvider z K value with
      | none => .error invalidProvider
      | some provider =>
        parsePairs (if provider ∈ providers then providers else providers ++ [provider]) pairs

/-- `parse_query`: the distinct providers that a query names. -/
def parseQuery (query : Option Str) : Except HttpError (List EndpointId) :=
  match parsePairs z K [] (pairsOf query) with
  | .error error => .error error
  | .ok providers =>
    if MAX_PER_URL < providers.length then
      .error tooManyProviders
    else .ok providers

end Parse

/-! ## The hints -/

variable [DecidableEq Hash] [DecidableEq EndpointId] (hints : Hints Hash EndpointId)

/-- `Hints::add`: the providers come ahead of the ones known before. -/
def add (hash : Hash) (providers : List EndpointId) (now : Instant) : Hints Hash EndpointId :=
  ⟨hints.entries.modifyOr hash [] fun (known : List (Hint EndpointId)) =>
    List.take MAX_PER_HASH ((providers.map fun provider => ⟨provider, now⟩) ++
      known.filter fun hint => hint.provider ∉ providers)⟩

/-- `Hints::add_from_query`. -/
def addFromQuery (z : Z32) (K : EndpointIds EndpointId) (hash : Hash) (query : Option Str)
    (now : Instant) : Hints Hash EndpointId × Except HttpError Unit :=
  match parseQuery z K query with
  | .error error => (hints, .error error)
  | .ok providers =>
    if providers = [] then (hints, .ok ()) else (hints.add hash providers now, .ok ())

/-- The first hint that names the provider is renewed. -/
def renew (provider : EndpointId) (now : Instant) : List (Hint EndpointId) → List (Hint EndpointId)
  | [] => []
  | hint :: known =>
    if hint.provider = provider then { hint with confirmed := now } :: known
    else hint :: renew provider now known

/-- `Hints::confirm`: the provider just served the hash. -/
def confirm (hash : Hash) (provider : EndpointId) (now : Instant) : Hints Hash EndpointId :=
  ⟨hints.entries.modify hash (renew provider now)⟩

/-- The hints that are live, by a clock that is read for each of them. -/
def live (clock : ℕ → Instant) (known : List (Hint EndpointId)) : List (Hint EndpointId) :=
  (known.zipIdx.filter fun x => clock x.2 - x.1.confirmed < HINT_TTL).map Prod.fst

/-- `Hints::get`: the live providers known for a hash. -/
def get (hash : Hash) (clock : ℕ → Instant) : Hints Hash EndpointId × List EndpointId :=
  match hints.entries.peek hash with
  | none => (hints, [])
  | some known =>
    let known := live clock known
    let entries := hints.entries.put hash known
    (⟨if known = [] then entries.pop hash else entries⟩, known.map Hint.provider)

/-! ## What a query names -/

section Parse

variable {z : Z32} {K : EndpointIds EndpointId} {providers : List EndpointId} {query : Option Str}

/-- The values of the parameter. -/
def valuesOf (query : Option Str) : List Str := (pairsOf query).filterMap paramValue

/-- The providers in a query, as often as it names them. -/
def providersOf (z : Z32) (K : EndpointIds EndpointId) (query : Option Str) : List EndpointId :=
  (valuesOf query).filterMap (parseProvider z K)

omit [DecidableEq Hash]

/-- The loop takes all providers, each once, unless one is malformed. -/
theorem parsePairs_eq (providers : List EndpointId) (pairs : List Str) :
    parsePairs z K providers pairs =
      if ∃ value ∈ pairs.filterMap paramValue, parseProvider z K value = none then
        .error invalidProvider
      else .ok (((pairs.filterMap paramValue).filterMap (parseProvider z K)).foldl Recency.push
        providers) := by
  induction pairs generalizing providers with
  | nil => simp [parsePairs]
  | cons pair pairs ih =>
    rw [parsePairs]
    cases hvalue : paramValue pair with
    | none =>
      simp only [List.filterMap_cons, hvalue]
      exact ih providers
    | some value =>
      cases hprovider : parseProvider z K value with
      | none => simp [hvalue, hprovider]
      | some provider =>
        simp only [List.filterMap_cons, hvalue, hprovider, List.foldl_cons, ih, List.mem_cons,
          exists_eq_or_imp, reduceCtorEq, false_or]
        rfl

/-- The distinct providers of a query, in its order. -/
def distinct (z : Z32) (K : EndpointIds EndpointId) (query : Option Str) : List EndpointId :=
  (providersOf z K query).foldl Recency.push []

theorem parseQuery_eq (query : Option Str) : parseQuery z K query =
    if ∃ value ∈ valuesOf query, parseProvider z K value = none then .error invalidProvider
    else if MAX_PER_URL < (distinct z K query).length then .error tooManyProviders
    else .ok (distinct z K query) := by
  rw [parseQuery, parsePairs_eq, valuesOf]
  by_cases h : ∃ value ∈ (pairsOf query).filterMap paramValue, parseProvider z K value = none
  · rw [if_pos h, if_pos h]
  · rw [if_neg h, if_neg h]
    rfl

/-- A query is rejected if a provider is malformed, or if there are too many. -/
theorem parseQuery_eq_error : (∃ error, parseQuery z K query = .error error) ↔
    (∃ value ∈ valuesOf query, parseProvider z K value = none) ∨
      MAX_PER_URL < (distinct z K query).length := by
  rw [parseQuery_eq]
  split
  · rename_i hmalformed
    exact ⟨fun _ => .inl hmalformed, fun _ => ⟨_, rfl⟩⟩
  · rename_i hformed
    rw [or_iff_right hformed]
    split
    · rename_i hmany
      exact ⟨fun _ => hmany, fun _ => ⟨_, rfl⟩⟩
    · rename_i hfew
      refine ⟨?_, fun h => absurd h hfew⟩
      rintro ⟨error, herror⟩
      cases herror

/-- Otherwise it names its distinct providers, in its order. -/
theorem parseQuery_ok (h : parseQuery z K query = .ok providers) :
    providers.Nodup ∧ (∀ p, p ∈ providers ↔ p ∈ providersOf z K query) ∧
      providers.Pairwise fun p q =>
        (providersOf z K query).idxOf p < (providersOf z K query).idxOf q := by
  rw [parseQuery_eq] at h
  split at h
  · cases h
  · split at h
    · cases h
    · cases h
      exact ⟨Recency.nodup_foldl_push _, fun p => Recency.mem_foldl_push.trans
        (or_iff_right List.not_mem_nil), Recency.pairwise_foldl_push _⟩

/-- The distinct providers are as many as the providers. -/
theorem length_distinct (query : Option Str) :
    (distinct z K query).length = (providersOf z K query).toFinset.card := by
  have hset : (distinct z K query).toFinset = (providersOf z K query).toFinset := by
    ext p
    rw [List.mem_toFinset, List.mem_toFinset, distinct, Recency.mem_foldl_push,
      or_iff_right List.not_mem_nil]
  have hnodup : (distinct z K query).Nodup := Recency.nodup_foldl_push _
  rw [← hset, List.toFinset_card_of_nodup hnodup]

theorem length_parseQuery (h : parseQuery z K query = .ok providers) :
    providers.length ≤ MAX_PER_URL := by
  rw [parseQuery_eq] at h
  split at h
  · cases h
  · split at h
    · cases h
    · rename_i hfew
      cases h
      exact Nat.le_of_not_lt hfew

end Parse

end Hints

end ContentDiscovery
