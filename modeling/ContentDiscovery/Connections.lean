import ContentDiscovery.Collections
import ContentDiscovery.Http
import ContentDiscovery.Machine
import ContentDiscovery.ProviderCache

/-!
# Connecting to a provider

`Gateway::connection` of `iroh-link-gateway/src/lib.rs` and the probes of
`verified_providers` in `providers.rs`, for any number of requests at once that share one
cache of providers. What Mainline finds, how the probes end, which providers links name
and when a request is dropped is up to the environment.

A request that finds a remembered miss is answered without a lookup. `miss_answers` says
that this hides no known provider as long as no miss is recorded for a hash that has one,
and that a miss recorded for such a hash does hide it. `miss_hides` is a run in which a
lookup runs out of time after another one found a provider.
-/

namespace ContentDiscovery

open Http

/-- `DISCOVERY_TIMEOUT`: the deadline for finding a verified provider, 45 seconds. -/
def DISCOVERY_TIMEOUT : ℕ := 45 * 10 ^ 9

/-- `CONCURRENT_PROBES`. -/
def CONCURRENT_PROBES : ℕ := 3

/-- A lookup in progress. -/
structure ProviderLookup (Hash EndpointId : Type) where
  /-- the hash -/
  hash : Hash
  /-- when it was started -/
  started : Instant
  /-- the named and the known providers not yet looked at -/
  candidates : List EndpointId
  /-- the providers looked at -/
  seen : List EndpointId
  /-- the providers probed at present -/
  probing : List EndpointId
  /-- Mainline has no more providers -/
  exhausted : Bool

/-- The part of a `Gateway` that its connections share, and the lookups in progress. -/
structure Gateway (Hash EndpointId κ : Type) where
  /-- the time of the last event -/
  now : Instant
  /-- the providers and the misses -/
  providers : ProviderCache Hash EndpointId
  /-- the lookups in progress, by their calls -/
  lookups : κ → Option (ProviderLookup Hash EndpointId)

namespace Gateway

/-- What may happen next. -/
inductive Event (Hash EndpointId κ : Type) where
  /-- a call of `connection`, with the providers that links named -/
  | connection (call : κ) (hash : Hash) (hinted : List EndpointId)
  /-- the next named or known provider is looked at -/
  | candidate (call : κ)
  /-- Mainline finds a provider -/
  | discovered (call : κ) (provider : EndpointId)
  /-- Mainline finds no more providers -/
  | exhausted (call : κ)
  /-- a probe ends: how long it took if it passed -/
  | probed (call : κ) (provider : EndpointId) (latency : Option ℕ)
  /-- no provider is left -/
  | finished (call : κ)
  /-- the lookup runs out of time -/
  | elapsed (call : κ)
  /-- the request is dropped -/
  | dropped (call : κ)

variable {Hash EndpointId κ : Type}

/-- What a call comes to: an error, or a provider to connect to. -/
abbrev Answer (EndpointId : Type) : Type := Except HttpError EndpointId

/-- `NOT_FOUND`. -/
def NOT_FOUND : HttpError := ⟨404, "no verified provider found for this hash".toList⟩

/-- The error for a lookup that failed. -/
def errorOf : Miss → HttpError
  | .NotFound => NOT_FOUND
  | .TimedOut => .timeout

/-- The call of an event. -/
def Event.call : Event Hash EndpointId κ → κ
  | .connection call .. => call
  | .candidate call => call
  | .discovered call _ => call
  | .exhausted call => call
  | .probed call .. => call
  | .finished call => call
  | .elapsed call => call
  | .dropped call => call

/-- What a lookup may do at a time. -/
def May (l : ProviderLookup Hash EndpointId) (now : Instant) :
    Event Hash EndpointId κ → Prop
  | .connection .. => False
  | .candidate _ => l.candidates ≠ [] ∧ l.probing.length < CONCURRENT_PROBES
  | .discovered .. =>
    l.candidates = [] ∧ ¬ l.exhausted ∧ l.probing.length < CONCURRENT_PROBES
  | .exhausted _ => l.candidates = [] ∧ l.probing.length < CONCURRENT_PROBES
  | .probed _ provider _ => provider ∈ l.probing
  | .finished _ => l.candidates = [] ∧ l.exhausted ∧ l.probing = []
  | .elapsed _ => l.started + DISCOVERY_TIMEOUT ≤ now
  | .dropped _ => True

/-- The clock never goes back, and a call does one thing after another. -/
def Enabled (g : Gateway Hash EndpointId κ) (x : Instant × Event Hash EndpointId κ) : Prop :=
  g.now ≤ x.1 ∧
    match g.lookups x.2.call with
    | none => ∃ call hash hinted, x.2 = .connection call hash hinted
    | some l => May l x.1 x.2

section

variable {g : Gateway Hash EndpointId κ} {l : ProviderLookup Hash EndpointId} {now : Instant}
  {call : κ} {hash : Hash} {hinted : List EndpointId} {e : Event Hash EndpointId κ}

theorem enabled_connection (hnow : g.now ≤ now) (hcall : g.lookups call = none) :
    g.Enabled (now, .connection call hash hinted) := by
  refine ⟨hnow, ?_⟩
  rw [Event.call, hcall]
  exact ⟨call, hash, hinted, rfl⟩

theorem enabled_of_may (hnow : g.now ≤ now) (hl : g.lookups e.call = some l)
    (hmay : May l now e) : g.Enabled (now, e) := by
  refine ⟨hnow, ?_⟩
  rw [hl]
  exact hmay

end

variable [DecidableEq Hash] [DecidableEq EndpointId] [DecidableEq κ]

/-- The lookup of a call changes, or ends. -/
def setLookup (g : Gateway Hash EndpointId κ) (call : κ)
    (l : Option (ProviderLookup Hash EndpointId)) : Gateway Hash EndpointId κ :=
  { g with lookups := Function.update g.lookups call l }

/-- A lookup begins: the known providers come after the ones that links named. -/
def lookUp (g : Gateway Hash EndpointId κ) (call : κ) (hash : Hash) (hinted : List EndpointId)
    (now : Instant) : Gateway Hash EndpointId κ :=
  let r := g.providers.providers hash now
  setLookup { g with providers := r.1 } call
    (some ⟨hash, now, hinted ++ r.2.map Prod.fst, [], [], false⟩)

/-- `Gateway::connection`, up to its lookup. -/
def connect (g : Gateway Hash EndpointId κ) (call : κ) (hash : Hash) (hinted : List EndpointId)
    (now : Instant) : Gateway Hash EndpointId κ × Option (Answer EndpointId) :=
  if hinted = [] then
    let r := g.providers.missing hash now
    match r.2 with
    | some miss => ({ g with providers := r.1 }, some (.error (errorOf miss)))
    | none => (lookUp { g with providers := r.1 } call hash hinted now, none)
  else (lookUp g call hash hinted now, none)

/-- The probe of a provider begins, unless there was one. -/
def probe (l : ProviderLookup Hash EndpointId) (provider : EndpointId) :
    ProviderLookup Hash EndpointId :=
  if provider ∈ l.seen then l
  else { l with seen := provider :: l.seen, probing := provider :: l.probing }

/-- A lookup ends without a provider. -/
def miss (g : Gateway Hash EndpointId κ) (call : κ) (l : ProviderLookup Hash EndpointId)
    (miss : Miss) (now : Instant) : Gateway Hash EndpointId κ × Option (Answer EndpointId) :=
  (setLookup { g with providers := g.providers.recordMissing l.hash miss now } call none,
    some (.error (errorOf miss)))

/-- An event of a call with a lookup. -/
def advance (g : Gateway Hash EndpointId κ) (l : ProviderLookup Hash EndpointId) (now : Instant) :
    Event Hash EndpointId κ → Gateway Hash EndpointId κ × Option (Answer EndpointId)
  | .connection .. => (g, none)
  | .candidate call =>
    match l.candidates with
    | [] => (g, none)
    | provider :: rest =>
      (g.setLookup call (some (probe { l with candidates := rest } provider)), none)
  | .discovered call provider => (g.setLookup call (some (probe l provider)), none)
  | .exhausted call => (g.setLookup call (some { l with exhausted := true }), none)
  | .probed call provider (some latency) =>
    (setLookup { g with providers := g.providers.confirm l.hash provider latency now } call none,
      some (.ok provider))
  | .probed call provider none =>
    (setLookup { g with providers := g.providers.forget l.hash provider } call
      (some { l with probing := l.probing.erase provider }), none)
  | .finished call => g.miss call l .NotFound now
  | .elapsed call => g.miss call l .TimedOut now
  | .dropped call => (g.setLookup call none, none)

/-- One event, at its time. -/
def step (g : Gateway Hash EndpointId κ) :
    Instant × Event Hash EndpointId κ → Gateway Hash EndpointId κ × Option (Answer EndpointId)
  | (now, .connection call hash hinted) => connect { g with now := now } call hash hinted now
  | (now, e) =>
    match g.lookups e.call with
    | none => ({ g with now := now }, none)
    | some l => advance { g with now := now } l now e

/-- A gateway and its connections. -/
def machine : Machine (Gateway Hash EndpointId κ) (Instant × Event Hash EndpointId κ)
    (Option (Answer EndpointId)) where
  init g := g.providers = .default ∧ ∀ call, g.lookups call = none
  enabled _ g x := g.Enabled x
  step g x := g.step x

/-- A miss is recorded for a hash only while it has no known provider. -/
def MissesUnknown (g : Gateway Hash EndpointId κ) (x : Instant × Event Hash EndpointId κ) :
    Prop :=
  ∀ call l, x.2 = .finished call ∨ x.2 = .elapsed call → g.lookups call = some l →
    (g.providers.providers l.hash x.1).2 = []

/-- A call is answered at once, though a provider is known. -/
def Hides (g : Gateway Hash EndpointId κ) (x : Instant × Event Hash EndpointId κ) : Prop :=
  ∃ call hash hinted, x.2 = .connection call hash hinted ∧ (g.step x).2 ≠ none ∧
    (g.providers.providers hash x.1).2 ≠ []

section Step

variable {g : Gateway Hash EndpointId κ} {l : ProviderLookup Hash EndpointId} {now : Instant}
  {call : κ} {hash : Hash} {hinted : List EndpointId} {e : Event Hash EndpointId κ}

omit [DecidableEq EndpointId] in
/-- A call of `connection` keeps misses and known providers apart, and is answered only
if the hash has a miss. -/
theorem connect_spec (h : g.providers.Clear now) (call : κ) (hash : Hash)
    (hinted : List EndpointId) :
    (g.connect call hash hinted now).1.providers.Clear now ∧
      (g.connect call hash hinted now).1.now = g.now ∧
      ((g.connect call hash hinted now).2 ≠ none → (g.providers.providers hash now).2 = []) := by
  rw [connect]
  split
  · have hclear : (g.providers.missing hash now).1.Clear now := h.missing
    cases hmissing : (g.providers.missing hash now).2 with
    | none =>
      simp only [hmissing]
      exact ⟨hclear.providers, rfl, fun h => absurd rfl h⟩
    | some m =>
      simp only [hmissing]
      refine ⟨hclear, trivial, fun _ => ?_⟩
      obtain ⟨entry, hpeek, hmiss⟩ := ProviderCache.peek_of_missing hmissing
      rw [ProviderCache.providers_eq_nil]
      intro entry' hpeek'
      rw [hpeek, Option.some_inj] at hpeek'
      exact hpeek' ▸ h hash entry hpeek hmiss
  · exact ⟨h.providers, rfl, fun h => absurd rfl h⟩

/-- So does every event of a lookup, but one that records a miss for a hash with a known
provider. -/
theorem advance_spec (h : g.providers.Clear now)
    (hmisses : ∀ call, e = .finished call ∨ e = .elapsed call →
      (g.providers.providers l.hash now).2 = []) :
    (g.advance l now e).1.providers.Clear now ∧ (g.advance l now e).1.now = g.now := by
  cases e with
  | connection => exact ⟨h, rfl⟩
  | candidate call =>
    rw [advance]
    split
    · exact ⟨h, rfl⟩
    · exact ⟨h, rfl⟩
  | discovered => exact ⟨h, rfl⟩
  | exhausted => exact ⟨h, rfl⟩
  | probed call provider latency =>
    cases latency with
    | some latency => exact ⟨h.confirm, rfl⟩
    | none => exact ⟨h.forget, rfl⟩
  | finished call => exact ⟨h.recordMissing (hmisses call (.inl rfl)), rfl⟩
  | elapsed call => exact ⟨h.recordMissing (hmisses call (.inr rfl)), rfl⟩
  | dropped => exact ⟨h, rfl⟩

end Step

section Runs

variable {g : Gateway Hash EndpointId κ} {x : Instant × Event Hash EndpointId κ}
  {t : List ((Instant × Event Hash EndpointId κ) × Option (Answer EndpointId))}

/-- An event of another kind than a call advances its lookup. -/
theorem step_eq (h : ∀ call hash hinted, x.2 ≠ .connection call hash hinted) :
    g.step x = match g.lookups x.2.call with
      | none => ({ g with now := x.1 }, none)
      | some l => advance { g with now := x.1 } l x.1 x.2 := by
  obtain ⟨now, e⟩ := x
  cases e with
  | connection call hash hinted => exact absurd rfl (h call hash hinted)
  | _ => rfl

/-- Misses and known providers stay apart if no miss is recorded for a hash with one. -/
theorem clear_step (h : g.providers.Clear g.now) (hen : g.Enabled x) (hmisses : g.MissesUnknown x) :
    (g.step x).1.providers.Clear (g.step x).1.now ∧ ¬ g.Hides x := by
  have hnow : g.providers.Clear x.1 := h.mono hen.1
  by_cases hcall : ∃ call hash hinted, x.2 = .connection call hash hinted
  · obtain ⟨now, e⟩ := x
    obtain ⟨call, hash, hinted, rfl⟩ := hcall
    have hspec := connect_spec (g := { g with now := now }) hnow call hash hinted
    refine ⟨?_, ?_⟩
    · rw [step, hspec.2.1]
      exact hspec.1
    · rintro ⟨call', hash', hinted', heq, hanswer, hknown⟩
      cases heq
      exact hknown (hspec.2.2 hanswer)
  · have hother : ∀ call hash hinted, x.2 ≠ .connection call hash hinted :=
      fun call hash hinted heq => hcall ⟨call, hash, hinted, heq⟩
    refine ⟨?_, fun ⟨call, hash, hinted, heq, _⟩ => hother call hash hinted heq⟩
    rw [step_eq hother]
    split
    · exact hnow
    · rename_i l hl
      obtain ⟨hclear, htime⟩ := advance_spec (g := { g with now := x.1 }) (l := l) (e := x.2) hnow
        fun call hrecords => hmisses x.2.call l (by
          rcases hrecords with heq | heq <;> rw [heq] <;> simp [Event.call]) hl
      rw [htime]
      exact hclear

/-- A miss recorded for a hash with a known provider answers the next call. -/
theorem hides_of_miss (hen : g.Enabled x) (hmisses : ¬ g.MissesUnknown x) :
    ∃ y, (g.step x).1.Enabled y ∧ (g.step x).1.Hides y := by
  rw [MissesUnknown] at hmisses
  simp only [not_forall] at hmisses
  obtain ⟨call, l, hrecords, hl, hknown⟩ := hmisses
  have hstep : ∃ m, (g.step x).1 =
      ({ g with now := x.1 }.miss call l m x.1).1 := by
    obtain ⟨now, e⟩ := x
    rcases hrecords with heq | heq <;> cases heq
    · exact ⟨.NotFound, by simp only [step, Event.call, hl, advance]⟩
    · exact ⟨.TimedOut, by simp only [step, Event.call, hl, advance]⟩
  obtain ⟨m, hm⟩ := hstep
  obtain ⟨hmissing, hstays⟩ := ProviderCache.missing_recordMissing m hknown
  refine ⟨(x.1, .connection call l.hash []), ?_, call, l.hash, [], rfl, ?_, ?_⟩
  · rw [hm]
    refine ⟨le_rfl, ?_⟩
    simp [miss, setLookup, Event.call]
  · rw [hm, step, connect, if_pos rfl]
    simp only [miss, setLookup, hmissing]
    exact fun h => (nomatch h)
  · rw [hm]
    exact hstays

/-- A remembered miss hides no known provider in a run that records no miss for a hash
with a known provider; the first step that does lets it hide the provider. -/
theorem miss_answers
    (h : (machine.restrict fun _ g x => MissesUnknown g x).Run t g) (hen : g.Enabled x) :
    ¬ g.Hides x ∧
      (¬ g.MissesUnknown x → ∃ y, (g.step x).1.Enabled y ∧ (g.step x).1.Hides y) := by
  have hclear : g.providers.Clear g.now := by
    refine h.invariant (I := fun _ g => g.providers.Clear g.now) ?_ ?_
    · rintro g ⟨hdefault, -⟩
      rw [hdefault]
      exact ProviderCache.clear_default
    · intro t g x _ hx hclear
      exact (clear_step hclear hx.1 hx.2).1
  refine ⟨?_, hides_of_miss hen⟩
  intro hhides
  have hmisses : g.MissesUnknown x := by
    obtain ⟨call, hash, hinted, heq, -⟩ := hhides
    rintro call' l (hrecords | hrecords) -
    · cases heq.symm.trans hrecords
    · cases heq.symm.trans hrecords
  exact (clear_step hclear hen hmisses).2 hhides

end Runs

namespace Sample

/-- A hash, and the endpoint that serves it. -/
def hash : Vector UInt8 32 := .replicate 32 7

def provider : Vector UInt8 32 := .replicate 32 9

abbrev State : Type := Gateway (Vector UInt8 32) (Vector UInt8 32) ℕ

abbrev Input : Type := Instant × Event (Vector UInt8 32) (Vector UInt8 32) ℕ

def start : State := ⟨0, .default, fun _ => none⟩

def SECOND : ℕ := 10 ^ 9

/-- No miss is recorded for a hash with a known provider. -/
def careful : Machine State Input (Option (Answer (Vector UInt8 32))) :=
  machine.restrict fun _ g x => MissesUnknown g x

/-- Two lookups overlap. One confirms a provider; the other one finds that it is gone, and runs out
of time. -/
def overlap : List Input :=
  [(0, .connection 1 hash []), (SECOND, .connection 2 hash []),
    (2 * SECOND, .discovered 2 provider), (3 * SECOND, .probed 2 provider (some SECOND)),
    (4 * SECOND, .discovered 1 provider), (14 * SECOND, .probed 1 provider none),
    (45 * SECOND, .elapsed 1)]

/-- How the calls are answered. -/
def told : List (Option (Answer (Vector UInt8 32))) :=
  [none, none, none, some (.ok provider), none, none, some (.error .timeout)]

theorem exec_overlap : (careful.exec start overlap).1 = overlap.zip told := rfl

/-- Other events than the end of a lookup record no miss. -/
theorem missesUnknown {g : State} {x : Input} (hfinished : ∀ call, x.2 ≠ .finished call)
    (helapsed : ∀ call, x.2 ≠ .elapsed call) : g.MissesUnknown x := by
  rintro call l (h | h)
  · exact absurd h (hfinished call)
  · exact absurd h (helapsed call)

theorem follows : careful.Follows [] start overlap := by
  refine ⟨⟨enabled_connection (by decide) (by rfl), ?_⟩,
    ⟨enabled_connection (by decide) (by rfl), ?_⟩,
    ⟨enabled_of_may (by decide) (by rfl) ⟨rfl, by decide, by decide⟩, ?_⟩,
    ⟨enabled_of_may (by decide) (by rfl) (List.mem_singleton_self _), ?_⟩,
    ⟨enabled_of_may (by decide) (by rfl) ⟨rfl, by decide, by decide⟩, ?_⟩,
    ⟨enabled_of_may (by decide) (by rfl) (List.mem_singleton_self _), ?_⟩,
    ⟨enabled_of_may (by decide) (by rfl) (Nat.le_refl _), ?_⟩, trivial⟩
  iterate 6 exact missesUnknown (fun _ => nofun) (fun _ => nofun)
  rintro call l (h | h) hl
  · cases h
  · cases h
    cases hl
    decide +kernel

end Sample

open Sample in
/-- The next call is answered at once, and no provider is known. -/
theorem miss_answers_sample : ∃ g,
    (machine.restrict fun _ g x => MissesUnknown g x).Run (overlap.zip told) g ∧
      ((g : State).step (46 * SECOND, .connection 3 hash [])).2 = some (.error .timeout) ∧
      ¬ g.Hides (46 * SECOND, .connection 3 hash []) := by
  have hrun := (Machine.Run.start (M := careful) (s := start) ⟨rfl, fun _ => rfl⟩).follows follows
  rw [List.nil_append, exec_overlap] at hrun
  refine ⟨_, hrun, ?_, (miss_answers hrun (enabled_connection (by decide) (by rfl))).1⟩
  rfl

open Sample in
/-- A lookup runs out of time after another one found a provider. The next call is answered
with the timeout, though the provider is known. -/
theorem miss_hides : ¬ ∀ t (g : State) x, machine.Run t g → g.Enabled x → ¬ g.Hides x := by
  intro hall
  have h₀ : (machine : Machine State _ _).Run [] start := .start ⟨rfl, fun _ => rfl⟩
  have h₁ := h₀.step (a := ((0, .connection 1 hash []) : Input))
    (enabled_connection (by decide) (by rfl))
  have h₂ := h₁.step (a := ((SECOND, .connection 2 hash []) : Input))
    (enabled_connection (by decide) (by rfl))
  have h₃ := h₂.step (a := ((2 * SECOND, .discovered 2 provider) : Input))
    (enabled_of_may (by decide) (by rfl) (by exact ⟨rfl, by decide, by decide⟩))
  have h₄ := h₃.step (a := ((3 * SECOND, .probed 2 provider (some SECOND)) : Input))
    (enabled_of_may (by decide) (by rfl) (by exact List.mem_singleton_self _))
  have h₅ := h₄.step (a := ((45 * SECOND, .elapsed 1) : Input))
    (enabled_of_may (by decide) (by rfl) (by exact Nat.le_refl _))
  refine hall _ _ (46 * SECOND, .connection 3 hash []) h₅
    (enabled_connection (by decide) (by rfl)) ?_
  refine ⟨3, hash, [], rfl, ?_, ?_⟩
  · decide +kernel
  · decide +kernel

end Gateway

end ContentDiscovery
