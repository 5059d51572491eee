import ContentDiscovery.Machine
import Mathlib.Algebra.BigOperators.Group.List.Basic
import Mathlib.Algebra.GroupWithZero.Nat
import Mathlib.Data.List.Chain
import Mathlib.Order.Nat

/-!
# Loops that try again

A loop tries something, sleeps for a time that depends on what came of it, and tries again,
unless what came of it ends the loop. An attempt may have a time limit. Timers are never early, and
late by no more than a given lag; how long an attempt takes otherwise, and what comes of it, is up
to the environment.

`RetryLoop.kept_run` is the schedule of every run: each attempt follows the one before it when its
delay is over, and where the loop stands follows from the last one. `RetryLoop.Kept.clock_le` bounds
the time since an attempt by the attempts after it.
-/

/-- A loop that tries again. -/
structure RetryLoop (ο ε : Type) where
  /-- what an outcome comes to: an error that ends the loop, or how long it sleeps -/
  verdict : ο → Except ε ℕ
  /-- the longest an attempt may take, and the outcome if it takes longer -/
  timeout : Option (ℕ × ο)

namespace RetryLoop

/-- Where a loop stands. -/
inductive Pc (ε : Type) where
  /-- at an attempt -/
  | trying (since : ℕ)
  /-- asleep -/
  | sleeping (deadline : ℕ)
  /-- ended -/
  | returned (error : ε)
  deriving DecidableEq

/-- A loop at a time. -/
structure State (ε : Type) where
  /-- the time -/
  clock : ℕ
  /-- where it stands -/
  pc : Pc ε
  deriving DecidableEq

/-- An attempt. -/
structure Attempt (ο : Type) where
  /-- when it began -/
  since : ℕ
  /-- when it ended -/
  now : ℕ
  /-- what came of it -/
  outcome : ο
  deriving DecidableEq

/-- What may happen. -/
inductive Event (ο : Type) where
  /-- time passes -/
  | tick (d : ℕ)
  /-- the attempt ends -/
  | ended (outcome : ο)
  /-- the next one begins -/
  | woken
  deriving DecidableEq

variable {ο ε : Type} (L : RetryLoop ο ε)

/-- One step. A step that is not enabled does nothing. -/
def step (s : State ε) : Event ο → State ε × Option (Attempt ο)
  | .tick d => ({ s with clock := s.clock + d }, none)
  | .ended outcome =>
    match s.pc with
    | .trying since =>
      ({ s with
          pc := match L.verdict outcome with
            | .error error => .returned error
            | .ok delay => .sleeping (s.clock + delay) },
        some ⟨since, s.clock, outcome⟩)
    | _ => (s, none)
  | .woken => ({ s with pc := .trying s.clock }, none)

/-- When a step can happen, with timers that are late by no more than a lag. -/
def Enabled (lag : ℕ) (s : State ε) : Event ο → Prop
  | .tick d =>
    match s.pc with
    | .trying since => ∀ limit ∈ L.timeout, s.clock + d ≤ since + limit.1 + lag
    | .sleeping deadline => s.clock + d ≤ deadline + lag
    | .returned _ => True
  | .ended outcome =>
    match s.pc with
    | .trying since => ∀ limit ∈ L.timeout, outcome = limit.2 → since + limit.1 ≤ s.clock
    | _ => False
  | .woken =>
    match s.pc with
    | .sleeping deadline => deadline ≤ s.clock
    | _ => False

/-- The loop, from its first attempt. -/
def machine (lag start : ℕ) : Machine (State ε) (Event ο) (Option (Attempt ο)) where
  init s := s = ⟨start, .trying start⟩
  enabled _ s e := L.Enabled lag s e
  step := L.step

/-- The attempts of a run. -/
def attempts (t : List (Event ο × Option (Attempt ο))) : List (Attempt ο) := t.filterMap Prod.snd

/-- An attempt follows another when the delay is over. -/
def Next (lag : ℕ) (a : Attempt ο) (since : ℕ) : Prop :=
  ∃ delay, L.verdict a.outcome = .ok delay ∧ a.now + delay ≤ since ∧ since ≤ a.now + delay + lag

/-- An attempt takes no longer than it may. -/
structure Timely (lag : ℕ) (a : Attempt ο) : Prop where
  /-- it ends after it began -/
  ordered : a.since ≤ a.now
  /-- it does not time out early -/
  early : ∀ limit ∈ L.timeout, a.outcome = limit.2 → a.since + limit.1 ≤ a.now
  /-- it ends when it times out -/
  late : ∀ limit ∈ L.timeout, a.now ≤ a.since + limit.1 + lag

/-- What holds of a run. -/
structure Kept (lag start : ℕ) (t : List (Event ο × Option (Attempt ο))) (s : State ε) : Prop where
  /-- the first attempt is at the start -/
  first : ∀ a, (attempts t).head? = some a → a.since = start
  /-- each one follows the one before it -/
  chain : (attempts t).IsChain fun a b => L.Next lag a b.since
  /-- each one is timely -/
  timely : ∀ a ∈ attempts t, L.Timely lag a
  /-- the one that goes on is -/
  trying : ∀ since, s.pc = .trying since → since ≤ s.clock ∧
    (∀ limit ∈ L.timeout, s.clock ≤ since + limit.1 + lag) ∧
    (attempts t = [] → since = start) ∧ ∀ a, (attempts t).getLast? = some a → L.Next lag a since
  /-- the loop sleeps for the delay of the last one -/
  sleeping : ∀ deadline, s.pc = .sleeping deadline → s.clock ≤ deadline + lag ∧
    ∃ a delay, (attempts t).getLast? = some a ∧ L.verdict a.outcome = .ok delay ∧
      deadline = a.now + delay ∧ a.now ≤ s.clock
  /-- it ended with the error of the last one -/
  returned : ∀ error, s.pc = .returned error →
    ∃ a, (attempts t).getLast? = some a ∧ L.verdict a.outcome = .error error

variable {L} {lag start : ℕ} {t : List (Event ο × Option (Attempt ο))} {s : State ε}

theorem attempts_concat_none (e : Event ο) : attempts (t ++ [(e, none)]) = attempts t := by
  rw [attempts, List.filterMap_append, List.filterMap_cons_none rfl, List.filterMap_nil,
    List.append_nil]
  rfl

theorem attempts_concat_some (e : Event ο) (a : Attempt ο) :
    attempts (t ++ [(e, some a)]) = attempts t ++ [a] :=
  List.filterMap_append

/-- An attempt ends. -/
theorem Kept.ended (h : L.Kept lag start t s) {since : ℕ} {outcome : ο}
    (hpc : s.pc = .trying since)
    (hen : ∀ limit ∈ L.timeout, outcome = limit.2 → since + limit.1 ≤ s.clock) :
    L.Kept lag start (t ++ [(.ended outcome, (L.step s (.ended outcome)).2)])
      (L.step s (.ended outcome)).1 := by
  obtain ⟨hle, hlimit, hfirst, hnext⟩ := h.trying since hpc
  have hattempts : attempts (t ++ [(.ended outcome, (L.step s (.ended outcome)).2)]) =
      attempts t ++ [⟨since, s.clock, outcome⟩] := by
    simp only [step, hpc]
    exact attempts_concat_some _ _
  constructor
  all_goals rw [hattempts]
  case first =>
    intro a ha
    cases hnil : attempts t with
    | nil =>
      rw [hnil] at ha
      rw [← Option.some.inj ha]
      exact hfirst hnil
    | cons b bs =>
      rw [hnil] at ha
      exact h.first a (by rw [hnil]; exact ha)
  case chain =>
    refine h.chain.append (.singleton _) fun a ha b hb => ?_
    rw [← Option.some.inj hb]
    exact hnext a ha
  case timely =>
    intro a ha
    rcases List.mem_append.mp ha with ha | ha
    · exact h.timely a ha
    · rw [List.mem_singleton.mp ha]
      exact ⟨hle, hen, hlimit⟩
  all_goals
    simp only [step, hpc, List.getLast?_concat]
    cases hverdict : L.verdict outcome
  case trying.error | trying.ok => exact nofun
  case sleeping.error => exact nofun
  case sleeping.ok delay =>
    rintro _ ⟨⟩
    exact ⟨by omega, _, delay, rfl, hverdict, rfl, le_rfl⟩
  case returned.error error =>
    rintro _ ⟨⟩
    exact ⟨_, rfl, hverdict⟩
  case returned.ok => exact nofun

theorem kept_step (h : L.Kept lag start t s) {e : Event ο} (hen : L.Enabled lag s e) :
    L.Kept lag start (t ++ [(e, (L.step s e).2)]) (L.step s e).1 := by
  cases e with
  | ended outcome =>
    simp only [Enabled] at hen
    split at hen
    · rename_i since hpc
      exact h.ended hpc hen
    · cases hen
  | tick d =>
    have hattempts := attempts_concat_none (t := t) (.tick d)
    constructor
    all_goals simp only [step, hattempts]
    case first => exact h.first
    case chain => exact h.chain
    case timely => exact h.timely
    case returned => exact h.returned
    case trying =>
      intro since hpc
      obtain ⟨hle, -, hrest⟩ := h.trying since hpc
      simp only [Enabled, hpc] at hen
      exact ⟨by omega, hen, hrest⟩
    case sleeping =>
      intro deadline hpc
      obtain ⟨-, a, delay, hlast, hverdict, hdeadline, hnow⟩ := h.sleeping deadline hpc
      simp only [Enabled, hpc] at hen
      exact ⟨hen, a, delay, hlast, hverdict, hdeadline, by omega⟩
  | woken =>
    have hattempts := attempts_concat_none (t := t) .woken
    simp only [Enabled] at hen
    split at hen
    swap
    · cases hen
    rename_i deadline hpc
    obtain ⟨hlag, a, delay, hlast, hverdict, rfl, hnow⟩ := h.sleeping deadline hpc
    constructor
    all_goals simp only [step, hattempts]
    case first => exact h.first
    case chain => exact h.chain
    case timely => exact h.timely
    case sleeping | returned => exact nofun
    case trying =>
      rintro _ ⟨⟩
      refine ⟨le_rfl, fun limit _ => by omega, fun hnil => ?_, fun b hb => ?_⟩
      · rw [hnil] at hlast
        cases hlast
      · rw [hlast] at hb
        obtain rfl := Option.some.inj hb
        exact ⟨delay, hverdict, hen, hlag⟩

/-- The schedule of every run. -/
theorem kept_run (h : (L.machine lag start).Run t s) : L.Kept lag start t s := by
  refine h.invariant (I := L.Kept lag start) ?_ ?_
  · rintro s rfl
    refine ⟨nofun, .nil, nofun, ?_, nofun, nofun⟩
    rintro _ ⟨⟩
    refine ⟨le_rfl, fun limit _ => ?_, fun _ => rfl, nofun⟩
    exact Nat.le_add_right_of_le (Nat.le_add_right _ _)
  · exact fun t s e hrun hen ih => kept_step ih hen

/-! ## The time since an attempt -/

/-- How long the loop sleeps after an attempt, if it goes on. -/
def pause (L : RetryLoop ο ε) (a : Attempt ο) : ℕ := (L.verdict a.outcome).toOption.getD 0

theorem pause_eq {a : Attempt ο} {delay : ℕ} (h : L.verdict a.outcome = .ok delay) :
    L.pause a = delay := by
  rw [pause, h]
  rfl

/-- The attempts after one end when their delays and limits are over. -/
theorem getLast_now_le {limit : ℕ} {o : ο} (hlimit : L.timeout = some (limit, o))
    {a b : Attempt ο} {after : List (Attempt ο)}
    (hchain : (a :: after).IsChain fun a b => L.Next lag a b.since)
    (htimely : ∀ b ∈ after, L.Timely lag b) (hlast : (a :: after).getLast? = some b) :
    b.now + L.pause b ≤
      a.now + ((a :: after).map L.pause).sum + after.length * (limit + 2 * lag) := by
  induction after generalizing a with
  | nil =>
    rw [List.getLast?_singleton, Option.some_inj] at hlast
    rw [hlast, List.map_cons, List.map_nil, List.sum_cons, List.sum_nil, List.length_nil]
    omega
  | cons c after ih =>
    obtain ⟨⟨delay, hverdict, -, hc⟩, hchain⟩ := List.isChain_cons_cons.mp hchain
    have hrest := ih hchain (fun b hb => htimely b (List.mem_cons_of_mem _ hb)) hlast
    have hlate := (htimely c List.mem_cons_self).late (limit, o) hlimit
    rw [List.map_cons, List.sum_cons, pause_eq hverdict, List.length_cons, Nat.succ_mul]
    omega

/-- While a loop with a limit goes on, the time since an attempt is no more than the delays and
the limits of those after it. -/
theorem Kept.clock_le (h : L.Kept lag start t s) {limit : ℕ} {o : ο}
    (hlimit : L.timeout = some (limit, o)) {before after : List (Attempt ο)} {a : Attempt ο}
    (hattempts : attempts t = before ++ a :: after) (hpc : ∀ error, s.pc ≠ .returned error) :
    s.clock ≤ a.now + ((a :: after).map L.pause).sum + (after.length + 1) * (limit + 2 * lag) := by
  have hne : a :: after ≠ [] := nofun
  obtain ⟨b, hb⟩ := Option.isSome_iff_exists.mp (List.getLast?_isSome.mpr hne)
  have hlast : (attempts t).getLast? = some b := by
    rw [hattempts, List.getLast?_append_of_ne_nil _ hne]
    exact hb
  have hchain := h.chain
  rw [hattempts] at hchain
  have htimely : ∀ b ∈ after, L.Timely lag b := fun b hb => h.timely b (by
    rw [hattempts]
    exact List.mem_append_right _ (List.mem_cons_of_mem _ hb))
  have hnow := getLast_now_le hlimit (List.isChain_append.mp hchain).2.1 htimely hb
  rw [Nat.succ_mul]
  cases hs : s.pc with
  | trying since =>
    obtain ⟨-, hclock, -, hnext⟩ := h.trying since hs
    obtain ⟨delay, hverdict, -, hsince⟩ := hnext b hlast
    rw [pause_eq hverdict] at hnow
    have := hclock (limit, o) hlimit
    omega
  | sleeping deadline =>
    obtain ⟨hclock, c, delay, hc, hverdict, rfl, -⟩ := h.sleeping deadline hs
    rw [hlast] at hc
    obtain rfl := Option.some.inj hc
    rw [pause_eq hverdict] at hnow
    omega
  | returned error => exact absurd hs (hpc error)

/-- A loop that ended did with its last attempt, and only then. -/
theorem Kept.returned_iff (h : L.Kept lag start t s) :
    (∃ error, s.pc = .returned error) ↔
      ∃ a error, (attempts t).getLast? = some a ∧ L.verdict a.outcome = .error error := by
  constructor
  · rintro ⟨error, hpc⟩
    obtain ⟨a, hlast, hverdict⟩ := h.returned error hpc
    exact ⟨a, error, hlast, hverdict⟩
  · rintro ⟨a, error, hlast, hverdict⟩
    cases hs : s.pc with
    | returned error => exact ⟨error, rfl⟩
    | trying since =>
      obtain ⟨delay, hok, -⟩ := (h.trying since hs).2.2.2 a hlast
      rw [hverdict] at hok
      cases hok
    | sleeping deadline =>
      obtain ⟨-, b, delay, hb, hok, -⟩ := h.sleeping deadline hs
      rw [hlast] at hb
      obtain rfl := Option.some.inj hb
      rw [hverdict] at hok
      cases hok

end RetryLoop
