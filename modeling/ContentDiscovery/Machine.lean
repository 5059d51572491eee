import Mathlib.Data.List.Induction

/-!
# Machines and their runs

A `Machine` reads inputs one at a time; each step changes its state and emits an
output. What the environment may offer next is a guard on the history and the
state, so schedulers, clocks and adversaries are guards and everything else is a
function.

* `Machine.Run` — the histories a machine can produce, with the state each one
  ends in. A history is a chronological list of (input, output) pairs.
* `Run.invariant` — the induction rule: what holds at the start and is kept by
  every step holds of every run. The invariant sees the history, so a law about
  the order of events is an invariant too.
* `Run.stepAt` — every event of a run is a step from a state some shorter run
  reached, so a law about one step holds at every position of every run.
  `Run.of_concat` names the states on both sides of the last one.
* `Run.since` — the induction rule for what holds since an event of a run.
* `Machine.exec` — running a machine on a list of inputs. A machine that accepts
  every input needs no guard to be discharged (`run_exec`); for another, `Follows`
  collects the guards along the way (`Run.follows`).
* `Machine.restrict` — the runs whose every step meets one more condition.
* `Latest` and `First` — the last and the first event of a kind in a history (`exists_last`).
-/

universe u v w

/-- A transition system with inputs in `α` and outputs in `β`. -/
structure Machine (σ : Type u) (α : Type v) (β : Type w) where
  /-- the start states -/
  init : σ → Prop
  /-- the inputs the environment may offer, given the history and the state -/
  enabled : List (α × β) → σ → α → Prop
  /-- the successor state and the output -/
  step : σ → α → σ × β

namespace Machine

variable {σ : Type u} {α : Type v} {β : Type w} {M : Machine σ α β}

/-- `M.Run t s`: the machine can produce the history `t` and be in state `s`
after it. -/
inductive Run (M : Machine σ α β) : List (α × β) → σ → Prop
  /-- nothing has happened yet -/
  | start {s : σ} (hs : M.init s) : M.Run [] s
  /-- one more enabled input -/
  | step {t : List (α × β)} {s : σ} {a : α} (hrun : M.Run t s) (ha : M.enabled t s a) :
      M.Run (t ++ [(a, (M.step s a).2)]) (M.step s a).1

/-- The induction rule for runs. -/
theorem Run.invariant {I : List (α × β) → σ → Prop} (hinit : ∀ s, M.init s → I [] s)
    (hstep : ∀ t s a, M.Run t s → M.enabled t s a → I t s →
      I (t ++ [(a, (M.step s a).2)]) (M.step s a).1)
    {t : List (α × β)} {s : σ} (h : M.Run t s) : I t s := by
  induction h with
  | start hs => exact hinit _ hs
  | step hrun ha ih => exact hstep _ _ _ hrun ha ih

/-- Every event of a run is a step from a state that the events before it reach. -/
theorem Run.stepAt {t : List (α × β)} {s : σ} (h : M.Run t s) :
    ∀ {pre post : List (α × β)} {x : α × β}, t = pre ++ x :: post →
      ∃ s₁, M.Run pre s₁ ∧ M.enabled pre s₁ x.1 ∧ x.2 = (M.step s₁ x.1).2 := by
  induction h with
  | start hs =>
    intro pre post x ht
    cases pre <;> cases ht
  | @step t s a hrun ha ih =>
    intro pre post x ht
    rcases List.eq_nil_or_concat post with rfl | ⟨post', y, rfl⟩
    · -- the event in question is the last step
      obtain ⟨rfl, hx⟩ := List.append_inj' ht rfl
      obtain rfl := List.singleton_inj.mp hx
      exact ⟨s, hrun, ha, rfl⟩
    · rw [List.concat_eq_append, ← List.cons_append, ← List.append_assoc] at ht
      exact ih (List.append_inj' ht rfl).1

/-- The last event of a run is a step from a state that the events before it reach. -/
theorem Run.of_concat {t : List (α × β)} {x : α × β} {s : σ} (h : M.Run (t ++ [x]) s) :
    ∃ s₁, M.Run t s₁ ∧ M.enabled t s₁ x.1 ∧ M.step s₁ x.1 = (s, x.2) := by
  generalize ht : t ++ [x] = t' at h
  cases h with
  | start hs => simp at ht
  | @step t₁ s₁ a hrun ha =>
    obtain ⟨rfl, hx⟩ := List.append_inj' ht rfl
    obtain rfl := List.singleton_inj.mp hx
    exact ⟨s₁, hrun, ha, rfl⟩

/-- The induction rule for what holds since an event, as long as the events after it meet
a condition. -/
theorem Run.since {I : List (α × β) → σ → Prop} {C : α × β → Prop} {pre rest : List (α × β)}
    {x : α × β} {w : σ} (h : M.Run (pre ++ x :: rest) w) (hrest : ∀ y ∈ rest, C y)
    (hstart : ∀ s, M.Run pre s → M.enabled pre s x.1 → x.2 = (M.step s x.1).2 →
      I [] (M.step s x.1).1)
    (hstep : ∀ rest s a, M.Run (pre ++ x :: rest) s → M.enabled (pre ++ x :: rest) s a →
      C (a, (M.step s a).2) → I rest s → I (rest ++ [(a, (M.step s a).2)]) (M.step s a).1) :
    I rest w := by
  induction rest using List.reverseRecOn generalizing w with
  | nil =>
    obtain ⟨s, hrun, hen, heq⟩ := h.of_concat
    have hI := hstart s hrun hen (by rw [heq])
    rwa [heq] at hI
  | append_singleton rest y ih =>
    rw [← List.cons_append, ← List.append_assoc] at h
    obtain ⟨s, hrun, hen, heq⟩ := h.of_concat
    have hlast : C (y.1, (M.step s y.1).2) := by
      rw [heq]
      exact hrest y (by simp)
    have hI := hstep rest s y.1 hrun hen hlast
      (ih hrun fun z hz => hrest z (List.mem_append_left _ hz))
    rwa [heq] at hI

/-- Run a list of inputs from a state, ignoring the guard: the history and the
state it ends in. -/
def exec (M : Machine σ α β) (s : σ) : List α → List (α × β) × σ
  | [] => ([], s)
  | a :: as =>
    let rest := M.exec (M.step s a).1 as
    ((a, (M.step s a).2) :: rest.1, rest.2)

@[simp] theorem exec_nil (s : σ) : M.exec s [] = ([], s) := rfl

theorem exec_concat (s : σ) (as : List α) (a : α) :
    M.exec s (as ++ [a]) =
      ((M.exec s as).1 ++ [(a, (M.step (M.exec s as).2 a).2)], (M.step (M.exec s as).2 a).1) := by
  induction as generalizing s with
  | nil => rfl
  | cons b bs ih => simp only [List.cons_append, exec, ih]

/-- A machine whose guard always holds runs on every list of inputs. -/
theorem run_exec (hen : ∀ t s a, M.enabled t s a) {s : σ} (hs : M.init s) (as : List α) :
    M.Run (M.exec s as).1 (M.exec s as).2 := by
  induction as using List.reverseRecOn with
  | nil => exact .start hs
  | append_singleton as a ih =>
    rw [exec_concat]
    exact .step ih (hen _ _ _)

/-- The guards on the way, from a history and a state along a list of inputs. -/
def Follows (M : Machine σ α β) (t : List (α × β)) (s : σ) : List α → Prop
  | [] => True
  | a :: as => M.enabled t s a ∧ M.Follows (t ++ [(a, (M.step s a).2)]) (M.step s a).1 as

/-- A run goes on along every list of inputs that it can follow. -/
theorem Run.follows {t : List (α × β)} {s : σ} {as : List α} (h : M.Run t s)
    (has : M.Follows t s as) : M.Run (t ++ (M.exec s as).1) (M.exec s as).2 := by
  induction as generalizing t s with
  | nil =>
    rw [exec_nil, List.append_nil]
    exact h
  | cons a as ih =>
    have hrest := ih (h.step has.1) has.2
    rw [List.append_assoc] at hrest
    exact hrest

/-- The machine whose inputs must also meet a condition. -/
def restrict (M : Machine σ α β) (C : List (α × β) → σ → α → Prop) : Machine σ α β :=
  { M with enabled := fun t s a => M.enabled t s a ∧ C t s a }

theorem Run.of_restrict {C : List (α × β) → σ → α → Prop} {t : List (α × β)} {s : σ}
    (h : (M.restrict C).Run t s) : M.Run t s := by
  induction h with
  | start hs => exact .start hs
  | step hrun ha ih => exact .step ih ha.1

end Machine

/-- If something holds of an element, it holds of a last one. -/
theorem exists_last {α : Type u} {P : α → Prop} {l : List α} (h : ∃ x ∈ l, P x) :
    ∃ pre x post, l = pre ++ x :: post ∧ P x ∧ ∀ y ∈ post, ¬ P y := by
  induction l using List.reverseRecOn with
  | nil =>
    obtain ⟨x, hx, -⟩ := h
    cases hx
  | append_singleton l y ih =>
    by_cases hy : P y
    · exact ⟨l, y, [], rfl, hy, nofun⟩
    · obtain ⟨x, hx, hPx⟩ := h
      have hmem : x ∈ l := (List.mem_append.mp hx).resolve_right fun hxy =>
        hy (List.mem_singleton.mp hxy ▸ hPx)
      obtain ⟨pre, x, post, rfl, hPx, hpost⟩ := ih ⟨x, hmem, hPx⟩
      refine ⟨pre, x, post ++ [y], by simp, hPx, fun z hz => ?_⟩
      rcases List.mem_append.mp hz with hz | hz
      · exact hpost z hz
      · rw [List.mem_singleton.mp hz]
        exact hy

section Latest

variable {α : Type u} {β : Type v} {P : α → Prop} {x y : α × β} {t : List (α × β)}

/-- `x` is the last event of `t` whose input satisfies `P`. -/
def Latest (P : α → Prop) (x : α × β) (t : List (α × β)) : Prop :=
  ∃ before after, t = before ++ x :: after ∧ P x.1 ∧ ∀ y ∈ after, ¬ P y.1

theorem Latest.self (h : P x.1) : Latest P x (t ++ [x]) :=
  ⟨t, [], rfl, h, fun _ hy => nomatch hy⟩

/-- An event of another kind comes after it. -/
theorem Latest.concat (h : Latest P x t) (hy : ¬ P y.1) : Latest P x (t ++ [y]) := by
  obtain ⟨before, after, rfl, hx, hafter⟩ := h
  refine ⟨before, after ++ [y], by simp, hx, fun z hz => ?_⟩
  rcases List.mem_append.mp hz with hz | hz
  · exact hafter z hz
  · rw [List.mem_singleton.mp hz]
    exact hy

/-- The last event is the new one, or the last one before that. -/
theorem latest_concat : Latest P x (t ++ [y]) ↔ x = y ∧ P y.1 ∨ Latest P x t ∧ ¬ P y.1 := by
  constructor
  · rintro ⟨before, after, heq, hx, hafter⟩
    rcases List.eq_nil_or_concat after with rfl | ⟨after', z, rfl⟩
    · obtain ⟨rfl, hxy⟩ := List.append_inj' heq rfl
      obtain rfl := List.singleton_inj.mp hxy
      exact .inl ⟨rfl, hx⟩
    · rw [List.concat_eq_append, ← List.cons_append, ← List.append_assoc] at heq
      obtain ⟨ht, hzy⟩ := List.append_inj' heq rfl
      obtain rfl := List.singleton_inj.mp hzy
      refine .inr ⟨⟨before, after', ht, hx, fun w hw => hafter w ?_⟩, hafter y ?_⟩
      · rw [List.concat_eq_append]
        exact List.mem_append_left _ hw
      · rw [List.concat_eq_append]
        exact List.mem_append_right _ List.mem_cons_self
  · rintro (⟨rfl, hy⟩ | ⟨h, hy⟩)
    · exact .self hy
    · exact h.concat hy

/-- There is one last event. -/
theorem Latest.unique (h : Latest P x t) (h' : Latest P y t) : x = y := by
  induction t using List.reverseRecOn with
  | nil =>
    obtain ⟨before, after, heq, -⟩ := h
    cases before <;> cases heq
  | append_singleton t z ih =>
    rcases latest_concat.mp h with ⟨rfl, hz⟩ | ⟨h, hz⟩
    · rcases latest_concat.mp h' with ⟨rfl, -⟩ | ⟨-, hother⟩
      · rfl
      · exact absurd hz hother
    · rcases latest_concat.mp h' with ⟨rfl, hother⟩ | ⟨h', -⟩
      · exact absurd hother hz
      · exact ih h h'

/-- `x` is the first event of `t` whose input satisfies `P`. -/
def First (P : α → Prop) (x : α × β) (t : List (α × β)) : Prop :=
  ∃ before after, t = before ++ x :: after ∧ P x.1 ∧ ∀ y ∈ before, ¬ P y.1

/-- The first event stays the first, and a new one is the first if there was none. -/
theorem first_concat :
    First P x (t ++ [y]) ↔ First P x t ∨ x = y ∧ P y.1 ∧ ∀ z ∈ t, ¬ P z.1 := by
  refine ⟨?_, ?_⟩
  · rintro ⟨before, after, heq, hx, hfirst⟩
    rcases List.eq_nil_or_concat after with rfl | ⟨after', z, rfl⟩
    · obtain ⟨rfl, hxy⟩ := List.append_inj' heq rfl
      obtain rfl := List.singleton_inj.mp hxy
      exact .inr ⟨rfl, hx, hfirst⟩
    · rw [List.concat_eq_append, ← List.cons_append, ← List.append_assoc] at heq
      exact .inl ⟨before, after', (List.append_inj' heq rfl).1, hx, hfirst⟩
  · rintro (⟨before, after, rfl, hx, hfirst⟩ | ⟨rfl, hx, hfirst⟩)
    · exact ⟨before, after ++ [y], by simp, hx, hfirst⟩
    · exact ⟨t, [], rfl, hx, hfirst⟩

end Latest
