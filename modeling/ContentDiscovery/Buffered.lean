import Mathlib.Data.List.Perm.Basic

/-!
# Buffered streams of jobs

A stream whose jobs run a few at a time: `StreamExt::buffered_unordered`. A job waits, is in some
phase of its work, or has a result. Whatever finishes first, no job is lost or done twice
(`Kept.done`), and no more of them run than there are places.
-/

/-- A stream of jobs: `φ` are the phases of their work, `ρ` the results. -/
structure Buffered (ι φ ρ : Type) where
  /-- the jobs that are not started -/
  waiting : List ι
  /-- the jobs that run -/
  running : List (ι × φ)
  /-- the results so far -/
  results : List (ι × ρ)

namespace Buffered

variable {ι φ ρ : Type}

/-- The stream of some jobs. -/
def new (jobs : List ι) : Buffered ι φ ρ := ⟨jobs, [], []⟩

/-- The next job is started. -/
def start (p : φ) (b : Buffered ι φ ρ) : Buffered ι φ ρ :=
  match b.waiting with
  | [] => b
  | i :: waiting => { b with waiting, running := b.running ++ [(i, p)] }

/-- All jobs have their results. -/
def Done (b : Buffered ι φ ρ) : Prop := b.waiting = [] ∧ b.running = []

section

variable [DecidableEq ι] [DecidableEq φ]

/-- A job goes on to another phase. -/
def advance (x : ι × φ) (p : φ) (b : Buffered ι φ ρ) : Buffered ι φ ρ :=
  { b with running := b.running.erase x ++ [(x.1, p)] }

/-- A job ends. -/
def finish (x : ι × φ) (r : ρ) (b : Buffered ι φ ρ) : Buffered ι φ ρ :=
  { b with running := b.running.erase x, results := b.results ++ [(x.1, r)] }

end

/-- The jobs are all there, and at most `n` of them run. -/
structure Kept (n : ℕ) (jobs : List ι) (b : Buffered ι φ ρ) : Prop where
  perm : (b.waiting ++ b.running.map Prod.fst ++ b.results.map Prod.fst).Perm jobs
  length_le : b.running.length ≤ n

variable {n : ℕ} {jobs : List ι} {b : Buffered ι φ ρ} {x : ι × φ} {p : φ} {r : ρ}

theorem Kept.new : Kept n jobs (new jobs : Buffered ι φ ρ) where
  perm := by simp [Buffered.new]
  length_le := Nat.zero_le n

theorem Kept.start (h : Kept n jobs b) (hlt : b.running.length < n) : Kept n jobs (b.start p) := by
  obtain ⟨waiting, running, results⟩ := b
  cases waiting with
  | nil => exact h
  | cons i waiting =>
    refine ⟨?_, ?_⟩
    · refine List.Perm.trans (List.Perm.append_right _ ?_) h.perm
      rw [Buffered.start, List.map_append, ← List.append_assoc]
      exact List.perm_append_singleton i _
    · rw [Buffered.start, List.length_append]
      exact hlt

/-- The jobs that are done are among the jobs. -/
theorem Kept.mem (h : Kept n jobs b) {y : ι × ρ} (hy : y ∈ b.results) : y.1 ∈ jobs :=
  h.perm.mem_iff.mp (List.mem_append_right _ (List.mem_map_of_mem hy))

/-- At the end each job has its result, as often as it was given. -/
theorem Kept.done (h : Kept n jobs b) (hdone : b.Done) : (b.results.map Prod.fst).Perm jobs := by
  have hperm := h.perm
  rwa [hdone.1, hdone.2, List.map_nil, List.append_nil, List.nil_append] at hperm

variable [DecidableEq ι] [DecidableEq φ]

theorem map_erase_perm (hx : x ∈ b.running) :
    (x.1 :: (b.running.erase x).map Prod.fst).Perm (b.running.map Prod.fst) :=
  ((List.perm_cons_erase hx).map Prod.fst).symm

theorem length_erase_lt (hx : x ∈ b.running) (h : b.running.length ≤ n) :
    (b.running.erase x).length < n := by
  have hpos := List.length_pos_of_mem hx
  rw [List.length_erase_of_mem hx]
  omega

theorem Kept.advance (h : Kept n jobs b) (hx : x ∈ b.running) : Kept n jobs (b.advance x p) where
  perm := by
    refine List.Perm.trans (List.Perm.append_right _ (List.Perm.append_left _ ?_)) h.perm
    rw [Buffered.advance, List.map_append]
    exact (List.perm_append_singleton x.1 _).trans (map_erase_perm hx)
  length_le := by
    rw [Buffered.advance, List.length_append]
    exact length_erase_lt hx h.length_le

theorem Kept.finish (h : Kept n jobs b) (hx : x ∈ b.running) : Kept n jobs (b.finish x r) where
  perm := by
    refine List.Perm.trans ?_ h.perm
    rw [Buffered.finish, List.map_append, List.append_assoc, List.append_assoc]
    refine List.Perm.append_left _ ?_
    have hlast : (b.results.map Prod.fst ++ [(x.1, r)].map Prod.fst).Perm
        (x.1 :: b.results.map Prod.fst) := List.perm_append_singleton x.1 _
    have hmiddle := hlast.append_left ((b.running.erase x).map Prod.fst)
    exact (hmiddle.trans List.perm_middle).trans ((map_erase_perm hx).append_right _)
  length_le := Nat.le_of_lt (length_erase_lt hx h.length_le)

end Buffered
