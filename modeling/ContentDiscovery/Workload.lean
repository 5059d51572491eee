import Mathlib.Algebra.GroupWithZero.Nat
import Mathlib.Algebra.Order.BigOperators.Group.List
import Mathlib.Algebra.Order.Group.Nat

/-!
# Work on a few servers

Jobs that a few servers work on, each for no longer than a limit. As long as no server is idle, the
time that passes is work, so it passes only as long as there are jobs (`Busy.mul_le`).
-/

/-- All of `n` servers have been busy from `start` to `now`: of the jobs that were begun, some have
ended after no longer than `limit`, and the others are at work since the times of `running`. -/
structure Busy (n limit start now begun : ℕ) (running : List ℕ) : Prop where
  /-- jobs are begun before they run -/
  since : ∀ t ∈ running, t ≤ now
  /-- time has passed on the servers as it has -/
  work : ∃ ended spent, ended + running.length = begun ∧ spent ≤ ended * limit ∧
    spent + (running.map fun t => now - t).sum = n * (now - start)
  past : start ≤ now

namespace Busy

variable {n limit start now begun t d : ℕ} {running running' : List ℕ}

theorem new : Busy n limit start start 0 [] where
  since := by simp
  work := ⟨0, 0, by simp⟩
  past := le_rfl

/-- The order of the jobs does not matter. -/
theorem perm (h : Busy n limit start now begun running) (hperm : running.Perm running') :
    Busy n limit start now begun running' where
  since s hs := h.since s (hperm.mem_iff.mpr hs)
  work := by
    obtain ⟨ended, spent, hbegun, hspent, hwork⟩ := h.work
    rw [hperm.length_eq] at hbegun
    rw [(hperm.map fun s => now - s).sum_eq] at hwork
    exact ⟨ended, spent, hbegun, hspent, hwork⟩
  past := h.past

/-- A job is begun. -/
theorem begin (h : Busy n limit start now begun running) :
    Busy n limit start now (begun + 1) (now :: running) where
  since := List.forall_mem_cons.mpr ⟨le_rfl, h.since⟩
  work := by
    obtain ⟨ended, spent, hbegun, hspent, hwork⟩ := h.work
    refine ⟨ended, spent, ?_, hspent, ?_⟩
    · rw [List.length_cons, ← hbegun, Nat.add_assoc]
    · rw [List.map_cons, List.sum_cons, Nat.sub_self, Nat.zero_add, hwork]
  past := h.past

/-- A job ends in time. -/
theorem finish (h : Busy n limit start now begun (t :: running)) (ht : now ≤ t + limit) :
    Busy n limit start now begun running where
  since := (List.forall_mem_cons.mp h.since).2
  work := by
    obtain ⟨ended, spent, hbegun, hspent, hwork⟩ := h.work
    refine ⟨ended + 1, spent + (now - t), ?_, ?_, ?_⟩
    · rw [← hbegun, List.length_cons, Nat.add_assoc, Nat.add_comm 1]
    · rw [Nat.add_mul, Nat.one_mul]
      exact Nat.add_le_add hspent (Nat.sub_le_of_le_add (Nat.add_comm t limit ▸ ht))
    · rw [← hwork, List.map_cons, List.sum_cons, Nat.add_assoc]
  past := h.past

/-- The time spent grows by as much for each job. -/
theorem sum_add (hsince : ∀ t ∈ running, t ≤ now) :
    (running.map fun t => now + d - t).sum =
      (running.map fun t => now - t).sum + running.length * d := by
  induction running with
  | nil => simp
  | cons t running ih =>
    obtain ⟨ht, hrest⟩ := List.forall_mem_cons.mp hsince
    rw [List.map_cons, List.sum_cons, List.map_cons, List.sum_cons, ih hrest, List.length_cons,
      Nat.sub_add_comm ht, Nat.succ_mul]
    omega

/-- Time passes while all servers have jobs. -/
theorem wait (h : Busy n limit start now begun running) (hlength : running.length = n) (d : ℕ) :
    Busy n limit start (now + d) begun running where
  since s hs := (h.since s hs).trans (Nat.le_add_right now d)
  work := by
    obtain ⟨ended, spent, hbegun, hspent, hwork⟩ := h.work
    refine ⟨ended, spent, hbegun, hspent, ?_⟩
    rw [sum_add h.since, ← Nat.add_assoc, hwork, hlength, Nat.sub_add_comm h.past, Nat.mul_add]
  past := h.past.trans (Nat.le_add_right now d)

/-- **The jobs last no longer than they may.** -/
theorem mul_le (h : Busy n limit start now begun running)
    (hlimit : ∀ t ∈ running, now ≤ t + limit) : n * (now - start) ≤ begun * limit := by
  obtain ⟨ended, spent, hbegun, hspent, hwork⟩ := h.work
  have hsum : (running.map fun t => now - t).sum ≤ running.length * limit := by
    refine (List.sum_le_card_nsmul _ limit fun x hx => ?_).trans (by simp)
    obtain ⟨t, ht, rfl⟩ := List.mem_map.mp hx
    exact Nat.sub_le_of_le_add (Nat.add_comm t limit ▸ hlimit t ht)
  calc
    n * (now - start) = spent + (running.map fun t => now - t).sum := hwork.symm
    _ ≤ ended * limit + running.length * limit := Nat.add_le_add hspent hsum
    _ = begun * limit := by rw [← Nat.add_mul, hbegun]

end Busy
