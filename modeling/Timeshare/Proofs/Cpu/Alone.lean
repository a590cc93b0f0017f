import Timeshare.Proofs.Cpu.Footprint

/-!
# A program that runs alone

`Program.alone p memory n` is the program on a fresh context and the given memory,
resumed after each wait until it has retired `n` instructions. Waits are retired like
other instructions, so this is a loop in which they do not stop (`Program.runThrough`),
and that loop can be cut anywhere.
-/

namespace Timeshare

namespace Program

variable {p : Program} {w w' : Workspace} {exit : Exit}

/-! ## Resuming after each wait -/

theorem retired_runFor_le (n : Nat) (w : Workspace) :
    (p.runFor n w).2.context.retired ≤ w.context.retired + n := by
  induction n generalizing w with
  | zero => exact Nat.le_refl _
  | succ n ih =>
      cases hs : p.step w with
      | next w₁ =>
          have h₁ := (step_eq_next hs).1
          have h₂ := ih w₁
          rw [runFor_succ_of_next hs]
          omega
      | stop exit w₁ =>
          rw [runFor_succ_of_stop hs]
          cases stopped_of_step hs with
          | halted | failed => exact Nat.le_add_right _ _
          | waiting => exact Nat.add_le_add_left (Nat.le_add_left 1 n) w.context.retired

/-- A wait is retired. -/
theorem retired_lt_of_waiting {n : Nat} (h : p.runFor n w = (.ok .waiting, w')) :
    w.context.retired < w'.context.retired := by
  induction n generalizing w with
  | zero => cases h
  | succ n ih =>
      cases hs : p.step w with
      | next w₁ =>
          rw [runFor_succ_of_next hs] at h
          have h₁ := (step_eq_next hs).1
          have h₂ := ih h
          omega
      | stop exit w₁ =>
          rw [runFor_succ_of_stop hs] at h
          cases h
          cases stopped_of_step hs with
          | waiting => exact Nat.lt_succ_self _

theorem retired_lt_of_resume_waiting {n : Nat} (h : p.resume n w = (.ok .waiting, w')) :
    w.context.retired < w'.context.retired ∧ w'.context.retired ≤ w.context.retired + n := by
  cases he : w.context.enter p with
  | error e =>
      rw [resume_of_enter_error he] at h
      cases h
  | ok context =>
      rw [resume_of_enter_ok he] at h
      have hlt := retired_lt_of_waiting h
      have hle := retired_runFor_le (p := p) n { w with context }
      rw [h] at hle
      rw [← retired_of_enter he]
      exact ⟨hlt, hle⟩

/-- Continues the context of the workspace for up to `budget` instructions, and again
after each wait for those that are left. -/
def resumeThrough (p : Program) (budget : Nat) (w : Workspace) : Exit × Workspace :=
  match h : p.resume budget w with
  | (.ok .waiting, w') =>
    have := retired_lt_of_resume_waiting h
    p.resumeThrough (budget - (w'.context.retired - w.context.retired)) w'
  | stopped => stopped
termination_by budget

/-- The program on a fresh context, resumed after each wait until it has retired the
given number of instructions. -/
def alone (p : Program) (memory : Memory) (retired : Nat) : Exit × Workspace :=
  p.resumeThrough retired ⟨{}, memory⟩

/-! ## The loop that goes on after waits -/

/-- Carries out up to `budget` instructions and goes on after waits. -/
def runThrough (p : Program) : Nat → Workspace → Exit × Workspace
  | 0, w => (.ok .sliceExpired, w)
  | budget + 1, w =>
    match p.step w with
    | .next w' => p.runThrough budget w'
    | .stop (.ok .waiting) w' => p.runThrough budget w'
    | .stop exit w' => (exit, w')

theorem runThrough_succ_of_next (h : p.step w = .next w') (budget : Nat) :
    p.runThrough (budget + 1) w = p.runThrough budget w' := by
  simp [runThrough, h]

theorem runThrough_succ_of_wait (h : p.step w = .stop (.ok .waiting) w') (budget : Nat) :
    p.runThrough (budget + 1) w = p.runThrough budget w' := by
  simp [runThrough, h]

theorem runThrough_succ_of_stop (h : p.step w = .stop exit w') (hexit : exit ≠ .ok .waiting)
    (budget : Nat) : p.runThrough (budget + 1) w = (exit, w') := by
  simp only [runThrough, h]

theorem runThrough_of_runFor {n : Nat} (h : p.runFor n w = (exit, w'))
    (hexit : exit ≠ .ok .waiting) : p.runThrough n w = (exit, w') := by
  induction n generalizing w with
  | zero => exact h
  | succ n ih =>
      cases hs : p.step w with
      | next w₁ =>
          rw [runFor_succ_of_next hs] at h
          rw [runThrough_succ_of_next hs]
          exact ih h
      | stop exit₁ w₁ =>
          rw [runFor_succ_of_stop hs] at h
          cases h
          exact runThrough_succ_of_stop hs hexit n

theorem runThrough_of_waiting {n : Nat} (h : p.runFor n w = (.ok .waiting, w')) :
    p.runThrough n w = p.runThrough (n - (w'.context.retired - w.context.retired)) w' := by
  induction n generalizing w with
  | zero => cases h
  | succ n ih =>
      cases hs : p.step w with
      | next w₁ =>
          rw [runFor_succ_of_next hs] at h
          have h₁ := (step_eq_next hs).1
          have h₂ := retired_lt_of_waiting h
          rw [runThrough_succ_of_next hs, ih h]
          congr 1
          omega
      | stop exit w₁ =>
          rw [runFor_succ_of_stop hs] at h
          cases h
          rw [runThrough_succ_of_wait hs]
          cases stopped_of_step hs with
          | waiting =>
              congr 1
              simp [Workspace.retire, Context.advance]

theorem resumeThrough_of_enter_error {e : CpuError} (h : w.context.enter p = .error e) (n : Nat) :
    p.resumeThrough n w = (.error e, w) := by
  have hresume := resume_of_enter_error h n
  rw [resumeThrough]
  split <;> simp_all

/-- Resuming after each wait is going on after waits. -/
theorem resumeThrough_of_enter_ok {context : Context} (h : w.context.enter p = .ok context)
    (n : Nat) : p.resumeThrough n w = p.runThrough n { w with context } := by
  -- Every wait uses up some of the budget, so the rest of the run has a smaller one.
  induction n using Nat.strongRecOn generalizing w context with
  | ind n ih =>
      have hresume := resume_of_enter_ok h n
      have hretired := retired_of_enter h
      have hstarted := started_runFor (p := p) n { w with context }
      rw [resumeThrough]
      split
      next w' hw =>
        have hrun := hresume.symm.trans hw
        have hlt := retired_lt_of_resume_waiting hw
        have hw' : w'.context.started = true := by
          rw [hrun] at hstarted
          exact hstarted.trans (started_of_enter h)
        rw [runThrough_of_waiting hrun, ih _ (by omega) (enter_of_started hw'), ← hretired]
      next hw =>
        have hexit : (p.resume n w).1 ≠ .ok .waiting := fun hwait => hw _ (Prod.ext hwait rfl)
        exact (runThrough_of_runFor hresume.symm hexit).symm

theorem runThrough_add {a : Nat} (b : Nat) (h : p.runThrough a w = (.ok .sliceExpired, w')) :
    p.runThrough (a + b) w = p.runThrough b w' := by
  induction a generalizing w with
  | zero =>
      cases h
      rw [Nat.zero_add]
  | succ a ih =>
      rw [Nat.succ_add]
      cases hs : p.step w with
      | next w₁ =>
          rw [runThrough_succ_of_next hs] at h ⊢
          exact ih h
      | stop exit w₁ =>
          by_cases hwait : exit = .ok .waiting
          · subst hwait
            rw [runThrough_succ_of_wait hs] at h ⊢
            exact ih h
          · rw [runThrough_succ_of_stop hs hwait] at h
            cases h
            exact absurd rfl (stopped_of_step hs).exit_ne_sliceExpired

end Program

end Timeshare
