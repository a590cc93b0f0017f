import Mathlib.Logic.Function.Iterate
import Timeshare.Proofs.Cpu.Run

/-!
# Budgets and the loop of a run

A run enters a loop that carries out one instruction in each pass. The loop counts the
instructions that are followed by another pass, and before each instruction it compares the
count with the budget. `Program.pass` is one pass. The loop is a different thing than
`Program.runFor`, which uses up its argument and so ends by itself: nothing but an instruction
stops a loop without a budget.

With the budget `b` the loop has stopped after `b + 1` passes, whatever the program does
(`Program.iterate_pass`), and every pass keeps the count equal to the number of instructions
retired (`Loop.Within`). So `Cpu.stopsWithin_run`: a run stops, and how it stopped says how much
of its budget it has retired.
-/

namespace Timeshare

/-- The loop of a run: it goes on and has executed a number of instructions, or it has
stopped. -/
inductive Loop
  | running (executed : Nat) (w : Workspace)
  | stopped (exit : Exit) (w : Workspace)

namespace Program

/-- One pass of the loop; a loop that has stopped makes no more passes. -/
def pass (p : Program) (budget : Option Nat) : Loop → Loop
  | .stopped exit w => .stopped exit w
  | .running executed w =>
    if budget.any (· ≤ executed) then .stopped (.ok .sliceExpired) w
    else
      match p.step w with
      | .next w' => .running (executed + 1) w'
      | .stop exit w' => .stopped exit w'

/-- The loop before its first pass. A program with an invalid entry does not get that far. -/
def enterLoop (p : Program) (w : Workspace) : Loop :=
  match w.context.enter p with
  | .error e => .stopped (.error e) w
  | .ok context => .running 0 { w with context }

end Program

/-- The instructions that a run with the given budget can have retired, if it stopped in this
way: `before` is the count of the context at its start, and `after` the one at its end. -/
def Exit.Fits (exit : Exit) (budget before after : Nat) : Prop :=
  match exit with
  | .ok .sliceExpired => after = before + budget
  | .ok .waiting => before < after ∧ after ≤ before + budget
  | .ok .halted | .error _ => before ≤ after ∧ after < before + budget

/-- The loop has executed what was retired since it was entered, and not more than its
budget. -/
def Loop.Within (budget before : Nat) : Loop → Prop
  | .running executed w => w.context.retired = before + executed ∧ executed ≤ budget
  | .stopped exit w => exit.Fits budget before w.context.retired

theorem Exit.Fits.bounds {exit : Exit} {budget before after : Nat}
    (h : exit.Fits budget before after) : before ≤ after ∧ after ≤ before + budget := by
  rcases exit with e | outcome
  · exact ⟨h.1, Nat.le_of_lt h.2⟩
  · cases outcome with
    | halted => exact ⟨h.1, Nat.le_of_lt h.2⟩
    | sliceExpired => exact ⟨Nat.le.intro h.symm, Nat.le_of_eq h⟩
    | waiting => exact ⟨Nat.le_of_lt h.1, h.2⟩

namespace Program

variable {p : Program} {w w' : Workspace} {exit : Exit} {budget : Option Nat}
  {b before executed : Nat} {loop : Loop}

/-! ## Passes -/

@[simp] theorem pass_stopped : p.pass budget (.stopped exit w) = .stopped exit w := rfl

theorem pass_of_used (h : b ≤ executed) :
    p.pass (some b) (.running executed w) = .stopped (.ok .sliceExpired) w := by
  simp [pass, h]

theorem pass_of_next (hbudget : ∀ b ∈ budget, executed < b) (h : p.step w = .next w') :
    p.pass budget (.running executed w) = .running (executed + 1) w' := by
  cases budget with
  | none => simp [pass, h]
  | some b =>
      have hlt : ¬ b ≤ executed := Nat.not_le_of_lt (hbudget b rfl)
      simp [pass, hlt, h]

theorem pass_of_stop (hbudget : ∀ b ∈ budget, executed < b) (h : p.step w = .stop exit w') :
    p.pass budget (.running executed w) = .stopped exit w' := by
  cases budget with
  | none => simp [pass, h]
  | some b =>
      have hlt : ¬ b ≤ executed := Nat.not_le_of_lt (hbudget b rfl)
      simp [pass, hlt, h]

/-- With `b` instructions left, the loop has stopped after `b + 1` passes, where the run for
them stops. -/
theorem iterate_pass_running (b executed : Nat) (w : Workspace) :
    (p.pass (some (executed + b)))^[b + 1] (.running executed w) =
      .stopped (p.runFor b w).1 (p.runFor b w).2 := by
  induction b generalizing executed w with
  | zero => exact pass_of_used (Nat.le_refl _)
  | succ b ih =>
      have hleft : ∀ limit ∈ some (executed + (b + 1)), executed < limit := by
        rintro _ ⟨⟩
        omega
      rw [Function.iterate_succ_apply]
      cases hs : p.step w with
      | next w₁ =>
          have hsame : executed + (b + 1) = executed + 1 + b := by omega
          rw [pass_of_next hleft hs, runFor_succ_of_next hs, hsame]
          exact ih (executed + 1) w₁
      | stop exit w₁ =>
          rw [pass_of_stop hleft hs, runFor_succ_of_stop hs]
          exact Function.iterate_fixed pass_stopped _

/-- The loop of a run has stopped after one pass more than its budget, where the run stops. -/
theorem iterate_pass (p : Program) (b : Nat) (w : Workspace) :
    (p.pass (some b))^[b + 1] (p.enterLoop w) = .stopped (p.resume b w).1 (p.resume b w).2 := by
  cases he : w.context.enter p with
  | error e =>
      rw [resume_of_enter_error he]
      simp only [enterLoop, he]
      exact Function.iterate_fixed pass_stopped _
  | ok context =>
      have hloop := iterate_pass_running (p := p) b 0 { w with context }
      rw [resume_of_enter_ok he]
      simp only [enterLoop, he]
      rwa [Nat.zero_add] at hloop

/-! ## What a pass keeps -/

theorem within_pass (h : loop.Within b before) : (p.pass (some b) loop).Within b before := by
  cases loop with
  | stopped exit w => exact h
  | running executed w =>
      obtain ⟨hretired, hle⟩ := h
      by_cases hused : b ≤ executed
      · rw [pass_of_used hused]
        change w.context.retired = before + b
        omega
      · have hleft : ∀ limit ∈ some b, executed < limit := by
          rintro _ ⟨⟩
          exact Nat.lt_of_not_le hused
        cases hs : p.step w with
        | next w₁ =>
            have hnext := (step_eq_next hs).1
            rw [pass_of_next hleft hs]
            exact ⟨by omega, by omega⟩
        | stop exit w₁ =>
            rw [pass_of_stop hleft hs]
            cases stopped_of_step hs with
            | halted | failed =>
                -- Neither is retired, and there was budget left for it.
                change before ≤ w.context.retired ∧ w.context.retired < before + b
                omega
            | waiting =>
                -- The wait is retired, although the loop does not count it.
                change before < w.context.retired + 1 ∧ w.context.retired + 1 ≤ before + b
                omega

theorem within_iterate_pass (h : loop.Within b before) (n : Nat) :
    ((p.pass (some b))^[n] loop).Within b before := by
  induction n generalizing loop with
  | zero => exact h
  | succ n ih => exact ih (within_pass h)

/-- A program that can be entered stops with a count that fits its exit. -/
theorem fits_resume {context : Context} (he : w.context.enter p = .ok context) (b : Nat) :
    (p.resume b w).1.Fits b w.context.retired (p.resume b w).2.context.retired := by
  have hentered : (p.enterLoop w).Within b w.context.retired := by
    simp only [enterLoop, he]
    exact ⟨retired_of_enter he, Nat.zero_le b⟩
  have hstopped := within_iterate_pass (p := p) hentered (b + 1)
  rwa [iterate_pass] at hstopped

/-! ## Runs -/

/-- The run of a program stops within its budget, with the given exit and workspace. -/
structure StopsWithin (p : Program) (b : Nat) (w : Workspace) (exit : Exit) (w' : Workspace) :
    Prop where
  /-- The loop needs one pass more than the budget at most. -/
  stopped : (p.pass (some b))^[b + 1] (p.enterLoop w) = .stopped exit w'
  retired_le : w.context.retired ≤ w'.context.retired
  retired_le_add : w'.context.retired ≤ w.context.retired + b
  expired : exit = .ok .sliceExpired → w'.context.retired = w.context.retired + b
  halted : exit = .ok .halted → w'.context.retired < w.context.retired + b
  waiting : exit = .ok .waiting → w.context.retired < w'.context.retired
  /-- An error that is met by an instruction leaves budget for it. -/
  failed : ∀ e, exit = .error e → w.context.started = true ∨ p.entry < p.size →
    w'.context.retired < w.context.retired + b
  /-- A program with an invalid entry is not run at all. -/
  refused : w.context.started = false → p.size ≤ p.entry →
    exit = .error (.invalidJump p.entry p.size) ∧ w' = w

theorem stopsWithin_of_fits (hvalid : w.context.started = true ∨ p.entry < p.size)
    (hstopped : (p.pass (some b))^[b + 1] (p.enterLoop w) = .stopped exit w')
    (hfits : exit.Fits b w.context.retired w'.context.retired) : p.StopsWithin b w exit w' where
  stopped := hstopped
  retired_le := hfits.bounds.1
  retired_le_add := hfits.bounds.2
  expired := by
    rintro rfl
    exact hfits
  halted := by
    rintro rfl
    exact hfits.2
  waiting := by
    rintro rfl
    exact hfits.1
  failed := by
    rintro e rfl -
    exact hfits.2
  refused := by
    intro hfresh hentry
    obtain hstarted | hlt := hvalid
    · rw [hfresh] at hstarted
      cases hstarted
    · exact absurd hentry (Nat.not_le_of_lt hlt)

theorem stopsWithin_resume (p : Program) (b : Nat) (w : Workspace) :
    p.StopsWithin b w (p.resume b w).1 (p.resume b w).2 := by
  have hstopped := iterate_pass p b w
  by_cases hvalid : w.context.started = true ∨ p.entry < p.size
  · obtain ⟨context, he⟩ := enter_of_valid hvalid
    exact stopsWithin_of_fits hvalid hstopped (fits_resume he b)
  · have hfresh : w.context.started = false := by simpa using mt Or.inl hvalid
    have hentry : p.size ≤ p.entry := Nat.le_of_not_lt (mt Or.inr hvalid)
    have henter := enter_eq_error_iff.2 ⟨hfresh, hentry, rfl⟩
    rw [resume_of_enter_error henter] at hstopped ⊢
    exact {
      stopped := hstopped
      retired_le := Nat.le_refl _
      retired_le_add := Nat.le_add_right ..
      expired := by rintro ⟨⟩
      halted := by rintro ⟨⟩
      waiting := by rintro ⟨⟩
      failed := fun e _ h => absurd h hvalid
      refused := fun _ _ => ⟨rfl, rfl⟩ }

end Program

namespace Cpu

variable {cpu : Cpu} {p : Program} {w : Workspace} {b : Nat}

/-- A run of a powered processor stops within its budget. -/
theorem stopsWithin_run (hp : cpu.powered = true) :
    p.StopsWithin b w ((cpu.run p w (some b)).result.map Execution.outcome)
      (cpu.run p w (some b)).workspace := by
  rw [outcome_run hp, workspace_run hp]
  exact p.stopsWithin_resume b w

/-- A run that stops without a fault reports what it retired. -/
theorem retired_of_result {budget : Option Nat} {execution : Execution} (hp : cpu.powered = true)
    (h : (cpu.run p w budget).result = .ok execution) :
    execution.retired = (cpu.run p w budget).workspace.context.retired - w.context.retired := by
  rw [result_run hp] at h
  rw [workspace_run hp]
  cases hexit : (p.resume (budget.getD unlimited) w).1 with
  | error e =>
      rw [hexit] at h
      cases h
  | ok outcome =>
      rw [hexit] at h
      cases h
      rfl

end Cpu

end Timeshare
