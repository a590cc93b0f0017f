import Timeshare.Proofs.Cpu.Footprint
import Timeshare.Proofs.Cpu.Run

/-!
# Programs that halt

`Program.HaltsAt p w total` says that the program, continued on the workspace, halts when
its context has retired `total` instructions in all. A slice of such a run halts if it
is longer than what is left, and otherwise it is used up and leaves the rest of the run
(`Program.HaltsAt.resume`); a slice that is as long as what is left ends right before
the halt.

A program that names no page neither sees nor touches the memory. So it leaves every
memory as it is, and it halts on all of them if it halts on one
(`Program.HaltsAlone.haltsAt`).
-/

namespace Timeshare

namespace Program

/-- Continued on the workspace, the program halts when its context has retired `total`
instructions. -/
def HaltsAt (p : Program) (w : Workspace) (total : Nat) : Prop :=
  ∃ w', p.Completes w (.ok .halted) w' ∧ w'.context.retired = total

/-- Run alone, the program halts after so many instructions. -/
def HaltsAlone (p : Program) (total : Nat) : Prop := ∃ memory, p.HaltsAt ⟨{}, memory⟩ total

variable {p : Program} {w w' : Workspace} {n total : Nat} {i : Instruction} {exit : Exit}

/-! ## Slices of a run that halts -/

theorem runFor_of_runsTo_halted (h : p.RunsTo w (.ok .halted) w')
    (hn : n ≤ w'.context.retired - w.context.retired) :
    ∃ w₁, p.runFor n w = (.ok .sliceExpired, w₁) ∧
      w₁.context.retired = w.context.retired + n ∧ p.RunsTo w₁ (.ok .halted) w' := by
  generalize hexit : Except.ok RunOutcome.halted = exit at h ⊢
  induction h generalizing n with
  | stop hs =>
      subst hexit
      cases stopped_of_step hs with
      | halted =>
          -- The halt itself is not retired, so there is nothing left to retire.
          obtain rfl : n = 0 := by omega
          exact ⟨_, rfl, rfl, .stop hs⟩
  | @next w w₁ w' exit hs rest ih =>
      cases n with
      | zero => exact ⟨w, rfl, rfl, .next hs rest⟩
      | succ n =>
          have h₁ := (step_eq_next hs).1
          obtain ⟨w₂, hrun, hretired, hrest⟩ := ih (n := n) (by omega) hexit
          refine ⟨w₂, ?_, by omega, hrest⟩
          rw [runFor_succ_of_next hs, hrun]

theorem haltsAt_of_started (hs : w.context.started = true) (h : p.RunsTo w (.ok .halted) w') :
    p.HaltsAt w w'.context.retired := by
  refine ⟨w', ?_, rfl⟩
  rw [Completes, enter_of_started hs]
  exact h

/-- A run that halts has started with an instruction of the program. -/
theorem HaltsAt.exists_runsTo (h : p.HaltsAt w total) :
    ∃ context w', w.context.enter p = .ok context ∧
      p.RunsTo { w with context } (.ok .halted) w' ∧ w'.context.retired = total := by
  obtain ⟨w', hcompletes, hretired⟩ := h
  rw [Completes] at hcompletes
  cases he : w.context.enter p with
  | error e =>
      rw [he] at hcompletes
      cases hcompletes.1
  | ok context =>
      rw [he] at hcompletes
      exact ⟨context, w', rfl, hcompletes, hretired⟩

theorem HaltsAt.retired_le (h : p.HaltsAt w total) : w.context.retired ≤ total := by
  obtain ⟨context, w', he, hruns, rfl⟩ := h.exists_runsTo
  rw [← retired_of_enter he]
  exact hruns.retired_le

/-- A slice of a run that halts is longer than what is left, and then the run halts, or it
is used up and leaves a run that halts at the same place. -/
theorem HaltsAt.resume (h : p.HaltsAt w total) (n : Nat) :
    (total - w.context.retired < n ∧ (p.resume n w).1 = .ok .halted ∧
      (p.resume n w).2.context.retired = total) ∨
    (n ≤ total - w.context.retired ∧ (p.resume n w).1 = .ok .sliceExpired ∧
      (p.resume n w).2.context.retired = w.context.retired + n ∧
      p.HaltsAt (p.resume n w).2 total) := by
  obtain ⟨context, w', he, hruns, rfl⟩ := h.exists_runsTo
  have hentered := retired_of_enter he
  rw [resume_of_enter_ok he, ← hentered]
  rcases Nat.lt_or_ge (w'.context.retired - context.retired) n with hlt | hle
  · rw [runFor_of_runsTo hruns hlt]
    exact .inl ⟨hlt, rfl, rfl⟩
  · obtain ⟨w₁, hrun, hretired, hrest⟩ := runFor_of_runsTo_halted hruns hle
    have hstarted := started_runFor (p := p) n { w with context }
    rw [hrun] at hstarted ⊢
    have hs : w₁.context.started = true := hstarted.trans (started_of_enter he)
    exact .inr ⟨hle, rfl, hretired, haltsAt_of_started hs hrest⟩

theorem haltsAlone_of_resume {memory : Memory}
    (hexit : (p.resume n ⟨{}, memory⟩).1 = .ok .halted)
    (hretired : (p.resume n ⟨{}, memory⟩).2.context.retired = total) : p.HaltsAlone total :=
  ⟨memory, _, completes_of_resume (Prod.ext hexit rfl) (by simp), hretired⟩

end Program

/-! ## Programs without pages -/

/-- The step with another memory in the workspace that it leaves. -/
def Step.withMemory (memory : Memory) : Step → Step
  | .next w => .next { w with memory }
  | .stop exit w => .stop exit { w with memory }

theorem Step.memory_withMemory (s : Step) (memory : Memory) :
    (s.withMemory memory).workspace.memory = memory := by
  cases s <;> rfl

theorem Workspace.branch_withMemory (w : Workspace) (target : UInt32) (length : Nat)
    (memory : Memory) :
    ({ w with memory } : Workspace).branch target length =
      (w.branch target length).withMemory memory := by
  rw [branch, branch]
  cases branchTarget target length <;> rfl

/-- An instruction that names no page does the same on every memory. -/
theorem Instruction.execute_withMemory {i : Instruction} (hl : i.loads? = none)
    (hs : i.stores? = none) (length : Nat) (w : Workspace) (memory : Memory) :
    i.execute length { w with memory } = (i.execute length w).withMemory memory := by
  cases i with
  | nop | loadImm | alu | wait | halt => rfl
  | load => cases hl
  | store => cases hs
  | jump target => exact w.branch_withMemory target length memory
  | branchZero rs target =>
      simp only [execute]
      split
      · exact w.branch_withMemory target length memory
      · rfl
  | branchNonZero rs target =>
      simp only [execute]
      split
      · rfl
      · exact w.branch_withMemory target length memory

namespace Program

variable {p : Program} {w w' : Workspace} {n total : Nat} {i : Instruction} {exit : Exit}

theorem loads?_of_pages_eq_nil (hp : p.pages = []) (h : p.get? n = some i) :
    i.loads? = none ∧ i.stores? = none := by
  constructor
  · rw [Option.eq_none_iff_forall_not_mem]
    intro page hpage
    exact List.not_mem_nil (hp ▸ mem_pages_of_loads? h hpage)
  · rw [Option.eq_none_iff_forall_not_mem]
    intro page hpage
    exact List.not_mem_nil (hp ▸ mem_pages_of_mem_stores (mem_stores_of_stores? h hpage))

theorem step_withMemory (hp : p.pages = []) (w : Workspace) (memory : Memory) :
    p.step { w with memory } = (p.step w).withMemory memory := by
  rw [step, step]
  cases hi : p.get? w.context.ip with
  | none => rfl
  | some i =>
      obtain ⟨hl, hs⟩ := loads?_of_pages_eq_nil hp hi
      exact i.execute_withMemory hl hs p.size w memory

theorem memory_step_of_pages_eq_nil (hp : p.pages = []) (w : Workspace) :
    (p.step w).workspace.memory = w.memory := by
  have hstep : p.step w = (p.step w).withMemory w.memory := step_withMemory hp w w.memory
  rw [hstep, Step.memory_withMemory]

theorem memory_runFor_of_pages_eq_nil (hp : p.pages = []) (n : Nat) (w : Workspace) :
    (p.runFor n w).2.memory = w.memory := by
  induction n generalizing w with
  | zero => rfl
  | succ n ih =>
      have hstep := memory_step_of_pages_eq_nil hp w
      cases hs : p.step w with
      | next w₁ =>
          rw [hs] at hstep
          rw [runFor_succ_of_next hs, ih]
          exact hstep
      | stop exit w₁ =>
          rw [hs] at hstep
          rw [runFor_succ_of_stop hs]
          exact hstep

theorem memory_resume_of_pages_eq_nil (hp : p.pages = []) (n : Nat) (w : Workspace) :
    (p.resume n w).2.memory = w.memory := by
  cases he : w.context.enter p with
  | error e => rw [resume_of_enter_error he]
  | ok context =>
      rw [resume_of_enter_ok he]
      exact memory_runFor_of_pages_eq_nil hp n { w with context }

theorem RunsTo.withMemory (hp : p.pages = []) (h : p.RunsTo w exit w') (memory : Memory) :
    p.RunsTo { w with memory } exit { w' with memory } := by
  induction h with
  | @stop w w' exit hs =>
      refine .stop ?_
      rw [step_withMemory hp, hs]
      rfl
  | @next w w₁ w' exit hs rest ih =>
      refine .next ?_ ih
      rw [step_withMemory hp, hs]
      rfl

/-- A program that names no page halts at the same place on every memory. -/
theorem HaltsAt.withMemory (h : p.HaltsAt w total) (hp : p.pages = []) (memory : Memory) :
    p.HaltsAt { w with memory } total := by
  obtain ⟨context, w', he, hruns, rfl⟩ := h.exists_runsTo
  refine ⟨{ w' with memory }, ?_, rfl⟩
  rw [Completes, he]
  exact hruns.withMemory hp memory

theorem HaltsAlone.haltsAt (h : p.HaltsAlone total) (hp : p.pages = []) (memory : Memory) :
    p.HaltsAt ⟨{}, memory⟩ total := by
  obtain ⟨memory', h⟩ := h
  exact h.withMemory hp memory

end Program

end Timeshare
