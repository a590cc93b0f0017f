import Timeshare.Cpu.Basic

/-!
# What one instruction does to a context

A step either goes on, and then it has retired one instruction, or it stops in
one of three ways: at a halt, which leaves everything as it is, at a wait, which
is retired, or with an error, which leaves the context as it is.
-/

namespace Timeshare

/-- The ways in which a step stops, with the workspace that each one leaves. -/
inductive Workspace.Stopped (w : Workspace) : Exit → Workspace → Prop
  | halted : Stopped w (.ok .halted) w
  | waiting : Stopped w (.ok .waiting) w.retire
  | failed (e : CpuError) (memory : Memory) : Stopped w (.error e) { w with memory }

namespace Workspace

variable {w w' : Workspace} {exit : Exit}

theorem Stopped.exit_ne_sliceExpired (h : w.Stopped exit w') : exit ≠ .ok .sliceExpired := by
  cases h <;> simp

theorem Stopped.started_eq (h : w.Stopped exit w') :
    w'.context.started = w.context.started := by
  cases h <;> rfl

theorem Stopped.retired_le (h : w.Stopped exit w') :
    w.context.retired ≤ w'.context.retired := by
  cases h with
  | halted => exact Nat.le_refl _
  | waiting => exact Nat.le_succ _
  | failed e memory => exact Nat.le_refl _

theorem branch_eq_next {target : UInt32} {length : Nat} (h : w.branch target length = .next w') :
    w'.context.retired = w.context.retired + 1 ∧ w'.context.started = w.context.started := by
  rw [branch] at h
  split at h
  · cases h
    exact ⟨rfl, rfl⟩
  · cases h

theorem stopped_of_branch {target : UInt32} {length : Nat}
    (h : w.branch target length = .stop exit w') : w.Stopped exit w' := by
  rw [branch] at h
  split at h
  · cases h
  · cases h
    exact .failed _ w.memory

end Workspace

namespace Instruction

variable {i : Instruction} {length : Nat} {w w' : Workspace} {exit : Exit}

/-- An instruction that is followed by another one is retired. -/
theorem execute_eq_next (h : i.execute length w = .next w') :
    w'.context.retired = w.context.retired + 1 ∧ w'.context.started = w.context.started := by
  cases i with
  | nop | loadImm | alu =>
      cases h
      exact ⟨rfl, rfl⟩
  | load rd page offset =>
      simp only [execute] at h
      split at h <;> cases h
      exact ⟨rfl, rfl⟩
  | store rs page offset =>
      simp only [execute] at h
      split at h <;> cases h
      exact ⟨rfl, rfl⟩
  | jump target => exact Workspace.branch_eq_next h
  | branchZero rs target =>
      simp only [execute] at h
      split at h
      · exact Workspace.branch_eq_next h
      · cases h
        exact ⟨rfl, rfl⟩
  | branchNonZero rs target =>
      simp only [execute] at h
      split at h
      · cases h
        exact ⟨rfl, rfl⟩
      · exact Workspace.branch_eq_next h
  | wait | halt => cases h

theorem stopped_of_execute (h : i.execute length w = .stop exit w') : w.Stopped exit w' := by
  cases i with
  | nop | loadImm | alu => cases h
  | load rd page offset =>
      simp only [execute] at h
      split at h <;> cases h
      exact .failed _ _
  | store rs page offset =>
      simp only [execute] at h
      split at h <;> cases h
      exact .failed _ _
  | jump target => exact Workspace.stopped_of_branch h
  | branchZero rs target =>
      simp only [execute] at h
      split at h
      · exact Workspace.stopped_of_branch h
      · cases h
  | branchNonZero rs target =>
      simp only [execute] at h
      split at h
      · cases h
      · exact Workspace.stopped_of_branch h
  | wait =>
      cases h
      exact .waiting
  | halt =>
      cases h
      exact .halted

end Instruction

namespace Program

variable {p : Program} {w w' : Workspace} {exit : Exit}

theorem execute_of_next (h : p.step w = .next w') :
    ∃ i, p.get? w.context.ip = some i ∧ i.execute p.size w = .next w' := by
  rw [step] at h
  cases hi : p.get? w.context.ip with
  | none =>
      rw [hi] at h
      cases h
  | some i =>
      rw [hi] at h
      exact ⟨i, rfl, h⟩

/-- A run stops where there is no instruction, or by the instruction that is there. -/
theorem execute_of_stop (h : p.step w = .stop exit w') :
    (p.get? w.context.ip = none ∧ exit = .error (.outOfProgram w.context.ip p.size) ∧
      w' = w) ∨
    ∃ i, p.get? w.context.ip = some i ∧ i.execute p.size w = .stop exit w' := by
  rw [step] at h
  cases hi : p.get? w.context.ip with
  | none =>
      rw [hi] at h
      cases h
      exact .inl ⟨rfl, rfl, rfl⟩
  | some i =>
      rw [hi] at h
      exact .inr ⟨i, rfl, h⟩

theorem step_eq_next (h : p.step w = .next w') :
    w'.context.retired = w.context.retired + 1 ∧ w'.context.started = w.context.started := by
  obtain ⟨i, -, hnext⟩ := execute_of_next h
  exact Instruction.execute_eq_next hnext

theorem stopped_of_step (h : p.step w = .stop exit w') : w.Stopped exit w' := by
  obtain ⟨-, rfl, rfl⟩ | ⟨i, -, hstop⟩ := execute_of_stop h
  · exact .failed _ _
  · exact Instruction.stopped_of_execute hstop

end Program

end Timeshare
