import Timeshare.Process.Basic
import Timeshare.Proofs.Cpu.Slices

/-!
# Programs without jumps

Without jumps and branches the instruction pointer moves on by one at every instruction. So a
slice that is used up brings a process nearer to the end of its program by exactly as many
instructions as the slice had (`Program.Straight.remainingEstimate_resume`).
-/

namespace Timeshare

/-- Whether the instruction may go elsewhere than to the one after it. -/
def Instruction.jumps : Instruction → Bool
  | .jump _ | .branchZero _ _ | .branchNonZero _ _ => true
  | _ => false

/-- The program has no jumps and no branches. -/
def Program.Straight (p : Program) : Prop := ∀ i ∈ p.toList, i.jumps = false

instance (p : Program) : Decidable p.Straight :=
  inferInstanceAs (Decidable (∀ i ∈ p.toList, i.jumps = false))

theorem Instruction.ip_of_execute_eq_next {i : Instruction} {length : Nat} {w w' : Workspace}
    (hi : i.jumps = false) (h : i.execute length w = .next w') :
    w'.context.ip = w.context.ip + 1 := by
  cases i with
  | nop | loadImm | alu =>
      cases h
      rfl
  | load | store =>
      simp only [execute] at h
      split at h <;> cases h
      rfl
  | jump | branchZero | branchNonZero => cases hi
  | wait | halt => cases h

namespace Program.Straight

variable {p : Program} {w w' : Workspace}

theorem ip_of_step (hp : p.Straight) (h : p.step w = .next w') :
    w.context.ip < p.size ∧ w'.context.ip = w.context.ip + 1 := by
  obtain ⟨i, hi, hnext⟩ := execute_of_next h
  have hat := get?_eq_some_iff.1 hi
  obtain ⟨hlt, -⟩ := List.getElem?_eq_some_iff.1 hat
  exact ⟨hlt, Instruction.ip_of_execute_eq_next (hp i (List.mem_of_getElem? hat)) hnext⟩

/-- A budget that is used up was spent on as many instructions in a row. -/
theorem ip_runFor (hp : p.Straight) {n : Nat} (h : (p.runFor n w).1 = .ok .sliceExpired) :
    (p.runFor n w).2.context.ip = w.context.ip + n ∧
      (1 ≤ n → w.context.ip + n ≤ p.size) := by
  induction n generalizing w with
  | zero => exact ⟨rfl, nofun⟩
  | succ n ih =>
      cases hs : p.step w with
      | stop exit w₁ =>
          rw [runFor_succ_of_stop hs] at h
          exact absurd h (stopped_of_step hs).exit_ne_sliceExpired
      | next w₁ =>
          rw [runFor_succ_of_next hs] at h ⊢
          obtain ⟨hlt, hnext⟩ := hp.ip_of_step hs
          obtain ⟨hip, hle⟩ := ih h
          rw [hip, hnext]
          refine ⟨by omega, fun _ => ?_⟩
          cases n with
          | zero => exact hlt
          | succ n =>
              have hle := hle (Nat.succ_pos n)
              omega

/-- The remaining estimate is what it says for a process that uses up its slice. -/
theorem remainingEstimate_resume {p : Process} (hp : p.program.Straight) {memory : Memory}
    {n : Nat} (hn : 1 ≤ n)
    (h : (p.program.resume n ⟨p.context, memory⟩).1 = .ok .sliceExpired) :
    ({ p with context := (p.program.resume n ⟨p.context, memory⟩).2.context } :
      Process).remainingEstimate + n = p.remainingEstimate := by
  cases he : p.context.enter p.program with
  | error e =>
      rw [resume_of_enter_error he] at h
      cases h
  | ok context =>
      rw [resume_of_enter_ok he] at h ⊢
      obtain ⟨hip, hle⟩ := hp.ip_runFor h
      have hle := hle hn
      have hstarted : (p.program.runFor n ⟨context, memory⟩).2.context.started = true :=
        (started_runFor n _).trans (started_of_enter he)
      have hstart : (if p.context.started then p.context.ip else p.program.entry) = context.ip := by
        obtain ⟨hs, rfl⟩ | ⟨hs, -, rfl⟩ := enter_cases he
        · exact if_pos hs
        · exact if_neg (ne_true_of_eq_false hs)
      simp only [Process.remainingEstimate, hstarted, if_true, hip, hstart] at hle ⊢
      omega

end Program.Straight

end Timeshare
