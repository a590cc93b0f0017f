import Timeshare.Proofs.Cpu.Footprint
import Timeshare.Proofs.Cpu.Run

/-!
# Precise faults

A run that stops has first used up a budget, and then one more step stopped it
(`Program.exists_step_of_stopped`). A step that fails leaves the context as it is and
the memory too, but for the count of its faults, so a run that fails leaves exactly what
the run for the instructions before the fault leaves. It fails again in the same way
when it is continued, and a run that halted halts again (`Cpu.faults_precise_and_sticky`).
-/

namespace Timeshare

/-- The faults of the memory that are counted for an error. -/
def CpuError.faultCount : CpuError → Nat
  | .memory cause => cause.faultCount
  | _ => 0

/-- The workspace after an error was met in it. -/
def Workspace.failed (w : Workspace) (e : CpuError) : Workspace :=
  { w with memory := { w.memory with faults := w.memory.faults + e.faultCount } }

/-! ## The step that fails -/

section step

variable {i : Instruction} {length : Nat} {p : Program} {w w' : Workspace} {e : CpuError}

theorem Workspace.eq_failed_of_branch {target : UInt32}
    (h : w.branch target length = .stop (.error e) w') : w' = w.failed e := by
  rw [branch] at h
  cases ht : branchTarget target length with
  | ok ip =>
      rw [ht] at h
      cases h
  | error e' =>
      rw [ht] at h
      cases h
      rw [branchTarget] at ht
      split at ht <;> cases ht
      rfl

theorem Instruction.eq_failed_of_execute (h : i.execute length w = .stop (.error e) w') :
    w' = w.failed e := by
  cases i with
  | nop | loadImm | alu | wait | halt => cases h
  | load rd page offset =>
      simp only [execute] at h
      split at h
      · cases h
      next cause hcause =>
        cases h
        have herror : (w.memory.perform (.readWord page.toNat offset.toNat)).result =
            .error cause := congrArg (Except.map _) hcause
        exact congrArg (Workspace.mk w.context) (Memory.after_of_error herror)
  | store rs page offset =>
      simp only [execute] at h
      split at h
      · cases h
      next cause hcause =>
        cases h
        have herror : (w.memory.perform (.writeWord page.toNat offset.toNat
            (w.context.register rs))).result = .error cause := congrArg (Except.map _) hcause
        exact congrArg (Workspace.mk w.context) (Memory.after_of_error herror)
  | jump target => exact Workspace.eq_failed_of_branch h
  | branchZero rs target =>
      simp only [execute] at h
      split at h
      · exact Workspace.eq_failed_of_branch h
      · cases h
  | branchNonZero rs target =>
      simp only [execute] at h
      split at h
      · cases h
      · exact Workspace.eq_failed_of_branch h

namespace Program

/-- The step fails for the instruction at the instruction pointer, or because there is
none. -/
def FailsAt (p : Program) (w : Workspace) (e : CpuError) : Prop :=
  (p.get? w.context.ip = none ∧ e = .outOfProgram w.context.ip p.size) ∨
    ∃ i, p.get? w.context.ip = some i ∧ i.execute p.size w = .stop (.error e) (w.failed e)

theorem failsAt_of_step (h : p.step w = .stop (.error e) w') :
    w' = w.failed e ∧ p.FailsAt w e := by
  obtain ⟨hi, hexit, hw⟩ | ⟨i, hi, hstop⟩ := execute_of_stop h
  · cases hexit
    exact ⟨hw, .inl ⟨hi, rfl⟩⟩
  · obtain rfl := Instruction.eq_failed_of_execute hstop
    exact ⟨rfl, .inr ⟨i, hi, hstop⟩⟩

/-- A step that failed fails again, for an error cannot be seen by the program. -/
theorem step_failed (h : p.step w = .stop (.error e) w') :
    p.step w' = .stop (.error e) (w'.failed e) := by
  obtain ⟨rfl, -⟩ := failsAt_of_step h
  have halike : (w.failed e).Alike p.pages w := ⟨rfl, rfl, fun _ _ => rfl⟩
  have hstep := alike_step halike
  rw [h] at hstep
  cases hs : p.step (w.failed e) with
  | next w₁ =>
      rw [hs] at hstep
      cases hstep
  | stop exit w₁ =>
      rw [hs] at hstep
      cases hstep
      rw [(failsAt_of_step hs).1]

end Program

end step

/-! ## The run before it -/

namespace Program

variable {p : Program} {w w' w₁ : Workspace} {exit : Exit} {e : CpuError}

/-- A run that stopped has used up a smaller budget before the step that stopped it. -/
theorem exists_step_of_stopped {n : Nat} (h : p.runFor n w = (exit, w'))
    (hexit : exit ≠ .ok .sliceExpired) :
    ∃ k w₁, p.runFor k w = (.ok .sliceExpired, w₁) ∧
      w₁.context.retired = w.context.retired + k ∧ p.step w₁ = .stop exit w' := by
  induction n generalizing w with
  | zero =>
      cases h
      exact absurd rfl hexit
  | succ n ih =>
      cases hs : p.step w with
      | next w₁ =>
          rw [runFor_succ_of_next hs] at h
          obtain ⟨k, w₂, hrun, hretired, hstop⟩ := ih h
          have hfirst := (step_eq_next hs).1
          refine ⟨k + 1, w₂, ?_, by omega, hstop⟩
          rw [runFor_succ_of_next hs, hrun]
      | stop exit₁ w₁ =>
          rw [runFor_succ_of_stop hs] at h
          cases h
          exact ⟨0, w, rfl, rfl, hs⟩

/-- The same for a run that starts or continues a context. -/
theorem exists_step_of_resume {n : Nat} {context : Context}
    (he : w.context.enter p = .ok context) (h : p.resume n w = (exit, w'))
    (hexit : exit ≠ .ok .sliceExpired) :
    ∃ k w₁, p.resume k w = (.ok .sliceExpired, w₁) ∧
      w₁.context.retired = w.context.retired + k ∧ w₁.context.started = true ∧
      p.step w₁ = .stop exit w' := by
  rw [resume_of_enter_ok he] at h
  obtain ⟨k, w₁, hrun, hretired, hstop⟩ := exists_step_of_stopped h hexit
  have hstarted := started_runFor (p := p) k { w with context }
  rw [hrun] at hstarted
  refine ⟨k, w₁, ?_, hretired.trans (congrArg (· + k) (retired_of_enter he)),
    hstarted.trans (started_of_enter he), hstop⟩
  rw [resume_of_enter_ok he, hrun]

theorem resume_of_step {n : Nat} (hn : n ≠ 0) (hs : w.context.started = true)
    (h : p.step w = .stop exit w') : p.resume n w = (exit, w') := by
  obtain ⟨n, rfl⟩ := Nat.exists_eq_add_one_of_ne_zero hn
  rw [resume_of_started hs, runFor_succ_of_stop h]

/-- A run that failed leaves what the run for the instructions before the fault leaves. -/
theorem resume_of_error {n : Nat} {context : Context} (he : w.context.enter p = .ok context)
    (h : p.resume n w = (.error e, w')) :
    ∃ w₁, p.resume (w'.context.retired - w.context.retired) w = (.ok .sliceExpired, w₁) ∧
      w' = w₁.failed e ∧ p.FailsAt w₁ e := by
  obtain ⟨k, w₁, hrun, hretired, -, hstop⟩ := exists_step_of_resume he h (by simp)
  obtain ⟨rfl, hfails⟩ := failsAt_of_step hstop
  have hk : (w₁.failed e).context.retired - w.context.retired = k := by
    change w₁.context.retired - w.context.retired = k
    omega
  rw [hk]
  exact ⟨w₁, hrun, rfl, hfails⟩

/-- A run that failed fails again. -/
theorem resume_failed {n b : Nat} (hb : b ≠ 0) (h : p.resume n w = (.error e, w')) :
    p.resume b w' = (.error e, w'.failed e) := by
  cases he : w.context.enter p with
  | error cause =>
      rw [resume_of_enter_error he] at h
      cases h
      obtain ⟨-, -, rfl⟩ := enter_eq_error_iff.1 he
      rw [resume_of_enter_error he]
      rfl
  | ok context =>
      obtain ⟨k, w₁, -, -, hs, hstop⟩ := exists_step_of_resume he h (by simp)
      have hs' : w'.context.started = true := by
        rw [(failsAt_of_step hstop).1]
        exact hs
      exact resume_of_step hb hs' (step_failed hstop)

/-- A run that halted halts again at the same place. -/
theorem resume_halted {n b : Nat} (hb : b ≠ 0) (h : p.resume n w = (.ok .halted, w')) :
    p.resume b w' = (.ok .halted, w') := by
  cases he : w.context.enter p with
  | error cause =>
      rw [resume_of_enter_error he] at h
      cases h
  | ok context =>
      obtain ⟨k, w₁, -, -, hs, hstop⟩ := exists_step_of_resume he h (by simp)
      cases stopped_of_step hstop with
      | halted => exact resume_of_step hb hs hstop

end Program

/-! ## The processor -/

namespace Cpu

variable {cpu : Cpu} {p : Program} {w w' : Workspace} {budget : Option Nat} {e : CpuError}

theorem exists_resume_of_error (hp : cpu.powered = true)
    (h : (cpu.run p w budget).result = .error e) :
    p.resume (budget.getD unlimited) w = (.error e, (cpu.run p w budget).workspace) := by
  rw [result_run hp] at h
  rw [workspace_run hp]
  generalize p.resume (budget.getD unlimited) w = reached at h ⊢
  obtain ⟨exit, w'⟩ := reached
  cases exit with
  | error cause =>
      cases h
      rfl
  | ok outcome => cases h

theorem exists_resume_of_halted (hp : cpu.powered = true) {r : Nat}
    (h : (cpu.run p w budget).result = .ok ⟨.halted, r⟩) :
    p.resume (budget.getD unlimited) w = (.ok .halted, (cpu.run p w budget).workspace) := by
  rw [result_run hp] at h
  rw [workspace_run hp]
  generalize p.resume (budget.getD unlimited) w = reached at h ⊢
  obtain ⟨exit, w'⟩ := reached
  cases exit with
  | error cause => cases h
  | ok outcome =>
      simp only [Except.map, Except.ok.injEq, Execution.mk.injEq] at h
      rw [h.1]

theorem result_run_of_resume (hp : cpu.powered = true)
    (h : p.resume (budget.getD unlimited) w = (.error e, w')) :
    (cpu.run p w budget).result = .error e ∧ (cpu.run p w budget).workspace = w' := by
  rw [result_run hp, workspace_run hp, h]
  exact ⟨rfl, rfl⟩

theorem retiredTotal_run (hp : cpu.powered = true) :
    (cpu.run p w budget).cpu.retiredTotal = cpu.retiredTotal +
      ((cpu.run p w budget).workspace.context.retired - w.context.retired) := by
  rw [cpu_run hp, workspace_run hp]

theorem getD_unlimited_ne_zero (h : budget ≠ some 0) : budget.getD unlimited ≠ 0 := by
  cases budget with
  | none => decide
  | some n => exact fun hn => h (congrArg some hn)

/-- Faults are precise and sticky. If the entry of a program that was not started is none
of its instructions, the run fails without having changed anything. Every other run that
fails after `retired` instructions leaves what the run with that budget leaves, which
expires, and the memory differs from it by the fault that is counted if a page was not
resident; the instruction pointer stands at the instruction that fails. In both cases a
further run with some budget fails in the same way and retires nothing, and a run that
halted halts again and changes nothing. -/
theorem faults_precise_and_sticky (cpu : Cpu) (p : Program) (w : Workspace)
    (budget : Option Nat) (hp : cpu.powered = true) :
    let last := (cpu.run p w budget).workspace
    let retired := last.context.retired - w.context.retired
    (∀ e, (cpu.run p w budget).result = .error e →
      (w.context.started = false ∧ p.size ≤ p.entry →
        e = .invalidJump p.entry p.size ∧ last = w) ∧
      (¬ (w.context.started = false ∧ p.size ≤ p.entry) →
        let sliced := cpu.run p w (some retired)
        sliced.result = .ok ⟨.sliceExpired, retired⟩ ∧
          last.context = sliced.workspace.context ∧
          last.memory = { sliced.workspace.memory with
            faults := sliced.workspace.memory.faults + e.faultCount } ∧
          p.FailsAt sliced.workspace e) ∧
      ∀ (again : Cpu) (b : Option Nat), again.powered = true → b ≠ some 0 →
        (again.run p last b).result = .error e ∧
          (again.run p last b).workspace.context = last.context ∧
          (again.run p last b).cpu.retiredTotal = again.retiredTotal) ∧
    (∀ r, (cpu.run p w budget).result = .ok ⟨.halted, r⟩ →
      ∀ (again : Cpu) (b : Option Nat), again.powered = true → b ≠ some 0 →
        (again.run p last b).result = .ok ⟨.halted, 0⟩ ∧
          (again.run p last b).workspace = last) := by
  intro last retired
  refine ⟨fun e he => ⟨fun hentry => ?_, fun hentry => ?_, fun again b hb hne => ?_⟩,
    fun r hr again b hb hne => ?_⟩
  · have hresume := exists_resume_of_error hp he
    have henter := Program.enter_eq_error_iff.2 ⟨hentry.1, hentry.2, rfl⟩
    rw [Program.resume_of_enter_error henter] at hresume
    obtain ⟨he', hw⟩ := Prod.mk.inj hresume
    exact ⟨(Except.error.inj he').symm, hw.symm⟩
  · have hvalid : w.context.started = true ∨ p.entry < p.size := by
      rwa [Decidable.not_and_iff_not_or_not, Bool.not_eq_false, Nat.not_le] at hentry
    obtain ⟨context, henter⟩ := Program.enter_of_valid hvalid
    obtain ⟨w₁, hsliced, hlast, hfails⟩ :=
      Program.resume_of_error henter (exists_resume_of_error hp he)
    have hcontext : last.context = w₁.context := (congrArg Workspace.context hlast :)
    have hmemory : last.memory = (w₁.failed e).memory := (congrArg Workspace.memory hlast :)
    have hretired : w₁.context.retired - w.context.retired = retired := by rw [← hcontext]
    have hrun := run_of_resume_expired hp hsliced
    rw [hretired] at hrun
    intro sliced
    have hsliced : sliced.workspace = w₁ := congrArg Run.workspace hrun
    rw [hsliced]
    exact ⟨congrArg Run.result hrun, hcontext, hmemory, hfails⟩
  · have hagain := Program.resume_failed (getD_unlimited_ne_zero hne)
      (exists_resume_of_error hp he)
    obtain ⟨hresult, hworkspace⟩ := result_run_of_resume hb hagain
    have hcontext : (again.run p last b).workspace.context = last.context :=
      (congrArg Workspace.context hworkspace :)
    refine ⟨hresult, hcontext, ?_⟩
    rw [retiredTotal_run hb, hcontext, Nat.sub_self, Nat.add_zero]
  · have hagain := Program.resume_halted (getD_unlimited_ne_zero hne)
      (exists_resume_of_halted hp hr)
    rw [result_run hb, workspace_run hb, hagain]
    refine ⟨?_, rfl⟩
    simp only [Except.map, last, Nat.sub_self]

/-- A load from a page that is not resident, after two instructions: the memory counts the
fault, all else is as after a run for the two instructions, and the load fails again. -/
theorem faults_precise_and_sticky_of_absent_page :
    let cpu : Cpu := { powered := true }
    let p := Program.ofList [.loadImm 0 7, .nop, .load 1 3 0, .halt]
    let w : Workspace := ⟨{}, { initialized := true, totalPages := 4, capacity := 4 }⟩
    let run := cpu.run p w (some 5)
    let last := run.workspace
    let sliced := cpu.run p w (some 2)
    cpu.powered = true ∧ run.result = .error (.memory (.pageFault 3)) ∧
      sliced.result = .ok ⟨.sliceExpired, 2⟩ ∧ last.context = sliced.workspace.context ∧
      last.context.ip = 2 ∧ last.memory.faults = sliced.workspace.memory.faults + 1 ∧
      (cpu.run p last none).result = .error (.memory (.pageFault 3)) ∧
      (cpu.run p last none).workspace.context = last.context := by
  intro cpu p w run last sliced
  have hp : cpu.powered = true := rfl
  have hresult : run.result = .error (.memory (.pageFault 3)) := rfl
  have hentry : ¬ (w.context.started = false ∧ p.size ≤ p.entry) := by decide
  have hne : (none : Option Nat) ≠ some 0 := by simp
  obtain ⟨hfails, -⟩ := faults_precise_and_sticky cpu p w (some 5) hp
  obtain ⟨-, hprecise, hsticky⟩ := hfails _ hresult
  obtain ⟨hsliced, hcontext, hmemory, -⟩ := hprecise hentry
  obtain ⟨hagain, hsame, -⟩ := hsticky cpu none hp hne
  exact ⟨hp, hresult, hsliced, hcontext, rfl, congrArg Memory.faults hmemory, hagain, hsame⟩

end Cpu

end Timeshare
