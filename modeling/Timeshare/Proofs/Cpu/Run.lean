import Timeshare.Proofs.Cpu.Slices

/-!
# Runs of the processor

A run of a powered processor is described by what `Program.resume` comes to, field
by field. The main statement is `Cpu.run_split`: cutting a run into slices, or
giving it a budget that it does not use up, cannot be observed afterwards, except
that every slice is counted as a run.
-/

namespace Timeshare

namespace Cpu

variable {cpu : Cpu} {p : Program} {w : Workspace} {budget : Option Nat}

theorem state_setPower (cpu : Cpu) (on : Bool) :
    (cpu.setPower on).state = { cpu with powered := on } := by
  rw [setPower]
  split
  next h => rw [← h]
  next => rfl

theorem workspace_run (hp : cpu.powered = true) :
    (cpu.run p w budget).workspace = (p.resume (budget.getD unlimited) w).2 := by
  simp only [run, hp]
  cases (p.resume (budget.getD unlimited) w).1 <;> simp

theorem result_run (hp : cpu.powered = true) :
    (cpu.run p w budget).result =
      (p.resume (budget.getD unlimited) w).1.map fun outcome =>
        ⟨outcome, (p.resume (budget.getD unlimited) w).2.context.retired - w.context.retired⟩ := by
  simp only [run, hp]
  cases (p.resume (budget.getD unlimited) w).1 <;> simp [Except.map]

theorem outcome_run (hp : cpu.powered = true) :
    (cpu.run p w budget).result.map Execution.outcome =
      (p.resume (budget.getD unlimited) w).1 := by
  rw [result_run hp]
  cases (p.resume (budget.getD unlimited) w).1 <;> rfl

/-- The counters of the processor after a run. -/
theorem cpu_run (hp : cpu.powered = true) :
    (cpu.run p w budget).cpu =
      { cpu with
        retiredTotal := cpu.retiredTotal +
          ((p.resume (budget.getD unlimited) w).2.context.retired - w.context.retired)
        runs := cpu.runs + 1
        faults := cpu.faults +
          if (p.resume (budget.getD unlimited) w).1.isOk then 0 else 1 } := by
  simp only [run, hp]
  cases (p.resume (budget.getD unlimited) w).1 <;> simp [Except.isOk, Except.toBool]

theorem run_congr {n m : Option Nat}
    (h : p.resume (n.getD unlimited) w = p.resume (m.getD unlimited) w) :
    cpu.run p w n = cpu.run p w m := by
  simp only [run, h]

theorem expired_iff (hp : cpu.powered = true) {r : Nat} :
    (cpu.run p w budget).result = .ok ⟨.sliceExpired, r⟩ ↔
      (p.resume (budget.getD unlimited) w).1 = .ok .sliceExpired ∧
        r = (p.resume (budget.getD unlimited) w).2.context.retired - w.context.retired := by
  rw [result_run hp]
  cases (p.resume (budget.getD unlimited) w).1 with
  | error e => simp [Except.map]
  | ok outcome => simp [Except.map, eq_comm]

theorem stopped_iff (hp : cpu.powered = true) :
    (∀ r, (cpu.run p w budget).result ≠ .ok ⟨.sliceExpired, r⟩) ↔
      (p.resume (budget.getD unlimited) w).1 ≠ .ok .sliceExpired := by
  simp [expired_iff hp]

theorem run_of_resume_expired (hp : cpu.powered = true) {a : Nat} {w₁ : Workspace}
    (h : p.resume a w = (.ok .sliceExpired, w₁)) :
    cpu.run p w (some a) =
      { result := .ok ⟨.sliceExpired, w₁.context.retired - w.context.retired⟩
        cpu := { cpu with
          retiredTotal := cpu.retiredTotal + (w₁.context.retired - w.context.retired)
          runs := cpu.runs + 1 }
        workspace := w₁ } := by
  simp [run, hp, h]

/-- A slice that expired, followed by another one, comes to what a single run for
both budgets comes to. -/
theorem run_run_of_expired (hp : cpu.powered = true) {a r : Nat} (b : Nat)
    (h : (cpu.run p w (some a)).result = .ok ⟨.sliceExpired, r⟩) :
    let first := cpu.run p w (some a)
    let second := first.cpu.run p first.workspace (some b)
    let whole := cpu.run p w (some (a + b))
    second.result.map (fun x => { x with retired := r + x.retired }) = whole.result ∧
      second.workspace = whole.workspace ∧
      second.cpu = { whole.cpu with runs := whole.cpu.runs + 1 } := by
  obtain ⟨hexit, rfl⟩ := (expired_iff hp).1 h
  obtain ⟨w₁, hfirst⟩ : ∃ w₁, p.resume a w = (.ok .sliceExpired, w₁) :=
    ⟨_, Prod.ext hexit rfl⟩
  have hwhole := Program.resume_add_of_expired b hfirst
  have hle : w.context.retired ≤ w₁.context.retired := by
    have := Program.retired_le_resume (p := p) a w
    rwa [hfirst] at this
  have hle₁ := Program.retired_le_resume (p := p) b w₁
  have hsum : w₁.context.retired - w.context.retired +
      ((p.resume b w₁).2.context.retired - w₁.context.retired) =
      (p.resume b w₁).2.context.retired - w.context.retired := by omega
  have hp₁ : ({ cpu with
      retiredTotal := cpu.retiredTotal + (w₁.context.retired - w.context.retired)
      runs := cpu.runs + 1 } : Cpu).powered = true := hp
  simp only [run_of_resume_expired hp hfirst, Option.getD_some, hfirst]
  rw [result_run hp₁, workspace_run hp₁, cpu_run hp₁, result_run hp, workspace_run hp, cpu_run hp]
  simp only [Option.getD_some, hwhole, ← hsum, Nat.add_assoc, and_self, and_true]
  cases (p.resume b w₁).1 <;> rfl

theorem run_add_of_stopped (hp : cpu.powered = true) {a : Nat} (b : Nat)
    (h : ∀ r, (cpu.run p w (some a)).result ≠ .ok ⟨.sliceExpired, r⟩) :
    cpu.run p w (some (a + b)) = cpu.run p w (some a) :=
  run_congr (Program.resume_add_of_stopped b ((stopped_iff hp).1 h))

theorem completes_of_stopped (hp : cpu.powered = true)
    (h : ∀ r, (cpu.run p w none).result ≠ .ok ⟨.sliceExpired, r⟩) :
    p.Completes w (p.resume unlimited w).1 (p.resume unlimited w).2 :=
  Program.completes_of_resume rfl ((stopped_iff hp).1 h)

theorem run_of_completes (hp : cpu.powered = true) {exit : Exit} {w' : Workspace}
    (h : p.Completes w exit w')
    (hlt : w'.context.retired - w.context.retired < budget.getD unlimited) :
    (cpu.run p w budget).result.map Execution.outcome = exit ∧
      (cpu.run p w budget).workspace = w' := by
  have hresume := Program.resume_of_completes h hlt
  rw [outcome_run hp, workspace_run hp, hresume]
  exact ⟨rfl, rfl⟩

/-- Slicing a run is invisible. If a run with the budget `a` expires, another run
with the budget `b` takes it to where a single run with the budget `a + b` ends;
if it stops in another way, a larger budget changes nothing. A run without a
budget that stops is the run with any budget greater than what it retires, and it
stops where its instructions lead it, if they do so within 64-bit counters. -/
theorem run_split (cpu : Cpu) (p : Program) (w : Workspace) (a b : Nat)
    (hp : cpu.powered = true) :
    (∀ r, (cpu.run p w (some a)).result = .ok ⟨.sliceExpired, r⟩ →
      let first := cpu.run p w (some a)
      let second := first.cpu.run p first.workspace (some b)
      let whole := cpu.run p w (some (a + b))
      second.result.map (fun x => { x with retired := r + x.retired }) = whole.result ∧
        second.workspace = whole.workspace ∧
        second.cpu = { whole.cpu with runs := whole.cpu.runs + 1 }) ∧
    ((∀ r, (cpu.run p w (some a)).result ≠ .ok ⟨.sliceExpired, r⟩) →
      cpu.run p w (some (a + b)) = cpu.run p w (some a)) ∧
    ((∀ r, (cpu.run p w none).result ≠ .ok ⟨.sliceExpired, r⟩) →
      (∃ exit, p.Completes w exit (cpu.run p w none).workspace) ∧
      ∀ n, (cpu.run p w none).workspace.context.retired - w.context.retired < n →
        cpu.run p w none = cpu.run p w (some n) ∧
        (w.context = {} → cpu.execute p w.memory = cpu.run p w (some n))) ∧
    (∀ exit w', p.Completes w exit w' →
      w'.context.retired - w.context.retired < unlimited →
      (cpu.run p w none).result.map Execution.outcome = exit ∧
        (cpu.run p w none).workspace = w') := by
  refine ⟨fun r h => run_run_of_expired hp b h, run_add_of_stopped hp b, fun h => ?_,
    fun exit w' h hlt => run_of_completes hp h hlt⟩
  have hcompletes := completes_of_stopped hp h
  rw [workspace_run hp]
  refine ⟨⟨_, hcompletes⟩, fun n hn => ?_⟩
  have hnone : cpu.run p w none = cpu.run p w (some n) :=
    run_congr (Program.resume_of_completes hcompletes hn).symm
  refine ⟨hnone, fun hw => ?_⟩
  rw [← hnone, execute, ← hw]

/-- The end of a slice falls before a wait: the second slice runs into it, and so
does the run without slices or without a budget. -/
theorem run_split_before_wait :
    let cpu : Cpu := { powered := true }
    let p := Program.ofList [.nop, .nop, .wait, .halt]
    let w : Workspace := ⟨{}, {}⟩
    let first := cpu.run p w (some 1)
    let second := first.cpu.run p first.workspace (some 2)
    let whole := cpu.run p w (some 3)
    cpu.powered = true ∧ first.result = .ok ⟨.sliceExpired, 1⟩ ∧
      second.result.map (fun x => { x with retired := 1 + x.retired }) = whole.result ∧
      whole.result = .ok ⟨.waiting, 3⟩ ∧ cpu.run p w (some 7) = whole ∧
      (cpu.run p w none).workspace = whole.workspace ∧
      cpu.execute p w.memory = cpu.run p w (some 4) := by
  intro cpu p w first second whole
  have hp : cpu.powered = true := rfl
  have hfirst : first.result = .ok ⟨.sliceExpired, 1⟩ := rfl
  have hwhole : whole.result = .ok ⟨.waiting, 3⟩ := rfl
  have hwaits : ∀ r, whole.result ≠ .ok ⟨.sliceExpired, r⟩ := by simp [hwhole]
  have hcompletes : p.Completes w (.ok .waiting) whole.workspace :=
    .next rfl (.next rfl (.stop rfl))
  have hlt : whole.workspace.context.retired - w.context.retired < unlimited := by decide
  obtain ⟨hend, hworkspace⟩ := (run_split cpu p w 3 4 hp).2.2.2 _ _ hcompletes hlt
  have hnone : ∀ r, (cpu.run p w none).result ≠ .ok ⟨.sliceExpired, r⟩ := by
    intro r h
    rw [h] at hend
    cases hend
  have hfour : (cpu.run p w none).workspace.context.retired - w.context.retired < 4 := by
    rw [hworkspace]
    decide
  exact ⟨hp, hfirst, ((run_split cpu p w 1 2 hp).1 1 hfirst).1, hwhole,
    (run_split cpu p w 3 4 hp).2.1 hwaits, hworkspace,
    (((run_split cpu p w 3 4 hp).2.2.1 hnone).2 4 hfour).2 rfl⟩

end Cpu

end Timeshare
