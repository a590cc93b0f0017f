import Timeshare.Proofs.Cpu.Faults
import Timeshare.Proofs.Cpu.Passes
import Timeshare.Proofs.Machine.Steps

/-!
# Every tick completes

A tick uses the processor at most once, for the slice that the policy gives to the chosen
process. The run has a budget, so its loop stops however the program jumps, and the tick
completes (`Machine.Completes`), whatever the policy answers.
-/

namespace Timeshare

namespace Machine

/-- The tick does not run a process, or the loop of its only run stops within the slice. -/
def Completes (m : Machine) : Prop :=
  (m.tick.state.cpu = m.cpu ∧ m.tick.state.memory = m.memory) ∨
    ∃ pid p w' state, m.begun.scheduler.choice? = some pid ∧
      m.begun.scheduler.processes.get? pid = some p ∧
      p.program.StopsWithin (m.scheduler.policy.timeSlice { p with state := .running })
        ⟨p.context, m.memory⟩ (m.begun.sliceExit p) w' ∧
      m.tick.result = .ran pid (w'.context.retired - p.context.retired) state ∧
      m.tick.state.cpu = (m.begun.slice p).cpu ∧ m.tick.state.memory = w'.memory

theorem stopsWithin_slice {m : Machine} (hpower : m.cpu.powered = true) (p : Process) :
    p.program.StopsWithin (m.scheduler.policy.timeSlice { p with state := .running })
      ⟨p.context, m.memory⟩ (m.sliceExit p) (m.slice p).workspace :=
  Cpu.stopsWithin_run hpower

theorem completes (m : Machine) : m.Completes := by
  obtain ⟨-, -, hstate⟩ | ⟨-, hd⟩ := ticked_tick m
  · rw [Completes, hstate]
    exact .inl ⟨rfl, rfl⟩
  · rw [Completes]
    generalize m.tick.state = m', m.tick.result = outcome at hd
    cases hd with
    | idle | discarded | killed | putBack => exact .inl ⟨rfl, rfl⟩
    | @ran pid p hchoice hp hready hkill hpower =>
        have hstops := stopsWithin_slice hpower p
        rw [policy_begun] at hstops
        exact .inr ⟨pid, p, _, _, hchoice, hp, hstops, rfl, rfl, rfl⟩

/-- Every run with a budget stops within it, whatever the program does, and both counters grow
by what it retired. So every tick completes. -/
theorem budgeted_runs_stop (m : Machine) (p : Program) (w : Workspace) (b : Nat)
    (hp : m.cpu.powered = true) :
    let run := m.cpu.run p w (some b)
    let retired := run.workspace.context.retired - w.context.retired
    p.StopsWithin b w (run.result.map Execution.outcome) run.workspace ∧
      run.cpu.retiredTotal = m.cpu.retiredTotal + retired ∧
      (∀ execution, run.result = .ok execution → execution.retired = retired) ∧
      ∀ m' : Machine, m'.Completes :=
  ⟨Cpu.stopsWithin_run hp, Cpu.retiredTotal_run hp, fun _ => Cpu.retired_of_result hp, completes⟩

/-- An endless loop stops when its budget is used up, and a wait with the last instruction of
the budget is retired. -/
theorem budgeted_runs_stop_at_last_instruction :
    let m : Machine := { scheduler := .new (.roundRobin {}), cpu := { powered := true } }
    let spin := Program.ofList [.jump 0]
    let waits := Program.ofList [.nop, .wait]
    m.cpu.powered = true ∧
      (m.cpu.run spin ⟨{}, {}⟩ (some 3)).result = .ok ⟨.sliceExpired, 3⟩ ∧
      spin.StopsWithin 3 ⟨{}, {}⟩ (.ok .sliceExpired) (m.cpu.run spin ⟨{}, {}⟩ (some 3)).workspace ∧
      waits.StopsWithin 2 ⟨{}, {}⟩ (.ok .waiting) (m.cpu.run waits ⟨{}, {}⟩ (some 2)).workspace ∧
      (m.cpu.run waits ⟨{}, {}⟩ (some 2)).cpu.retiredTotal = 2 ∧ m.Completes := by
  intro m spin waits
  have hp : m.cpu.powered = true := rfl
  obtain ⟨hspin, -⟩ := budgeted_runs_stop m spin ⟨{}, {}⟩ 3 hp
  obtain ⟨hwaits, htotal, -, hcompletes⟩ := budgeted_runs_stop m waits ⟨{}, {}⟩ 2 hp
  exact ⟨hp, rfl, hspin, hwaits, htotal, hcompletes m⟩

end Machine

end Timeshare
