import Timeshare.Proofs.Machine.Ledger
import Timeshare.Proofs.Machine.Paced

/-!
# Histories of single steps

A history of requests that keep the policy and tick at most once (`MachineRequest.isStep`)
is taken tick by tick: `Machine.outcomes` lists what its ticks did, in their order. Under a
policy that does not age, a tick finds the queues and the processes as the request before it
left them (`Machine.begun_of_idle`).
-/

namespace Timeshare

/-- Whether the request keeps the policy and ticks at most once. -/
def MachineRequest.isStep : MachineRequest → Bool
  | .setPolicy _ | .run _ => false
  | _ => true

theorem MachineRequest.agesByRule_of_isStep {request : MachineRequest} (h : request.isStep = true) :
    request.AgesByRule := by
  cases request with
  | setPolicy => cases h
  | _ => trivial

namespace TickOutcome

/-- Whether the tick dispatched the process. -/
def runs (pid : ProcessId) : TickOutcome → Bool
  | .ran other _ _ => other == pid
  | _ => false

/-- The process that the tick chose, if it could have been dispatched. -/
def chosen? : TickOutcome → Option ProcessId
  | .ran pid _ _ | .cpuUnavailable pid => some pid
  | .stopped | .idle => none

variable {outcome : TickOutcome} {pid : ProcessId}

theorem runs_eq_true_iff :
    outcome.runs pid = true ↔ ∃ retired state, outcome = .ran pid retired state := by
  cases outcome <;> simp [runs]

end TickOutcome

namespace Machine

variable {m : Machine} {request : MachineRequest}

/-- What the ticks of a history did, in their order. -/
def outcomes (m : Machine) : List MachineRequest → List TickOutcome
  | [] => []
  | request :: rest => m.outcomesOf request ++ (m.after request).outcomes rest

theorem outcomes_append (m : Machine) (first second : List MachineRequest) :
    m.outcomes (first ++ second) = m.outcomes first ++ (m.afterAll first).outcomes second := by
  induction first generalizing m with
  | nil => rfl
  | cons request rest ih =>
      rw [List.cons_append, outcomes, outcomes, ih, List.append_assoc, afterAll_cons]

theorem policy_begun (m : Machine) : m.begun.scheduler.policy = m.scheduler.policy := by
  rw [begun, Scheduler.state_honourStop]
  rfl

theorem policy_tick (m : Machine) : m.tick.state.scheduler.policy = m.scheduler.policy := by
  rcases ticked_tick m with ⟨-, -, hstate⟩ | ⟨-, hd⟩
  · rw [hstate, Scheduler.state_honourStop]
  · rw [hd.kept.1, policy_begun]

theorem policy_after (m : Machine) (h : request.isStep = true) :
    (m.after request).scheduler.policy = m.scheduler.policy := by
  cases request with
  | setPolicy | run => cases h
  | start => exact m.scheduler.extends_start.policy_eq
  | stop =>
      change m.scheduler.stop.state.policy = m.scheduler.policy
      rw [Scheduler.state_stop]
  | wake pid => exact (m.scheduler.extends_wake pid).policy_eq
  | kill pid => exact (m.scheduler.extends_kill pid).policy_eq
  | tick => exact m.policy_tick
  | _ => rfl

/-- Without aging, the queues and the processes are not touched before the policy
chooses. -/
theorem begun_of_idle (hage : m.scheduler.policy.age = Aging.idle) :
    m.begun.scheduler.queues = m.scheduler.queues ∧
      m.begun.scheduler.processes = m.scheduler.processes := by
  rw [begun, Scheduler.state_honourStop]
  simp only [Scheduler.beginTick, hage, Aging.idle, and_self]

end Machine

end Timeshare
