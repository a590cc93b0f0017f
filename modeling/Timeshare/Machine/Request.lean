import Timeshare.Machine.Basic
import Timeshare.Memory.Request

/-!
# Machine requests

A request is an operation on the machine as a value, so a history of a machine
is a list of requests (`Machine.afterAll`).
-/

namespace Timeshare

/-- An operation on the machine. -/
inductive MachineRequest
  | power (on : Bool)
  | start
  | stop
  | requestStop
  | submit (program : Program)
  | submitAt (program : Program) (priority : Priority)
  | wake (pid : ProcessId)
  | kill (pid : ProcessId)
  | reap
  | setPolicy (policy : Policy)
  | tick
  | run (maxTicks : Nat)
  | memory (request : MemoryRequest)

/-- The answer to a machine request. -/
inductive MachineAnswer
  | done
  | power (on : Bool)
  | submitted (pid : ProcessId)
  | decided (result : Except SchedulerError Unit)
  | reaped (snapshots : List ProcessSnapshot)
  | ticked (outcome : TickOutcome)
  | ran (exit : RunExit)
  | memory (result : Except MemoryError MemoryValue)

namespace Machine

/-- The machine with another scheduler. -/
def withScheduler (m : Machine) (scheduler : Scheduler) : Machine := { m with scheduler }

/-- The machine with another processor. -/
def withCpu (m : Machine) (cpu : Cpu) : Machine := { m with cpu }

/-- The machine with another memory. -/
def withMemory (m : Machine) (memory : Memory) : Machine := { m with memory }

/-- Carries out a request. -/
def perform (m : Machine) : MachineRequest → Reply Machine MachineAnswer
  | .power on => ((m.cpu.setPower on).lift m.withCpu).map fun _ => .power on
  | .start => (m.scheduler.start.lift m.withScheduler).map fun _ => .done
  | .stop => (m.scheduler.stop.lift m.withScheduler).map fun _ => .done
  | .requestStop => ⟨.done, m.withScheduler m.scheduler.requestStop, #[]⟩
  | .submit program => ((m.scheduler.submit program).lift m.withScheduler).map .submitted
  | .submitAt program priority =>
    ((m.scheduler.submitAt program priority).lift m.withScheduler).map .submitted
  | .wake pid => ((m.scheduler.wake pid).lift m.withScheduler).map .decided
  | .kill pid => ((m.scheduler.kill pid).lift m.withScheduler).map .decided
  | .reap => (m.scheduler.reap.lift m.withScheduler).map .reaped
  | .setPolicy policy => ((m.scheduler.setPolicy policy).lift m.withScheduler).map fun _ => .done
  | .tick => m.tick.map .ticked
  | .run maxTicks => (m.run maxTicks).map .ran
  | .memory request => ((m.memory.perform request).lift m.withMemory).map .memory

/-- The machine after a request. -/
def after (m : Machine) (request : MachineRequest) : Machine := (m.perform request).state

/-- The machine after a history of requests. -/
def afterAll (m : Machine) (requests : List MachineRequest) : Machine := requests.foldl after m

@[simp] theorem afterAll_nil (m : Machine) : m.afterAll [] = m := rfl

@[simp] theorem afterAll_cons (m : Machine) (request : MachineRequest)
    (requests : List MachineRequest) :
    m.afterAll (request :: requests) = (m.after request).afterAll requests := rfl

theorem afterAll_append (m : Machine) (first second : List MachineRequest) :
    m.afterAll (first ++ second) = (m.afterAll first).afterAll second := by
  simp [afterAll]

end Machine

end Timeshare
