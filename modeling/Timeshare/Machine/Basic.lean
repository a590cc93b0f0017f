import Timeshare.Scheduler.Settling

/-!
# The machine: dispatching and ticks

A machine is a scheduler with the processor and the memory that it uses. A tick
dispatches at most one process for at most one slice and files it back according
to how its run ended, so between ticks no process is running.

A tick goes through these stages: a requested stop is honoured; the time
advances and starved processes are raised (`Scheduler.beginTick`); the policy
chooses a process; the process is taken out of its queue and either terminated,
if that was requested, or run (`Machine.dispatch`); and what the run came to is
settled (`Scheduler.settle`). A choice that cannot be dispatched, because there is
no such process or it is not ready, is taken out of the queues and the tick is
idle.
-/

namespace Timeshare

/-- A scheduler with its processor and its memory. -/
structure Machine where
  scheduler : Scheduler
  cpu : Cpu := {}
  memory : Memory := .empty

/-- What one tick did. -/
inductive TickOutcome
  /-- The scheduler is stopped; nothing happened. -/
  | stopped
  /-- No process was dispatched. -/
  | idle
  /-- The chosen process was put back because the processor is powered off. -/
  | cpuUnavailable (pid : ProcessId)
  /-- A process was dispatched and left in the given state. -/
  | ran (pid : ProcessId) (retired : Nat) (state : ProcessState)
  deriving DecidableEq

/-- Why a run of ticks ended. -/
inductive RunExit
  /-- There was nothing to dispatch. -/
  | idle
  /-- The scheduler is stopped. -/
  | stopped
  /-- The processor is powered off. -/
  | cpuUnavailable
  /-- The number of ticks was used up. -/
  | tickLimit
  deriving DecidableEq

namespace RunExit

/-- The name of an exit in messages. -/
def name : RunExit → String
  | idle => "Idle"
  | stopped => "Stopped"
  | cpuUnavailable => "CpuUnavailable"
  | tickLimit => "TickLimit"

end RunExit

/-- The exit that a tick forces on a run of ticks, if it does. -/
def TickOutcome.exit? : TickOutcome → Option RunExit
  | stopped => some .stopped
  | idle => some .idle
  | cpuUnavailable _ => some .cpuUnavailable
  | ran .. => none

/-- The event of a chosen process that could not be dispatched. -/
def Event.dispatchFailed (pid : ProcessId) (e : SchedulerError) : Event where
  severity := .error
  source := .scheduler
  text := "dispatch of " ++ pid.text ++ " failed: " ++ e.message

namespace Machine

/-- Runs a process that was taken out of its queue for one slice. Without power
it is put back instead. -/
def runSlice (m : Machine) (pid : ProcessId) (p : Process) : Reply Machine TickOutcome :=
  if !m.cpu.powered then
    ⟨.cpuUnavailable pid, { m with scheduler := m.scheduler.putBack pid p },
      #[.processMoved pid .running .ready, .processPutBack pid]⟩
  else
    let slice := m.scheduler.policy.timeSlice p
    let run := m.cpu.run p.program ⟨p.context, m.memory⟩ (some slice)
    let retired := run.workspace.context.retired - p.context.retired
    let p' :=
      { p with
        context := run.workspace.context
        cpuTime := p.cpuTime + retired
        dispatches := p.dispatches + 1 }
    let settled := m.scheduler.settle pid p' (run.result.map Execution.outcome)
    ⟨.ran pid retired settled.result,
      { scheduler := settled.state, cpu := run.cpu, memory := run.workspace.memory },
      run.events ++ settled.events⟩

/-- Dispatches a process for at most one slice. -/
def dispatch (m : Machine) (pid : ProcessId) : Reply Machine (Except SchedulerError TickOutcome) :=
  match m.scheduler.processes.get? pid with
  | none => ⟨.error (.unknownProcess pid), m, #[]⟩
  | some p =>
    let taken := { m.scheduler with queues := m.scheduler.queues.remove pid }
    if p.state ≠ .ready then
      ⟨.error (.invalidTransition pid p.state .running), { m with scheduler := taken }, #[]⟩
    else
      let p := { p with state := .running }
      let s := { taken with running := some pid }
      let start := Event.processMoved pid .ready .running
      if p.killRequested then
        ⟨.ok (.ran pid 0 .terminated), { m with scheduler := s.terminateMarked pid p },
          #[start, .processMoved pid .running .terminated, .processKilled pid]⟩
      else
        let reply := { m with scheduler := s }.runSlice pid p
        ⟨.ok reply.result, reply.state, #[start] ++ reply.events⟩

/-- Records that the tick has nothing to dispatch. -/
def idle (m : Machine) : Machine :=
  { m with
    scheduler := { m.scheduler with
      stats := { m.scheduler.stats with idleTicks := m.scheduler.stats.idleTicks + 1 } } }

/-- Takes a process that could not be dispatched out of the queues. -/
def discard (m : Machine) (pid : ProcessId) : Machine :=
  { m with
    scheduler := { m.scheduler with
      queues := m.scheduler.queues.remove pid
      running := none } }

/-- Dispatches the process that the policy chooses. -/
def dispatchChoice (m : Machine) : Reply Machine TickOutcome :=
  match m.scheduler.choice? with
  | none => ⟨.idle, m.idle, #[]⟩
  | some pid =>
    let reply := m.dispatch pid
    match reply.result with
    | .ok outcome => ⟨outcome, reply.state, reply.events⟩
    | .error e => ⟨.idle, reply.state.discard pid, reply.events.push (.dispatchFailed pid e)⟩

/-- Dispatches at most one process for at most one slice. -/
def tick (m : Machine) : Reply Machine TickOutcome :=
  let honoured := m.scheduler.honourStop
  if !honoured.state.started then
    ⟨.stopped, { m with scheduler := honoured.state }, honoured.events⟩
  else
    let begun := honoured.state.beginTick
    let reply := { m with scheduler := begun.state }.dispatchChoice
    ⟨reply.result, reply.state, honoured.events ++ begun.events ++ reply.events⟩

/-- The schedulers as the policy finds them at the next `n` ticks, if none of the
ticks is stopped. -/
def consultations : Nat → Machine → List Scheduler
  | 0, _ => []
  | n + 1, m => m.scheduler.honourStop.state.beginTick.state :: consultations n m.tick.state

/-- Ticks until one of them forces an exit or `maxTicks` are used up; the events
follow those that are given. -/
def runAfter (events : Array Event) : Nat → Machine → Reply Machine RunExit
  | 0, m => ⟨.tickLimit, m, events⟩
  | maxTicks + 1, m =>
    let reply := m.tick
    match reply.result.exit? with
    | some exit => ⟨exit, reply.state, events ++ reply.events⟩
    | none => runAfter (events ++ reply.events) maxTicks reply.state

/-- Ticks until one of them forces an exit or `maxTicks` are used up. -/
def run (m : Machine) (maxTicks : Nat) : Reply Machine RunExit := runAfter #[] maxTicks m

end Machine

end Timeshare
