import Timeshare.Proofs.Machine.Dispatched
import Timeshare.Proofs.Scheduler.Operations

/-!
# Requests that arrive in the middle of an operation

A stop is requested by anyone who holds a handle of the scheduler, at any time. All handles
share one flag with the scheduler, so it does not matter which of them is used. An operation
of the owner looks at the flag at most once: a start clears it and a tick takes it, both before
anything else. The requests that come later, but before the operation is over, are described
here (`Scheduler.startInterrupted`, `Machine.tickInterrupted`, `Machine.runInterrupted`).

Nothing else in a tick reads the flag, so such a request comes to the same as one that is made
when the operation is over (`Machine.tickInterrupted_eq`). A run is no single operation in
this respect: a request during one of its ticks is taken by the next one.
-/

namespace Timeshare

namespace Scheduler

/-- The scheduler after a stop was requested, if it was. -/
def interrupted (s : Scheduler) (asked : Bool) : Scheduler :=
  { s with stopRequested := asked || s.stopRequested }

theorem interrupted_true (s : Scheduler) : s.interrupted true = s.requestStop := rfl

/-- Starts the scheduler; a stop may be requested after the flag was cleared. -/
def startInterrupted (s : Scheduler) (asked : Bool) : Scheduler :=
  { ({ s with stopRequested := false } : Scheduler).interrupted asked with started := true }

theorem startInterrupted_eq (s : Scheduler) (asked : Bool) :
    s.startInterrupted asked = s.start.state.interrupted asked := by
  rw [state_start]
  rfl

/-- Filing a process back has no part in the flag. -/
theorem settle_interrupted (s : Scheduler) (asked : Bool) (pid : ProcessId) (p : Process)
    (exit : Exit) :
    (s.interrupted asked).settle pid p exit =
      (s.settle pid p exit).lift (·.interrupted asked) := by
  rcases exit with e | outcome
  · rfl
  · cases outcome with
    | halted | waiting => rfl
    | sliceExpired =>
        by_cases hsame : (s.afterExpiry p).priority = p.priority
        · have hs : s.settle pid p (.ok .sliceExpired) = _ := if_pos hsame
          have hi : (s.interrupted asked).settle pid p (.ok .sliceExpired) = _ := if_pos hsame
          rw [hs, hi]
          rfl
        · have hs : s.settle pid p (.ok .sliceExpired) = _ := if_neg hsame
          have hi : (s.interrupted asked).settle pid p (.ok .sliceExpired) = _ := if_neg hsame
          rw [hs, hi]
          rfl

end Scheduler

namespace Machine

/-- The machine after a stop was requested, if it was. -/
def interrupted (m : Machine) (asked : Bool) : Machine :=
  m.withScheduler (m.scheduler.interrupted asked)

/-- A tick after it has looked at the flag. -/
def proceed (m : Machine) : Reply Machine TickOutcome :=
  if !m.scheduler.started then ⟨.stopped, m, #[]⟩
  else
    let begun := m.scheduler.beginTick
    let reply := (m.withScheduler begun.state).dispatchChoice
    ⟨reply.result, reply.state, begun.events ++ reply.events⟩

/-- Ticks; a stop may be requested after the tick has looked at the flag. -/
def tickInterrupted (m : Machine) (asked : Bool) : Reply Machine TickOutcome :=
  let honoured := m.scheduler.honourStop
  let reply := ((m.withScheduler honoured.state).interrupted asked).proceed
  ⟨reply.result, reply.state, honoured.events ++ reply.events⟩

/-- Ticks until one of them forces an exit or `maxTicks` are used up; a stop is requested
during those ticks that are marked. -/
def runInterrupted (asked : List Bool) : Nat → Machine → RunExit × Machine
  | 0, m => (.tickLimit, m)
  | maxTicks + 1, m =>
    let reply := m.tickInterrupted (asked.headD false)
    match reply.result.exit? with
    | some exit => (exit, reply.state)
    | none => runInterrupted asked.tail maxTicks reply.state

/-! ## Nothing but the look at the flag reads it -/

theorem runSlice_interrupted (m : Machine) (asked : Bool) (pid : ProcessId) (p : Process) :
    (m.interrupted asked).runSlice pid p = (m.runSlice pid p).lift (·.interrupted asked) := by
  have hpower : (m.interrupted asked).cpu.powered = m.cpu.powered := rfl
  rw [runSlice, runSlice, hpower]
  cases m.cpu.powered with
  | false => rfl
  | true =>
      let run := m.cpu.run p.program ⟨p.context, m.memory⟩
        (some (m.scheduler.policy.timeSlice p))
      let retired := run.workspace.context.retired - p.context.retired
      let p' : Process :=
        { p with
          context := run.workspace.context
          cpuTime := p.cpuTime + retired
          dispatches := p.dispatches + 1 }
      have hsettle := m.scheduler.settle_interrupted asked pid p' (run.result.map Execution.outcome)
      exact congrArg (fun settled : Reply Scheduler ProcessState =>
        (⟨.ran pid retired settled.result,
          { scheduler := settled.state, cpu := run.cpu, memory := run.workspace.memory },
          run.events ++ settled.events⟩ : Reply Machine TickOutcome)) hsettle

theorem dispatch_interrupted (m : Machine) (asked : Bool) (pid : ProcessId) :
    (m.interrupted asked).dispatch pid = (m.dispatch pid).lift (·.interrupted asked) := by
  have hsame : (m.interrupted asked).scheduler.processes.get? pid =
      m.scheduler.processes.get? pid := rfl
  rw [dispatch, dispatch, hsame]
  cases m.scheduler.processes.get? pid with
  | none => rfl
  | some p =>
      by_cases hready : p.state ≠ .ready
      · simp only [if_pos hready]
        rfl
      · simp only [if_neg hready]
        by_cases hkill : p.killRequested = true
        · simp only [if_pos hkill]
          rfl
        · simp only [if_neg hkill]
          have hslice := runSlice_interrupted (m.withScheduler (m.scheduler.take pid)) asked pid
            { p with state := .running }
          exact congrArg (fun reply : Reply Machine TickOutcome =>
            (⟨.ok reply.result, reply.state,
              #[Event.processMoved pid .ready .running] ++ reply.events⟩ :
              Reply Machine (Except SchedulerError TickOutcome))) hslice

theorem dispatchChoice_interrupted (m : Machine) (asked : Bool) :
    (m.interrupted asked).dispatchChoice = m.dispatchChoice.lift (·.interrupted asked) := by
  have hchoice : (m.interrupted asked).scheduler.choice? = m.scheduler.choice? := rfl
  rw [dispatchChoice, dispatchChoice, hchoice]
  cases m.scheduler.choice? with
  | none => rfl
  | some pid =>
      simp only [dispatch_interrupted m asked pid, Reply.result_lift]
      cases (m.dispatch pid).result <;> rfl

theorem proceed_interrupted (m : Machine) (asked : Bool) :
    (m.interrupted asked).proceed = m.proceed.lift (·.interrupted asked) := by
  have hstarted : (m.interrupted asked).scheduler.started = m.scheduler.started := rfl
  rw [proceed, proceed, hstarted]
  cases m.scheduler.started with
  | false => rfl
  | true =>
      have hdispatch :=
        dispatchChoice_interrupted (m.withScheduler m.scheduler.beginTick.state) asked
      exact congrArg (fun reply : Reply Machine TickOutcome =>
        (⟨reply.result, reply.state, m.scheduler.beginTick.events ++ reply.events⟩ :
          Reply Machine TickOutcome)) hdispatch

/-! ## Ticks and runs -/

theorem tick_eq_proceed (m : Machine) :
    m.tick =
      ⟨(m.withScheduler m.scheduler.honourStop.state).proceed.result,
        (m.withScheduler m.scheduler.honourStop.state).proceed.state,
        m.scheduler.honourStop.events ++
          (m.withScheduler m.scheduler.honourStop.state).proceed.events⟩ := by
  have hstarted : (m.withScheduler m.scheduler.honourStop.state).scheduler.started =
      m.scheduler.honourStop.state.started := rfl
  rw [tick, proceed, hstarted]
  cases m.scheduler.honourStop.state.started with
  | false => simp [withScheduler]
  | true => simp [withScheduler, Array.append_assoc]

/-- A request during a tick comes to the same as one after it. -/
theorem tickInterrupted_eq (m : Machine) (asked : Bool) :
    m.tickInterrupted asked = m.tick.lift (·.interrupted asked) := by
  rw [tickInterrupted, proceed_interrupted, tick_eq_proceed]
  rfl

theorem runInterrupted_nil (m : Machine) (maxTicks : Nat) :
    runInterrupted [] maxTicks m = ((m.run maxTicks).result, (m.run maxTicks).state) := by
  rw [run]
  generalize #[] = events
  induction maxTicks generalizing m events with
  | zero => rfl
  | succ n ih =>
      have htick : m.tickInterrupted false = m.tick := m.tickInterrupted_eq false
      simp only [runInterrupted, runAfter, List.headD_nil, htick, List.tail_nil]
      cases m.tick.result.exit? with
      | some exit => rfl
      | none => exact ih m.tick.state _

end Machine

end Timeshare
