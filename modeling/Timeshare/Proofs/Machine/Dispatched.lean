import Timeshare.Machine.Request
import Timeshare.Proofs.Cpu.Run

/-!
# What a tick can do

A tick is stopped, or the scheduler begins the tick and then dispatches. `Machine.Dispatched`
lists the ways in which the dispatch ends, with the conditions under which each one
happens and the machine that it leaves; `Machine.dispatched_dispatchChoice` and
`Machine.ticked_tick` say that there are no others. In every way but two the record of
one process is replaced, so `Scheduler.filed` gives the record of a process after its
run, whatever the run came to.
-/

namespace Timeshare

namespace Scheduler

/-- The scheduler with a process taken out of its queue to be dispatched. -/
def take (s : Scheduler) (pid : ProcessId) : Scheduler :=
  { s with queues := s.queues.remove pid, running := some pid }

/-- The record of a process after a run that ended in the given way. -/
def filed (s : Scheduler) (p : Process) (exit : Exit) : Process :=
  match exit with
  | .ok .halted => { p with state := .terminated }
  | .ok .waiting => { p with state := .waiting, consecutiveExpirations := 0 }
  | .ok .sliceExpired => { s.afterExpiry p with state := .ready, readySince := s.clock }
  | .error e => { p with state := .terminated, fault := some (.cpu e) }

section filed

variable (s : Scheduler) (p : Process) (exit : Exit)

/-- The end of a slice changes the level and the expirations of a process. -/
theorem exists_afterExpiry : ∃ level expirations,
    s.afterExpiry p =
      { p with priority := level, consecutiveExpirations := expirations } := by
  simp only [afterExpiry]
  split
  · exact ⟨_, _, rfl⟩
  · exact ⟨_, _, rfl⟩

theorem exists_filed : ∃ level expirations readySince state fault,
    s.filed p exit =
      { p with
        priority := level
        consecutiveExpirations := expirations
        readySince
        state
        fault } := by
  rcases exit with e | outcome
  · exact ⟨_, _, _, _, _, rfl⟩
  · cases outcome with
    | halted | waiting => exact ⟨_, _, _, _, _, rfl⟩
    | sliceExpired =>
        obtain ⟨level, expirations, h⟩ := s.exists_afterExpiry p
        rw [filed, h]
        exact ⟨_, _, _, _, _, rfl⟩

@[simp] theorem program_filed : (s.filed p exit).program = p.program := by
  obtain ⟨level, expirations, readySince, state, fault, h⟩ := s.exists_filed p exit
  rw [h]

@[simp] theorem context_filed : (s.filed p exit).context = p.context := by
  obtain ⟨level, expirations, readySince, state, fault, h⟩ := s.exists_filed p exit
  rw [h]

@[simp] theorem dispatches_filed : (s.filed p exit).dispatches = p.dispatches := by
  obtain ⟨level, expirations, readySince, state, fault, h⟩ := s.exists_filed p exit
  rw [h]

end filed

/-- The queues after a run; only a process whose slice expired is queued again. -/
def filedQueues (s : Scheduler) (pid : ProcessId) (p : Process) (exit : Exit) : ReadyQueues :=
  match exit with
  | .ok .sliceExpired =>
    if s.policy.requeueAtHead (s.filed p exit) then
      s.queues.pushFront (s.filed p exit).priority pid
    else s.queues.pushBack (s.filed p exit).priority pid
  | _ => s.queues

/-- The statistics after a run. -/
def filedStats (s : Scheduler) (p : Process) (exit : Exit) : SchedulerStats :=
  match exit with
  | .ok .sliceExpired =>
    if (s.filed p exit).priority = p.priority then
      { s.stats with dispatches := s.stats.dispatches + 1 }
    else
      { s.stats with
        dispatches := s.stats.dispatches + 1
        demotions := s.stats.demotions + 1 }
  | .ok _ => { s.stats with dispatches := s.stats.dispatches + 1 }
  | .error _ =>
    { s.stats with
      dispatches := s.stats.dispatches + 1
      faults := s.stats.faults + 1 }

theorem state_settle (s : Scheduler) (pid : ProcessId) (p : Process) (exit : Exit) :
    (s.settle pid p exit).state =
      { s with
        processes := s.processes.insert pid (s.filed p exit)
        queues := s.filedQueues pid p exit
        running := none
        stats := s.filedStats p exit } := by
  cases exit with
  | error e => rfl
  | ok outcome =>
      cases outcome with
      | halted | waiting => rfl
      | sliceExpired =>
          simp only [settle, filedStats]
          split
          next h =>
            have hfiled : (s.filed p (.ok .sliceExpired)).priority = p.priority := h
            rw [if_pos hfiled]
            rfl
          next h =>
            have hfiled : ¬ (s.filed p (.ok .sliceExpired)).priority = p.priority := h
            rw [if_neg hfiled]
            rfl

theorem result_settle (s : Scheduler) (pid : ProcessId) (p : Process) (exit : Exit) :
    (s.settle pid p exit).result = (s.filed p exit).state := by
  cases exit with
  | error e => rfl
  | ok outcome =>
      cases outcome with
      | halted | waiting => rfl
      | sliceExpired =>
          simp only [settle, filed]
          split <;> rfl

end Scheduler

/-- The record of a process after a run, before it is filed. -/
def Process.afterRun (p : Process) (context : Context) : Process :=
  { p with
    state := .running
    context := context
    cpuTime := p.cpuTime + (context.retired - p.context.retired)
    dispatches := p.dispatches + 1 }

namespace Machine

/-- The run of a process that is dispatched. -/
def slice (m : Machine) (p : Process) : Cpu.Run :=
  m.cpu.run p.program ⟨p.context, m.memory⟩
    (some (m.scheduler.policy.timeSlice { p with state := .running }))

/-- The exit of the run of a process that is dispatched. -/
def sliceExit (m : Machine) (p : Process) : Exit := (m.slice p).result.map Execution.outcome

theorem workspace_slice {m : Machine} (hpower : m.cpu.powered = true) (p : Process) :
    (m.slice p).workspace =
      (p.program.resume (m.scheduler.policy.timeSlice { p with state := .running })
        ⟨p.context, m.memory⟩).2 :=
  Cpu.workspace_run hpower

theorem sliceExit_eq {m : Machine} (hpower : m.cpu.powered = true) (p : Process) :
    m.sliceExit p =
      (p.program.resume (m.scheduler.policy.timeSlice { p with state := .running })
        ⟨p.context, m.memory⟩).1 :=
  Cpu.outcome_run hpower

/-- The ways in which a dispatch ends. -/
inductive Dispatched (m : Machine) : TickOutcome → Machine → Prop
  | idle (hchoice : m.scheduler.choice? = none) : Dispatched m .idle m.idle
  | discarded {pid : ProcessId} {queues : ReadyQueues}
      (hchoice : m.scheduler.choice? = some pid)
      (hready : ∀ p, m.scheduler.processes.get? pid = some p → p.state ≠ .ready)
      (hqueues : queues = m.scheduler.queues.remove pid ∨
        queues = (m.scheduler.queues.remove pid).remove pid) :
      Dispatched m .idle { m with scheduler := { m.scheduler with queues, running := none } }
  | killed {pid : ProcessId} {p : Process} (hchoice : m.scheduler.choice? = some pid)
      (hp : m.scheduler.processes.get? pid = some p) (hready : p.state = .ready)
      (hkill : p.killRequested = true) :
      Dispatched m (.ran pid 0 .terminated)
        { m with
          scheduler := (m.scheduler.take pid).terminateMarked pid { p with state := .running } }
  | putBack {pid : ProcessId} {p : Process} (hchoice : m.scheduler.choice? = some pid)
      (hp : m.scheduler.processes.get? pid = some p) (hready : p.state = .ready)
      (hkill : p.killRequested = false) (hpower : m.cpu.powered = false) :
      Dispatched m (.cpuUnavailable pid)
        { m with
          scheduler := (m.scheduler.take pid).putBack pid { p with state := .running } }
  | ran {pid : ProcessId} {p : Process} (hchoice : m.scheduler.choice? = some pid)
      (hp : m.scheduler.processes.get? pid = some p) (hready : p.state = .ready)
      (hkill : p.killRequested = false) (hpower : m.cpu.powered = true) :
      Dispatched m
        (.ran pid ((m.slice p).workspace.context.retired - p.context.retired)
          ((m.scheduler.take pid).filed (p.afterRun (m.slice p).workspace.context)
            (m.sliceExit p)).state)
        { scheduler := ((m.scheduler.take pid).settle pid
            (p.afterRun (m.slice p).workspace.context) (m.sliceExit p)).state
          cpu := (m.slice p).cpu
          memory := (m.slice p).workspace.memory }

variable {m : Machine}

section dispatch

variable {pid : ProcessId} {p : Process}

theorem dispatch_of_marked (hp : m.scheduler.processes.get? pid = some p)
    (hready : p.state = .ready) (hkill : p.killRequested = true) :
    (m.dispatch pid).result = .ok (.ran pid 0 .terminated) ∧
      (m.dispatch pid).state =
        { m with
          scheduler := (m.scheduler.take pid).terminateMarked pid { p with state := .running } } := by
  have hn : ¬ p.state ≠ .ready := not_not_intro hready
  simp only [dispatch, hp, if_neg hn, if_pos hkill, true_and]
  rfl

theorem dispatch_of_unpowered (hp : m.scheduler.processes.get? pid = some p)
    (hready : p.state = .ready) (hkill : p.killRequested = false)
    (hpower : m.cpu.powered = false) :
    (m.dispatch pid).result = .ok (.cpuUnavailable pid) ∧
      (m.dispatch pid).state =
        { m with
          scheduler := (m.scheduler.take pid).putBack pid { p with state := .running } } := by
  have hn : ¬ p.state ≠ .ready := not_not_intro hready
  have hk : ¬ p.killRequested = true := by simp [hkill]
  have hoff : (!m.cpu.powered) = true := by simp [hpower]
  simp only [dispatch, hp, if_neg hn, if_neg hk, runSlice, if_pos hoff, true_and]
  rfl

theorem dispatch_of_powered (hp : m.scheduler.processes.get? pid = some p)
    (hready : p.state = .ready) (hkill : p.killRequested = false)
    (hpower : m.cpu.powered = true) :
    (m.dispatch pid).result =
      .ok (.ran pid ((m.slice p).workspace.context.retired - p.context.retired)
        ((m.scheduler.take pid).filed (p.afterRun (m.slice p).workspace.context)
          (m.sliceExit p)).state) ∧
      (m.dispatch pid).state =
        { scheduler := ((m.scheduler.take pid).settle pid
            (p.afterRun (m.slice p).workspace.context) (m.sliceExit p)).state
          cpu := (m.slice p).cpu
          memory := (m.slice p).workspace.memory } := by
  have hn : ¬ p.state ≠ .ready := not_not_intro hready
  have hk : ¬ p.killRequested = true := by simp [hkill]
  have hon : ¬ (!m.cpu.powered) = true := by simp [hpower]
  rw [← Scheduler.result_settle _ pid]
  simp only [dispatch, hp, if_neg hn, if_neg hk, runSlice, if_neg hon]
  exact ⟨rfl, rfl⟩

end dispatch

/-- A dispatch that succeeds gives the tick its outcome. -/
theorem dispatchChoice_of_ok {pid : ProcessId} {outcome : TickOutcome}
    (hchoice : m.scheduler.choice? = some pid) (h : (m.dispatch pid).result = .ok outcome) :
    m.dispatchChoice.result = outcome ∧ m.dispatchChoice.state = (m.dispatch pid).state := by
  simp only [dispatchChoice, hchoice, h, and_self]

theorem dispatched_dispatchChoice (m : Machine) :
    m.Dispatched m.dispatchChoice.result m.dispatchChoice.state := by
  cases hchoice : m.scheduler.choice? with
  | none =>
      simp only [dispatchChoice, hchoice]
      exact .idle hchoice
  | some pid =>
      cases hp : m.scheduler.processes.get? pid with
      | none =>
          have hnot : ∀ p, m.scheduler.processes.get? pid = some p → p.state ≠ .ready := by
            intro p h
            rw [hp] at h
            cases h
          simp only [dispatchChoice, hchoice, dispatch, hp]
          exact .discarded hchoice hnot (.inl rfl)
      | some p =>
          by_cases hready : p.state = .ready
          · cases hkill : p.killRequested with
            | true =>
                obtain ⟨hr, hs⟩ := dispatch_of_marked hp hready hkill
                obtain ⟨hresult, hstate⟩ := dispatchChoice_of_ok hchoice hr
                rw [hresult, hstate, hs]
                exact .killed hchoice hp hready hkill
            | false =>
                cases hpower : m.cpu.powered with
                | false =>
                    obtain ⟨hr, hs⟩ := dispatch_of_unpowered hp hready hkill hpower
                    obtain ⟨hresult, hstate⟩ := dispatchChoice_of_ok hchoice hr
                    rw [hresult, hstate, hs]
                    exact .putBack hchoice hp hready hkill hpower
                | true =>
                    obtain ⟨hr, hs⟩ := dispatch_of_powered hp hready hkill hpower
                    obtain ⟨hresult, hstate⟩ := dispatchChoice_of_ok hchoice hr
                    rw [hresult, hstate, hs]
                    exact .ran hchoice hp hready hkill hpower
          · have hnot : ∀ p, m.scheduler.processes.get? pid = some p → p.state ≠ .ready := by
              intro p' h
              rw [hp] at h
              cases h
              exact hready
            simp only [dispatchChoice, hchoice, dispatch, hp, if_pos hready]
            exact .discarded hchoice hnot (.inr rfl)

/-- The machine at a tick that is not stopped, when the policy chooses. -/
def begun (m : Machine) : Machine :=
  { m with scheduler := m.scheduler.honourStop.state.beginTick.state }

/-- A tick is stopped, or it begins and dispatches. -/
theorem ticked_tick (m : Machine) :
    (m.scheduler.honourStop.state.started = false ∧ m.tick.result = .stopped ∧
      m.tick.state = { m with scheduler := m.scheduler.honourStop.state }) ∨
    (m.scheduler.honourStop.state.started = true ∧
      m.begun.Dispatched m.tick.result m.tick.state) := by
  cases hs : m.scheduler.honourStop.state.started with
  | false =>
      refine .inl ⟨rfl, ?_, ?_⟩ <;> simp [tick, hs]
  | true =>
      have h := dispatched_dispatchChoice m.begun
      refine .inr ⟨rfl, ?_⟩
      simp only [tick, hs]
      exact h

/-- The tick of a machine that is started, and was not asked to stop, begins and
dispatches. -/
theorem dispatched_tick (hstarted : m.scheduler.started = true)
    (hunstopped : m.scheduler.stopRequested = false) :
    (m.withScheduler m.scheduler.beginTick.state).Dispatched m.tick.result m.tick.state := by
  have hhonoured : m.scheduler.honourStop.state = m.scheduler := by
    simp [Scheduler.honourStop, hunstopped]
  obtain ⟨hstopped, -, -⟩ | ⟨-, hd⟩ := ticked_tick m
  · rw [hhonoured, hstarted] at hstopped
    cases hstopped
  · rwa [begun, hhonoured] at hd

theorem runAfter_succ_of_exit {exit : RunExit} (h : m.tick.result.exit? = some exit)
    (events : Array Event) (maxTicks : Nat) :
    runAfter events (maxTicks + 1) m = ⟨exit, m.tick.state, events ++ m.tick.events⟩ := by
  simp only [runAfter, h]

theorem runAfter_succ_of_ran (h : m.tick.result.exit? = none) (events : Array Event)
    (maxTicks : Nat) :
    runAfter events (maxTicks + 1) m =
      runAfter (events ++ m.tick.events) maxTicks m.tick.state := by
  simp only [runAfter, h]

/-- What every tick preserves is preserved by a run of ticks. -/
theorem run_induction {P : Machine → Prop} (htick : ∀ m, P m → P m.tick.state) (h : P m)
    (maxTicks : Nat) : P (m.run maxTicks).state := by
  rw [run]
  generalize #[] = events
  induction maxTicks generalizing m events with
  | zero => exact h
  | succ n ih =>
      simp only [runAfter]
      split
      · exact htick m h
      · exact ih (htick m h) _

end Machine

end Timeshare
