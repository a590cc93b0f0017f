import Timeshare.Config

/-!
# The scheduler

The scheduler owns the process table and the ready queues, and keeps the logical
time in ticks. Processes are submitted, woken and marked for termination here;
dispatching needs the rest of the machine and is described with it.

A stop that is requested from outside is noted and honoured at the next tick.
-/

namespace Timeshare

/-- Why the scheduler refuses an operation, or what is wrong with its queues. -/
inductive SchedulerError
  | unknownProcess (pid : ProcessId)
  | invalidTransition (pid : ProcessId) (old new : ProcessState)
  /-- The queues and the process table disagree about a process. -/
  | inconsistent (pid : ProcessId) (state : ProcessState)
  deriving DecidableEq

/-- The text of a scheduler error. -/
def SchedulerError.message : SchedulerError → String
  | unknownProcess pid => "unknown process: " ++ pid.text
  | invalidTransition pid old new =>
    pid.text ++ ": cannot move from " ++ old.name ++ " to " ++ new.name
  | inconsistent pid state =>
    pid.text ++ ": queue bookkeeping inconsistent with state " ++ state.name

/-- What the scheduler counts. -/
structure SchedulerStats where
  /-- The ticks taken while the scheduler was started. -/
  ticks : Nat := 0
  /-- The dispatches that reached the processor. -/
  dispatches : Nat := 0
  /-- The ticks at which nothing was chosen. -/
  idleTicks : Nat := 0
  promotions : Nat := 0
  demotions : Nat := 0
  /-- The processes terminated by a fault of the processor. -/
  faults : Nat := 0
  /-- The processes terminated by request. -/
  kills : Nat := 0
  deriving DecidableEq

/-- The scheduler. -/
structure Scheduler where
  policy : Policy
  processes : ProcessTable := {}
  queues : ReadyQueues := {}
  /-- The process that holds the processor; there is none between ticks. -/
  running : Option ProcessId := none
  /-- The number of the next process to be submitted. -/
  nextPid : ProcessId := 1
  started : Bool := false
  /-- Whether a stop was requested that has not been honoured yet. -/
  stopRequested : Bool := false
  /-- The logical time in ticks. -/
  clock : Nat := 0
  stats : SchedulerStats := {}

/-! ## Events -/

namespace Event

def processMoved (pid : ProcessId) (old new : ProcessState) : Event where
  severity := .trace
  source := .process
  text := pid.text ++ ": " ++ old.name ++ " -> " ++ new.name

def policyReplaced (old new : PolicyKind) : Event where
  severity := .debug
  source := .scheduler
  text := "policy " ++ old.name ++ " -> " ++ new.name

def schedulerStarted (policy : PolicyKind) : Event where
  severity := .info
  source := .scheduler
  text := "scheduler started (" ++ policy.name ++ ")"

def schedulerStopped (ticks : Nat) : Event where
  severity := .info
  source := .scheduler
  text := s!"scheduler stopped after {ticks} ticks"

def processSubmitted (pid : ProcessId) (priority : Priority) : Event where
  severity := .debug
  source := .scheduler
  text := pid.text ++ " submitted at " ++ priority.text

def processWoken (pid : ProcessId) : Event where
  severity := .debug
  source := .scheduler
  text := pid.text ++ " woken"

def processMarked (pid : ProcessId) : Event where
  severity := .debug
  source := .scheduler
  text := pid.text ++ " marked for termination"

def processPromoted (pid : ProcessId) : Event where
  severity := .debug
  source := .scheduler
  text := pid.text ++ " promoted by aging"

end Event

namespace Scheduler

/-- A scheduler that is stopped and has no processes. -/
def new (policy : Policy) : Scheduler := { policy }

/-- The stopped scheduler that a configuration asks for. -/
def ofConfig (config : Config) : Scheduler := new config.buildPolicy

/-! ## Policy, start and stop -/

/-- Replaces the policy. Every process keeps its level. -/
def setPolicy (s : Scheduler) (policy : Policy) : Reply Scheduler Unit :=
  ⟨(), { s with policy }, #[.policyReplaced s.policy.kind policy.kind]⟩

/-- Starts the scheduler; a stop that was requested before is forgotten. -/
def start (s : Scheduler) : Reply Scheduler Unit :=
  if s.started then ⟨(), { s with stopRequested := false }, #[]⟩
  else
    ⟨(), { s with stopRequested := false, started := true },
      #[.schedulerStarted s.policy.kind]⟩

/-- Stops the scheduler. -/
def stop (s : Scheduler) : Reply Scheduler Unit :=
  if s.started then ⟨(), { s with started := false }, #[.schedulerStopped s.stats.ticks]⟩
  else ⟨(), s, #[]⟩

/-- Notes that the scheduler is to stop at its next tick. -/
def requestStop (s : Scheduler) : Scheduler := { s with stopRequested := true }

/-- Stops the scheduler if that was requested; the request is then used up. -/
def honourStop (s : Scheduler) : Reply Scheduler Unit :=
  if s.stopRequested then { s with stopRequested := false }.stop else ⟨(), s, #[]⟩

/-! ## Processes -/

/-- The scheduler with another record for a process. -/
def setProcess (s : Scheduler) (pid : ProcessId) (p : Process) : Scheduler :=
  { s with processes := s.processes.insert pid p }

/-- Submits a program as a ready process at the given level. -/
def submitAt (s : Scheduler) (program : Program) (priority : Priority) :
    Reply Scheduler ProcessId :=
  let pid := s.nextPid
  ⟨pid,
    { s.setProcess pid (.submitted program priority s.clock) with
      nextPid := pid + 1
      queues := s.queues.pushBack priority pid },
    #[.processSubmitted pid priority]⟩

/-- Submits a program as a ready process at the normal level. -/
def submit (s : Scheduler) (program : Program) : Reply Scheduler ProcessId :=
  s.submitAt program .normal

/-- Makes a process ready and queues it at the tail of its level. -/
def makeReady (s : Scheduler) (pid : ProcessId) (p : Process) : Scheduler :=
  { s.setProcess pid { p with state := .ready, readySince := s.clock } with
    queues := s.queues.pushBack p.priority pid }

/-- Makes a waiting process ready. -/
def wake (s : Scheduler) (pid : ProcessId) : Reply Scheduler (Except SchedulerError Unit) :=
  match s.processes.get? pid with
  | none => ⟨.error (.unknownProcess pid), s, #[]⟩
  | some p =>
    if p.state = .waiting then
      ⟨.ok (), s.makeReady pid p, #[.processMoved pid .waiting .ready, .processWoken pid]⟩
    else ⟨.error (.invalidTransition pid p.state .ready), s, #[]⟩

/-- Marks a process to be terminated at its next dispatch. A waiting process is
made ready for it; one that has terminated is left alone. -/
def kill (s : Scheduler) (pid : ProcessId) : Reply Scheduler (Except SchedulerError Unit) :=
  match s.processes.get? pid with
  | none => ⟨.error (.unknownProcess pid), s, #[]⟩
  | some p =>
    match p.state with
    | .terminated => ⟨.ok (), s, #[]⟩
    | .waiting =>
      ⟨.ok (), s.makeReady pid { p with killRequested := true },
        #[.processMoved pid .waiting .ready, .processMarked pid]⟩
    | .ready | .running =>
      ⟨.ok (), s.setProcess pid { p with killRequested := true }, #[.processMarked pid]⟩

/-- Removes the terminated processes and answers with what is left of them. -/
def reap (s : Scheduler) : Reply Scheduler (List ProcessSnapshot) :=
  ⟨ProcessTable.snapshots (s.processes.filter fun _ p => p.isTerminated),
    { s with processes := s.processes.filter fun _ p => !p.isTerminated }, #[]⟩

/-! ## The beginning of a tick -/

/-- The scheduler as the policy finds it when it chooses a process at the next
tick: the time has advanced, and starved processes have been raised. -/
def beginTick (s : Scheduler) : Reply Scheduler Unit :=
  let now := s.clock + 1
  let aged := s.policy.age s.queues s.processes now
  ⟨(),
    { s with
      clock := now
      queues := aged.queues
      processes := aged.processes
      stats := { s.stats with
        ticks := s.stats.ticks + 1
        promotions := s.stats.promotions + aged.promoted.length } },
    (aged.promoted.map Event.processPromoted).toArray⟩

/-- The process that the policy chooses. -/
def choice? (s : Scheduler) : Option ProcessId := s.policy.select s.queues s.processes

end Scheduler

end Timeshare
