import Timeshare.Scheduler.Basic

/-!
# Consistency of the queues and the process table

`Scheduler.Consistent` says when the ready queues and the process table agree.
`Scheduler.check` looks for the first disagreement: first among the entries of
the queues, in their order, and then among the processes by number.
-/

namespace Timeshare

namespace Scheduler

/-- The queues and the process table agree. -/
structure Consistent (s : Scheduler) : Prop where
  /-- Every entry is a ready process at its own level. -/
  entry_ready : ∀ level pid, (level, pid) ∈ s.queues.entries →
    ∃ p, s.processes.get? pid = some p ∧ p.state = .ready ∧ p.priority = level
  /-- Every ready process is queued once. -/
  ready_once : ∀ pid p, s.processes.get? pid = some p → p.state = .ready →
    s.queues.occurrences pid = 1
  /-- No other process is queued. -/
  others_absent : ∀ pid p, s.processes.get? pid = some p → p.state ≠ .ready →
    s.queues.occurrences pid = 0
  /-- A running process is the one that holds the processor. -/
  running_held : ∀ pid p, s.processes.get? pid = some p → p.state = .running →
    s.running = some pid

/-- What is wrong with an entry of the queues. -/
def entryFault? (s : Scheduler) (entry : Priority × ProcessId) : Option SchedulerError :=
  match s.processes.get? entry.2 with
  | none => some (.unknownProcess entry.2)
  | some p =>
    if p.state = .ready ∧ p.priority = entry.1 then none
    else some (.inconsistent entry.2 p.state)

/-- Whether a process is queued as often as its state asks for, and holds the
processor if it is running. -/
def isAccounted (s : Scheduler) (pid : ProcessId) (p : Process) : Bool :=
  let queued := s.queues.occurrences pid
  match p.state with
  | .ready => queued == 1
  | .running => s.running == some pid && queued == 0
  | .waiting | .terminated => queued == 0

/-- What is wrong with a process of the table. -/
def processFault? (s : Scheduler) (entry : ProcessId × Process) : Option SchedulerError :=
  if s.isAccounted entry.1 entry.2 then none else some (.inconsistent entry.1 entry.2.state)

/-- The first disagreement between the queues and the process table. -/
def fault? (s : Scheduler) : Option SchedulerError :=
  (s.queues.entries.findSome? s.entryFault?).or (s.processes.entries.findSome? s.processFault?)

/-- Verifies that the queues and the process table agree. -/
def check (s : Scheduler) : Except SchedulerError Unit :=
  match s.fault? with
  | none => .ok ()
  | some e => .error e

end Scheduler

end Timeshare
