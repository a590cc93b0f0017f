import Timeshare.Cpu.Basic
import Timeshare.Priority
import Timeshare.Process.State

/-!
# Processes

A process is a program under the care of the scheduler: its level, its state, the
context in which it is continued, and an account of what it has used. The
process table holds the processes by number.

`remainingEstimate` is how far a process is from the end of its program if it
never branches; it is what a scheduler can know of the work that is left.
-/

namespace Timeshare

/-- Why a process was terminated before its end. -/
inductive FaultReason
  /-- The processor failed while it ran the process. -/
  | cpu (cause : CpuError)
  /-- Its termination was requested. -/
  | killed
  deriving DecidableEq

/-- The text of a fault. -/
def FaultReason.message : FaultReason → String
  | cpu cause => cause.message
  | killed => "killed"

/-- A program under the care of the scheduler. -/
structure Process where
  /-- The level at which it is queued. -/
  priority : Priority
  /-- The level at which it was submitted. -/
  basePriority : Priority
  state : ProcessState := .ready
  program : Program
  context : Context := {}
  /-- The instructions retired in all its dispatches. -/
  cpuTime : Nat := 0
  dispatches : Nat := 0
  /-- The tick at which it last became ready. -/
  readySince : Nat
  /-- The slices that it used up since it last waited or changed its level. -/
  consecutiveExpirations : UInt32 := 0
  killRequested : Bool := false
  fault : Option FaultReason := none

/-- The processes by number. -/
abbrev ProcessTable := Table Process

/-- What an observer is shown of a process. -/
structure ProcessSnapshot where
  pid : ProcessId
  priority : Priority
  basePriority : Priority
  state : ProcessState
  cpuTime : Nat
  dispatches : Nat
  programSize : Nat
  ip : Nat
  fault : Option FaultReason
  deriving DecidableEq

/-- The numbers of processes in each state. -/
structure ProcessCounts where
  ready : Nat := 0
  running : Nat := 0
  waiting : Nat := 0
  terminated : Nat := 0
  deriving DecidableEq

namespace ProcessCounts

/-- The number of all processes. -/
def total (c : ProcessCounts) : Nat := c.ready + c.running + c.waiting + c.terminated

/-- The number of processes that have not terminated. -/
def live (c : ProcessCounts) : Nat := c.ready + c.running + c.waiting

end ProcessCounts

namespace Process

/-- A process as it is submitted at the tick `now`. -/
def submitted (program : Program) (priority : Priority) (now : Nat) : Process where
  priority := priority
  basePriority := priority
  program := program
  readySince := now

/-- The instructions between the present position and the end of the program. -/
def remainingEstimate (p : Process) : Nat :=
  p.program.size - (if p.context.started then p.context.ip else p.program.entry)

/-- Whether the process has terminated. -/
def isTerminated (p : Process) : Bool := p.state == .terminated

/-- The process as an observer sees it. -/
def snapshot (pid : ProcessId) (p : Process) : ProcessSnapshot where
  pid := pid
  priority := p.priority
  basePriority := p.basePriority
  state := p.state
  cpuTime := p.cpuTime
  dispatches := p.dispatches
  programSize := p.program.size
  ip := p.context.ip
  fault := p.fault

end Process

namespace ProcessTable

/-- A process as an observer sees it, if it is in the table. -/
def snapshot? (t : ProcessTable) (pid : ProcessId) : Option ProcessSnapshot :=
  (t.get? pid).map (Process.snapshot pid)

/-- Every process as an observer sees it, by number. -/
def snapshots (t : ProcessTable) : List ProcessSnapshot :=
  t.entries.map fun (pid, p) => p.snapshot pid

/-- The number of processes in the given state. -/
def countState (t : ProcessTable) (state : ProcessState) : Nat :=
  t.values.countP (·.state == state)

/-- The numbers of processes in each state. -/
def counts (t : ProcessTable) : ProcessCounts where
  ready := t.countState .ready
  running := t.countState .running
  waiting := t.countState .waiting
  terminated := t.countState .terminated

end ProcessTable

end Timeshare
