import Timeshare.Process.Basic
import Timeshare.ReadyQueues

/-!
# Aging

A ready process below the highest level that has waited for more ticks than the
threshold is starved. In one step of aging every starved process climbs by one
level, in the order of the queues as they stood before the step, and its wait
starts anew.
-/

namespace Timeshare

/-- Queues and processes after some processes were raised, and which these are,
in the order in which they were raised. -/
structure Aged where
  queues : ReadyQueues
  processes : ProcessTable
  promoted : List ProcessId := []

namespace Aging

/-- No process is raised. -/
def idle (queues : ReadyQueues) (processes : ProcessTable) (_ : Nat) : Aged :=
  { queues, processes }

/-- Whether the entry of a queue is a process that is starved at the tick `now`. -/
def isStarved (processes : ProcessTable) (threshold now : Nat) (entry : Priority × ProcessId) :
    Bool :=
  entry.1 != .highest &&
    (processes.get? entry.2).any fun p => threshold < now - p.readySince

/-- The starved entries in the order of the queues. -/
def starved (queues : ReadyQueues) (processes : ProcessTable) (threshold now : Nat) :
    List (Priority × ProcessId) :=
  queues.entries.filter (isStarved processes threshold now)

/-- A process as it is after it climbed to the given level. -/
def raised (level : Priority) (now : Nat) (p : Process) : Process :=
  { p with priority := level, readySince := now, consecutiveExpirations := 0 }

/-- Moves the process of an entry to the tail of the next higher level. -/
def promote (now : Nat) (a : Aged) (entry : Priority × ProcessId) : Aged :=
  match a.processes.get? entry.2 with
  | none => a
  | some p =>
    { queues := (a.queues.remove entry.2).pushBack entry.1.raise entry.2
      processes := a.processes.insert entry.2 (raised entry.1.raise now p)
      promoted := a.promoted ++ [entry.2] }

/-- One step of aging at the tick `now`. -/
def step (threshold : Nat) (queues : ReadyQueues) (processes : ProcessTable) (now : Nat) : Aged :=
  (starved queues processes threshold now).foldl (promote now) { queues, processes }

end Aging

end Timeshare
