import Timeshare.Policy.Aging

/-!
# Scheduling policies

A policy decides which process runs next, how many instructions it may retire in
one dispatch, what happens to its level when its slice expires, and which
processes have waited long enough to be raised. The scheduler owns the queues
and the process table and applies these decisions; nothing obliges a policy to
choose a process that is queued, or one that exists.
-/

namespace Timeshare

/-- The scheduling policies of the machine. -/
inductive PolicyKind
  /-- The highest level first, each level in turn. -/
  | roundRobin
  /-- As before, with levels that follow the behaviour of the processes. -/
  | priorityAging
  /-- The least remaining estimate first, whatever its level. -/
  | shortestJobFirst
  /-- A reserved level that keeps the processor. -/
  | realTime
  deriving DecidableEq

namespace PolicyKind

/-- The name of a policy in messages. -/
def name : PolicyKind → String
  | roundRobin => "round-robin"
  | priorityAging => "priority-aging"
  | shortestJobFirst => "shortest-job-first"
  | realTime => "real-time"

/-- Every kind of policy. -/
def all : List PolicyKind := [roundRobin, priorityAging, shortestJobFirst, realTime]

end PolicyKind

/-- The tunables that the policies share. -/
structure PolicyParams where
  /-- The instructions per slice at level 0. -/
  baseQuantum : Nat := 64
  /-- The ticks that a ready process may wait before it is raised. -/
  agingThreshold : Nat := 8
  /-- The consecutive expired slices before a process is lowered. -/
  demotionThreshold : Nat := 3
  deriving DecidableEq

namespace PolicyParams

/-- The slice of a level, which grows with the number of the level. -/
def levelSlice (params : PolicyParams) (p : Priority) : Nat := params.baseQuantum * (p.val + 1)

/-- The slice of the real-time band, the longest one of all levels. -/
def realTimeSlice (params : PolicyParams) : Nat := params.levelSlice .lowest

end PolicyParams

/-- A scheduling policy. -/
structure Policy where
  kind : PolicyKind
  /-- The process to dispatch next. -/
  select : ReadyQueues → ProcessTable → Option ProcessId
  /-- The instructions that a process may retire in one dispatch. -/
  timeSlice : Process → Nat
  /-- The level of a process whose slice has expired. -/
  levelAfterExpiry : Process → Priority := Process.priority
  /-- Whether a process whose slice has expired returns to the head of its queue. -/
  requeueAtHead : Process → Bool := fun _ => false
  /-- Raises the processes that have waited too long at the tick `now`. -/
  age : ReadyQueues → ProcessTable → Nat → Aged := Aging.idle

end Timeshare
