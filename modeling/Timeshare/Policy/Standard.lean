import Timeshare.Policy.Basic

/-!
# The policies of the machine

All four policies let a process run in bounded slices.

* Round robin dispatches the head of the highest queue and puts an expired
  process behind the others of its level.
* Priority aging does the same, lowers a process that uses up several slices in
  a row, and raises a process that is starved.
* Shortest job first dispatches the ready process with the least remaining
  estimate, and of several such processes the one that was submitted first.
* Real time is round robin with a level 0 whose processes return to the head of
  their queue, so that they keep the processor until they halt or wait.
-/

namespace Timeshare

namespace Policy

/-- The highest level first and each level in turn; slices grow with the level. -/
def roundRobin (params : PolicyParams) : Policy where
  kind := .roundRobin
  select queues _ := queues.head?
  timeSlice p := params.levelSlice p.priority

/-- Round robin that lowers processes that use up their slices and raises starved
ones. -/
def priorityAging (params : PolicyParams) : Policy where
  kind := .priorityAging
  select queues _ := queues.head?
  timeSlice p := params.levelSlice p.priority
  levelAfterExpiry p :=
    if params.demotionThreshold ≤ p.consecutiveExpirations.toNat then p.priority.lower
    else p.priority
  age := Aging.step params.agingThreshold

/-- The queued process with the least remaining estimate; the table lists the
processes in the order of their submission, so the first of equals is taken. -/
def leastRemaining (queues : ReadyQueues) (processes : ProcessTable) : Option ProcessId :=
  ((processes.entries.filter fun e => queues.contains e.1).minOn? (·.2.remainingEstimate)).map (·.1)

/-- The least remaining estimate first, with one slice for all. -/
def shortestJobFirst (params : PolicyParams) : Policy where
  kind := .shortestJobFirst
  select := leastRemaining
  timeSlice _ := params.baseQuantum

/-- Round robin with a real-time band that keeps the processor. -/
def realTime (params : PolicyParams) : Policy where
  kind := .realTime
  select queues _ := queues.head?
  timeSlice p :=
    if p.priority.isRealTime then params.realTimeSlice else params.levelSlice p.priority
  requeueAtHead p := p.priority.isRealTime

end Policy

/-- The policy of a kind. -/
def PolicyKind.build (kind : PolicyKind) (params : PolicyParams) : Policy :=
  match kind with
  | roundRobin => .roundRobin params
  | priorityAging => .priorityAging params
  | shortestJobFirst => .shortestJobFirst params
  | realTime => .realTime params

@[simp] theorem PolicyKind.kind_build (kind : PolicyKind) (params : PolicyParams) :
    (kind.build params).kind = kind := by
  cases kind <;> rfl

end Timeshare
