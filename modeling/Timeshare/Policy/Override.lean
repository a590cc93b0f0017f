import Timeshare.Policy.Basic

/-!
# Policies with decisions replaced

An override replaces some of the decisions of a policy, whether or not the result
is sensible: it may insist on one process, queued or not, fix the length of the
slices, or let entries appear in the queues at a given tick. It shows what the
scheduler makes of a policy that chooses badly.
-/

namespace Timeshare

/-- Replacements for some of the decisions of a policy. -/
structure PolicyOverride where
  /-- The process that is always chosen. -/
  choice : Option ProcessId := none
  /-- The length of every slice. -/
  slice : Option Nat := none
  /-- Entries that appear at the tails of their queues. -/
  arrivals : List (Priority × ProcessId) := []
  /-- The tick at which they appear, before the aging of that tick. -/
  arrivalTick : Nat := 0

namespace PolicyOverride

/-- The queues at the tick `now`, with the entries that appear then. -/
def arrive (o : PolicyOverride) (queues : ReadyQueues) (now : Nat) : ReadyQueues :=
  if now = o.arrivalTick then o.arrivals.foldl (fun q e => q.pushBack e.1 e.2) queues else queues

end PolicyOverride

/-- The policy with the replacements; all other decisions are its own. -/
def Policy.override (base : Policy) (o : PolicyOverride) : Policy :=
  { base with
    select := fun queues processes => o.choice.or (base.select queues processes)
    timeSlice := fun p => o.slice.getD (base.timeSlice p)
    age := fun queues processes now => base.age (o.arrive queues now) processes now }

end Timeshare
