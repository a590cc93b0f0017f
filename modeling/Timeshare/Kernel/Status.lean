import Timeshare.Kernel.Basic
import Timeshare.Memory.Usage

/-!
# The status of the whole machine
-/

namespace Timeshare

/-- What an observer is shown of a kernel. -/
structure SystemStatus where
  booted : Bool
  phase : StartupPhase
  boots : Nat
  policy : PolicyKind
  cpu : Cpu
  memory : MemoryUsage
  processes : ProcessCounts
  scheduler : SchedulerStats
  deriving DecidableEq

/-- The status of a kernel. -/
def Kernel.status (k : Kernel) : SystemStatus where
  booted := k.booted
  phase := k.phase
  boots := k.boots
  policy := k.machine.scheduler.policy.kind
  cpu := k.machine.cpu
  memory := k.machine.memory.usage
  processes := ProcessTable.counts k.machine.scheduler.processes
  scheduler := k.machine.scheduler.stats

end Timeshare
