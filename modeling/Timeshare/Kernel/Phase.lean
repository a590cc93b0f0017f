import Timeshare.Scheduler.Basic

/-!
# Phases and errors of the kernel

A boot goes through the phases in the order of `StartupPhase`. An error of the
kernel is either its own, or that of a part of the machine, whose text it takes
over.
-/

namespace Timeshare

/-- How far the kernel has come. -/
inductive StartupPhase
  /-- Never booted, or the last boot failed. -/
  | notStarted
  | config
  | memoryInit
  | cpuPowerOn
  | schedulerStart
  /-- Fully booted. -/
  | running
  /-- Shut down. -/
  | halted
  deriving DecidableEq

namespace StartupPhase

/-- The description of a phase in messages of the kernel. -/
def name : StartupPhase → String
  | notStarted => "not started"
  | config => "config"
  | memoryInit => "memory init"
  | cpuPowerOn => "cpu power on"
  | schedulerStart => "scheduler start"
  | running => "running"
  | halted => "halted"

/-- The identifier of a phase, as it stands in error texts. -/
def identifier : StartupPhase → String
  | notStarted => "NotStarted"
  | config => "Config"
  | memoryInit => "MemoryInit"
  | cpuPowerOn => "CpuPowerOn"
  | schedulerStart => "SchedulerStart"
  | running => "Running"
  | halted => "Halted"

end StartupPhase

/-- Why a step of the boot failed. -/
inductive BootFailure
  | config (cause : ConfigError)
  | memory (cause : MemoryError)
  deriving DecidableEq

/-- The text of a failed step. -/
def BootFailure.message : BootFailure → String
  | config cause => cause.message
  | memory cause => cause.message

/-- Why the kernel refuses an operation. -/
inductive KernelError
  /-- The boot was aborted in the given phase. -/
  | boot (phase : StartupPhase) (cause : BootFailure)
  /-- The operation needs a booted kernel. -/
  | notBooted
  /-- The operation needs a kernel that is not booted. -/
  | booted
  | translation (cause : TranslationError)
  | memory (cause : MemoryError)
  | scheduler (cause : SchedulerError)
  deriving DecidableEq

/-- The text of a kernel error. -/
def KernelError.message : KernelError → String
  | boot phase cause => "boot aborted during " ++ phase.identifier ++ ": " ++ cause.message
  | notBooted => "kernel is not booted"
  | booted => "kernel is booted"
  | translation cause => cause.message
  | memory cause => cause.message
  | scheduler cause => cause.message

/-- What a boot came to. -/
inductive BootStatus
  | booted
  /-- The kernel was booted before; nothing changed. -/
  | alreadyBooted
  deriving DecidableEq

/-- What a shutdown came to. -/
inductive ShutdownStatus
  | shutDown
  /-- The kernel was not booted; nothing changed. -/
  | notBooted
  deriving DecidableEq

end Timeshare
