import Timeshare.Kernel.Phase
import Timeshare.Machine.Basic

/-!
# The kernel

The kernel owns a machine and brings it up and down in a fixed order: it
validates the configuration, sets up the memory, powers the processor on and
starts the scheduler. A step that fails aborts the boot and leaves the kernel
not booted; the boot may be tried again. A shutdown stops the scheduler and
powers the processor off. Processes and the contents of the memory survive it,
and the next boot clears the memory.
-/

namespace Timeshare

/-! ## Events -/

namespace Event

def phaseEntered (phase : StartupPhase) : Event where
  severity := .debug
  source := .kernel
  text := "startup phase: " ++ phase.name

def bootRepeated : Event where
  severity := .info
  source := .kernel
  text := "boot requested while already booted"

def bootFailed (phase : StartupPhase) (cause : BootFailure) : Event where
  severity := .error
  source := .kernel
  text := "boot failed during " ++ phase.name ++ ": " ++ cause.message

def kernelBooted (memorySize : Nat) (policy : PolicyKind) : Event where
  severity := .info
  source := .kernel
  text := s!"kernel booted: {memorySize} bytes, " ++ policy.name ++ " scheduling"

def shutdownRepeated : Event where
  severity := .info
  source := .kernel
  text := "shutdown requested while not booted"

def kernelShutDown : Event where
  severity := .info
  source := .kernel
  text := "kernel shut down"

def kernelReconfigured (policy : PolicyKind) : Event where
  severity := .debug
  source := .kernel
  text := "kernel reconfigured (" ++ policy.name ++ " scheduling)"

end Event

/-- A machine with its configuration and the state of its boot. -/
structure Kernel where
  config : Config
  machine : Machine
  booted : Bool := false
  phase : StartupPhase := .notStarted
  /-- The boots that succeeded. -/
  boots : Nat := 0

namespace Kernel

/-- A kernel that is not booted. -/
def new (config : Config) : Kernel :=
  { config, machine := { scheduler := .ofConfig config } }

/-- Replaces the configuration of a kernel that is not booted, and the policy
with it. The next boot validates the configuration. -/
def reconfigure (k : Kernel) (config : Config) : Reply Kernel (Except KernelError Unit) :=
  if k.booted then ⟨.error .booted, k, #[]⟩
  else
    let replaced := k.machine.scheduler.setPolicy config.buildPolicy
    ⟨.ok (), { k with config, machine := { k.machine with scheduler := replaced.state } },
      replaced.events.push (.kernelReconfigured config.policy)⟩

/-- The steps of a boot up to the start of the scheduler. The phase is that of
the last step that was begun. -/
def bringUp (k : Kernel) : Reply Kernel (Except BootFailure Unit) :=
  match k.config.validate with
  | .error e => ⟨.error (.config e), { k with phase := .config }, #[.phaseEntered .config]⟩
  | .ok () =>
    let memory := k.machine.memory.reset k.config.memorySize k.config.residentPages
    let begun := #[.phaseEntered .config, .phaseEntered .memoryInit]
    match memory.result with
    | .error e =>
      ⟨.error (.memory e),
        { k with phase := .memoryInit, machine := { k.machine with memory := memory.state } },
        begun ++ memory.events⟩
    | .ok () =>
      let cpu := k.machine.cpu.powerOn
      let scheduler := k.machine.scheduler.start
      ⟨.ok (),
        { k with
          phase := .schedulerStart
          machine := { scheduler := scheduler.state, cpu := cpu.state, memory := memory.state } },
        begun ++ memory.events ++ #[.phaseEntered .cpuPowerOn] ++ cpu.events ++
          #[.phaseEntered .schedulerStart] ++ scheduler.events⟩

/-- Brings the machine up. -/
def boot (k : Kernel) : Reply Kernel (Except KernelError BootStatus) :=
  if k.booted then ⟨.ok .alreadyBooted, k, #[.bootRepeated]⟩
  else
    let up := k.bringUp
    let k := up.state
    match up.result with
    | .error cause =>
      let cpu := k.machine.cpu.powerOff
      ⟨.error (.boot k.phase cause),
        { k with phase := .notStarted, machine := { k.machine with cpu := cpu.state } },
        up.events ++ #[.bootFailed k.phase cause] ++ cpu.events⟩
    | .ok () =>
      ⟨.ok .booted, { k with phase := .running, booted := true, boots := k.boots + 1 },
        up.events ++
          #[.phaseEntered .running,
            .kernelBooted k.config.memorySize k.machine.scheduler.policy.kind]⟩

/-- Takes the machine down. -/
def shutdown (k : Kernel) : Reply Kernel ShutdownStatus :=
  if !k.booted then ⟨.notBooted, k, #[.shutdownRepeated]⟩
  else
    let scheduler := k.machine.scheduler.stop
    let cpu := k.machine.cpu.powerOff
    ⟨.shutDown,
      { k with
        booted := false
        phase := .halted
        machine := { k.machine with scheduler := scheduler.state, cpu := cpu.state } },
      scheduler.events ++ cpu.events ++ #[.kernelShutDown]⟩

/-- The kernel with another machine. -/
def withMachine (k : Kernel) (machine : Machine) : Kernel := { k with machine }

/-- The kernel with another scheduler. -/
def withScheduler (k : Kernel) (scheduler : Scheduler) : Kernel :=
  k.withMachine { k.machine with scheduler }

/-- Reads bytes as a program and submits it at the given level. -/
def launch (k : Kernel) (bytes : List UInt8) (priority : Priority) :
    Reply Kernel (Except KernelError ProcessId) :=
  if !k.booted then ⟨.error .notBooted, k, #[]⟩
  else
    match Program.ofBytes bytes with
    | .error e => ⟨.error (.translation e), k, #[]⟩
    | .ok program =>
      let submitted := k.machine.scheduler.submitAt program priority
      ⟨.ok submitted.result, k.withScheduler submitted.state,
        #[.translated bytes.length program] ++ submitted.events⟩

/-- Submits a program at the normal level; it runs once the kernel is booted. -/
def submit (k : Kernel) (program : Program) : Reply Kernel ProcessId :=
  (k.machine.scheduler.submit program).lift k.withScheduler

/-- One tick of the machine. -/
def tick (k : Kernel) : Reply Kernel TickOutcome := k.machine.tick.lift k.withMachine

/-- At most `maxTicks` ticks of the machine. -/
def run (k : Kernel) (maxTicks : Nat) : Reply Kernel RunExit :=
  (k.machine.run maxTicks).lift k.withMachine

/-- Makes a waiting process ready. -/
def wake (k : Kernel) (pid : ProcessId) : Reply Kernel (Except KernelError Unit) :=
  ((k.machine.scheduler.wake pid).lift k.withScheduler).map (Except.mapError .scheduler)

/-- Marks a process to be terminated at its next dispatch. -/
def kill (k : Kernel) (pid : ProcessId) : Reply Kernel (Except KernelError Unit) :=
  ((k.machine.scheduler.kill pid).lift k.withScheduler).map (Except.mapError .scheduler)

end Kernel

end Timeshare
