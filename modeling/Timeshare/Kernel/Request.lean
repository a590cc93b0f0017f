import Timeshare.Kernel.Status
import Timeshare.Machine.Request

/-!
# Kernel requests

A request is an operation on the kernel as a value, so a history of a kernel is
a list of requests (`Kernel.afterAll`). The memory is reached through the kernel,
the processor and the scheduler are not.
-/

namespace Timeshare

/-- An operation on the kernel. -/
inductive KernelRequest
  | boot
  | shutdown
  | reconfigure (config : Config)
  | launch (bytes : List UInt8) (priority : Priority)
  | submit (program : Program)
  | tick
  | run (maxTicks : Nat)
  | wake (pid : ProcessId)
  | kill (pid : ProcessId)
  | requestStop
  | memory (request : MemoryRequest)

/-- The answer to a kernel request. -/
inductive KernelAnswer
  | boot (result : Except KernelError BootStatus)
  | shutdown (status : ShutdownStatus)
  | decided (result : Except KernelError Unit)
  | launched (result : Except KernelError ProcessId)
  | submitted (pid : ProcessId)
  | ticked (outcome : TickOutcome)
  | ran (exit : RunExit)
  | memory (result : Except MemoryError MemoryValue)
  | done

namespace Kernel

/-- Carries out a request. -/
def perform (k : Kernel) : KernelRequest → Reply Kernel KernelAnswer
  | .boot => k.boot.map .boot
  | .shutdown => k.shutdown.map .shutdown
  | .reconfigure config => (k.reconfigure config).map .decided
  | .launch bytes priority => (k.launch bytes priority).map .launched
  | .submit program => (k.submit program).map .submitted
  | .tick => k.tick.map .ticked
  | .run maxTicks => (k.run maxTicks).map .ran
  | .wake pid => (k.wake pid).map .decided
  | .kill pid => (k.kill pid).map .decided
  | .requestStop => ⟨.done, k.withScheduler k.machine.scheduler.requestStop, #[]⟩
  | .memory request =>
    ((k.machine.memory.perform request).lift (k.withMachine ∘ k.machine.withMemory)).map .memory

/-- The kernel after a request. -/
def after (k : Kernel) (request : KernelRequest) : Kernel := (k.perform request).state

/-- The kernel after a history of requests. -/
def afterAll (k : Kernel) (requests : List KernelRequest) : Kernel := requests.foldl after k

@[simp] theorem afterAll_nil (k : Kernel) : k.afterAll [] = k := rfl

@[simp] theorem afterAll_cons (k : Kernel) (request : KernelRequest)
    (requests : List KernelRequest) :
    k.afterAll (request :: requests) = (k.after request).afterAll requests := rfl

end Kernel

end Timeshare
