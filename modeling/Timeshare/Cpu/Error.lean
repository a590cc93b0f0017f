import Timeshare.Memory.Error

/-!
# Errors of the processor
-/

namespace Timeshare

/-- Why a run of the processor fails. -/
inductive CpuError
  /-- The processor is powered off. -/
  | notReady
  /-- A branch target or an entry outside of a program of the given length. -/
  | invalidJump (target length : Nat)
  /-- No instruction at the instruction pointer. -/
  | outOfProgram (ip length : Nat)
  /-- The memory refused an access. -/
  | memory (cause : MemoryError)
  deriving DecidableEq

/-- The text of a processor error. -/
def CpuError.message : CpuError → String
  | notReady => "CPU not ready: powered off"
  | invalidJump target length => s!"invalid jump to {target} (program length {length})"
  | outOfProgram ip length =>
    s!"instruction pointer {ip} out of bounds (program length {length})"
  | memory cause => "memory fault: " ++ cause.message

end Timeshare
