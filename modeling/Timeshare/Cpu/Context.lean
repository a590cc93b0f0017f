import Timeshare.Cpu.Error
import Timeshare.Program

/-!
# Execution contexts

A context is what has to be kept of a program between two runs: where it stands,
its registers, and how many instructions it has retired. A fresh context has not
started; it takes its position from the entry of the program on its first run.
-/

namespace Timeshare

/-- The state of a program between two runs. -/
structure Context where
  /-- The index of the next instruction; zero before the start. -/
  ip : Nat := 0
  registers : Vector UInt32 registerCount := Vector.replicate registerCount 0
  /-- The instructions retired so far. -/
  retired : Nat := 0
  started : Bool := false
  deriving DecidableEq

namespace Context

/-- The value of a register. -/
def register (c : Context) (r : Register) : UInt32 := c.registers[r]

/-- The context with a value put into a register. -/
def setRegister (c : Context) (r : Register) (value : UInt32) : Context :=
  { c with registers := c.registers.set r value }

/-- The context after an instruction, with `next` as the next one. -/
def advance (c : Context) (next : Nat) : Context :=
  { c with ip := next, retired := c.retired + 1 }

/-- The context at its first or next instruction. A program whose entry is not
one of its instructions cannot be started. -/
def enter (c : Context) (p : Program) : Except CpuError Context :=
  if c.started then .ok c
  else if p.entry < p.size then .ok { c with ip := p.entry, started := true }
  else .error (.invalidJump p.entry p.size)

end Context

end Timeshare
