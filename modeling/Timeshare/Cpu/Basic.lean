import Timeshare.Cpu.Step

/-!
# The processor

The processor runs a program on a context and the memory, for a budget of
instructions, while it is powered. It counts its runs, the instructions that it
retires and the runs that end in a fault. A processor that is powered off
refuses a run and leaves everything as it is.
-/

namespace Timeshare

/-- The processor: its power switch and its counters. -/
structure Cpu where
  powered : Bool := false
  retiredTotal : Nat := 0
  runs : Nat := 0
  faults : Nat := 0
  deriving DecidableEq

/-! ## Events -/

namespace Event

def cpuPower (on : Bool) : Event where
  severity := .info
  source := .engine
  text := if on then "cpu powered on" else "cpu powered off"

def cpuFault (ip : Nat) (e : CpuError) : Event where
  severity := .debug
  source := .engine
  text := "cpu fault at ip " ++ toString ip ++ ": " ++ e.message

end Event

/-- A run that stopped without a fault: why, and after how many instructions. -/
structure Execution where
  outcome : RunOutcome
  retired : Nat
  deriving DecidableEq

namespace Cpu

/-- Everything that a run leaves behind. -/
structure Run where
  result : Except CpuError Execution
  cpu : Cpu
  workspace : Workspace
  events : Array Event := #[]

/-- Switches the power. -/
def setPower (cpu : Cpu) (on : Bool) : Reply Cpu Unit :=
  if cpu.powered = on then ⟨(), cpu, #[]⟩
  else ⟨(), { cpu with powered := on }, #[.cpuPower on]⟩

/-- Switches the power on. -/
def powerOn (cpu : Cpu) : Reply Cpu Unit := cpu.setPower true

/-- Switches the power off. -/
def powerOff (cpu : Cpu) : Reply Cpu Unit := cpu.setPower false

/-- The budget of a run that is given none. The counters of the processor are
words of 64 bits, so no run outlives it. -/
def unlimited : Nat := UInt64.size

/-- Continues the context of the workspace for at most `budget` instructions. -/
def run (cpu : Cpu) (program : Program) (w : Workspace) (budget : Option Nat) : Run :=
  if !cpu.powered then ⟨.error .notReady, cpu, w, #[]⟩
  else
    let (exit, w') := program.resume (budget.getD unlimited) w
    let retired := w'.context.retired - w.context.retired
    let cpu := { cpu with runs := cpu.runs + 1, retiredTotal := cpu.retiredTotal + retired }
    match exit with
    | .ok outcome => ⟨.ok ⟨outcome, retired⟩, cpu, w', #[]⟩
    | .error e =>
      ⟨.error e, { cpu with faults := cpu.faults + 1 }, w', #[.cpuFault w'.context.ip e]⟩

/-- Runs a program from its entry until it stops. -/
def execute (cpu : Cpu) (program : Program) (memory : Memory) : Run :=
  cpu.run program ⟨{}, memory⟩ none

end Cpu

end Timeshare
