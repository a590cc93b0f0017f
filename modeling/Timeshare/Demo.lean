import Timeshare.Console
import Timeshare.Kernel.Basic

/-!
# The demonstration

The demonstration boots a machine under priority aging, runs three programs (a
summation, a page of instructions that do nothing, and one that waits to be
woken), and shows what became of them together with the console.
-/

namespace Timeshare

namespace Demo

/-- The name under which the machine presents itself. -/
def name : String := "radiate-core"

/-- The version that the machine presents. -/
def version : String := "0.1.0"

/-- The state of the demonstration: the kernel, its console, and the lines that
were shown so far. -/
structure Stage where
  kernel : Kernel
  log : Log
  output : List String := []

/-- A part of the demonstration; it ends early if the kernel refuses something. -/
abbrev Act := StateT Stage (Except KernelError)

/-- Shows a line. -/
def say (line : String) : Act Unit :=
  modify fun stage => { stage with output := stage.output ++ [line] }

/-- Performs an operation of the kernel and records its events. -/
def perform {α : Type} (operation : Kernel → Reply Kernel α) : Act α := do
  let stage ← get
  let reply := operation stage.kernel
  set { stage with kernel := reply.state, log := stage.log.recordAll reply.events }
  return reply.result

/-- Performs an operation that the kernel may refuse. -/
def attempt {α : Type} (operation : Kernel → Reply Kernel (Except KernelError α)) : Act α := do
  match ← perform operation with
  | .ok result => return result
  | .error e => throw e

/-- An operation of the memory as one of the kernel. -/
def onMemory {α : Type} (operation : Memory → Reply Memory (Except MemoryError α)) (k : Kernel) :
    Reply Kernel (Except KernelError α) :=
  ((operation k.machine.memory).lift fun memory =>
    { k with machine := { k.machine with memory } }).map (Except.mapError .memory)

/-- Sums the numbers from 1 to `n` and stores the sum at the start of page 1. -/
def summation (n : UInt32) : List Instruction :=
  [.loadImm 0 0, .loadImm 1 n, .loadImm 2 1,
    .alu .add 0 0 1, .alu .sub 1 1 2, .branchNonZero 1 3,
    .store 0 1 0, .halt]

/-- The line about a process. -/
def describe (s : ProcessSnapshot) : String :=
  s.pid.text ++ " " ++ s.state.name ++ " at " ++ s.priority.text ++ " retired " ++
    toString s.cpuTime ++ " in " ++ toString s.dispatches ++ " dispatches" ++
    (match s.fault with
      | none => ""
      | some fault => " (" ++ fault.message ++ ")")

/-- The demonstration. -/
def act : Act Unit := do
  modify fun stage =>
    { stage with log.console := stage.log.console.write [name ++ " v" ++ version] }
  let _ ← attempt Kernel.boot
  attempt (onMemory fun m => m.allocate 1 4)
  let _ ← attempt fun k => k.launch (Instruction.encodeAll (summation 100)) (.clamp 1)
  let _ ← attempt fun k => k.launch (List.replicate 256 0) .normal
  let sleeper ← attempt fun k => k.launch (Instruction.encodeAll [.wait]) .lowest
  let exit ← perform fun k => k.run 10000
  say ("scheduler returned: " ++ exit.name)
  attempt fun k => k.wake sleeper
  let _ ← perform fun k => k.run 10000
  let total ← attempt (onMemory fun m => m.readWord 1 0)
  say ("sum(1..=100) = " ++ toString total)
  for snapshot in ProcessTable.snapshots (← get).kernel.machine.scheduler.processes do
    say (describe snapshot)
  let _ ← perform Kernel.shutdown
  say "--- console ---"
  for line in (← get).log.console.lines do
    say line

/-- The stage before the demonstration; the console takes lines of information. -/
def start : Stage where
  kernel := .new { policy := .priorityAging, baseQuantum := 16 }
  log := { verbosity := some .info }

/-- The lines that the demonstration shows. -/
def output : Except KernelError (List String) :=
  match act.run start with
  | .ok ((), stage) => .ok stage.output
  | .error e => .error e

end Demo

end Timeshare
