import Timeshare.Cpu.Context
import Timeshare.Memory.Basic

/-!
# Steps of execution

`Instruction.execute` carries out one instruction on a workspace, which is a
context together with the memory. An instruction that succeeds is retired and
the execution goes on; a halt, a wait and a fault stop it. A fault leaves the
context at the instruction that caused it, and a halt is not retired either.

`Program.runFor` iterates the steps of a program for a number of instructions,
so it ends whatever the program does.
-/

namespace Timeshare

/-- Why a run stops without a fault. -/
inductive RunOutcome
  /-- The program reached a halt. -/
  | halted
  /-- The budget of instructions is used up. -/
  | sliceExpired
  /-- The program gave up the processor. -/
  | waiting
  deriving DecidableEq

/-- How a run stops. -/
abbrev Exit := Except CpuError RunOutcome

/-- What a running program works on. -/
structure Workspace where
  context : Context
  memory : Memory

/-- What one instruction comes to. -/
inductive Step
  | next (w : Workspace)
  | stop (exit : Exit) (w : Workspace)

/-- The index that a branch goes to in a program of the given length. -/
def branchTarget (target : UInt32) (length : Nat) : Except CpuError Nat :=
  if target.toNat < length then .ok target.toNat
  else .error (.invalidJump target.toNat length)

namespace Workspace

/-- Retires an instruction that is followed by the one after it. -/
def retire (w : Workspace) : Workspace := { w with context := w.context.advance (w.context.ip + 1) }

/-- Retires a branch that is taken, if its target is an instruction. -/
def branch (w : Workspace) (target : UInt32) (length : Nat) : Step :=
  match branchTarget target length with
  | .ok ip => .next { w with context := w.context.advance ip }
  | .error e => .stop (.error e) w

/-- Puts a value into a register. -/
def setRegister (w : Workspace) (r : Register) (value : UInt32) : Workspace :=
  { w with context := w.context.setRegister r value }

end Workspace

/-- Carries out an instruction of a program of the given length. -/
def Instruction.execute (i : Instruction) (length : Nat) (w : Workspace) : Step :=
  match i with
  | .nop => .next w.retire
  | .loadImm rd imm => .next (w.setRegister rd imm).retire
  | .load rd page offset =>
    let reply := w.memory.readWord page.toNat offset.toNat
    let w := { w with memory := reply.state }
    match reply.result with
    | .ok value => .next (w.setRegister rd value).retire
    | .error e => .stop (.error (.memory e)) w
  | .store rs page offset =>
    let reply := w.memory.writeWord page.toNat offset.toNat (w.context.register rs)
    let w := { w with memory := reply.state }
    match reply.result with
    | .ok () => .next w.retire
    | .error e => .stop (.error (.memory e)) w
  | .alu op rd ra rb =>
    .next (w.setRegister rd (op.apply (w.context.register ra) (w.context.register rb))).retire
  | .jump target => w.branch target length
  | .branchZero rs target =>
    if w.context.register rs = 0 then w.branch target length else .next w.retire
  | .branchNonZero rs target =>
    if w.context.register rs = 0 then .next w.retire else w.branch target length
  | .wait => .stop (.ok .waiting) w.retire
  | .halt => .stop (.ok .halted) w

namespace Program

/-- Carries out the instruction at the instruction pointer. -/
def step (p : Program) (w : Workspace) : Step :=
  match p.get? w.context.ip with
  | none => .stop (.error (.outOfProgram w.context.ip p.size)) w
  | some i => i.execute p.size w

/-- Carries out up to `budget` instructions. -/
def runFor (p : Program) : Nat → Workspace → Exit × Workspace
  | 0, w => (.ok .sliceExpired, w)
  | budget + 1, w =>
    match p.step w with
    | .next w' => p.runFor budget w'
    | .stop exit w' => (exit, w')

/-- Continues the context of the workspace, or starts it if it is fresh, for up
to `budget` instructions. -/
def resume (p : Program) (budget : Nat) (w : Workspace) : Exit × Workspace :=
  match w.context.enter p with
  | .error e => (.error e, w)
  | .ok context => p.runFor budget { w with context }

@[simp] theorem runFor_zero (p : Program) (w : Workspace) :
    p.runFor 0 w = (.ok .sliceExpired, w) := rfl

theorem runFor_succ_of_next {p : Program} {w w' : Workspace} (h : p.step w = .next w')
    (budget : Nat) : p.runFor (budget + 1) w = p.runFor budget w' := by
  simp [runFor, h]

theorem runFor_succ_of_stop {p : Program} {w w' : Workspace} {exit : Exit}
    (h : p.step w = .stop exit w') (budget : Nat) : p.runFor (budget + 1) w = (exit, w') := by
  simp [runFor, h]

end Program

end Timeshare
