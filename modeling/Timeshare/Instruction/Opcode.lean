import Timeshare.Instruction.Basic

/-!
# The opcode table

The first byte of an instruction is its opcode. It fixes how many bytes the
instruction occupies. Each opcode has one byte, and a byte stands for at most
one opcode (`ofByte?_eq_some_iff`).
-/

namespace Timeshare

/-- What the first byte of an instruction says. -/
inductive Opcode
  | nop
  | loadImm
  | load
  | store
  | alu (op : AluOp)
  | jump
  | branchZero
  | branchNonZero
  | wait
  | halt
  deriving DecidableEq

namespace Opcode

/-- The byte of an opcode. -/
def byte : Opcode → UInt8
  | nop => 0x00
  | loadImm => 0x01
  | load => 0x02
  | store => 0x03
  | alu .add => 0x10
  | alu .sub => 0x11
  | alu .mul => 0x12
  | alu .and => 0x13
  | alu .or => 0x14
  | alu .xor => 0x15
  | jump => 0x20
  | branchZero => 0x21
  | branchNonZero => 0x22
  | wait => 0x30
  | halt => 0xff

/-- The number of bytes of an instruction with this opcode, itself included. -/
def size : Opcode → Nat
  | nop | wait | halt => 1
  | alu _ => 4
  | jump => 5
  | loadImm | load | store | branchZero | branchNonZero => 6

/-- Every opcode. -/
def all : List Opcode :=
  [nop, loadImm, load, store, alu .add, alu .sub, alu .mul, alu .and, alu .or, alu .xor,
    jump, branchZero, branchNonZero, wait, halt]

/-- The opcode that a byte stands for, if there is one. -/
def ofByte? (b : UInt8) : Option Opcode := all.find? (fun op => op.byte == b)

/-- The arithmetic operation of an opcode, if it has one. -/
def aluOp? : Opcode → Option AluOp
  | alu op => some op
  | _ => none

theorem mem_all (op : Opcode) : op ∈ all := by
  cases op with
  | alu op => cases op <;> decide
  | _ => decide

theorem byte_injective {op op' : Opcode} (h : op.byte = op'.byte) : op = op' := by
  have key : ∀ a ∈ all, ∀ b ∈ all, a.byte = b.byte → a = b := by decide
  exact key op (mem_all op) op' (mem_all op') h

theorem ofByte?_eq_some_iff {b : UInt8} {op : Opcode} : ofByte? b = some op ↔ op.byte = b := by
  constructor
  · intro h
    simpa using List.find?_some h
  · rintro rfl
    cases h : ofByte? op.byte with
    | none => exact absurd (List.find?_eq_none.1 h op (mem_all op)) (by simp)
    | some op' => exact congrArg some (byte_injective (by simpa using List.find?_some h))

theorem size_pos (op : Opcode) : 0 < op.size := by
  cases op <;> simp [size]

end Opcode

/-- The opcode of an instruction. -/
def Instruction.opcode : Instruction → Opcode
  | nop => .nop
  | loadImm .. => .loadImm
  | load .. => .load
  | store .. => .store
  | alu op .. => .alu op
  | jump _ => .jump
  | branchZero .. => .branchZero
  | branchNonZero .. => .branchNonZero
  | wait => .wait
  | halt => .halt

end Timeshare
