import Timeshare.Hexadecimal

/-!
# Instructions

The processor has eight registers of 32 bits and a small closed set of
instructions: data movement, three-register arithmetic, branches to instruction
indices, a wait and a halt. Arithmetic wraps around at 32 bits.
-/

namespace Timeshare

/-- The number of general purpose registers. -/
abbrev registerCount : Nat := 8

/-- A general purpose register. -/
abbrev Register := Fin registerCount

namespace Register

/-- The register with the given index, if there is one. -/
def ofNat? (index : Nat) : Option Register :=
  if h : index < registerCount then some ⟨index, h⟩ else none

/-- The text of a register. -/
def text (r : Register) : String := "r" ++ toString r.val

/-- Exactly the indices below the number of registers name a register. -/
theorem ofNat?_eq_some_iff {index : Nat} {r : Register} : ofNat? index = some r ↔ r.val = index := by
  unfold ofNat?
  split
  · constructor
    · rintro ⟨⟩
      rfl
    · rintro rfl
      rfl
  · have := r.isLt
    simp
    omega

end Register

/-- The arithmetic and logic operations. -/
inductive AluOp
  | add
  | sub
  | mul
  | and
  | or
  | xor
  deriving DecidableEq

namespace AluOp

/-- The value of an operation, wrapped to 32 bits. -/
def apply : AluOp → UInt32 → UInt32 → UInt32
  | add, a, b => a + b
  | sub, a, b => a - b
  | mul, a, b => a * b
  | and, a, b => a &&& b
  | or, a, b => a ||| b
  | xor, a, b => a ^^^ b

/-- The name of an operation in program texts. -/
def mnemonic : AluOp → String
  | add => "add"
  | sub => "sub"
  | mul => "mul"
  | and => "and"
  | or => "or"
  | xor => "xor"

end AluOp

/-- An instruction. Targets of branches are indices of instructions. -/
inductive Instruction
  /-- Does nothing. -/
  | nop
  /-- Puts a constant into `rd`. -/
  | loadImm (rd : Register) (imm : UInt32)
  /-- Reads the word at an offset of a page into `rd`. -/
  | load (rd : Register) (page offset : UInt16)
  /-- Writes the word in `rs` to an offset of a page. -/
  | store (rs : Register) (page offset : UInt16)
  /-- Puts the value of an operation on `ra` and `rb` into `rd`. -/
  | alu (op : AluOp) (rd ra rb : Register)
  /-- Goes to the target. -/
  | jump (target : UInt32)
  /-- Goes to the target if `rs` holds zero. -/
  | branchZero (rs : Register) (target : UInt32)
  /-- Goes to the target unless `rs` holds zero. -/
  | branchNonZero (rs : Register) (target : UInt32)
  /-- Gives up the processor until the process is woken. -/
  | wait
  /-- Ends the program. -/
  | halt
  deriving DecidableEq

namespace Instruction

/-- Whether the instruction ends the program. -/
def isHalt : Instruction → Bool
  | halt => true
  | _ => false

/-- The text of a memory operand. -/
def operandText (page offset : UInt16) : String :=
  "[" ++ toString page ++ ":" ++ hexadecimal offset.toNat ++ "]"

/-- The text of an instruction. -/
def text : Instruction → String
  | nop => "nop"
  | loadImm rd imm => "loadi " ++ rd.text ++ ", " ++ hexadecimal imm.toNat
  | load rd page offset => "load " ++ rd.text ++ ", " ++ operandText page offset
  | store rs page offset => "store " ++ rs.text ++ ", " ++ operandText page offset
  | alu op rd ra rb => op.mnemonic ++ " " ++ rd.text ++ ", " ++ ra.text ++ ", " ++ rb.text
  | jump target => "jmp " ++ toString target
  | branchZero rs target => "beqz " ++ rs.text ++ ", " ++ toString target
  | branchNonZero rs target => "bnez " ++ rs.text ++ ", " ++ toString target
  | wait => "wait"
  | halt => "halt"

@[simp] theorem isHalt_eq_true_iff {i : Instruction} : i.isHalt = true ↔ i = halt := by
  cases i <;> simp [isHalt]

end Instruction

end Timeshare
