import Timeshare.Instruction.Codec
import Timeshare.Journal

/-!
# Programs

A program is a sequence of instructions and the index at which it starts. A
program that is read from bytes starts at its first instruction and always ends
with a halt: one is appended when the bytes do not end with one, so no bytes at
all become a single halt.
-/

namespace Timeshare

/-- A sequence of instructions with the index of the one to start at. -/
structure Program where
  code : Array Instruction
  entry : Nat := 0
  deriving DecidableEq

namespace Program

/-- The program that runs the given instructions from the first one. -/
def ofList (code : List Instruction) : Program := { code := code.toArray }

/-- The same instructions started at another index. -/
def withEntry (p : Program) (entry : Nat) : Program := { p with entry }

/-- The number of instructions. -/
def size (p : Program) : Nat := p.code.size

/-- The instruction at an index, if there is one. -/
def get? (p : Program) (i : Nat) : Option Instruction := p.code[i]?

/-- The instructions in order. -/
def toList (p : Program) : List Instruction := p.code.toList

/-- The instructions with a halt after them unless they end with one. -/
def haltTerminated (code : List Instruction) : List Instruction :=
  if code.getLast? = some .halt then code else code ++ [.halt]

/-- The program that the bytes stand for. -/
def ofBytes (bytes : List UInt8) : Except TranslationError Program :=
  (Instruction.decodeAll 0 bytes).map fun code => ofList (haltTerminated code)

@[simp] theorem toList_ofList (code : List Instruction) : (ofList code).toList = code := rfl

theorem size_eq_length (p : Program) : p.size = p.toList.length := rfl

theorem get?_eq_some_iff {p : Program} {i : Nat} {instr : Instruction} :
    p.get? i = some instr ↔ p.toList[i]? = some instr := by
  simp [get?, toList]

theorem get?_eq_none_iff {p : Program} {i : Nat} : p.get? i = none ↔ p.size ≤ i := by
  simp [get?, size]

end Program

/-- The event of bytes that were read as a program. -/
def Event.translated (bytes : Nat) (program : Program) : Event where
  severity := .trace
  source := .translation
  text :=
    "translated " ++ toString bytes ++ " bytes into " ++ toString program.size ++ " instructions"

end Timeshare
