import Timeshare.Instruction.Opcode
import Timeshare.LittleEndian

/-!
# The byte form of instructions

An instruction is its opcode byte followed by its operands: registers are single
bytes, and pages, offsets, constants and targets are little-endian words.

`decode` reads the instruction at the start of a list of bytes and says how many
bytes it occupies. It checks in this order: there is a first byte, it is an
opcode, all bytes of the instruction are there, and every register operand, in
operand order, names a register. `decodeAll` reads a whole list of bytes as
instructions and refuses it at the offset of the first instruction that cannot
be read.
-/

namespace Timeshare

/-- Why no instruction can be read at the start of some bytes. -/
inductive DecodeFault
  | unknownOpcode (byte : UInt8)
  | truncated (needed available : Nat)
  | invalidRegister (index : UInt8)
  deriving DecidableEq

/-- The text of a decoding fault. -/
def DecodeFault.message : DecodeFault → String
  | unknownOpcode b => "unknown opcode " ++ hexadecimalByte b
  | truncated needed available =>
    s!"truncated operands: need {needed} bytes, {available} available"
  | invalidRegister index => s!"register r{index} out of range"

/-- A decoding fault at the offset of the instruction that could not be read. -/
structure TranslationError where
  offset : Nat
  fault : DecodeFault
  deriving DecidableEq

/-- The text of a translation error. -/
def TranslationError.message (e : TranslationError) : String :=
  "decoding error at byte offset " ++ toString e.offset ++ ": " ++ e.fault.message

namespace Register

/-- The byte of a register operand. -/
def byte (r : Register) : UInt8 := UInt8.ofNat r.val

/-- The register that a byte names. -/
def ofByte (b : UInt8) : Except DecodeFault Register :=
  match ofNat? b.toNat with
  | some r => .ok r
  | none => .error (.invalidRegister b)

@[simp] theorem ofByte_byte (r : Register) : ofByte r.byte = .ok r := by
  have h := r.isLt
  have : ofNat? r.byte.toNat = some r := by
    rw [ofNat?_eq_some_iff, byte, UInt8.toNat_ofNat']
    simp only [registerCount] at h
    omega
  rw [ofByte, this]

end Register

namespace Instruction

/-- The operand bytes of an instruction. -/
def operands : Instruction → List UInt8
  | nop | wait | halt => []
  | loadImm rd imm => rd.byte :: LittleEndian.bytes 4 imm.toNat
  | load rd page offset =>
    rd.byte :: (LittleEndian.bytes 2 page.toNat ++ LittleEndian.bytes 2 offset.toNat)
  | store rs page offset =>
    rs.byte :: (LittleEndian.bytes 2 page.toNat ++ LittleEndian.bytes 2 offset.toNat)
  | alu _ rd ra rb => [rd.byte, ra.byte, rb.byte]
  | jump target => LittleEndian.bytes 4 target.toNat
  | branchZero rs target => rs.byte :: LittleEndian.bytes 4 target.toNat
  | branchNonZero rs target => rs.byte :: LittleEndian.bytes 4 target.toNat

/-- The byte form of an instruction. -/
def encode (i : Instruction) : List UInt8 := i.opcode.byte :: i.operands

/-- The byte form of a list of instructions, one after another. -/
def encodeAll (code : List Instruction) : List UInt8 := code.flatMap encode

/-- The register at position `i` of the operand bytes. -/
def registerAt (operands : List UInt8) (i : Nat) : Except DecodeFault Register :=
  Register.ofByte (operands.getD i 0)

/-- The word of `n` bytes at position `i` of the operand bytes. -/
def wordAt (operands : List UInt8) (i n : Nat) : Nat :=
  LittleEndian.ofBytes ((operands.drop i).take n)

/-- The instruction with the given opcode and operand bytes. -/
def assemble (op : Opcode) (operands : List UInt8) : Except DecodeFault Instruction :=
  match op with
  | .nop => .ok nop
  | .wait => .ok wait
  | .halt => .ok halt
  | .loadImm => do
    let rd ← registerAt operands 0
    return loadImm rd (.ofNat (wordAt operands 1 4))
  | .load => do
    let rd ← registerAt operands 0
    return load rd (.ofNat (wordAt operands 1 2)) (.ofNat (wordAt operands 3 2))
  | .store => do
    let rs ← registerAt operands 0
    return store rs (.ofNat (wordAt operands 1 2)) (.ofNat (wordAt operands 3 2))
  | .alu op => do
    let rd ← registerAt operands 0
    let ra ← registerAt operands 1
    let rb ← registerAt operands 2
    return alu op rd ra rb
  | .jump => .ok (jump (.ofNat (wordAt operands 0 4)))
  | .branchZero => do
    let rs ← registerAt operands 0
    return branchZero rs (.ofNat (wordAt operands 1 4))
  | .branchNonZero => do
    let rs ← registerAt operands 0
    return branchNonZero rs (.ofNat (wordAt operands 1 4))

/-- The instruction at the start of `bytes`, and the number of bytes that it
occupies. -/
def decode (bytes : List UInt8) : Except DecodeFault (Instruction × Nat) :=
  match bytes with
  | [] => .error (.truncated 1 0)
  | b :: rest =>
    match Opcode.ofByte? b with
    | none => .error (.unknownOpcode b)
    | some op =>
      let operands := rest.take (op.size - 1)
      if operands.length + 1 < op.size then .error (.truncated op.size (operands.length + 1))
      else (assemble op operands).map (·, op.size)

/-- An instruction occupies at least one byte. -/
theorem size_pos_of_decode {bytes : List UInt8} {i : Instruction} {n : Nat}
    (h : decode bytes = .ok (i, n)) : 0 < n := by
  cases bytes with
  | nil => cases h
  | cons b rest =>
      rw [decode] at h
      cases hop : Opcode.ofByte? b with
      | none => simp [hop] at h
      | some op =>
          simp only [hop] at h
          split at h
          · cases h
          · cases ha : assemble op (rest.take (op.size - 1)) with
            | error e => simp [ha, Except.map] at h
            | ok j =>
                simp only [ha, Except.map, Except.ok.injEq, Prod.mk.injEq] at h
                exact h.2 ▸ op.size_pos

/-- The instructions that fill `bytes`, which start at the given offset of the
whole text. -/
def decodeAll (offset : Nat) (bytes : List UInt8) : Except TranslationError (List Instruction) :=
  match bytes with
  | [] => .ok []
  | b :: rest =>
    match _h : decode (b :: rest) with
    | .error fault => .error ⟨offset, fault⟩
    | .ok (i, n) => (decodeAll (offset + n) ((b :: rest).drop n)).map (i :: ·)
termination_by bytes.length
decreasing_by
  have := size_pos_of_decode _h
  simp only [List.length_drop, List.length_cons]
  omega

end Instruction

end Timeshare
