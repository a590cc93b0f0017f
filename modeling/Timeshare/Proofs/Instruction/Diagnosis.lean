import Timeshare.Proofs.Instruction.Decode

/-!
# What is wrong with bytes that cannot be read

`Instruction.decode` checks that there is a first byte, that it is an opcode, that all bytes of
the instruction are there, and that the register operands name registers. `Diagnosed` has one
case for each of these checks, in which the ones before it have passed, and one for bytes that
pass them all; what is read is what it says (`decode_eq_iff`). Only a reading that was cut short
can change when more bytes arrive (`decode_append`).
-/

namespace Timeshare

namespace Opcode

/-- The number of register operands. They stand before all other operands. -/
def registers : Opcode → Nat
  | nop | jump | wait | halt => 0
  | loadImm | load | store | branchZero | branchNonZero => 1
  | alu _ => 3

theorem registers_lt_size (op : Opcode) : op.registers < op.size := by
  cases op <;> simp [registers, size]

theorem ofByte?_eq_none_iff {b : UInt8} : ofByte? b = none ↔ ∀ op : Opcode, op.byte ≠ b := by
  constructor
  · intro h op hop
    rw [ofByte?_eq_some_iff.2 hop] at h
    cases h
  · intro h
    cases hop : ofByte? b with
    | none => rfl
    | some op => exact absurd (ofByte?_eq_some_iff.1 hop) (h op)

end Opcode

namespace Register

variable {b : UInt8}

theorem ofByte_of_lt (h : b.toNat < registerCount) : ofByte b = .ok ⟨b.toNat, h⟩ := by
  rw [ofByte, ofNat?, dif_pos h]

theorem ofByte_of_le (h : registerCount ≤ b.toNat) : ofByte b = .error (.invalidRegister b) := by
  rw [ofByte, ofNat?, dif_neg (Nat.not_lt.2 h)]

end Register

namespace Instruction

variable {op : Opcode} {operands bytes rest : List UInt8} {b r : UInt8} {n : Nat}

/-! ## Register operands -/

/-- The first of `n` register operands that names no register. -/
def badRegister? (n : Nat) (operands : List UInt8) : Option UInt8 :=
  (operands.take n).find? fun b => registerCount ≤ b.toNat

theorem badRegister?_cons_of_le (h : registerCount ≤ b.toNat) :
    badRegister? (n + 1) (b :: rest) = some b := by
  rw [badRegister?, List.take_succ_cons, List.find?_cons_of_pos (by simpa using h)]

theorem badRegister?_cons_of_lt (h : b.toNat < registerCount) :
    badRegister? (n + 1) (b :: rest) = badRegister? n rest := by
  rw [badRegister?, List.take_succ_cons, List.find?_cons_of_neg (by simpa using h)]
  rfl

/-- What comes of `n` register operands: the first one that names no register is refused, and
there is an instruction if there is no such operand. -/
def Checked (n : Nat) (operands : List UInt8) (result : Except DecodeFault Instruction) : Prop :=
  (∃ r, badRegister? n operands = some r ∧ result = .error (.invalidRegister r)) ∨
    badRegister? n operands = none ∧ ∃ i, result = .ok i

theorem checked_ok (operands : List UInt8) (i : Instruction) : Checked 0 operands (.ok i) :=
  .inr ⟨rfl, i, rfl⟩

/-- One more operand is read before the others. -/
theorem checked_bind {f : Register → Except DecodeFault Instruction}
    (h : ∀ r, Checked n rest (f r)) (b : UInt8) :
    Checked (n + 1) (b :: rest) (registerAt (b :: rest) 0 >>= f) := by
  rw [registerAt_zero]
  obtain hb | hb := Nat.lt_or_ge b.toNat registerCount
  · rw [Register.ofByte_of_lt hb, Checked, badRegister?_cons_of_lt hb]
    exact h _
  · rw [Register.ofByte_of_le hb]
    exact .inl ⟨b, badRegister?_cons_of_le hb, rfl⟩

theorem checked_assemble (hlength : operands.length + 1 = op.size) :
    Checked op.registers operands (assemble op operands) := by
  have hcons {n : Nat} {operands : List UInt8} (h : operands.length = n + 1) :
      ∃ b rest, operands = b :: rest ∧ rest.length = n := by
    obtain ⟨b, rest, rfl⟩ := List.exists_cons_of_length_eq_add_one h
    exact ⟨b, rest, rfl, Nat.succ.inj h⟩
  cases op with
  | nop | jump | wait | halt => exact checked_ok ..
  | loadImm | load | store | branchZero | branchNonZero =>
      obtain ⟨b, rest, rfl, -⟩ := hcons (Nat.succ.inj hlength)
      exact checked_bind (fun r => checked_ok ..) b
  | alu op =>
      obtain ⟨b, rest, rfl, htwo⟩ := hcons (Nat.succ.inj hlength)
      refine checked_bind (fun rd => ?_) b
      rw [registerAt_succ]
      obtain ⟨b, rest, rfl, hone⟩ := hcons htwo
      refine checked_bind (fun ra => ?_) b
      rw [registerAt_succ, registerAt_succ]
      obtain ⟨b, rest, rfl, -⟩ := hcons hone
      exact checked_bind (fun rb => checked_ok ..) b

/-! ## One instruction -/

/-- What can come of reading an instruction, by the first check that fails. -/
inductive Diagnosed : List UInt8 → Except DecodeFault (Instruction × Nat) → Prop
  /-- There is no first byte. -/
  | empty : Diagnosed [] (.error (.truncated 1 0))
  /-- The first byte is no opcode. -/
  | unknown {b : UInt8} {rest : List UInt8} (hunknown : ∀ op : Opcode, op.byte ≠ b) :
      Diagnosed (b :: rest) (.error (.unknownOpcode b))
  /-- The bytes of the instruction are not all there. -/
  | short {op : Opcode} {rest : List UInt8} (hshort : rest.length + 1 < op.size) :
      Diagnosed (op.byte :: rest) (.error (.truncated op.size (rest.length + 1)))
  /-- A register operand names no register. -/
  | badRegister {op : Opcode} {rest : List UInt8} {r : UInt8}
      (hlong : op.size ≤ rest.length + 1) (hbad : badRegister? op.registers rest = some r) :
      Diagnosed (op.byte :: rest) (.error (.invalidRegister r))
  /-- There is an instruction. -/
  | whole {i : Instruction} {op : Opcode} {rest : List UInt8}
      (hlong : op.size ≤ rest.length + 1) (hgood : badRegister? op.registers rest = none)
      (hread : assemble op (rest.take (op.size - 1)) = .ok i) :
      Diagnosed (op.byte :: rest) (.ok (i, op.size))

theorem decode_cons_of_byte (op : Opcode) (rest : List UInt8) :
    decode (op.byte :: rest) =
      if rest.length + 1 < op.size then .error (.truncated op.size (rest.length + 1))
      else (assemble op (rest.take (op.size - 1))).map (·, op.size) := by
  have hpos := op.size_pos
  rw [decode, Opcode.ofByte?_eq_some_iff.2 rfl]
  simp only [List.length_take]
  split
  · rw [if_pos (by omega), Nat.min_eq_right (by omega)]
  · rw [if_neg (by omega)]

theorem checked_assemble_take (hlong : op.size ≤ rest.length + 1) :
    Checked op.registers rest (assemble op (rest.take (op.size - 1))) := by
  have hlt := op.registers_lt_size
  have hchecked : Checked op.registers (rest.take (op.size - 1)) _ :=
    checked_assemble (by rw [List.length_take]; omega)
  rw [Checked, badRegister?, List.take_take, Nat.min_eq_left (by omega)] at hchecked
  exact hchecked

theorem Diagnosed.decode_eq {x : Except DecodeFault (Instruction × Nat)}
    (h : Diagnosed bytes x) : decode bytes = x := by
  cases h with
  | empty => rfl
  | unknown hunknown => rw [decode, Opcode.ofByte?_eq_none_iff.2 hunknown]
  | short hshort => rw [decode_cons_of_byte, if_pos hshort]
  | badRegister hlong hbad =>
      rw [decode_cons_of_byte, if_neg (Nat.not_lt.2 hlong)]
      obtain ⟨r, hbad', hread⟩ | ⟨hgood, -⟩ := checked_assemble_take hlong
      · rw [hbad] at hbad'
        cases hbad'
        rw [hread]
        rfl
      · rw [hbad] at hgood
        cases hgood
  | whole hlong hgood hread =>
      rw [decode_cons_of_byte, if_neg (Nat.not_lt.2 hlong), hread]
      rfl

theorem diagnosed_decode (bytes : List UInt8) : Diagnosed bytes (decode bytes) := by
  cases bytes with
  | nil => exact .empty
  | cons b rest =>
      cases hop : Opcode.ofByte? b with
      | none =>
          have hunknown := Opcode.ofByte?_eq_none_iff.1 hop
          exact Diagnosed.decode_eq (.unknown hunknown) ▸ .unknown hunknown
      | some op =>
          obtain rfl := Opcode.ofByte?_eq_some_iff.1 hop
          obtain hshort | hlong := Nat.lt_or_ge (rest.length + 1) op.size
          · exact Diagnosed.decode_eq (.short hshort) ▸ .short hshort
          · obtain ⟨r, hbad, -⟩ | ⟨hgood, i, hread⟩ := checked_assemble_take hlong
            · exact Diagnosed.decode_eq (.badRegister hlong hbad) ▸ .badRegister hlong hbad
            · exact Diagnosed.decode_eq (.whole hlong hgood hread) ▸ .whole hlong hgood hread

theorem decode_eq_iff {x : Except DecodeFault (Instruction × Nat)} :
    decode bytes = x ↔ Diagnosed bytes x := by
  constructor
  · rintro rfl
    exact diagnosed_decode bytes
  · exact Diagnosed.decode_eq

/-! ## Each answer by itself -/

theorem decode_eq_unknownOpcode_iff :
    decode bytes = .error (.unknownOpcode b) ↔
      bytes.head? = some b ∧ ∀ op : Opcode, op.byte ≠ b := by
  rw [decode_eq_iff]
  constructor
  · rintro (_ | hunknown)
    exact ⟨rfl, hunknown⟩
  · rintro ⟨hhead, hunknown⟩
    obtain ⟨rest, rfl⟩ := List.head?_eq_some_iff.1 hhead
    exact .unknown hunknown

theorem decode_eq_truncated_iff {needed available : Nat} :
    decode bytes = .error (.truncated needed available) ↔
      bytes = [] ∧ needed = 1 ∧ available = 0 ∨
        ∃ op : Opcode, bytes.head? = some op.byte ∧ bytes.length < op.size ∧
          needed = op.size ∧ available = bytes.length := by
  rw [decode_eq_iff]
  constructor
  · rintro (_ | _ | hshort)
    · exact .inl ⟨rfl, rfl, rfl⟩
    · exact .inr ⟨_, rfl, hshort, rfl, rfl⟩
  · rintro (⟨rfl, rfl, rfl⟩ | ⟨op, hhead, hshort, rfl, rfl⟩)
    · exact .empty
    · obtain ⟨rest, rfl⟩ := List.head?_eq_some_iff.1 hhead
      exact .short hshort

theorem decode_eq_invalidRegister_iff :
    decode bytes = .error (.invalidRegister r) ↔
      ∃ op : Opcode, bytes.head? = some op.byte ∧ op.size ≤ bytes.length ∧
        badRegister? op.registers bytes.tail = some r := by
  rw [decode_eq_iff]
  constructor
  · rintro (_ | _ | _ | ⟨hlong, hbad⟩)
    exact ⟨_, rfl, hlong, hbad⟩
  · rintro ⟨op, hhead, hlong, hbad⟩
    obtain ⟨rest, rfl⟩ := List.head?_eq_some_iff.1 hhead
    exact .badRegister hlong hbad

theorem exists_decode_eq_ok_iff :
    (∃ i, decode bytes = .ok (i, n)) ↔
      ∃ op : Opcode, bytes.head? = some op.byte ∧ op.size ≤ bytes.length ∧
        badRegister? op.registers bytes.tail = none ∧ n = op.size := by
  constructor
  · rintro ⟨i, h⟩
    rw [decode_eq_iff] at h
    cases h with
    | whole hlong hgood hread => exact ⟨_, rfl, hlong, hgood, rfl⟩
  · rintro ⟨op, hhead, hlong, hgood, rfl⟩
    obtain ⟨rest, rfl⟩ := List.head?_eq_some_iff.1 hhead
    obtain ⟨r, hbad, -⟩ | ⟨-, i, hread⟩ := checked_assemble_take hlong
    · rw [List.tail_cons, hbad] at hgood
      cases hgood
    · exact ⟨i, Diagnosed.decode_eq (.whole hlong hgood hread)⟩

/-- More bytes change nothing, unless the reading was cut short. -/
theorem decode_append (h : ∀ needed available, decode bytes ≠ .error (.truncated needed available))
    (extra : List UInt8) : decode (bytes ++ extra) = decode bytes := by
  have htake {op : Opcode} {rest : List UInt8} (hlong : op.size ≤ rest.length + 1) :
      op.size ≤ (rest ++ extra).length + 1 ∧
        badRegister? op.registers (rest ++ extra) = badRegister? op.registers rest ∧
        (rest ++ extra).take (op.size - 1) = rest.take (op.size - 1) := by
    have hlt := op.registers_lt_size
    rw [List.length_append, badRegister?, badRegister?,
      List.take_append_of_le_length (by omega), List.take_append_of_le_length (by omega)]
    exact ⟨by omega, rfl, rfl⟩
  have hdiagnosed := diagnosed_decode bytes
  generalize decode bytes = x at h hdiagnosed
  rw [decode_eq_iff]
  cases hdiagnosed with
  | empty | short => exact absurd rfl (h _ _)
  | unknown hunknown => exact .unknown hunknown
  | badRegister hlong hbad =>
      obtain ⟨hlong', hregisters, -⟩ := htake hlong
      exact .badRegister hlong' (hregisters.trans hbad)
  | whole hlong hgood hread =>
      obtain ⟨hlong', hregisters, hoperands⟩ := htake hlong
      exact .whole hlong' (hregisters.trans hgood) (hoperands ▸ hread)

end Instruction

end Timeshare
