import Timeshare.Instruction.Codec
import Timeshare.Proofs.LittleEndian

/-!
# Reading one instruction

`Instruction.decode` reads exactly what `Instruction.encode` writes. An instruction is
found again in its bytes, whatever follows them (`decode_encode_append`), and what is
read was written that way (`eq_append_of_decode`). Both rest on the operands:
`assemble` finds an instruction in its own operand bytes, and in no others.
-/

namespace Timeshare

namespace LittleEndian

theorem uint16_ofBytes_bytes (value : UInt16) :
    UInt16.ofNat (ofBytes (bytes 2 value.toNat)) = value := by
  have hlt : value.toNat < 256 ^ 2 := value.toNat_lt
  rw [ofBytes_bytes, Nat.mod_eq_of_lt hlt]
  exact UInt16.ofNat_toNat

theorem uint32_ofBytes_bytes (value : UInt32) :
    UInt32.ofNat (ofBytes (bytes 4 value.toNat)) = value := by
  have hlt : value.toNat < 256 ^ 4 := value.toNat_lt
  rw [ofBytes_bytes, Nat.mod_eq_of_lt hlt]
  exact UInt32.ofNat_toNat

theorem bytes_uint16_ofBytes {l : List UInt8} (h : l.length = 2) :
    bytes 2 (UInt16.ofNat (ofBytes l)).toNat = l := by
  have hlt : ofBytes l < 2 ^ 16 := by
    have := ofBytes_lt l
    rwa [h] at this
  rw [UInt16.toNat_ofNat', Nat.mod_eq_of_lt hlt, ← h]
  exact bytes_ofBytes l

theorem bytes_uint32_ofBytes {l : List UInt8} (h : l.length = 4) :
    bytes 4 (UInt32.ofNat (ofBytes l)).toNat = l := by
  have hlt : ofBytes l < 2 ^ 32 := by
    have := ofBytes_lt l
    rwa [h] at this
  rw [UInt32.toNat_ofNat', Nat.mod_eq_of_lt hlt, ← h]
  exact bytes_ofBytes l

end LittleEndian

theorem Register.byte_of_ofByte {b : UInt8} {r : Register} (h : ofByte b = .ok r) : r.byte = b := by
  rw [ofByte] at h
  split at h
  next r' hr =>
    cases h
    rw [byte, ofNat?_eq_some_iff.1 hr]
    exact UInt8.ofNat_toNat
  next => cases h

namespace Instruction

variable {i j : Instruction} {op : Opcode} {operands bytes rest : List UInt8} {n : Nat}

/-! ## Operands -/

theorem length_operands (i : Instruction) : i.operands.length + 1 = i.opcode.size := by
  cases i <;> simp [Instruction.operands, opcode, Opcode.size]

theorem registerAt_zero (b : UInt8) (rest : List UInt8) :
    registerAt (b :: rest) 0 = Register.ofByte b :=
  rfl

theorem registerAt_succ (b : UInt8) (rest : List UInt8) (i : Nat) :
    registerAt (b :: rest) (i + 1) = registerAt rest i :=
  rfl

theorem wordAt_succ (b : UInt8) (rest : List UInt8) (i n : Nat) :
    wordAt (b :: rest) (i + 1) n = wordAt rest i n :=
  rfl

theorem wordAt_of_length {l : List UInt8} (h : l.length = n) :
    wordAt l 0 n = LittleEndian.ofBytes l := by
  rw [wordAt, List.drop_zero, List.take_of_length_le (Nat.le_of_eq h)]

theorem wordAt_append_left {l : List UInt8} (h : l.length = n) (rest : List UInt8) :
    wordAt (l ++ rest) 0 n = wordAt l 0 n := by
  rw [wordAt_of_length h, wordAt, List.drop_zero, List.take_left' h]

theorem wordAt_append_right {l : List UInt8} (h : l.length = n) (rest : List UInt8) (k : Nat) :
    wordAt (l ++ rest) n k = wordAt rest 0 k := by
  rw [wordAt, wordAt, List.drop_left' h, List.drop_zero]

/-- The word of four bytes at the start of operands that it fills. -/
theorem uint32_wordAt (value : UInt32) :
    UInt32.ofNat (wordAt (LittleEndian.bytes 4 value.toNat) 0 4) = value := by
  rw [wordAt_of_length (LittleEndian.length_bytes 4 _), LittleEndian.uint32_ofBytes_bytes]

theorem uint16_wordAt (value : UInt16) :
    UInt16.ofNat (wordAt (LittleEndian.bytes 2 value.toNat) 0 2) = value := by
  rw [wordAt_of_length (LittleEndian.length_bytes 2 _), LittleEndian.uint16_ofBytes_bytes]

theorem bytes_uint32_wordAt {l : List UInt8} (h : l.length = 4) :
    LittleEndian.bytes 4 (UInt32.ofNat (wordAt l 0 4)).toNat = l := by
  rw [wordAt_of_length h, LittleEndian.bytes_uint32_ofBytes h]

/-- Two words of two bytes, one after the other. -/
theorem bytes_uint16_wordAt {l : List UInt8} (h : l.length = 4) :
    LittleEndian.bytes 2 (UInt16.ofNat (wordAt l 0 2)).toNat ++
      LittleEndian.bytes 2 (UInt16.ofNat (wordAt l 2 2)).toNat = l := by
  have hfirst : (l.take 2).length = 2 := by simp [h]
  have hsecond : (l.drop 2).length = 2 := by simp [h]
  have hl : l = l.take 2 ++ l.drop 2 := (List.take_append_drop 2 l).symm
  rw [hl, wordAt_append_left hfirst, wordAt_append_right hfirst, wordAt_of_length hfirst,
    wordAt_of_length hsecond, LittleEndian.bytes_uint16_ofBytes hfirst,
    LittleEndian.bytes_uint16_ofBytes hsecond]

theorem assemble_operands (i : Instruction) : assemble i.opcode i.operands = .ok i := by
  cases i with
  | nop | wait | halt => rfl
  | loadImm | branchZero | branchNonZero =>
      simp [assemble, opcode, Instruction.operands, registerAt_zero, wordAt_succ, uint32_wordAt]
  | load rd page offset =>
      have hlength := LittleEndian.length_bytes 2 page.toNat
      simp [assemble, opcode, Instruction.operands, registerAt_zero, wordAt_succ,
        wordAt_append_left hlength, wordAt_append_right hlength, uint16_wordAt]
  | store rs page offset =>
      have hlength := LittleEndian.length_bytes 2 page.toNat
      simp [assemble, opcode, Instruction.operands, registerAt_zero, wordAt_succ,
        wordAt_append_left hlength, wordAt_append_right hlength, uint16_wordAt]
  | alu op rd ra rb =>
      simp only [assemble, opcode, Instruction.operands, registerAt_zero, registerAt_succ,
        Register.ofByte_byte]
      rfl
  | jump target => simp [assemble, opcode, Instruction.operands, uint32_wordAt]

/-- A register operand at the start of the operand bytes, and the operands after it. -/
theorem bind_registerAt_eq_ok {f : Register → Except DecodeFault Instruction}
    (h : (registerAt operands 0 >>= f) = .ok i) (hlength : operands.length = n + 1) :
    ∃ r rest, operands = r.byte :: rest ∧ rest.length = n ∧ f r = .ok i := by
  cases operands with
  | nil => cases hlength
  | cons b rest =>
      rw [registerAt_zero] at h
      cases hr : Register.ofByte b with
      | error e =>
          rw [hr] at h
          cases h
      | ok r =>
          rw [hr] at h
          exact ⟨r, rest, by rw [Register.byte_of_ofByte hr], by simpa using hlength, h⟩

/-- An instruction is assembled from its own operand bytes only. -/
theorem operands_of_assemble (hlength : operands.length + 1 = op.size)
    (h : assemble op operands = .ok i) : i.opcode = op ∧ i.operands = operands := by
  cases op with
  | nop | wait | halt =>
      cases h
      have hnil : operands = [] := by simpa [Opcode.size] using hlength
      exact ⟨rfl, hnil.symm⟩
  | loadImm | branchZero | branchNonZero =>
      obtain ⟨r, rest, rfl, hrest, h⟩ := bind_registerAt_eq_ok h (Nat.succ.inj hlength)
      cases h
      exact ⟨rfl, congrArg _ (bytes_uint32_wordAt hrest)⟩
  | load | store =>
      obtain ⟨r, rest, rfl, hrest, h⟩ := bind_registerAt_eq_ok h (Nat.succ.inj hlength)
      cases h
      exact ⟨rfl, congrArg _ (bytes_uint16_wordAt hrest)⟩
  | alu op =>
      obtain ⟨rd, rest, rfl, hrest, h⟩ := bind_registerAt_eq_ok h (Nat.succ.inj hlength)
      rw [registerAt_succ] at h
      obtain ⟨ra, rest, rfl, hrest, h⟩ := bind_registerAt_eq_ok h hrest
      rw [registerAt_succ, registerAt_succ] at h
      obtain ⟨rb, rest, rfl, hrest, h⟩ := bind_registerAt_eq_ok h hrest
      cases h
      exact ⟨rfl, by simp [Instruction.operands, List.length_eq_zero_iff.1 hrest]⟩
  | jump =>
      cases h
      exact ⟨rfl, bytes_uint32_wordAt (Nat.succ.inj hlength)⟩

/-! ## Instructions -/

theorem length_encode (i : Instruction) : i.encode.length = i.opcode.size :=
  length_operands i

/-- An instruction is found in its bytes, whatever follows them. -/
theorem decode_encode_append (i : Instruction) (rest : List UInt8) :
    decode (i.encode ++ rest) = .ok (i, i.encode.length) := by
  have hop : Opcode.ofByte? i.opcode.byte = some i.opcode := Opcode.ofByte?_eq_some_iff.2 rfl
  have hlength := length_operands i
  have htake : (i.operands ++ rest).take (i.opcode.size - 1) = i.operands :=
    List.take_left' (by omega)
  rw [encode, List.cons_append, decode, hop]
  simp [htake, hlength, assemble_operands, Except.map]

/-- What is read is assembled from the operand bytes after an opcode, all of which are
there. -/
theorem exists_assemble_of_decode {b : UInt8} (h : decode (b :: rest) = .ok (i, n)) :
    ∃ op : Opcode, op.byte = b ∧ n = op.size ∧ (rest.take (op.size - 1)).length + 1 = op.size ∧
      assemble op (rest.take (op.size - 1)) = .ok i := by
  rw [decode] at h
  cases hop : Opcode.ofByte? b with
  | none => simp [hop] at h
  | some op =>
      simp only [hop] at h
      split at h
      · cases h
      next hlong =>
        cases ha : assemble op (rest.take (op.size - 1)) with
        | error e => simp [ha, Except.map] at h
        | ok j =>
            simp only [ha, Except.map, Except.ok.injEq, Prod.mk.injEq] at h
            obtain ⟨rfl, rfl⟩ := h
            have hpos := op.size_pos
            have hle := List.length_take_le (op.size - 1) rest
            exact ⟨op, Opcode.ofByte?_eq_some_iff.1 hop, rfl, by omega, ha⟩

/-- The bytes of what is read are those of the instruction. -/
theorem eq_append_of_decode (h : decode bytes = .ok (i, n)) :
    bytes = i.encode ++ bytes.drop n ∧ n = i.encode.length := by
  cases bytes with
  | nil => cases h
  | cons b rest =>
      obtain ⟨op, hbyte, rfl, hlength, ha⟩ := exists_assemble_of_decode h
      obtain ⟨rfl, hoperands⟩ := operands_of_assemble hlength ha
      refine ⟨?_, (length_encode i).symm⟩
      have hdrop : (b :: rest).drop i.opcode.size = rest.drop (i.opcode.size - 1) := by
        rw [List.drop_cons i.opcode.size_pos]
      rw [hdrop, encode, hbyte, hoperands, List.cons_append, List.take_append_drop]

/-- Reading finds an instruction exactly where its bytes stand. -/
theorem decode_eq_ok_iff :
    decode bytes = .ok (i, n) ↔ n ≤ bytes.length ∧ bytes.take n = i.encode := by
  constructor
  · intro h
    obtain ⟨hbytes, rfl⟩ := eq_append_of_decode h
    constructor
    · rw [hbytes, List.length_append]
      exact Nat.le_add_right _ _
    · rw [hbytes, List.take_left]
  · rintro ⟨hn, htake⟩
    have hlength : i.encode.length = n := by rw [← htake, List.length_take, Nat.min_eq_left hn]
    rw [← List.take_append_drop n bytes, htake, decode_encode_append, hlength]

end Instruction

end Timeshare
