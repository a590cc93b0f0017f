import Timeshare.Proofs.Capacity
import Timeshare.Proofs.Instruction.Diagnosis
import Timeshare.Proofs.Program.Bytes

/-!
# Bytes that are cut off

Written instructions that are cut off after some bytes are read up to the cut. If the cut stands
between two instructions, the ones before it are the program; if it stands inside of one, that
instruction is reported as cut short, at its first byte (`Program.ofBytes_diagnoses_cuts`).
-/

namespace Timeshare

namespace Instruction

variable {code front rest : List Instruction} {next : Instruction} {k : Nat}

/-- The longest of the prefixes of `code` that are written in at most `k` bytes. -/
structure LongestWithin (k : Nat) (code front : List Instruction) : Prop where
  isPrefix : front <+: code
  fits : (encodeAll front).length ≤ k
  longest : ∀ other, other <+: code → (encodeAll other).length ≤ k → other.length ≤ front.length

theorem length_encodeAll (code : List Instruction) :
    (encodeAll code).length = Capacity.total (·.encode.length) code := by
  induction code with
  | nil => rfl
  | cons i code ih => rw [encodeAll_cons, List.length_append, ih, Capacity.total_cons]

theorem longestWithin_fit (k : Nat) (code : List Instruction) :
    LongestWithin k code (Capacity.fit (·.encode.length) k code) where
  isPrefix := Capacity.fit_isPrefix ..
  fits := by
    rw [length_encodeAll]
    exact Capacity.total_fit_le ..
  longest other hother hfits := by
    rw [length_encodeAll] at hfits
    exact (Capacity.prefix_fit_iff.2 ⟨hother, hfits⟩).length_le

theorem LongestWithin.eq_fit (h : LongestWithin k code front) :
    front = Capacity.fit (·.encode.length) k code := by
  have hfits := h.fits
  rw [length_encodeAll] at hfits
  have hfit := longestWithin_fit k code
  exact (Capacity.prefix_fit_iff.2 ⟨h.isPrefix, hfits⟩).eq_of_length_le
    (h.longest _ hfit.isPrefix hfit.fits)

/-- Behind a cut that does not stand right after the longest prefix there is an instruction that
reaches beyond it. -/
theorem LongestWithin.exists_next (h : LongestWithin k code front)
    (hk : k ≤ (encodeAll code).length) (hlt : (encodeAll front).length < k) :
    ∃ next rest, code = front ++ next :: rest ∧
      k < (encodeAll front).length + next.encode.length := by
  obtain ⟨tail, rfl⟩ := h.isPrefix
  cases tail with
  | nil =>
      rw [List.append_nil] at hk
      omega
  | cons next rest =>
      have hfit := h.eq_fit
      have hnext := Capacity.lt_of_fit_append (congrArg (· ++ next :: rest) hfit.symm)
      rw [← hfit, ← length_encodeAll] at hnext
      exact ⟨next, rest, rfl, hnext⟩

/-- The first bytes of an instruction, but not all of them. -/
theorem decode_take_encode (hpos : 0 < k) (hk : k < next.encode.length) :
    decode (next.encode.take k) = .error (.truncated next.encode.length k) := by
  obtain ⟨n, rfl⟩ := Nat.exists_eq_add_one_of_ne_zero (Nat.pos_iff_ne_zero.1 hpos)
  rw [length_encode] at hk ⊢
  have hoperands := next.length_operands
  have hlength : (next.operands.take n).length = n := by
    rw [List.length_take]
    omega
  have hshort : (next.operands.take n).length + 1 < next.opcode.size := by rwa [hlength]
  rw [encode, List.take_succ_cons, (Diagnosed.short hshort).decode_eq, hlength]

theorem take_encodeAll (hle : (encodeAll front).length ≤ k)
    (hlt : k ≤ (encodeAll front).length + next.encode.length) :
    (encodeAll (front ++ next :: rest)).take k =
      encodeAll front ++ next.encode.take (k - (encodeAll front).length) := by
  rw [encodeAll_append, encodeAll_cons, List.take_append, List.take_of_length_le hle,
    List.take_append_of_le_length (by omega)]

end Instruction

namespace Program

open Instruction

variable {code front : List Instruction} {k : Nat}

/-- A cut between two instructions. -/
theorem ofBytes_cut_between (h : LongestWithin k code front)
    (hk : (encodeAll front).length = k) :
    ofBytes ((encodeAll code).take k) = .ok (ofList (haltTerminated front)) := by
  obtain ⟨rest, rfl⟩ := h.isPrefix
  rw [encodeAll_append, List.take_left' hk]
  exact ofBytes_encodeAll front

/-- A cut inside of an instruction. -/
theorem ofBytes_cut_inside {next : Instruction} {rest : List Instruction}
    (hlt : (encodeAll front).length < k)
    (hnext : k < (encodeAll front).length + next.encode.length) :
    ofBytes ((encodeAll (front ++ next :: rest)).take k) =
      .error ⟨(encodeAll front).length,
        .truncated next.encode.length (k - (encodeAll front).length)⟩ := by
  have hdecode : decode (next.encode.take (k - (encodeAll front).length)) = _ :=
    decode_take_encode (by omega) (by omega)
  have hne : next.encode.take (k - (encodeAll front).length) ≠ [] := by
    apply List.ne_nil_of_length_pos
    rw [List.length_take]
    omega
  rw [ofBytes_eq_error_iff, take_encodeAll (Nat.le_of_lt hlt) (Nat.le_of_lt hnext),
    decodeAll_encodeAll_append, decodeAll_of_decode_error hne hdecode, Nat.zero_add]
  rfl

/-- A list of instructions that is cut off after `k` bytes of its byte form is read up to the
last instruction that ends there or before. If it ends there, the program is what was read, with
a halt after it unless it ends with one. Otherwise the next instruction is reported, at its
first byte, with the bytes that it needs and those that are there.

Of any bytes, the first of these that applies is reported: there are none, the first one is no
opcode, they are fewer than its instruction needs, a register operand names no register. If
none applies, an instruction is read. Bytes that follow make a difference only to a reading
that was cut short. -/
theorem ofBytes_diagnoses_cuts (code : List Instruction) (k : Nat)
    (hk : k ≤ (encodeAll code).length) :
    ((∃ front, LongestWithin k code front) ∧
      ∀ front, LongestWithin k code front →
        ((encodeAll front).length = k →
          ∃ program, ofBytes ((encodeAll code).take k) = .ok program ∧ program.entry = 0 ∧
            (front.getLast? = some .halt → program.toList = front) ∧
            (front.getLast? ≠ some .halt → program.toList = front ++ [.halt])) ∧
        ((encodeAll front).length < k →
          ∃ next rest, code = front ++ next :: rest ∧
            ofBytes ((encodeAll code).take k) =
              .error ⟨(encodeAll front).length,
                .truncated next.encode.length (k - (encodeAll front).length)⟩)) ∧
    ∀ bytes : List UInt8,
      (decode bytes = .error (.truncated 1 0) ↔ bytes = []) ∧
      (∀ b, decode bytes = .error (.unknownOpcode b) ↔
        bytes.head? = some b ∧ ∀ op : Opcode, op.byte ≠ b) ∧
      (∀ needed available, bytes ≠ [] →
        (decode bytes = .error (.truncated needed available) ↔
          ∃ op : Opcode, bytes.head? = some op.byte ∧ bytes.length < op.size ∧
            needed = op.size ∧ available = bytes.length)) ∧
      (∀ r, decode bytes = .error (.invalidRegister r) ↔
        ∃ op : Opcode, bytes.head? = some op.byte ∧ op.size ≤ bytes.length ∧
          badRegister? op.registers bytes.tail = some r) ∧
      (∀ n, (∃ i, decode bytes = .ok (i, n)) ↔
        ∃ op : Opcode, bytes.head? = some op.byte ∧ op.size ≤ bytes.length ∧
          badRegister? op.registers bytes.tail = none ∧ n = op.size) ∧
      ∀ extra, (∀ needed available, decode bytes ≠ .error (.truncated needed available)) →
        decode (bytes ++ extra) = decode bytes := by
  refine ⟨⟨⟨_, longestWithin_fit k code⟩, fun front hfront => ⟨fun hbetween => ?_, fun hlt => ?_⟩⟩,
    fun bytes => ⟨?_, fun b => decode_eq_unknownOpcode_iff, ?_,
      fun r => decode_eq_invalidRegister_iff, fun n => exists_decode_eq_ok_iff,
      fun extra h => decode_append h extra⟩⟩
  · refine ⟨_, ofBytes_cut_between hfront hbetween, rfl, fun hhalt => ?_, fun hhalt => ?_⟩
    · rw [toList_ofList, haltTerminated, if_pos hhalt]
    · rw [toList_ofList, haltTerminated, if_neg hhalt]
  · obtain ⟨next, rest, rfl, hnext⟩ := hfront.exists_next hk hlt
    exact ⟨next, rest, rfl, ofBytes_cut_inside hlt hnext⟩
  · rw [decode_eq_truncated_iff]
    constructor
    · rintro (⟨hnil, -, -⟩ | ⟨op, -, hshort, hone, -⟩)
      · exact hnil
      · rw [← hone] at hshort
        exact List.length_eq_zero_iff.1 (Nat.lt_one_iff.1 hshort)
    · rintro rfl
      exact .inl ⟨rfl, rfl, rfl⟩
  · intro needed available hne
    rw [decode_eq_truncated_iff]
    exact or_iff_right fun hnil => hne hnil.1

/-- A stream of three instructions that is cut off in the middle of the second one. -/
theorem ofBytes_diagnoses_cuts_of_short_jump :
    let code : List Instruction := [.nop, .jump 258, .halt]
    3 ≤ (encodeAll code).length ∧ LongestWithin 3 code [.nop] ∧
      ofBytes ((encodeAll code).take 3) = .error ⟨1, .truncated 5 2⟩ ∧
      decode [0x10, 0x08, 0x09, 0x00] = .error (.invalidRegister 0x08) ∧
      decode ([0x10, 0x08, 0x09, 0x00] ++ [0xff]) = .error (.invalidRegister 0x08) := by
  intro code
  have hk : 3 ≤ (encodeAll code).length := by decide
  have hfront : LongestWithin 3 code [.nop] := longestWithin_fit 3 code
  obtain ⟨⟨-, hcuts⟩, hdecode⟩ := ofBytes_diagnoses_cuts code 3 hk
  obtain ⟨next, rest, hcode, hread⟩ := (hcuts [.nop] hfront).2 (by decide)
  have hnext : next = .jump 258 := by
    simp only [code, List.cons_append, List.nil_append, List.cons.injEq] at hcode
    exact hcode.2.1.symm
  obtain ⟨-, -, -, hregister, -, happend⟩ := hdecode [0x10, 0x08, 0x09, 0x00]
  have hbad : decode [0x10, 0x08, 0x09, 0x00] = .error (.invalidRegister 0x08) :=
    (hregister 0x08).2 ⟨.alu .add, rfl, by decide, by decide⟩
  refine ⟨hk, hfront, ?_, hbad, ?_⟩
  · rw [hread, hnext]
    rfl
  · rw [happend [0xff] (by simp [hbad]), hbad]

end Program

end Timeshare
