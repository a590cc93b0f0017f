import Timeshare.Program
import Timeshare.Proofs.Instruction.Decode

/-!
# Programs and their bytes

A list of bytes is read as instructions from its start on, for as long as there are
instructions to read (`decodeAll_cases`). What was written as instructions is read as the
same instructions, whatever follows it (`decodeAll_encodeAll_append`). So exactly the
written lists are read as a whole, and a list that is refused is refused behind its
longest written part (`Program.ofBytes_inverts_encodeAll`).
-/

namespace Timeshare

namespace Instruction

variable {code code' : List Instruction} {bytes rest : List UInt8} {offset : Nat}

@[simp] theorem encodeAll_nil : encodeAll [] = [] := rfl

theorem encodeAll_cons (i : Instruction) (code : List Instruction) :
    encodeAll (i :: code) = i.encode ++ encodeAll code :=
  rfl

theorem encodeAll_append (code code' : List Instruction) :
    encodeAll (code ++ code') = encodeAll code ++ encodeAll code' :=
  List.flatMap_append

theorem encodeAll_singleton (i : Instruction) : encodeAll [i] = i.encode := by
  rw [encodeAll_cons, encodeAll_nil, List.append_nil]

theorem decodeAll_of_decode_ok {i : Instruction} {n : Nat} (h : decode bytes = .ok (i, n)) :
    decodeAll offset bytes = (decodeAll (offset + n) (bytes.drop n)).map (i :: ·) := by
  cases bytes with
  | nil => cases h
  | cons b rest =>
      rw [decodeAll]
      split
      next fault herror =>
        rw [h] at herror
        cases herror
      next j k hok =>
        rw [h] at hok
        cases hok
        rfl

theorem decodeAll_of_decode_error {fault : DecodeFault} (hne : bytes ≠ [])
    (h : decode bytes = .error fault) : decodeAll offset bytes = .error ⟨offset, fault⟩ := by
  cases bytes with
  | nil => exact absurd rfl hne
  | cons b rest =>
      rw [decodeAll]
      split
      next fault' herror =>
        rw [h] at herror
        cases herror
        rfl
      next j k hok =>
        rw [h] at hok
        cases hok

/-- What was written as instructions is read as these instructions, and then the reading
goes on behind them. -/
theorem decodeAll_encodeAll_append (offset : Nat) (code : List Instruction)
    (rest : List UInt8) :
    decodeAll offset (encodeAll code ++ rest) =
      (decodeAll (offset + (encodeAll code).length) rest).map (code ++ ·) := by
  induction code generalizing offset with
  | nil =>
      rw [encodeAll_nil, List.nil_append, List.length_nil, Nat.add_zero]
      cases decodeAll offset rest <;> rfl
  | cons i code ih =>
      have hdecode := decode_encode_append i (encodeAll code ++ rest)
      rw [encodeAll_cons, List.append_assoc, decodeAll_of_decode_ok hdecode, List.drop_left, ih,
        List.length_append, Nat.add_assoc]
      cases decodeAll _ rest <;> rfl

theorem decodeAll_encodeAll (offset : Nat) (code : List Instruction) :
    decodeAll offset (encodeAll code) = .ok code := by
  have h := decodeAll_encodeAll_append offset code []
  rw [List.append_nil, decodeAll] at h
  rw [h, Except.map, List.append_nil]

/-- Two lists of instructions are never written as the same bytes. -/
theorem encodeAll_injective (h : encodeAll code = encodeAll code') : code = code' := by
  have hread := decodeAll_encodeAll 0 code
  rw [h, decodeAll_encodeAll] at hread
  cases hread
  rfl

/-- The instructions at the start of the bytes are all of them, or the reading fails
behind them. -/
theorem decodeAll_cases (offset : Nat) (bytes : List UInt8) : ∃ code rest,
    bytes = encodeAll code ++ rest ∧
      (rest = [] ∧ decodeAll offset bytes = .ok code ∨
        ∃ fault, rest ≠ [] ∧ decode rest = .error fault ∧
          decodeAll offset bytes = .error ⟨offset + (encodeAll code).length, fault⟩) := by
  induction offset, bytes using decodeAll.induct with
  | case1 offset => exact ⟨[], [], rfl, .inl ⟨rfl, by rw [decodeAll]⟩⟩
  | case2 offset b tail fault h =>
      have hne : b :: tail ≠ [] := List.cons_ne_nil b tail
      exact ⟨[], b :: tail, rfl, .inr ⟨fault, hne, h, decodeAll_of_decode_error hne h⟩⟩
  | case3 offset b tail i n h ih =>
      obtain ⟨hbytes, rfl⟩ := eq_append_of_decode h
      obtain ⟨code, rest, hdrop, hcases⟩ := ih
      refine ⟨i :: code, rest, ?_, ?_⟩
      · rw [encodeAll_cons, List.append_assoc, ← hdrop]
        exact hbytes
      rw [decodeAll_of_decode_ok h]
      obtain ⟨hrest, hok⟩ | ⟨fault, hrest, hfault, herror⟩ := hcases
      · rw [hok]
        exact .inl ⟨hrest, rfl⟩
      · rw [herror, encodeAll_cons, List.length_append, ← Nat.add_assoc]
        exact .inr ⟨fault, hrest, hfault, rfl⟩

theorem decodeAll_eq_ok_iff : decodeAll offset bytes = .ok code ↔ encodeAll code = bytes := by
  constructor
  · intro h
    obtain ⟨code', rest, hbytes, ⟨rfl, hok⟩ | ⟨fault, -, -, herror⟩⟩ := decodeAll_cases offset bytes
    · rw [h] at hok
      cases hok
      rw [hbytes, List.append_nil]
    · rw [h] at herror
      cases herror
  · rintro rfl
    exact decodeAll_encodeAll offset code

/-- The reading fails behind the longest part of the bytes that was written as
instructions. -/
theorem le_of_decodeAll_error {e : TranslationError} (h : decodeAll offset bytes = .error e)
    (hpart : encodeAll code <+: bytes) : offset + (encodeAll code).length ≤ e.offset := by
  obtain ⟨rest, rfl⟩ := hpart
  rw [decodeAll_encodeAll_append] at h
  obtain ⟨code', rest', hrest, ⟨-, hok⟩ | ⟨fault, -, -, herror⟩⟩ :=
    decodeAll_cases (offset + (encodeAll code).length) rest
  · rw [hok] at h
    cases h
  · rw [herror] at h
    cases h
    exact Nat.le_add_right _ _

end Instruction

namespace Program

open Instruction

variable {bytes : List UInt8}

theorem ofBytes_encodeAll (code : List Instruction) :
    ofBytes (encodeAll code) = .ok (ofList (haltTerminated code)) := by
  rw [ofBytes, decodeAll_encodeAll]
  rfl

theorem ofBytes_eq_error_iff {e : TranslationError} :
    ofBytes bytes = .error e ↔ decodeAll 0 bytes = .error e := by
  rw [ofBytes]
  cases decodeAll 0 bytes <;> simp [Except.map]

theorem exists_ofBytes_iff :
    (∃ program, ofBytes bytes = .ok program) ↔ ∃ code, encodeAll code = bytes := by
  constructor
  · rintro ⟨program, h⟩
    rw [ofBytes] at h
    cases hread : decodeAll 0 bytes with
    | error e =>
        rw [hread] at h
        cases h
    | ok code => exact ⟨code, decodeAll_eq_ok_iff.1 hread⟩
  · rintro ⟨code, rfl⟩
    exact ⟨_, ofBytes_encodeAll code⟩

/-- Bytes are read as a program exactly if they are the byte form of a list of
instructions, which is then the only such list. The program starts at its first
instruction and is that list, with a halt after it unless it ends with one. Bytes
that are refused are refused behind their longest part that is such a byte form, for
the reason for which no instruction can be read there. A single instruction is read
exactly from its own byte form. -/
theorem ofBytes_inverts_encodeAll (bytes : List UInt8) :
    ((∃ program, ofBytes bytes = .ok program) ↔ ∃ code, encodeAll code = bytes) ∧
    (∀ code code', encodeAll code = bytes → encodeAll code' = bytes → code = code') ∧
    (∀ code, encodeAll code = bytes → ∃ program, ofBytes bytes = .ok program ∧
      program.entry = 0 ∧
      (code.getLast? = some .halt →
        program.toList = code ∧ encodeAll program.toList = bytes) ∧
      (code.getLast? ≠ some .halt →
        program.toList = code ++ [.halt] ∧ encodeAll program.toList = bytes ++ [0xff])) ∧
    (∀ offset fault, ofBytes bytes = .error ⟨offset, fault⟩ →
      offset ≤ bytes.length ∧ (∃ code, encodeAll code = bytes.take offset) ∧
      (∀ code, encodeAll code <+: bytes → (encodeAll code).length ≤ offset) ∧
      decode (bytes.drop offset) = .error fault) ∧
    (∀ i n, decode bytes = .ok (i, n) ↔ n ≤ bytes.length ∧ bytes.take n = encodeAll [i]) := by
  refine ⟨exists_ofBytes_iff, ?_, ?_, ?_, ?_⟩
  · intro code code' h h'
    exact encodeAll_injective (h.trans h'.symm)
  · rintro code rfl
    refine ⟨_, ofBytes_encodeAll code, rfl, fun hhalt => ?_, fun hhalt => ?_⟩
    · rw [toList_ofList, haltTerminated, if_pos hhalt]
      exact ⟨rfl, rfl⟩
    · rw [toList_ofList, haltTerminated, if_neg hhalt, encodeAll_append]
      exact ⟨rfl, rfl⟩
  · intro offset fault h
    rw [ofBytes_eq_error_iff] at h
    have hlongest : ∀ code, encodeAll code <+: bytes → (encodeAll code).length ≤ offset := by
      intro code hpart
      simpa using le_of_decodeAll_error h hpart
    obtain ⟨code, rest, rfl, ⟨-, hok⟩ | ⟨fault', -, hfault, herror⟩⟩ := decodeAll_cases 0 bytes
    · rw [hok] at h
      cases h
    · rw [herror, Nat.zero_add] at h
      cases h
      rw [List.take_left, List.drop_left, List.length_append]
      exact ⟨Nat.le_add_right _ _, ⟨code, rfl⟩, hlongest, hfault⟩
  · intro i n
    rw [encodeAll_singleton]
    exact decode_eq_ok_iff

/-- A stream that is cut in the middle of a jump. -/
example : ofBytes [0x00, 0x20, 0x01] = .error ⟨1, .truncated 5 2⟩ := by
  decide +kernel

end Program

end Timeshare
