/-!
# Hexadecimal numbers

Offsets, immediate values and opcodes are written in base sixteen with
lower-case digits and a leading `0x`.
-/

namespace Timeshare

/-- The shortest hexadecimal text of a number. -/
def hexadecimal (n : Nat) : String := "0x" ++ String.ofList (Nat.toDigits 16 n)

/-- The hexadecimal text of a byte, always with two digits. -/
def hexadecimalByte (b : UInt8) : String :=
  let digits := Nat.toDigits 16 b.toNat
  "0x" ++ String.ofList (List.replicate (2 - digits.length) '0' ++ digits)

end Timeshare
