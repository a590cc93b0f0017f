import Mathlib.Algebra.Ring.Nat
import Timeshare.LittleEndian

/-!
# Storing and reading a word

A number survives being stored in `n` bytes and read again up to its remainder modulo
`256 ^ n`.
-/

namespace Timeshare

namespace LittleEndian

theorem ofBytes_bytes (n value : Nat) : ofBytes (bytes n value) = value % 256 ^ n := by
  induction n generalizing value with
  | zero => simp [bytes, ofBytes, Nat.mod_one]
  | succ n ih =>
      rw [bytes, ofBytes, ih, Nat.pow_succ, Nat.mul_comm (256 ^ n) 256, Nat.mod_mul]
      simp

theorem ofBytes_lt (l : List UInt8) : ofBytes l < 256 ^ l.length := by
  induction l with
  | nil => simp [ofBytes]
  | cons b rest ih =>
      have hb := b.toNat_lt
      rw [ofBytes, List.length_cons, Nat.pow_succ]
      omega

end LittleEndian

end Timeshare
