/-!
# Little-endian words

A word of `n` bytes is stored with its least significant byte first. A list of bytes
survives being read and stored again (`bytes_ofBytes`).
-/

namespace Timeshare

namespace LittleEndian

/-- The `n` least significant bytes of `value`, least significant first. -/
def bytes : Nat → Nat → List UInt8
  | 0, _ => []
  | n + 1, value => UInt8.ofNat value :: bytes n (value / 256)

/-- The number whose bytes, least significant first, are given. -/
def ofBytes : List UInt8 → Nat
  | [] => 0
  | b :: rest => b.toNat + 256 * ofBytes rest

@[simp] theorem length_bytes (n value : Nat) : (bytes n value).length = n := by
  induction n generalizing value with
  | zero => rfl
  | succ n ih => simp [bytes, ih]

theorem bytes_ofBytes (l : List UInt8) : bytes l.length (ofBytes l) = l := by
  induction l with
  | nil => rfl
  | cons b rest ih =>
      have hb := b.toNat_lt
      have hdiv : (b.toNat + 256 * ofBytes rest) / 256 = ofBytes rest := by omega
      have hhead : UInt8.ofNat (b.toNat + 256 * ofBytes rest) = b := by
        apply UInt8.toNat_inj.1
        simp only [UInt8.toNat_ofNat']
        omega
      rw [ofBytes, List.length_cons, bytes, hdiv, ih, hhead]

end LittleEndian

end Timeshare
