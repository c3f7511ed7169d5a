/-!
# Little-endian numbers

A list of bytes read with the least significant byte first, as a natural number (`natOfBytes`) or
in two's complement (`signedOfBytes`), and the bytes of a number at a fixed width.
-/

namespace StackContract.Number

/-- The value of bytes whose first is the least significant. -/
def natOfBytes : List UInt8 → Nat
  | [] => 0
  | b :: rest => b.toNat + 256 * natOfBytes rest

/-- Whether the last byte has its top bit set. -/
def isNegative (bytes : List UInt8) : Bool :=
  match bytes.getLast? with
  | none => false
  | some b => 128 ≤ b.toNat

/-- The two's-complement value of bytes whose first is the least significant: the last byte carries the
sign. No bytes are zero. -/
def signedOfBytes : List UInt8 → Int
  | [] => 0
  | [last] => last.toInt8.toInt
  | b :: next :: rest => b.toNat + 256 * signedOfBytes (next :: rest)

/-- The `width` low bytes of `n`, least significant first. -/
def bytesOfNat : Nat → Nat → List UInt8
  | 0, _ => []
  | width + 1, n => UInt8.ofNat n :: bytesOfNat width (n / 256)

/-- The `width` low bytes of `v` in two's complement, least significant first. -/
def bytesOfInt : Nat → Int → List UInt8
  | 0, _ => []
  | width + 1, v => UInt8.ofNat (v % 256).toNat :: bytesOfInt width (v / 256)

theorem length_bytesOfNat (width n : Nat) : (bytesOfNat width n).length = width := by
  induction width generalizing n with
  | zero => rfl
  | succ width ih => simp [bytesOfNat, ih]

theorem length_bytesOfInt (width : Nat) (v : Int) : (bytesOfInt width v).length = width := by
  induction width generalizing v with
  | zero => rfl
  | succ width ih => simp [bytesOfInt, ih]

end StackContract.Number
