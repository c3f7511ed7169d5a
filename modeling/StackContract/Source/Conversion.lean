import StackContract.Number.Int128
/-!
# Numeric conversions

Conversions leave the value on the stack as it is, except that an unsigned conversion behind a literal
is folded into the literal by `reinterpret`.
-/

namespace StackContract.Source

open Number

/-- The target of a numeric conversion: signed or unsigned, by width in bytes, or machine sized. -/
inductive Conversion
  | i1 | i2 | i4 | i8 | u1 | u2 | u4 | u8 | i | u
deriving DecidableEq, Repr

namespace Conversion

def all : List Conversion :=
  [.i1, .i2, .i4, .i8, .u1, .u2, .u4, .u8, .i, .u]

def tag : Conversion → String
  | .i1 => "I1" | .i2 => "I2" | .i4 => "I4" | .i8 => "I8" | .u1 => "U1" | .u2 => "U2"
  | .u4 => "U4" | .u8 => "U8" | .i => "I" | .u => "U"

/-- The width in bits of an unsigned target. -/
def unsignedBits? : Conversion → Option Nat
  | .u1 => some 8
  | .u2 => some 16
  | .u4 => some 32
  | .u8 | .u => some 64
  | _ => none

/-- The low bits of a number in two's complement, read as unsigned. -/
def lowBits (v : Int128) (bits : Nat) (h : bits ≤ 64) : Int128 :=
  .ofNat (BitVec.ofInt bits v.val).toNat <| by
    have hbits : (BitVec.ofInt bits v.val).toNat < 0x1_0000_0000_0000_0000 :=
      Nat.lt_of_lt_of_le (BitVec.isLt _) (Nat.pow_le_pow_right (by decide) h)
    omega

theorem unsignedBits?_le {conversion : Conversion} {bits : Nat}
    (h : conversion.unsignedBits? = some bits) : bits ≤ 64 := by
  cases conversion <;> simp [unsignedBits?] at h <;> omega

/-- The value of a literal of `literalBits` bits behind a conversion: read as unsigned at its own
width, then cut to the width of the target. Signed conversions leave it as it is. -/
def reinterpret (conversion : Conversion) (v : Int128) (literalBits : Nat) : Int128 :=
  match h : conversion.unsignedBits? with
  | none => v
  | some bits =>
    lowBits v (min literalBits bits) (Nat.le_trans (Nat.min_le_right ..) (unsignedBits?_le h))

end Conversion

end StackContract.Source
