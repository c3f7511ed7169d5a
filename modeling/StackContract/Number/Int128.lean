import StackContract.Number.LittleEndian
import StackContract.Number.Sqrt
/-!
# 128-bit integers

`Int128` is the integers from -2^127 up to 2^127 - 1. Arithmetic is that of `Int` and has no result
when the exact one lies outside; nothing wraps. The bitwise operations are those of two's complement.

* `ofInt?` decides the range, `ofInt?_eq_some_iff`;
* `minimalBytes`, `ofBytes?`: the shortest little-endian form and its reading.
-/

namespace StackContract.Number

/-- An integer that fits 128 bits of two's complement. -/
structure Int128 where
  val : Int
  lower : -0x8000_0000_0000_0000_0000_0000_0000_0000 ≤ val
  upper : val < 0x8000_0000_0000_0000_0000_0000_0000_0000
deriving DecidableEq, Repr

namespace Int128

@[ext] theorem ext {a b : Int128} (h : a.val = b.val) : a = b := by
  cases a; cases b; simp_all

/-- The integer as a 128-bit integer, if it is in range. -/
def ofInt? (v : Int) : Option Int128 :=
  if h : -0x8000_0000_0000_0000_0000_0000_0000_0000 ≤ v ∧
      v < 0x8000_0000_0000_0000_0000_0000_0000_0000 then some ⟨v, h.1, h.2⟩
  else none

theorem ofInt?_eq_some_iff {v : Int} {a : Int128} : ofInt? v = some a ↔ a.val = v := by
  have := a.lower
  have := a.upper
  rw [ofInt?]
  split
  · rw [Option.some.injEq]
    exact ⟨fun h => h ▸ rfl, fun h => ext h.symm⟩
  · constructor
    · intro h; simp at h
    · intro h; subst h; omega

theorem ofInt?_val (a : Int128) : ofInt? a.val = some a :=
  ofInt?_eq_some_iff.mpr rfl

/-- A natural number below 2^127. -/
def ofNat (n : Nat) (h : n < 0x8000_0000_0000_0000_0000_0000_0000_0000 := by decide) :
    Int128 :=
  ⟨n, by omega, by omega⟩

def zero : Int128 := ofNat 0
def one : Int128 := ofNat 1
def minusOne : Int128 := ⟨-1, by decide, by decide⟩

instance : Inhabited Int128 := ⟨zero⟩

/-- The integer of a 128-bit word. -/
def ofWord (w : BitVec 128) : Int128 :=
  ⟨w.toInt, by have := w.le_toInt; omega, by have := @BitVec.toInt_lt 128 w; omega⟩

/-- The 128-bit word of an integer. -/
def toWord (a : Int128) : BitVec 128 :=
  BitVec.ofInt 128 a.val

theorem ofWord_toWord (a : Int128) : ofWord a.toWord = a := by
  have h1 := a.lower
  have h2 := a.upper
  apply ext
  simp only [ofWord, toWord, BitVec.toInt_ofInt]
  exact Int.bmod_eq_of_le (by omega) (by omega)

/-! ## Arithmetic -/

/-- Negative one, zero or one by the sign. -/
def sign (a : Int128) : Int128 :=
  if a.val < 0 then minusOne else if a.val = 0 then zero else one

def abs? (a : Int128) : Option Int128 := ofInt? a.val.natAbs
def neg? (a : Int128) : Option Int128 := ofInt? (-a.val)
def add? (a b : Int128) : Option Int128 := ofInt? (a.val + b.val)
def sub? (a b : Int128) : Option Int128 := ofInt? (a.val - b.val)
def mul? (a b : Int128) : Option Int128 := ofInt? (a.val * b.val)

/-- The quotient rounded toward zero. -/
def quot? (a b : Int128) : Option Int128 := ofInt? (Int.tdiv a.val b.val)

/-- The remainder of `quot?`; like it, it has no value where the quotient is out of range. -/
def rem? (a b : Int128) : Option Int128 :=
  (quot? a b).bind fun _ => ofInt? (Int.tmod a.val b.val)

/-- A power with an exponent of at most 32 bits. A base of at least two in magnitude overflows
beyond the exponent 127, so that no larger power is ever formed. -/
def pow? (base exponent : Int128) : Option Int128 :=
  if exponent.val < 0 ∨ 0x1_0000_0000 ≤ exponent.val then none
  else if base.val.natAbs ≤ 1 then
    ofInt? (if exponent.val = 0 then 1 else if exponent.val % 2 = 0 then base.val * base.val
      else base.val)
  else if 127 < exponent.val then none
  else ofInt? (base.val.pow exponent.val.toNat)

/-- The integer square root of a number that is not negative. -/
def sqrt? (a : Int128) : Option Int128 :=
  if a.val < 0 then none else ofInt? (Number.sqrt a.val.toNat)

def min (a b : Int128) : Int128 := if b.val < a.val then b else a
def max (a b : Int128) : Int128 := if a.val < b.val then b else a

/-! ## Bits -/

def complement (a : Int128) : Int128 := ofWord (~~~a.toWord)
def and (a b : Int128) : Int128 := ofWord (a.toWord &&& b.toWord)
def or (a b : Int128) : Int128 := ofWord (a.toWord ||| b.toWord)
def xor (a b : Int128) : Int128 := ofWord (a.toWord ^^^ b.toWord)

/-- A left shift that loses no bit: shifting the word back gives the operand again. Counts from 127
up are refused unless the operand is zero. -/
def shiftLeft? (a count : Int128) : Option Int128 :=
  if count.val < 0 then none
  else if a.val = 0 ∨ count.val = 0 then some a
  else if 127 ≤ count.val then none
  else
    let shifted := a.toWord <<< count.val.toNat
    if shifted.sshiftRight count.val.toNat = a.toWord then some (ofWord shifted) else none

/-- An arithmetic right shift, by which every count from 128 up leaves only the sign. -/
def shiftRight? (a count : Int128) : Option Int128 :=
  if count.val < 0 then none
  else if 128 ≤ count.val then
    some (if a.val < 0 then minusOne else zero)
  else some (ofWord (a.toWord.sshiftRight count.val.toNat))

/-! ## Bytes -/

/-- A last byte is redundant when it only repeats the sign of the byte in front of it. -/
def isRedundant (previous last : UInt8) : Bool :=
  (last = 0 && previous < 128) || (last = 255 && 128 ≤ previous)

/-- Drops redundant bytes from the end, the bytes being given last one first. -/
def dropRedundant : List UInt8 → List UInt8
  | last :: previous :: rest =>
    if isRedundant previous last then dropRedundant (previous :: rest)
    else last :: previous :: rest
  | bytes => bytes

/-- The shortest little-endian two's-complement form. Zero is one zero byte. -/
def minimalBytes (a : Int128) : List UInt8 :=
  (dropRedundant (bytesOfInt 16 a.val).reverse).reverse

/-- The value of little-endian two's-complement bytes of any length, if it fits. Bytes from the
seventeenth on may only repeat the sign, and so must the top bit of the sixteenth. -/
def ofBytes? (bytes : List UInt8) : Option Int128 :=
  let negative := isNegative bytes
  let fill : UInt8 := if negative then 255 else 0
  if (bytes.drop 16).all (· = fill) then
    let word := bytes.take 16 ++ List.replicate (16 - bytes.length) fill
    let value := ofWord (BitVec.ofNat 128 (natOfBytes word))
    if (value.val < 0) = negative then some value else none
  else none

end Int128

end StackContract.Number
