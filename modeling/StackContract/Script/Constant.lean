import StackContract.Script.Instruction
/-!
# Pushing constants

The shortest instructions that push an integer or a byte string. Integers from -1 to 16 have opcodes
of their own; others take the narrowest operand of 1, 2, 4, 8 or 16 bytes that holds them. Byte strings
take the narrowest length prefix of 1, 2 or 4 bytes.
-/

namespace StackContract.Script.Instruction

open Number

/-- The opcode with the narrowest operand for an integer of `length` significant bytes, and the width
of that operand. -/
def integerForm (length : Nat) : Opcode × Nat :=
  if length ≤ 1 then (.pushInt8, 1)
  else if length ≤ 2 then (.pushInt16, 2)
  else if length ≤ 4 then (.pushInt32, 4)
  else if length ≤ 8 then (.pushInt64, 8)
  else (.pushInt128, 16)

/-- The shortest instruction that pushes an integer. An operand that is wider than its shortest form is
filled up with the sign. -/
def pushInteger (v : Int128) : Instruction :=
  match Opcode.ofSmall? v.val with
  | some op => ⟨op, []⟩
  | none =>
    let bytes := v.minimalBytes
    let form := integerForm bytes.length
    let fill : UInt8 := if v.val < 0 then 255 else 0
    ⟨form.1, bytes.rightpad form.2 fill⟩

/-- The instruction that pushes a truth value. -/
def pushBoolean (b : Bool) : Instruction :=
  ⟨if b then .pushT else .pushF, []⟩

/-- The opcode with the narrowest length prefix for `length` bytes, and the width of that prefix. -/
def dataForm (length : Nat) : Opcode × Nat :=
  if length < 0x100 then (.pushData1, 1)
  else if length < 0x1_0000 then (.pushData2, 2)
  else (.pushData4, 4)

/-- The shortest instruction that pushes a byte string. -/
def pushData (data : List UInt8) : Instruction :=
  let form := dataForm data.length
  ⟨form.1, bytesOfNat form.2 data.length ++ data⟩

end StackContract.Script.Instruction
