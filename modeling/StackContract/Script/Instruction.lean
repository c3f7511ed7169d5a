import StackContract.Number.Int128
import StackContract.Script.Opcode
import StackContract.Text.Digits
/-!
# Instructions

An instruction is an opcode and its operand; a script is the encodings of instructions one behind
the other. `decode` reads the instruction at an offset of a script, `disassemble` reads them all from
the front up to the first that cannot be read.

`fits` says which operands an opcode can have. It is what `decode` checks on the bytes it finds.
-/

namespace StackContract.Script

open Number

/-- An opcode and the bytes behind it, a length prefix included. -/
structure Instruction where
  opcode : Opcode
  operand : List UInt8 := []
deriving DecidableEq, Repr, Inhabited

/-- An instruction and the offset of its opcode in a script. -/
structure Located extends Instruction where
  offset : Nat
deriving DecidableEq, Repr

/-- Why no instruction can be read at an offset. -/
inductive DecodeError
  /-- The byte there is no opcode. Behind the end of the script it counts as zero. -/
  | unknownOpcode (offset : Nat) (byte : UInt8)
  /-- The script ends inside the operand. -/
  | truncated (offset : Nat) (opcode : Opcode)
deriving DecidableEq, Repr

def DecodeError.message : DecodeError → String
  | .unknownOpcode offset byte =>
    "unknown opcode 0x" ++ Text.hex2 byte.toNat ++ " at " ++ toString offset
  | .truncated offset opcode =>
    "truncated " ++ opcode.name ++ " operand at " ++ toString offset

namespace Instruction

/-- The number of bytes of an instruction. -/
def size (i : Instruction) : Nat :=
  1 + i.operand.length

/-- The bytes of an instruction in a script. -/
def encode (i : Instruction) : List UInt8 :=
  i.opcode.byte :: i.operand

theorem length_encode (i : Instruction) : i.encode.length = i.size := by
  simp [encode, size, Nat.add_comm]

theorem size_pos (i : Instruction) : 0 < i.size := by
  unfold size
  omega

/-- Whether the operand has the shape that the opcode prescribes. -/
def fits (i : Instruction) : Bool :=
  match i.opcode.operand with
  | .none => i.operand.isEmpty
  | .fixed size => i.operand.length = size
  | .prefixed width =>
    width ≤ i.operand.length ∧ natOfBytes (i.operand.take width) = i.operand.length - width

/-- The data behind a length prefix; the whole operand where there is none. -/
def data (i : Instruction) : List UInt8 :=
  match i.opcode.operand with
  | .prefixed width => i.operand.drop width
  | _ => i.operand

/-- The signed displacement that a relative operand holds. -/
def displacement? (i : Instruction) : Option Int :=
  if i.opcode.isRelative then some (signedOfBytes i.operand) else none

/-- The integer that an instruction pushes, if it pushes one that fits 128 bits. -/
def integer? (i : Instruction) : Option Int128 :=
  match i.opcode.small? with
  | some v => Int128.ofInt? v
  | none =>
    match i.opcode with
    | .pushInt8 | .pushInt16 | .pushInt32 | .pushInt64 | .pushInt128 | .pushInt256 =>
      Int128.ofBytes? i.operand
    | _ => none

end Instruction

namespace Located

/-- The offset of the instruction behind this one. -/
def next (i : Located) : Nat :=
  i.offset + i.size

/-- The offset that a relative operand leads to, unless that is in front of the script. -/
def target? (i : Located) : Option Nat :=
  i.displacement?.bind fun d => if 0 ≤ i.offset + d then some (i.offset + d).toNat else none

end Located

/-- The length of the operand of `opcode` whose first byte is at `start`; none where the script ends
within its length prefix. -/
def operandLength? (script : Array UInt8) (start : Nat) (opcode : Opcode) : Option Nat :=
  match opcode.operand with
  | .none => some 0
  | .fixed size => some size
  | .prefixed width =>
    if start + width ≤ script.size then
      some (width + natOfBytes (script.extract start (start + width)).toList)
    else none

/-- Reads the instruction at an offset. -/
def decode (script : Array UInt8) (offset : Nat) : Except DecodeError Located :=
  match script[offset]? with
  | none => .error (.unknownOpcode offset 0)
  | some byte =>
    match Opcode.ofByte? byte with
    | none => .error (.unknownOpcode offset byte)
    | some opcode =>
      match operandLength? script (offset + 1) opcode with
      | none => .error (.truncated offset opcode)
      | some length =>
        if offset + 1 + length ≤ script.size then
          .ok ⟨⟨opcode, (script.extract (offset + 1) (offset + 1 + length)).toList⟩, offset⟩
        else .error (.truncated offset opcode)

theorem Located.lt_next (i : Located) : i.offset < i.next := by
  simp only [next, Instruction.size]
  omega

theorem offset_of_decode {script : Array UInt8} {offset : Nat} {i : Located}
    (h : decode script offset = .ok i) : i.offset = offset := by
  simp only [decode] at h
  grind

/-- Reads instructions from `offset` on, behind those in `done`, until the script ends or one cannot
be read. -/
def disassembleFrom (script : Array UInt8) (offset : Nat) (done : Array Located) :
    Array Located × Option DecodeError :=
  if offset < script.size then
    match _h : decode script offset with
    | .error e => (done, some e)
    | .ok i => disassembleFrom script i.next (done.push i)
  else (done, none)
termination_by script.size - offset
decreasing_by
  have := i.lt_next
  have := offset_of_decode _h
  omega

/-- The instructions of a script, and the error that ends them if not all of it can be read. -/
def disassemble (script : Array UInt8) : Array Located × Option DecodeError :=
  disassembleFrom script 0 #[]

end StackContract.Script
