import StackContract.Machine.Fault
import StackContract.Text.Utf8
/-!
# Reading items

How an item reads as a truth value, an integer, bytes or text, and what conversion makes of it. Byte
strings of more than 32 bytes are neither numbers nor truth values. Zero has no bytes.
-/

namespace StackContract.Machine

open Number Script

/-- The most bytes that read as a number. -/
def maxIntegerBytes : Nat := 32

namespace Item

/-- The truth value of an item. Compounds are true whatever they hold. -/
def asBoolean : Item → Except Fault Bool
  | .null => .ok false
  | .boolean b => .ok b
  | .integer v => .ok (v.val ≠ 0)
  | .byteString bytes =>
    if maxIntegerBytes < bytes.length then
      .error ((Item.byteString bytes).invalid (.kind .boolean))
    else .ok (bytes.any (· ≠ 0))
  | _ => .ok true

/-- The integer that bytes denote, as the value of `item`. -/
def integerOfBytes (item : Item) (bytes : List UInt8) : Except Fault Int128 :=
  if maxIntegerBytes < bytes.length then .error (item.invalid (.kind .integer))
  else match Int128.ofBytes? bytes with
    | some v => .ok v
    | none => .error .overflow

/-- The integer that an item denotes. -/
def asInteger (heap : Heap) : Item → Except Fault Int128
  | .boolean b => .ok (if b then .one else .zero)
  | .integer v => .ok v
  | .byteString bytes => integerOfBytes (.byteString bytes) bytes
  | .buffer ref => integerOfBytes (.buffer ref) (heap.buffer ref).toList
  | item => .error (item.invalid (.kind .integer))

/-- The bytes of an item that is no compound other than a buffer. -/
def asBytes (heap : Heap) : Item → Except Fault (List UInt8)
  | .boolean b => .ok [if b then 1 else 0]
  | .integer v => .ok (if v.val = 0 then [] else v.minimalBytes)
  | .byteString bytes => .ok bytes
  | .buffer ref => .ok (heap.buffer ref).toList
  | item => .error (item.invalid (.kind .byteString))

/-- The text whose UTF-8 form an item holds. -/
def asText (heap : Heap) (item : Item) : Except Fault String := do
  match Text.ofUtf8? (← item.asBytes heap) with
  | some text => return text
  | none => throw (item.invalid .text)

/-- An index into something of the given length. -/
def asIndex (heap : Heap) (item : Item) (length : Nat) : Except Fault Nat := do
  let v ← item.asInteger heap
  if 0 ≤ v.val ∧ v.val < length then return v.val.toNat
  else throw (.indexOutOfRange v.val length)

/-- Whether an item is an index into something of the given length. Indices count modulo 2^64 once they
are not negative. -/
def isIndex (v : Int128) (length : Nat) : Bool :=
  0 ≤ v.val ∧ v.val % 0x1_0000_0000_0000_0000 < length

end Item

end StackContract.Machine
