import StackContract.Machine.Evaluation
/-!
# Byte strings

Instructions that build buffers from bytes. Every result is a new buffer.
-/

namespace StackContract.Machine

/-- An instruction on bytes. -/
inductive ByteOp
  | newBuffer | concatenate | slice | left | right
deriving DecidableEq, Repr

/-- The largest index: sums of indices stop there. -/
def maxIndex : Nat := 0xffff_ffff_ffff_ffff

/-- `count` bytes from `index` on. -/
def sliceOf (bytes : List UInt8) (index count : Nat) : Except Fault (List UInt8) :=
  if index + count ≤ bytes.length then .ok ((bytes.drop index).take count)
  else .error (.indexOutOfRange (min (index + count) maxIndex) bytes.length)

/-- Carries out an instruction on bytes. -/
def ByteOp.run : ByteOp → Eval Unit
  | .newBuffer => do Eval.pushBuffer (List.replicate (← Eval.popCount) 0)
  | .concatenate => do
    let b ← Eval.popBytes
    let a ← Eval.popBytes
    Eval.pushBuffer (a ++ b)
  | .slice => do
    let count ← Eval.popCount
    let index ← Eval.popCount
    let bytes ← Eval.popBytes
    Eval.pushBuffer (← Eval.orFault (sliceOf bytes index count))
  | .left => do
    let count ← Eval.popCount
    let bytes ← Eval.popBytes
    Eval.pushBuffer (← Eval.orFault (sliceOf bytes 0 count))
  | .right => do
    let count ← Eval.popCount
    let bytes ← Eval.popBytes
    if bytes.length < count then throw (.indexOutOfRange count bytes.length)
    Eval.pushBuffer (bytes.drop (bytes.length - count))

end StackContract.Machine
