import StackContract.Lowering.Call
import StackContract.Lowering.Comparison
import StackContract.Lowering.StringSwitch
/-!
# Lowering method bodies

`lower` gives the code for one source instruction and says how many instructions behind it that code
covers. `lowerBody` goes through a body in order and marks the source offset of every instruction it
lowers.
-/

namespace StackContract.Lowering

open Assembly Compile Script
open Source (Op Arithmetic Callee)

/-- The opcode of an arithmetic operation. Unsigned division and shifts are the signed ones. -/
def arithmeticOpcode : Arithmetic → Opcode
  | .add => .add
  | .sub => .sub
  | .mul => .mul
  | .div | .divUnsigned => .div
  | .rem | .remUnsigned => .mod
  | .neg => .negate
  | .complement => .invert
  | .and => .and
  | .or => .or
  | .xor => .xor
  | .shl => .shl
  | .shr | .shrUnsigned => .shr

/-- A call. -/
def lowerCall (scope : Scope) (position : Nat) (i : Source.Instruction) :
    Callee → Lower Lowered
  | .method name => do return .code (← callMethod scope i name)
  | .intrinsic .stringHash => lowerStringSwitch scope position i
  | .intrinsic .stringEquals => return .code [.op .equal]
  | .intrinsic .stringConcat => return .code [.op .cat, .convert .byteString]
  | .intrinsic .stringLength => return .code [.op .size]
  | .event => do return .code (← notify scope i)
  | .delegate args => return .code (Directive.reverse (args.toNat + 1) ++ [.op .callA])

/-- The code for the instruction at a position of the body. -/
def lower (scope : Scope) (position : Nat) (i : Source.Instruction) : Lower Lowered := do
  match i.op with
  | .nop | .convert _ | .isInstance _ | .castClass _ => return .code []
  | .pop => return .code [.op .drop]
  | .dup => return .code [.op .dup]
  | .ret => return .code [.op .ret]
  | .throw => return .code [.op .throw]
  | .loadNull => return .code [.op .pushNull]
  | .literal32 v => return lowerLiteral scope position (ofInt32 v) 32
  | .literal64 v => return lowerLiteral scope position (ofInt64 v) 64
  | .loadString s => return .code [.pushData (Text.utf8 s)]
  | .load place index => return .code [← scope.load i.offset place index]
  | .store place index =>
    return .code [.store (areaOf place) (← scope.slot i.offset place index)]
  | .address place index =>
    let slot ← scope.slot i.offset place index
    modify fun carry => { carry with addressOf := some (place, slot) }
    return .code [.load (areaOf place) slot]
  | .loadStatic field => lowerLoadStatic scope field
  | .storeStatic field => lowerStoreStatic scope field
  | .loadField index => return .code [.pushNat index.toNat, .op .pickItem]
  | .storeField index => return .code [.pushNat index.toNat, .op .swap, .op .setItem]
  | .newArray element => lowerNewArray scope position i.offset element
  | .length => return .code [.op .size]
  | .loadElement => return .code [.op .pickItem]
  | .storeElement => return .code [.op .setItem]
  | .newObject fields ctorArgs => lowerNewObject scope i fields ctorArgs
  | .initObject fields => lowerInitObject scope i fields
  | .branch condition target => return .code (lowerBranch condition target)
  | .switch targets => return .code (lowerSwitch targets)
  | .arithmetic operation => return .code [.op (arithmeticOpcode operation)]
  | .compare comparison => return lowerComparison scope position comparison
  | .call callee => lowerCall scope position i callee
  | .loadFunction name => lowerFunction scope position i name
  | .box type | .unbox type | .unboxAny type =>
    if type.isPrimitive then return .code [] else throw (scope.unsupported i)
  | .initArray _ | .newDelegate | .pointerOp _ => throw (scope.unsupported i)

/-- Lowers the body from a position on, behind the code in `done`. -/
def lowerFrom (scope : Scope) (position : Nat) (done : Array Directive) :
    Lower (Array Directive) := do
  if h : position < scope.body.size then
    let i := scope.body[position]
    let lowered ← lower scope position i
    lowerFrom scope (position + 1 + lowered.consumed)
      ((done.push (.mark i.offset)).appendList lowered.directives)
  else return done
termination_by scope.body.size - position

/-- The code of a whole body, behind a prologue. -/
def lowerBody (scope : Scope) (prologue : List Directive) : Except Error (List Directive) := do
  let (directives, _) ← (lowerFrom scope 0 prologue.toArray).run {}
  return directives.toList

end StackContract.Lowering
