import StackContract.Assembly.Body
import StackContract.Script.Hash
/-!
# Compilation errors

The causes for which a module is refused, and their wording. The first error ends a compilation.
-/

namespace StackContract.Compile

open Script
open Source (ValueType Op FieldRef offsetText)

/-- Why the initializer of a readonly static field is no constant. -/
inductive FoldProblem
  | stackUnderflow
  | extraValues
  | notConstant (op : Op)
  | expectedInteger | expectedString | expectedArray
  | negativeLength (length : Int)
  | elementType (type : ValueType)
  | dataLength (data array : Nat)
  | rawStrings
  | byteRange (v : Int)
  | indexRange (index : Int)
  | elementMismatch
  | unassigned (index : Nat)
  | resultType (type : ValueType)
  | noInitializer

def FoldProblem.message : FoldProblem → String
  | .stackUnderflow => "stack underflow"
  | .extraValues => "initializer leaves extra values on the stack"
  | .notConstant op => "\x60" ++ op.text ++ "\x60 is not a constant expression"
  | .expectedInteger => "expected an integer"
  | .expectedString => "expected a string"
  | .expectedArray => "expected an array"
  | .negativeLength length => "negative array length " ++ toString length
  | .elementType type => "arrays of " ++ type.text ++ " are not foldable"
  | .dataLength data array =>
    "initializer of " ++ toString data ++ " bytes for an array of " ++ toString array
  | .rawStrings => "raw initializer for a string array"
  | .byteRange v => toString v ++ " does not fit in a byte"
  | .indexRange index => "index " ++ toString index ++ " out of range"
  | .elementMismatch => "array element of the wrong type"
  | .unassigned index => "element " ++ toString index ++ " is never assigned"
  | .resultType type => type.text ++ " is not foldable"
  | .noInitializer => "no constant initializer"

/-- Why a call has no lowering. -/
inductive CallProblem
  | unknownMethod
  | badHash (error : HashError)
  | unknownOpcode (byte : UInt8)
  | malformedOperand (opcode : Opcode)
  | noBody
  | noBodyToPointTo
  | noEvent

def CallProblem.message : CallProblem → String
  | .unknownMethod => "unknown method"
  | .badHash error => "bad contract hash: " ++ error.message
  | .unknownOpcode byte => "unknown opcode 0x" ++ Text.hex2 byte.toNat
  | .malformedOperand opcode => "malformed operand for " ++ opcode.name
  | .noBody => "constructors, accessors and synthesized methods have no body"
  | .noBodyToPointTo => "function pointer to a method with no body"
  | .noEvent => "no event field loaded"

/-- A way in which a module contradicts itself. -/
inductive Inconsistency
  | noInstruction (address : Nat)
  | narrowPlaceholder (opcode : Opcode) (address width : Nat)
  | slotRange (place : Source.Place) (index : UInt16) (offset : UInt32) (declared : Nat)
  | noValue (field : FieldRef)
  | readonlyAssigned (field : FieldRef)
  | noSlot (field : FieldRef)
  | unknownStatic (field : FieldRef)
  | initializerLength (length : Nat) (element : ValueType) (offset : UInt32)

def Inconsistency.message : Inconsistency → String
  | .noInstruction address => "no instruction at " ++ toString address
  | .narrowPlaceholder opcode address width =>
    opcode.name ++ " at " ++ toString address ++ " reserves " ++ toString width
      ++ " placeholder bytes, need 4"
  | .slotRange place index offset declared =>
    (match place with | .locals => "local " | .arguments => "argument ") ++ toString index.toNat
      ++ " out of range at " ++ offsetText offset ++ " (" ++ toString declared ++ " declared)"
  | .noValue field => "static field " ++ field.key ++ " has no slot and no value"
  | .readonlyAssigned field => "readonly field " ++ field.key ++ " assigned outside its initializer"
  | .noSlot field => "static field " ++ field.key ++ " has no slot"
  | .unknownStatic field => "store to unknown static field " ++ field.key
  | .initializerLength length element offset =>
    "array initializer of " ++ toString length ++ " bytes for " ++ element.text ++ "[] at "
      ++ offsetText offset

/-- What there can be too many of. -/
inductive Resource
  | staticFields | parameters | locals | bytes
deriving DecidableEq, Repr

def Resource.text : Resource → String
  | .staticFields => "static fields"
  | .parameters => "parameters"
  | .locals => "locals"
  | .bytes => "bytes"

/-- Why a module is not compiled. -/
inductive Error
  /-- An instruction without a lowering. -/
  | unsupportedInstruction (method : String) (offset : UInt32) (op : Op)
  | unsupportedCall (method : String) (offset : UInt32) (callee : String) (problem : CallProblem)
  /-- A readonly static field whose initializer is no constant. -/
  | unsupportedFold (field : String) (problem : FoldProblem)
  | resourceLimit (scope : String) (resource : Resource) (count max : Nat)
  | jumpTooFar (method : String) (displacement : Int)
  /-- A branch to an offset for which no code was written. -/
  | unresolvedSource (method : String) (offset : UInt32)
  /-- A reference to a method that is not part of the image. -/
  | unresolvedMethod (method target : String)
  | duplicateMethod (name : String)
  | inconsistent (method : String) (problem : Inconsistency)

def Error.message : Error → String
  | .unsupportedInstruction method offset op =>
    "unsupported instruction \x60" ++ op.text ++ "\x60 at " ++ offsetText offset ++ " in " ++ method
  | .unsupportedCall method offset callee problem =>
    "unsupported call to " ++ callee ++ " at " ++ offsetText offset ++ " in " ++ method ++ ": "
      ++ problem.message
  | .unsupportedFold field problem =>
    "unsupported folded type for static field " ++ field ++ ": " ++ problem.message
  | .resourceLimit scope resource count max =>
    "too many " ++ resource.text ++ " in " ++ scope ++ ": " ++ toString count ++ " (max "
      ++ toString max ++ ")"
  | .jumpTooFar method displacement =>
    "address jump is too far in " ++ method ++ ": displacement " ++ toString displacement
  | .unresolvedSource method offset =>
    "branch target " ++ offsetText offset ++ " in " ++ method ++ " was never emitted"
  | .unresolvedMethod method target =>
    "relocation to " ++ target ++ " in " ++ method ++ " is still pending after linking"
  | .duplicateMethod name => "method " ++ name ++ " is defined more than once"
  | .inconsistent method problem =>
    "internal consistency error in " ++ method ++ ": " ++ problem.message

end StackContract.Compile
