import StackContract.Source.Conversion
import StackContract.Source.ValueType
/-!
# Source instructions

The operations of the typed stack code that is compiled. Branches name source offsets, slots count
from zero.
-/

namespace StackContract.Source

/-- A field of a type. -/
structure FieldRef where
  owner : String
  name : String
deriving DecidableEq, Repr

/-- The name of a field within the whole module. -/
def FieldRef.key (field : FieldRef) : String :=
  field.owner ++ "::" ++ field.name

/-- Calls that have a lowering of their own. -/
inductive Intrinsic
  /-- The hash of a string, as the tag of a switch over strings. -/
  | stringHash
  | stringEquals | stringConcat | stringLength
deriving DecidableEq, Repr

/-- What a call calls. -/
inductive Callee
  /-- A method of the module, by its internal name. -/
  | method (name : String)
  | intrinsic (intrinsic : Intrinsic)
  /-- The event loaded before. -/
  | event
  /-- The function pointer below the arguments. -/
  | delegate (args : UInt16)
deriving DecidableEq, Repr

/-- When a branch is taken. -/
inductive Condition
  | always
  /-- Always, out of a protected region. -/
  | leave
  | ifTrue | ifFalse
  | equal | notEqual
  | less | lessUnsigned | lessEqual | lessEqualUnsigned
  | greater | greaterUnsigned | greaterEqual | greaterEqualUnsigned
deriving DecidableEq, Repr

/-- Operations on one or two numbers. -/
inductive Arithmetic
  | add | sub | mul | div | divUnsigned | rem | remUnsigned | neg | complement | and | or | xor
  | shl | shr | shrUnsigned
deriving DecidableEq, Repr

/-- Comparisons that leave a truth value. -/
inductive Comparison
  | equal | greater | greaterUnsigned | less | lessUnsigned
deriving DecidableEq, Repr

/-- The two slot areas of a method. -/
inductive Place
  | locals | arguments
deriving DecidableEq, Repr

/-- Operations on addresses and the runtime, which have no counterpart on a machine without
pointers. -/
inductive PointerOp
  | loadIndirect | storeIndirect | elementAddress | allocate | callIndirect | sizeOf | token
  | virtualFunction | newMultiArray | endFinally
deriving DecidableEq, Repr

/-- An operation of the source code. -/
inductive Op
  | nop | pop | dup | ret | throw
  | loadNull
  | literal32 (v : Int32)
  | literal64 (v : Int64)
  | loadString (s : String)
  | load (place : Place) (index : UInt16)
  | store (place : Place) (index : UInt16)
  | address (place : Place) (index : UInt16)
  | loadStatic (field : FieldRef)
  | storeStatic (field : FieldRef)
  /-- A field of an instance, by its position in the declaration. -/
  | loadField (index : UInt16)
  | storeField (index : UInt16)
  | newArray (element : ValueType)
  /-- The contents of the array just made, as raw bytes of its elements. -/
  | initArray (data : List UInt8)
  | length | loadElement | storeElement
  /-- An object whose first fields are the arguments on the stack and whose others are defaults. -/
  | newObject (fields : List ValueType) (ctorArgs : UInt16)
  /-- A delegate of the function just loaded. -/
  | newDelegate
  | initObject (fields : List ValueType)
  | branch (condition : Condition) (target : UInt32)
  | switch (targets : List UInt32)
  | arithmetic (operation : Arithmetic)
  | compare (comparison : Comparison)
  | convert (conversion : Conversion)
  | call (callee : Callee)
  | loadFunction (name : String)
  | box (type : ValueType)
  | unbox (type : ValueType)
  | unboxAny (type : ValueType)
  | isInstance (type : ValueType)
  | castClass (type : ValueType)
  | pointerOp (operation : PointerOp)
deriving Repr, Inhabited

namespace Op

/-- The offset a branch leads to; a switch has none. -/
def branchTarget? : Op → Option UInt32
  | .branch _ target => some target
  | _ => none

/-- Every offset that control may go to from here, other than the next instruction. -/
def targets : Op → List UInt32
  | .branch _ target => [target]
  | .switch targets => targets
  | _ => []

/-- Moves every branch target up by `delta`. -/
def shiftTargets (delta : UInt32) : Op → Op
  | .branch condition target => .branch condition (target + delta)
  | .switch targets => .switch (targets.map (· + delta))
  | op => op

theorem targets_shiftTargets (delta : UInt32) (op : Op) :
    (op.shiftTargets delta).targets = op.targets.map (· + delta) := by
  cases op <;> rfl

end Op

/-- An operation at its source offset. -/
structure Instruction where
  offset : UInt32
  op : Op
deriving Repr, Inhabited

/-- The offset and all branch targets moved up by `delta`. -/
def Instruction.shift (delta : UInt32) (i : Instruction) : Instruction :=
  ⟨i.offset + delta, i.op.shiftTargets delta⟩

end StackContract.Source
