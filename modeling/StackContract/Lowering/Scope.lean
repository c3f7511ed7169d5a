import StackContract.Assembly.Directive
import StackContract.Compile.StaticLayout
/-!
# The surroundings of a lowering

An instruction is lowered within the body of a method (`Scope`), which sees the declarations of the
whole module (`Catalogue`). Two things carry over from one instruction to later ones: the slot whose
address was taken last, and the event that was loaded last (`Carry`).
-/

namespace StackContract.Lowering

open Assembly Compile Script
open Source (Op Place)

/-- The declarations of a module, as every body sees them. -/
structure Catalogue where
  /-- Every method of the compiled types, by internal name. -/
  methods : Table String Source.Method
  /-- The names of the methods that have a body in the image. -/
  compiled : List String
  /-- Events by the key of their field. -/
  events : Table String Source.Event
  statics : StaticLayout

/-- A method whose body is lowered. -/
structure Scope where
  catalogue : Catalogue
  method : String
  locals : UInt8
  params : UInt8
  body : Array Source.Instruction

/-- What an instruction leaves for later ones. -/
structure Carry where
  /-- The slot whose address was taken last. -/
  addressOf : Option (Place × UInt8) := none
  /-- The event that waits for its call. -/
  pendingEvent : Option Source.Event := none

/-- A lowering: it may fail, and passes on what it carries. -/
abbrev Lower (α : Type) := StateT Carry (Except Error) α

/-- The code for an instruction, and how many instructions behind it the code covers too. -/
structure Lowered where
  directives : List Directive
  consumed : Nat := 0

/-- The code for an instruction alone. -/
def Lowered.code (directives : List Directive) : Lowered :=
  { directives }

/-- The slot area of a place. -/
def areaOf : Place → SlotArea
  | .locals => .locals
  | .arguments => .arguments

namespace Scope

/-- Whether some branch of the body leads to an offset. -/
def isTarget (scope : Scope) (offset : UInt32) : Bool :=
  scope.body.any fun i => i.op.targets.contains offset

/-- The operation at a position, unless a branch may lead there. Several instructions are lowered as
one only if this finds all but the first of them. -/
def inline? (scope : Scope) (position : Nat) : Option Op :=
  match scope.body[position]? with
  | none => none
  | some i => if scope.isTarget i.offset then none else some i.op

/-- The slots of a place that the method declares. -/
def declared (scope : Scope) : Place → UInt8
  | .locals => scope.locals
  | .arguments => scope.params

/-- The slot that an operand at a source offset names, if the method declares it. -/
def slot (scope : Scope) (offset : UInt32) (place : Place) (index : UInt16) : Except Error UInt8 :=
  if index.toNat < (scope.declared place).toNat then .ok index.toUInt8
  else .error (.inconsistent scope.method
    (.slotRange place index offset (scope.declared place).toNat))

/-- The load of a slot. -/
def load (scope : Scope) (offset : UInt32) (place : Place) (index : UInt16) :
    Except Error Directive :=
  (scope.slot offset place index).map (Directive.load (areaOf place))

/-- The refusal of an instruction. -/
def unsupported (scope : Scope) (i : Source.Instruction) : Error :=
  .unsupportedInstruction scope.method i.offset i.op

/-- The refusal of a call. -/
def unsupportedCall (scope : Scope) (i : Source.Instruction) (callee : String)
    (problem : CallProblem) : Error :=
  .unsupportedCall scope.method i.offset callee problem

/-- The refusal of a body that contradicts the module. -/
def inconsistent (scope : Scope) (problem : Inconsistency) : Error :=
  .inconsistent scope.method problem

end Scope

end StackContract.Lowering
