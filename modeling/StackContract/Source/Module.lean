import StackContract.Source.Op
/-!
# Source modules

A module is what is compiled at once: types with their methods, fields, events and static
initializers. The order of the types and of what they declare is the order of everything that is
made of them.
-/

namespace StackContract.Source

/-- The part a type plays in the contract. -/
inductive TypeRole
  /-- Its public methods are exported. -/
  | contract
  /-- Compiled, never exported. -/
  | helper
  /-- Made by the compiler of the source; skipped. -/
  | synthesized
deriving DecidableEq, Repr, Inhabited

/-- The part a method plays in its type. -/
inductive MethodRole
  | normal | constructor | staticConstructor
  /-- Adds or removes a handler of an event. -/
  | eventAccessor
deriving DecidableEq, Repr, Inhabited

/-- A parameter of a method or an event. -/
structure Parameter where
  name : String
  type : ValueType
deriving Repr

/-- A machine instruction given by its bytes. -/
structure RawInstruction where
  opcode : UInt8
  operand : List UInt8 := []
deriving DecidableEq, Repr

/-- How calls of a method without a body are lowered. -/
inductive Binding
  /-- A service of the host, by its dotted name. -/
  | service (name : String)
  /-- Machine instructions in place of the call. -/
  | instructions (code : List RawInstruction)
  /-- A method of another contract, which is given by its script hash. -/
  | contract (hash : String) (method : String)
deriving DecidableEq, Repr

/-- A method. -/
structure Method where
  /-- Unique within the module. -/
  name : String
  /-- The name callers of the contract see. -/
  displayName : String
  role : MethodRole := .normal
  isPublic : Bool := false
  params : List Parameter := []
  returnType : ValueType := .void
  locals : List ValueType := []
  binding : Option Binding := none
  body : List Instruction := []
deriving Repr

/-- A field. -/
structure Field where
  name : String
  type : ValueType
  isStatic : Bool := false
  isReadonly : Bool := false
  /-- A compile-time constant, which needs no storage. -/
  isLiteral : Bool := false
deriving Repr

/-- An event. -/
structure Event where
  /-- The name of the field that holds its handlers. -/
  name : String
  displayName : String
  params : List Parameter := []
deriving Repr

/-- A type and what it declares. -/
structure TypeDecl where
  name : String
  role : TypeRole := .contract
  methods : List Method := []
  fields : List Field := []
  events : List Event := []
  /-- The body of the static constructor. -/
  staticInit : List Instruction := []
deriving Repr

/-- The key of a member that this type declares. -/
def TypeDecl.keyOf (type : TypeDecl) (member : String) : String :=
  (FieldRef.mk type.name member).key

/-- A compilation unit. -/
structure Module where
  types : List TypeDecl
deriving Repr

/-- The types that are compiled. -/
def Module.compiledTypes (module : Module) : List TypeDecl :=
  module.types.filter (·.role ≠ .synthesized)

/-- Moves the branch targets of every operation up by `delta` and leaves the offsets. -/
def Module.shiftTargets (delta : UInt32) (module : Module) : Module :=
  let shiftBody := List.map fun (i : Instruction) => { i with op := i.op.shiftTargets delta }
  { types := module.types.map fun type =>
      { type with
        staticInit := shiftBody type.staticInit
        methods := type.methods.map fun method => { method with body := shiftBody method.body } } }

/-- Every operation of a module: of each type its static initializer, then its methods. -/
def Module.operations (module : Module) : List Op :=
  module.types.flatMap fun type =>
    (type.staticInit ++ type.methods.flatMap (·.body)).map (·.op)

end StackContract.Source
