import StackContract.Lowering.Scope
/-!
# Static fields, arrays and objects

A read of a readonly field becomes its constant. An array whose contents follow its creation becomes a
literal. Objects are structs, whose fields have the defaults of their types until they are assigned:
false, zero, and null for all that is no number.
-/

namespace StackContract.Lowering

open Assembly Compile Script Number
open Source (Op FieldRef ValueType)

/-! ## Static fields -/

/-- Pushes items so that the first comes out on top, and packs them into an array. -/
def packLiteral (items : List Directive) : List Directive :=
  if items.isEmpty then [.op .newArray0]
  else items.reverse ++ [.pushNat items.length, .op .pack]

/-- Pushes a constant. -/
def pushConstant : Constant → List Directive
  | .integer v => [.pushInteger v]
  | .boolean b => [.pushBoolean b]
  | .string s => [.pushData (Text.utf8 s)]
  | .bytes data => [.pushData data, .convert .buffer]
  | .strings items => packLiteral (items.map fun s => .pushData (Text.utf8 s))

/-- Reads a static field. The field of an event has no value: it waits for the call. -/
def lowerLoadStatic (scope : Scope) (field : FieldRef) : Lower Lowered := do
  match scope.catalogue.events.find? field.key with
  | some event =>
    modify fun carry => { carry with pendingEvent := some event }
    return .code []
  | none =>
    match scope.catalogue.statics.folded.find? field.key with
    | some value => return .code (pushConstant value)
    | none =>
      match scope.catalogue.statics.slots.find? field.key with
      | some slot => return .code [.load .static slot]
      | none => throw (scope.inconsistent (.noValue field))

/-- Writes a static field. -/
def lowerStoreStatic (scope : Scope) (field : FieldRef) : Except Error Lowered :=
  let statics := scope.catalogue.statics
  match statics.slots.find? field.key with
  | some slot => .ok (.code [.store .static slot])
  | none =>
    if statics.folded.contains field.key then
      .error (scope.inconsistent (.readonlyAssigned field))
    else .error (scope.inconsistent (.noSlot field))

/-! ## Arrays -/

/-- The width of an array element in initializer data, and whether it is signed. -/
def elementLayout? : ValueType → Option (Nat × Bool)
  | .boolean | .byte => some (1, false)
  | .sbyte => some (1, true)
  | .char | .uint16 => some (2, false)
  | .int16 => some (2, true)
  | .uint32 => some (4, false)
  | .int32 => some (4, true)
  | .uint64 => some (8, false)
  | .int64 => some (8, true)
  | _ => none

/-- The value of one element in initializer data. -/
def elementValue (isSigned : Bool) (chunk : List UInt8) : Int128 :=
  (Int128.ofInt? (if isSigned then signedOfBytes chunk else natOfBytes chunk)).getD default

/-- Cuts data into pieces of `width` bytes. Every step takes at least one byte, so the length of the
data is enough fuel. -/
def chunks (width : Nat) : Nat → List UInt8 → List (List UInt8)
  | 0, _ => []
  | fuel + 1, data =>
    if data.isEmpty then [] else data.take width :: chunks width fuel (data.drop width)

/-- Pushes an array element. -/
def pushElement (element : ValueType) (v : Int128) : Directive :=
  if element.isBoolean then .pushBoolean (v.val ≠ 0) else .pushInteger v

/-- The kind of the items of a new array. -/
def itemKind (element : ValueType) : ItemKind :=
  if element.isBoolean then .boolean else if element.isInteger then .integer else .any

/-- An array with the given contents, in place of the length on the stack. -/
def arrayLiteral (scope : Scope) (offset : UInt32) (initializer : Source.Instruction)
    (element : ValueType) (data : List UInt8) : Except Error (List Directive) :=
  match element with
  | .byte => .ok [.op .drop, .pushData data, .convert .buffer]
  | element =>
    match elementLayout? element with
    | none => .error (scope.unsupported initializer)
    | some (width, isSigned) =>
      if data.length % width ≠ 0 then
        .error (scope.inconsistent (.initializerLength data.length element offset))
      else
        let values := (chunks width data.length data).map (elementValue isSigned)
        .ok (.op .drop :: packLiteral (values.map (pushElement element)))

/-- A new array of unassigned elements, of the length on the stack. -/
def newArray : ValueType → Directive
  | .byte => .op .newBuffer
  | element => .instruction ⟨.newArrayT, [(itemKind element).byte]⟩

/-- A new array, together with the contents that follow it. -/
def lowerNewArray (scope : Scope) (position : Nat) (offset : UInt32) (element : ValueType) :
    Except Error Lowered :=
  match scope.inline? (position + 1), scope.inline? (position + 2), scope.body[position + 2]? with
  | some .dup, some (.initArray data), some initializer => do
    return ⟨← arrayLiteral scope offset initializer element data, 2⟩
  | _, _, _ => .ok (.code [newArray element])

/-! ## Objects -/

/-- Pushes the default of a type. -/
def pushDefault (type : ValueType) : Directive :=
  if type.isBoolean then .pushBoolean false
  else if type.isInteger then .pushNat 0
  else .op .pushNull

/-- Pushes a struct of defaults. -/
def pushDefaults (fields : List ValueType) : List Directive :=
  if fields.isEmpty then [.op .newStruct0]
  else (fields.map pushDefault).reverse ++ [.pushNat fields.length, .op .packStruct]

/-- A new object. Its first fields are the arguments on the stack. -/
def lowerNewObject (scope : Scope) (i : Source.Instruction) (fields : List ValueType)
    (ctorArgs : UInt16) : Except Error Lowered :=
  let count := ctorArgs.toNat
  if fields.length < count then .error (scope.unsupported i)
  else if count = 0 then .ok (.code (pushDefaults fields))
  else
    let rest := (fields.drop count).flatMap fun type => [.op .dup, pushDefault type, .op .append]
    .ok (.code (Directive.reverse count ++ [.pushNat count, .op .packStruct] ++ rest))

/-- Puts a new object into the slot whose address was taken last. The value that stands for the
address is removed. -/
def lowerInitObject (scope : Scope) (i : Source.Instruction) (fields : List ValueType) :
    Lower Lowered := do
  match (← get).addressOf with
  | none => throw (scope.unsupported i)
  | some (place, slot) =>
    modify fun carry => { carry with addressOf := none }
    return .code (.op .drop :: pushDefaults fields ++ [.store (areaOf place) slot])

end StackContract.Lowering
