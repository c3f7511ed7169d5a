import StackContract.Json.Printer
import StackContract.Source.Tags
/-!
# Writing modules

The JSON of a module, with every field written out in the order of its record, defaults included.
-/

namespace StackContract.Source

open Json (ofText ofMembers)

/-- A variant with a payload. -/
def tagged (tag : String) (payload : Json) : Json :=
  ofMembers [(tag, payload)]

/-- A list of JSON values of a kind. -/
def listOf {α : Type} (toJson : α → Json) (values : List α) : Json :=
  .list (values.map toJson)

/-- Bytes as a list of numbers. -/
def bytesToJson (bytes : List UInt8) : Json :=
  listOf (fun b => Json.ofNat b.toNat) bytes

mutual

def ValueType.toJson : ValueType → Json
  | .array element => tagged "Array" element.toJson
  | .tuple items => tagged "Tuple" (.list (ValueType.itemsToJson items))
  | .named name => tagged "Class" (ofText name)
  | .interop name => tagged "Interop" (ofText name)
  | .delegate name => tagged "Delegate" (ofText name)
  | type => ofText type.tag

def ValueType.itemsToJson : List ValueType → List Json
  | [] => []
  | item :: rest => item.toJson :: ValueType.itemsToJson rest

end

def FieldRef.toJson (field : FieldRef) : Json :=
  ofMembers [("owner", ofText field.owner), ("name", ofText field.name)]

def Callee.toJson : Callee → Json
  | .method name => tagged "Method" (ofText name)
  | .intrinsic kind => tagged "Intrinsic" (ofText kind.tag)
  | .event => ofText "EventInvoke"
  | .delegate args => tagged "DelegateInvoke" (ofMembers [("args", .ofNat args.toNat)])

/-- The payload of an operation, if it has one. -/
def Op.payload? : Op → Option Json
  | .literal32 v => some (.int v.toInt)
  | .literal64 v => some (.int v.toInt)
  | .loadString s => some (ofText s)
  | .load _ index | .store _ index | .address _ index | .loadField index | .storeField index =>
    some (.ofNat index.toNat)
  | .loadStatic field | .storeStatic field => some field.toJson
  | .newArray type | .box type | .unbox type | .unboxAny type | .isInstance type
  | .castClass type => some type.toJson
  | .initArray data => some (bytesToJson data)
  | .newObject fields ctorArgs =>
    some (ofMembers [("fields", listOf ValueType.toJson fields),
      ("ctor_args", .ofNat ctorArgs.toNat)])
  | .initObject fields => some (listOf ValueType.toJson fields)
  | .branch _ target => some (.ofNat target.toNat)
  | .switch targets => some (listOf (fun (t : UInt32) => Json.ofNat t.toNat) targets)
  | .convert conversion => some (ofText conversion.tag)
  | .call callee => some callee.toJson
  | .loadFunction name => some (ofText name)
  | _ => none

def Op.toJson (op : Op) : Json :=
  match op.payload? with
  | some payload => tagged op.tag payload
  | none => ofText op.tag

def Instruction.toJson (i : Instruction) : Json :=
  ofMembers [("offset", .ofNat i.offset.toNat), ("op", i.op.toJson)]

def Parameter.toJson (p : Parameter) : Json :=
  ofMembers [("name", ofText p.name), ("type", p.type.toJson)]

def RawInstruction.toJson (raw : RawInstruction) : Json :=
  ofMembers [("opcode", .ofNat raw.opcode.toNat), ("operand", bytesToJson raw.operand)]

def Binding.toJson : Binding → Json
  | .service name => tagged "Syscall" (ofText name)
  | .instructions code => tagged "OpCodes" (listOf RawInstruction.toJson code)
  | .contract hash method =>
    tagged "Contract" (ofMembers [("hash", ofText hash), ("method", ofText method)])

def Method.toJson (m : Method) : Json :=
  ofMembers [("name", ofText m.name), ("display_name", ofText m.displayName),
    ("kind", ofText m.role.tag), ("is_public", .bool m.isPublic),
    ("params", listOf Parameter.toJson m.params), ("return_type", m.returnType.toJson),
    ("locals", listOf ValueType.toJson m.locals),
    ("binding", match m.binding with | some binding => binding.toJson | none => .null),
    ("body", listOf Instruction.toJson m.body)]

def Field.toJson (f : Field) : Json :=
  ofMembers [("name", ofText f.name), ("type", f.type.toJson), ("is_static", .bool f.isStatic),
    ("is_readonly", .bool f.isReadonly), ("is_literal", .bool f.isLiteral)]

def Event.toJson (e : Event) : Json :=
  ofMembers [("name", ofText e.name), ("display_name", ofText e.displayName),
    ("params", listOf Parameter.toJson e.params)]

def TypeDecl.toJson (t : TypeDecl) : Json :=
  ofMembers [("name", ofText t.name), ("kind", ofText t.role.tag),
    ("methods", listOf Method.toJson t.methods), ("fields", listOf Field.toJson t.fields),
    ("events", listOf Event.toJson t.events),
    ("static_init", listOf Instruction.toJson t.staticInit)]

def Module.toJson (m : Module) : Json :=
  ofMembers [("types", listOf TypeDecl.toJson m.types)]

/-- The interchange text of a module. -/
def Module.print (m : Module) : String :=
  m.toJson.compact

end StackContract.Source
