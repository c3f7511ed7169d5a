import StackContract.Json.Parser
import StackContract.Json.Reader
import StackContract.Source.Tags
/-!
# Reading modules

The interchange format of modules is JSON: declarations are records, operations and types are variants
tagged by their names. `Module.parse?` reads a text; it may nest 127 levels deep.
-/

namespace StackContract.Source

open Json (Reader record variant required defaulted)

/-- A type, by structural recursion on the levels left. -/
def ValueType.read : Reader ValueType
  | _, .text (some tag) => ofTag? tag
  | depth + 1, .object [(some tag, value)] =>
    match ofTag? tag, value with
    | some type, .null => some type
    | some _, _ => none
    | none, value =>
      match tag with
      | "Array" => (read depth value).map .array
      | "Tuple" =>
        match depth, value with
        | depth + 1, .list items => (items.mapM (read depth)).map .tuple
        | _, _ => none
      | "Class" => (Reader.text depth value).map .named
      | "Interop" => (Reader.text depth value).map .interop
      | "Delegate" => (Reader.text depth value).map .delegate
      | _ => none
  | _, _ => none

def Conversion.read : Reader Conversion :=
  variant ofTag? fun _ _ _ => none

def Intrinsic.read : Reader Intrinsic :=
  variant ofTag? fun _ _ _ => none

def TypeRole.read : Reader TypeRole :=
  variant ofTag? fun _ _ _ => none

def MethodRole.read : Reader MethodRole :=
  variant ofTag? fun _ _ _ => none

def FieldRef.read : Reader FieldRef :=
  record ["owner", "name"] fun depth fields =>
    match fields with
    | [owner, name] => do
      return ⟨← required Reader.text depth owner, ← required Reader.text depth name⟩
    | _ => none

def Callee.read : Reader Callee :=
  variant (fun tag => if tag = "EventInvoke" then some .event else none) fun tag depth value =>
    match tag with
    | "Method" => (Reader.text depth value).map .method
    | "Intrinsic" => (Intrinsic.read depth value).map .intrinsic
    | "DelegateInvoke" =>
      record ["args"] (fun depth fields =>
        match fields with
        | [args] => (required Reader.uint16 depth args).map .delegate
        | _ => none) depth value
    | _ => none

/-- The payload of an operation that creates an object. -/
def Op.readNewObject : Reader Op :=
  record ["fields", "ctor_args"] fun depth fields =>
    match fields with
    | [types, count] => do
      return .newObject (← required (Reader.list ValueType.read) depth types)
        (← required Reader.uint16 depth count)
    | _ => none

/-- The operation with this tag and payload. -/
def Op.readPayload (tag : String) (depth : Nat) (value : Json) : Option Op :=
  match Condition.ofTag? tag with
  | some condition => (Reader.uint32 depth value).map (.branch condition)
  | none =>
    match tag with
    | "LdcI4" => (Reader.int32 depth value).map .literal32
    | "LdcI8" => (Reader.int64 depth value).map .literal64
    | "LdStr" => (Reader.text depth value).map .loadString
    | "LdLoc" => (Reader.uint16 depth value).map (.load .locals)
    | "StLoc" => (Reader.uint16 depth value).map (.store .locals)
    | "LdLocA" => (Reader.uint16 depth value).map (.address .locals)
    | "LdArg" => (Reader.uint16 depth value).map (.load .arguments)
    | "StArg" => (Reader.uint16 depth value).map (.store .arguments)
    | "LdArgA" => (Reader.uint16 depth value).map (.address .arguments)
    | "LdSFld" => (FieldRef.read depth value).map .loadStatic
    | "StSFld" => (FieldRef.read depth value).map .storeStatic
    | "LdFld" => (Reader.uint16 depth value).map .loadField
    | "StFld" => (Reader.uint16 depth value).map .storeField
    | "NewArr" => (ValueType.read depth value).map .newArray
    | "InitArray" => (Reader.list Reader.uint8 depth value).map .initArray
    | "NewObj" => readNewObject depth value
    | "InitObj" => (Reader.list ValueType.read depth value).map .initObject
    | "Switch" => (Reader.list Reader.uint32 depth value).map .switch
    | "Conv" => (Conversion.read depth value).map .convert
    | "Call" => (Callee.read depth value).map .call
    | "Ldftn" => (Reader.text depth value).map .loadFunction
    | "Box" => (ValueType.read depth value).map .box
    | "Unbox" => (ValueType.read depth value).map .unbox
    | "UnboxAny" => (ValueType.read depth value).map .unboxAny
    | "IsInst" => (ValueType.read depth value).map .isInstance
    | "CastClass" => (ValueType.read depth value).map .castClass
    | _ => none

def Op.read : Reader Op :=
  variant ofTag? readPayload

def Instruction.read : Reader Instruction :=
  record ["offset", "op"] fun depth fields =>
    match fields with
    | [offset, op] => do
      return ⟨← required Reader.uint32 depth offset, ← required Op.read depth op⟩
    | _ => none

def Parameter.read : Reader Parameter :=
  record ["name", "type"] fun depth fields =>
    match fields with
    | [name, type] => do
      return ⟨← required Reader.text depth name, ← required ValueType.read depth type⟩
    | _ => none

def RawInstruction.read : Reader RawInstruction :=
  record ["opcode", "operand"] fun depth fields =>
    match fields with
    | [opcode, operand] => do
      return ⟨← required Reader.uint8 depth opcode,
        ← defaulted [] (Reader.list Reader.uint8) depth operand⟩
    | _ => none

def Binding.read : Reader Binding :=
  variant (fun _ => none) fun tag depth value =>
    match tag with
    | "Syscall" => (Reader.text depth value).map .service
    | "OpCodes" => (Reader.list RawInstruction.read depth value).map .instructions
    | "Contract" =>
      record ["hash", "method"] (fun depth fields =>
        match fields with
        | [hash, method] => do
          return .contract (← required Reader.text depth hash) (← required Reader.text depth method)
        | _ => none) depth value
    | _ => none

def Method.read : Reader Method :=
  record ["name", "display_name", "kind", "is_public", "params", "return_type", "locals", "binding",
      "body"] fun depth fields =>
    match fields with
    | [name, displayName, role, isPublic, params, returnType, locals, binding, body] => do
      return {
        name := ← required Reader.text depth name
        displayName := ← required Reader.text depth displayName
        role := ← defaulted .normal MethodRole.read depth role
        isPublic := ← defaulted false Reader.bool depth isPublic
        params := ← defaulted [] (Reader.list Parameter.read) depth params
        returnType := ← defaulted .void ValueType.read depth returnType
        locals := ← defaulted [] (Reader.list ValueType.read) depth locals
        binding := ← defaulted none (Reader.optional Binding.read) depth binding
        body := ← defaulted [] (Reader.list Instruction.read) depth body }
    | _ => none

def Field.read : Reader Field :=
  record ["name", "type", "is_static", "is_readonly", "is_literal"] fun depth fields =>
    match fields with
    | [name, type, isStatic, isReadonly, isLiteral] => do
      return {
        name := ← required Reader.text depth name
        type := ← required ValueType.read depth type
        isStatic := ← defaulted false Reader.bool depth isStatic
        isReadonly := ← defaulted false Reader.bool depth isReadonly
        isLiteral := ← defaulted false Reader.bool depth isLiteral }
    | _ => none

def Event.read : Reader Event :=
  record ["name", "display_name", "params"] fun depth fields =>
    match fields with
    | [name, displayName, params] => do
      return ⟨← required Reader.text depth name, ← required Reader.text depth displayName,
        ← defaulted [] (Reader.list Parameter.read) depth params⟩
    | _ => none

def TypeDecl.read : Reader TypeDecl :=
  record ["name", "kind", "methods", "fields", "events", "static_init"] fun depth fields =>
    match fields with
    | [name, role, methods, fields, events, staticInit] => do
      return {
        name := ← required Reader.text depth name
        role := ← defaulted .contract TypeRole.read depth role
        methods := ← defaulted [] (Reader.list Method.read) depth methods
        fields := ← defaulted [] (Reader.list Field.read) depth fields
        events := ← defaulted [] (Reader.list Event.read) depth events
        staticInit := ← defaulted [] (Reader.list Instruction.read) depth staticInit }
    | _ => none

def Module.read : Reader Module :=
  record ["types"] fun depth fields =>
    match fields with
    | [types] => (required (Reader.list TypeDecl.read) depth types).map Module.mk
    | _ => none

/-- The deepest nesting of lists, records and variants in a module. -/
def nestingLimit : Nat := 127

/-- The module that a JSON value denotes. -/
def Module.ofJson? (json : Json) : Option Module :=
  Module.read nestingLimit json

/-- The module that a JSON text denotes. -/
def Module.parse? (text : String) : Option Module :=
  (Json.parse text).bind Module.ofJson?

end StackContract.Source
