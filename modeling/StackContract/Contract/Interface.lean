import StackContract.Contract.Program
import StackContract.Json.Parser
import StackContract.Json.Printer
import StackContract.Json.Reader
/-!
# Contract interfaces

What callers need to know of a contract: the hash of its script, its exported methods with their entries
and signatures, and its events. An interface has a JSON form, which `Interface.parse?` reads back.
-/

namespace StackContract.Contract

open Source (Parameter ValueType)
open Json (Reader record variant required ofText ofMembers)

/-- The types that callers see. -/
inductive InterfaceType
  | void | boolean | integer | byteArray | string | array | any | interop
deriving DecidableEq, Repr

namespace InterfaceType

def all : List InterfaceType :=
  [.void, .boolean, .integer, .byteArray, .string, .array, .any, .interop]

def tag : InterfaceType → String
  | .void => "Void" | .boolean => "Boolean" | .integer => "Integer" | .byteArray => "ByteArray"
  | .string => "String" | .array => "Array" | .any => "Any" | .interop => "InteropInterface"

/-- What callers see of a source type. Functions cannot be seen. -/
def ofValueType? : ValueType → Option InterfaceType
  | .void => some .void
  | .boolean => some .boolean
  | .string => some .string
  | .byteArray => some .byteArray
  | .array _ | .tuple _ => some .array
  | .object | .named _ => some .any
  | .interop _ => some .interop
  | .delegate _ => none
  | type => if type.isInteger then some .integer else none

end InterfaceType

structure InterfaceParameter where
  name : String
  type : InterfaceType
deriving DecidableEq, Repr

structure InterfaceMethod where
  name : String
  /-- The entry, in decimal. -/
  offset : String
  parameters : List InterfaceParameter
  returnType : InterfaceType
deriving DecidableEq, Repr

structure InterfaceEvent where
  name : String
  parameters : List InterfaceParameter
deriving DecidableEq, Repr

structure Interface where
  hash : String
  methods : List InterfaceMethod
  events : List InterfaceEvent
deriving DecidableEq, Repr

/-! ## Entries -/

/-- Digits without the plus that may stand in front. -/
def withoutPlus : List Char → List Char
  | '+' :: digits => digits
  | digits => digits

/-- A number below 2^32 in decimal, with an optional plus in front. -/
def offsetOfText? (text : String) : Option Nat :=
  let digits := withoutPlus text.toList
  if digits.isEmpty ∨ !digits.all Char.isDigit then none
  else
    let n := Json.natOfDigits digits
    if n < 0x1_0000_0000 then some n else none

namespace Interface

/-- The first method with a name. -/
def method? (interface : Interface) (name : String) : Option InterfaceMethod :=
  interface.methods.find? fun method => method.name = name

/-- The entry of the first method with a name. -/
def offset? (interface : Interface) (name : String) : Option Nat :=
  (interface.method? name).bind fun method => offsetOfText? method.offset

end Interface

/-! ## Export -/

/-- Why a program has no interface. -/
inductive ExportError
  /-- A type that callers cannot see. -/
  | unsupportedType (context : String) (type : ValueType)
  /-- Two exported methods have the same name. -/
  | duplicateName (name : String)

def ExportError.message : ExportError → String
  | .unsupportedType context type =>
    "type " ++ type.text ++ " of " ++ context ++ " cannot be exported"
  | .duplicateName name => "abi does not allow functions with the same name: " ++ name

/-- What callers see of a type that occurs in the given context. -/
def exportType (context : String) (type : ValueType) : Except ExportError InterfaceType :=
  match InterfaceType.ofValueType? type with
  | some seen => .ok seen
  | none => .error (.unsupportedType context type)

/-- What callers see of the parameters of a method or an event. -/
def exportParameters (owner : String) (params : List Parameter) :
    Except ExportError (List InterfaceParameter) :=
  params.mapM fun p => do
    return ⟨p.name, ← exportType ("parameter " ++ p.name ++ " of " ++ owner) p.type⟩

/-- What callers see of a method. -/
def exportMethod (method : PlacedMethod) : Except ExportError InterfaceMethod := do
  let s := method.signature
  let parameters ← exportParameters s.name s.params
  let returnType ← exportType ("return value of " ++ s.name) s.returnType
  return ⟨s.displayName, toString method.base, parameters, returnType⟩

/-- Exports methods behind those in `done`, each under a name of its own. -/
def exportMethods (done : List InterfaceMethod) :
    List PlacedMethod → Except ExportError (List InterfaceMethod)
  | [] => .ok done
  | method :: rest =>
    let name := method.signature.displayName
    if done.any fun other => other.name = name then .error (.duplicateName name)
    else do exportMethods (done ++ [← exportMethod method]) rest

/-- What callers see of an event. -/
def exportEvent (entry : String × Source.Event) : Except ExportError InterfaceEvent := do
  return ⟨entry.2.displayName, ← exportParameters entry.1 entry.2.params⟩

/-- The interface of a program. -/
def Interface.ofProgram (program : Program) : Except ExportError Interface := do
  let methods ← exportMethods [] (program.methods.filter (·.signature.isExported))
  let events ← program.events.entries.mapM exportEvent
  return ⟨program.hash.text, methods, events⟩

/-! ## The JSON form -/

def InterfaceParameter.toJson (p : InterfaceParameter) : Json :=
  ofMembers [("name", ofText p.name), ("type", ofText p.type.tag)]

def InterfaceMethod.toJson (m : InterfaceMethod) : Json :=
  ofMembers [("name", ofText m.name), ("offset", ofText m.offset),
    ("parameters", .list (m.parameters.map (·.toJson))), ("returnType", ofText m.returnType.tag)]

def InterfaceEvent.toJson (e : InterfaceEvent) : Json :=
  ofMembers [("name", ofText e.name), ("parameters", .list (e.parameters.map (·.toJson)))]

def Interface.toJson (interface : Interface) : Json :=
  ofMembers [("hash", ofText interface.hash), ("methods", .list (interface.methods.map (·.toJson))),
    ("events", .list (interface.events.map (·.toJson)))]

def InterfaceType.read : Reader InterfaceType :=
  variant (fun tag => InterfaceType.all.find? fun type => type.tag = tag) fun _ _ _ => none

def InterfaceParameter.read : Reader InterfaceParameter :=
  record ["name", "type"] fun depth fields =>
    match fields with
    | [name, type] => do
      return ⟨← required Reader.text depth name, ← required InterfaceType.read depth type⟩
    | _ => none

def InterfaceMethod.read : Reader InterfaceMethod :=
  record ["name", "offset", "parameters", "returnType"] fun depth fields =>
    match fields with
    | [name, offset, parameters, returnType] => do
      return ⟨← required Reader.text depth name, ← required Reader.text depth offset,
        ← required (Reader.list InterfaceParameter.read) depth parameters,
        ← required InterfaceType.read depth returnType⟩
    | _ => none

def InterfaceEvent.read : Reader InterfaceEvent :=
  record ["name", "parameters"] fun depth fields =>
    match fields with
    | [name, parameters] => do
      return ⟨← required Reader.text depth name,
        ← required (Reader.list InterfaceParameter.read) depth parameters⟩
    | _ => none

def Interface.read : Reader Interface :=
  record ["hash", "methods", "events"] fun depth fields =>
    match fields with
    | [hash, methods, events] => do
      return ⟨← required Reader.text depth hash,
        ← required (Reader.list InterfaceMethod.read) depth methods,
        ← required (Reader.list InterfaceEvent.read) depth events⟩
    | _ => none

/-- The interface that a JSON text describes. -/
def Interface.parse? (text : String) : Option Interface :=
  (Json.parse text).bind (Interface.read 127)

end StackContract.Contract
