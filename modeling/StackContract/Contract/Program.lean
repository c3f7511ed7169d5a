import StackContract.Compile.LocalLink
import StackContract.Compile.StaticLayout
import StackContract.Script.Hash
import StackContract.Script.Listing
/-!
# Programs

Methods that are laid out one behind the other, and the script they make up. `link` gives each method
its base and fills in the references between methods.
-/

namespace StackContract.Contract

open Assembly Compile Script
open Source (Parameter ValueType)

/-- The name of the method that prepares the static fields. -/
def initializerName : String := "_initialize"

/-- What a method of the image shows to the outside. -/
structure Signature where
  name : String
  displayName : String
  isPublic : Bool
  /-- Declared by a contract type. -/
  inContract : Bool
  params : List Parameter
  returnType : ValueType

/-- Whether callers of the contract see a method. -/
def Signature.isExported (signature : Signature) : Bool :=
  signature.inContract && signature.isPublic

/-- The signature of the method that prepares the static fields. -/
def Signature.initializer : Signature :=
  ⟨initializerName, initializerName, true, true, [], .void⟩

/-- A method of the image and its code. -/
structure Method where
  signature : Signature
  body : Body

/-- A method and the address of its first instruction. -/
structure PlacedMethod extends Method where
  base : Nat

/-- A linked program. -/
structure Program where
  /-- The methods in the order of the script. -/
  methods : List PlacedMethod
  /-- The slots of static fields by key. -/
  fields : Table String UInt8
  /-- The events by key. -/
  events : Table String Source.Event

/-! ## Layout -/

/-- Places methods one behind the other from `base` on. -/
def place (base : Nat) : List Method → List PlacedMethod
  | [] => []
  | method :: rest => ⟨method, base⟩ :: place (base + method.body.size) rest

/-- The most bytes of a script: its addresses are words of 32 bits. -/
def maxScriptSize : Nat := 0xffff_ffff

/-- Refuses a method whose code would end beyond the last address. -/
def checkPlaced (method : PlacedMethod) : Except Error Unit :=
  let finish := method.base + method.body.size
  if finish ≤ maxScriptSize then .ok ()
  else .error (.resourceLimit "program" .bytes finish maxScriptSize)

/-- The base of the method with this name. -/
def baseOf? (methods : List PlacedMethod) (name : String) : Option Nat :=
  (methods.find? fun method => method.signature.name = name).map (·.base)

/-- Fills in one reference to a method. -/
def resolveGlobal (methods : List PlacedMethod) (name : String) (base : Nat)
    (body : Body) (relocation : Relocation) : Except Error Body :=
  match relocation.target with
  | .source offset => .error (.unresolvedMethod name (Source.offsetText offset))
  | .method callee =>
    match baseOf? methods callee with
    | none => .error (.unresolvedMethod name callee)
    | some target => do
      let displacement : Int := target - (base + relocation.address : Nat)
      let code ← patch name body.code relocation displacement
      return { body with code }

/-- Fills in the references of a method. -/
def linkMethod (methods : List PlacedMethod) (method : PlacedMethod) :
    Except Error PlacedMethod := do
  let body ← method.body.relocations.foldlM
    (resolveGlobal methods method.signature.name method.base)
    { method.body with relocations := [] }
  return { method with body }

/-- Lays out methods and fills in the references between them. -/
def link (methods : List Method) : Except Error (List PlacedMethod) :=
  let placed := place 0 methods
  placed.mapM (linkMethod placed)

namespace Program

/-- The bytes of all methods. -/
def script (program : Program) : List UInt8 :=
  program.methods.flatMap (·.body.encode)

def hash (program : Program) : Hash :=
  .ofScript program.script

/-- The entry of the method that prepares the static fields, if there is one. -/
def initializer? (program : Program) : Option Nat :=
  baseOf? program.methods initializerName

/-- The name of the method at an address. -/
def label? (program : Program) (address : Nat) : Option String :=
  (program.methods.find? fun method => method.base = address).map (·.signature.name)

/-- The listing of the script with a label for each method. -/
def listing (program : Program) (palette : Text.Palette) : String :=
  Script.listing program.script.toArray program.label? palette

end Program

end StackContract.Contract
