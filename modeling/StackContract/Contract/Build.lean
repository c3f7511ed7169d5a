import StackContract.Contract.Interface
import StackContract.Lowering.Body
/-!
# Building contracts

From a source module to a contract: every declaration is found first, so that calls may lead forward;
then the static fields are laid out, the bodies are written in the order of discovery, an initializer is
added behind them if there is anything to initialize, and all of them are linked. The interface is
exported last.
-/

namespace StackContract

/-- A compiled contract. -/
structure Contract where
  program : Contract.Program
  interface : Contract.Interface

namespace Contract

open Assembly Compile Script Lowering
open Source (TypeDecl Module)

/-- Why a module has no contract. -/
inductive Failure
  | compile (error : Error)
  | interface (error : ExportError)

def Failure.message : Failure → String
  | .compile error => error.message
  | .interface error => error.message

/-! ## Discovery -/

/-- The declarations of a module, found type by type. -/
structure Discovery where
  methods : Table String Source.Method := {}
  /-- The methods with a body, in the order of discovery. -/
  compiled : List (TypeDecl × Source.Method) := []
  events : Table String Source.Event := {}

/-- Whether a method gets a body in the image. -/
def hasBody (method : Source.Method) : Bool :=
  method.role = .normal && method.binding.isNone

/-- Adds a method, whose name has to be new. -/
def Discovery.addMethod (type : TypeDecl) (found : Discovery) (method : Source.Method) :
    Progress Error Discovery := do
  if found.methods.contains method.name then throw (.duplicateMethod method.name)
  let found := { found with methods := found.methods.insert method.name method }
  if hasBody method then
    Progress.report (.registered method.name method.displayName)
    return { found with compiled := found.compiled ++ [(type, method)] }
  else return found

/-- Adds an event under the key of its field. -/
def Discovery.addEvent (type : TypeDecl) (found : Discovery) (event : Source.Event) : Discovery :=
  { found with events := found.events.insert (type.keyOf event.name) event }

/-- Adds the declarations of a type. -/
def Discovery.addType (found : Discovery) (type : TypeDecl) : Progress Error Discovery := do
  let found ← type.methods.foldlM (Discovery.addMethod type) found
  return type.events.foldl (Discovery.addEvent type) found

/-! ## Bodies -/

/-- Writes a body behind its prologue and resolves its branches. -/
def writeBody (scope : Scope) (prologue : List Directive) : Except Error Body := do
  linkLocal scope.method (assemble (← lowerBody scope prologue))

/-- Reports a finished method. -/
def reportLowered (name : String) (body : Body) : Progress Error Unit :=
  Progress.report (.lowered name body.size body.relocations.length)

/-- Makes room for local variables and takes the arguments from the stack. -/
def slotPrologue (locals params : UInt8) : List Directive :=
  if locals = 0 ∧ params = 0 then [] else [.instruction ⟨.initSlot, [locals, params]⟩]

/-- Writes the body of a method. -/
def buildMethod (catalogue : Catalogue) (limits : Limits) (type : TypeDecl)
    (method : Source.Method) : Progress Error Method := do
  let params ← Progress.ofExcept
    (checkLimit method.name .parameters method.params.length limits.params)
  let locals ← Progress.ofExcept
    (checkLimit method.name .locals method.locals.length limits.locals)
  let scope : Scope := ⟨catalogue, method.name, locals, params, method.body.toArray⟩
  let body ← Progress.ofExcept (writeBody scope (slotPrologue locals params))
  reportLowered method.name body
  return ⟨⟨method.name, method.displayName, method.isPublic, type.role = .contract, method.params,
    method.returnType⟩, body⟩

/-- The number of locals that initializer code needs: it declares none itself. -/
def localsUsed (code : List Source.Instruction) : Nat :=
  code.foldl (fun count i =>
    match i.op with
    | .load .locals index | .store .locals index | .address .locals index =>
      max count (index.toNat + 1)
    | _ => count) 0

/-- Makes room for the static fields and the locals of the initializer. -/
def initializerPrologue (slots : Nat) (locals : UInt8) : List Directive :=
  (if slots = 0 then [] else [.instruction ⟨.initSSlot, [UInt8.ofNat slots]⟩])
    ++ (if locals = 0 then [] else [.instruction ⟨.initSlot, [locals, 0]⟩])

/-- Writes the method that prepares the static fields. -/
def buildInitializer (catalogue : Catalogue) (limits : Limits) : Progress Error Method := do
  let statics := catalogue.statics
  let locals ← Progress.ofExcept
    (checkLimit initializerName .locals (localsUsed statics.init) limits.locals)
  let scope : Scope := ⟨catalogue, initializerName, locals, 0, statics.init.toArray⟩
  let body ← Progress.ofExcept
    (writeBody scope (initializerPrologue statics.slots.size locals))
  reportLowered initializerName body
  Progress.report (.initializer statics.slots.size statics.statements)
  return ⟨.initializer, body⟩

/-! ## Contracts -/

/-- Compiles a module to a linked program. -/
def buildProgram (limits : Limits) (module : Module) : Progress Error Program := do
  let found ← module.compiledTypes.foldlM Discovery.addType {}
  let statics ← StaticLayout.ofModule module limits.staticFields
  let names := found.compiled.map (·.2.name)
  if statics.needsInitializer && names.contains initializerName then
    throw (.duplicateMethod initializerName)
  let catalogue : Catalogue := ⟨found.methods, names, found.events, statics⟩
  let methods ← found.compiled.mapM fun (type, method) => buildMethod catalogue limits type method
  let last ← if statics.needsInitializer then
      (fun method => [method]) <$> buildInitializer catalogue limits
    else pure []
  let all := methods ++ last
  for method in place 0 all do
    Progress.report (.placed method.signature.name method.base)
    Progress.ofExcept (checkPlaced method)
  let linked ← Progress.ofExcept (link all)
  return ⟨linked, statics.slots, found.events⟩

/-- Runs a compilation: its outcome, and what it reported up to its end or its failure. -/
def buildWithEvents (limits : Limits) (module : Module) :
    Except Failure Contract × Array Compile.Event :=
  match (buildProgram limits module).run #[] with
  | .error e events => (.error (.compile e), events)
  | .ok program events =>
    match Interface.ofProgram program with
    | .error e => (.error (.interface e), events)
    | .ok interface => (.ok ⟨program, interface⟩, events)

/-- The contract of a module. -/
def build (limits : Limits) (module : Module) : Except Failure Contract :=
  (buildWithEvents limits module).1

/-- The entry of an exported method. -/
def entry? (contract : Contract) (name : String) : Option Nat :=
  contract.interface.offset? name

/-- The entry that prepares the static fields, if there is anything to prepare. -/
def initializer? (contract : Contract) : Option Nat :=
  contract.program.initializer?

/-- The interface as a JSON text. -/
def interfaceText (contract : Contract) : String :=
  contract.interface.toJson.pretty

end Contract

end StackContract
