import StackContract.Lowering.Storage
/-!
# Calls, events and function pointers

The source pushes the first argument first and the machine expects it on top, so arguments are reversed
before a call. Bound methods are lowered through their binding. An event becomes a notification.
-/

namespace StackContract.Lowering

open Assembly Compile Script Number
open Source (Op Callee Binding RawInstruction)

/-- The flags of a call that allow everything. -/
def allCallFlags : Nat := 0x0f

/-- Packs the top `n` items into an array, the first pushed becoming the first element. -/
def packArguments (n : Nat) : List Directive :=
  if n = 0 then [.op .newArray0] else Directive.reverse n ++ [.pushNat n, .op .pack]

/-- The machine instructions of a binding. -/
def rawInstruction (scope : Scope) (i : Source.Instruction) (name : String)
    (raw : RawInstruction) : Except Error Directive :=
  match Opcode.ofByte? raw.opcode with
  | none => .error (scope.unsupportedCall i name (.unknownOpcode raw.opcode))
  | some opcode =>
    if (Instruction.mk opcode raw.operand).fits then .ok (.instruction ⟨opcode, raw.operand⟩)
    else .error (scope.unsupportedCall i name (.malformedOperand opcode))

/-- A call through a binding, with the given number of arguments. -/
def callBinding (scope : Scope) (i : Source.Instruction) (name : String) (argCount : Nat) :
    Binding → Except Error (List Directive)
  | .service service => .ok (Directive.reverse argCount ++ [.service service])
  | .instructions code => code.mapM (rawInstruction scope i name)
  | .contract hash method =>
    match Hash.parse hash with
    | .error e => .error (scope.unsupportedCall i name (.badHash e))
    | .ok hash =>
      .ok (packArguments argCount ++ [.pushNat allCallFlags, .pushData (Text.utf8 method),
        .pushData hash.bytes, .service Service.contractCall.name])

/-- A call of a method of the module. -/
def callMethod (scope : Scope) (i : Source.Instruction) (name : String) :
    Except Error (List Directive) :=
  match scope.catalogue.methods.find? name with
  | none => .error (scope.unsupportedCall i name .unknownMethod)
  | some method =>
    match method.binding with
    | some binding => callBinding scope i name method.params.length binding
    | none =>
      if scope.catalogue.compiled.contains name then
        .ok (Directive.reverse method.params.length ++ [.call name])
      else .error (scope.unsupportedCall i name .noBody)

/-- The notification of the event that was loaded last. -/
def notify (scope : Scope) (i : Source.Instruction) : Lower (List Directive) := do
  match (← get).pendingEvent with
  | none => throw (scope.unsupportedCall i "Invoke" .noEvent)
  | some event =>
    modify fun carry => { carry with pendingEvent := none }
    return packArguments event.params.length
      ++ [.pushData (Text.utf8 event.displayName), .service Service.notify.name]

/-- A function pointer; the object it would be bound to is removed. It takes in the creation of the
delegate. -/
def lowerFunction (scope : Scope) (position : Nat) (i : Source.Instruction) (name : String) :
    Except Error Lowered :=
  match scope.inline? (position + 1) with
  | some .newDelegate =>
    if scope.catalogue.compiled.contains name then
      .ok ⟨[.op .drop, .pushAddress name], 1⟩
    else .error (scope.unsupportedCall i name .noBodyToPointTo)
  | _ => .error (scope.unsupported i)

end StackContract.Lowering
