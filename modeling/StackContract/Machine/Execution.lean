import StackContract.Machine.State
/-!
# Execution

`execute` carries out one instruction and says where control goes from there; `settle` checks the size
of the stack and goes there; `step` does both for the instruction at the current address.

Every check of an instruction comes before its effects, so a fault leaves all as it was but for the
operands that were popped.
-/

namespace StackContract.Machine

open Script

/-- Where control goes after an instruction. -/
inductive Flow
  | next
  | jump (address : Nat)
  /-- Into a method, whose frame is in place. -/
  | enter (address : Nat)
  /-- Out of a method, whose frame is gone: back to its caller, or to the end of the run. -/
  | leave (returnTo : Option Nat)
deriving DecidableEq, Repr

/-- The target of an instruction, if it lies in the script. -/
def targetOf (script : Array UInt8) (i : Located) : Except Fault Nat :=
  match i.target? with
  | some target => if target < script.size then .ok target else .error (.invalidEntry i.offset)
  | none => .error (.invalidEntry i.offset)

/-- Goes to the target of an instruction. -/
def jumpTo (i : Located) : Exec Flow := do
  return .jump (← Exec.orFault (targetOf (← get).script i))

/-- Enters the method at an address. -/
def enter (i : Located) (target : Nat) : Exec Flow := do
  let state ← get
  if state.limits.recursion ≤ state.frames.size then
    throw (.recursionLimit state.limits.recursion)
  if state.script.size ≤ target then throw (.invalidEntry target)
  modify fun state => { state with frames := state.frames.push { returnTo := some i.next } }
  return .enter target

/-- Leaves the innermost method. -/
def leave : Exec Flow := do
  match (← get).frames.pop? with
  | none => throw (.stackUnderflow (← get).address)
  | some (frame, rest) =>
    modify fun state => { state with frames := rest }
    return .leave frame.returnTo

/-! ## Slots -/

/-- Makes room for static fields, once in the life of the machine. -/
def allocateStatics (count : Nat) : Exec Unit := do
  if (← get).statics.isSome then throw .staticsAlreadyAllocated
  modify fun state => { state with statics := some (Array.replicate count .null) }

/-- Gives the innermost frame its locals, and its arguments from the stack. -/
def allocateSlots (locals params : Nat) : Exec Unit := do
  let arguments ← Exec.evaluate (Eval.popMany params)
  match (← get).frames.pop? with
  | none => throw (.stackUnderflow (← get).address)
  | some (frame, rest) =>
    let frame := { frame with
      locals := Array.replicate locals .null
      arguments := arguments.toArray }
    modify fun state => { state with frames := rest.push frame }

/-- The slots of an area: those of the machine or of its innermost frame. -/
def State.slots (state : State) (area : SlotArea) (index : UInt8) : Except Fault (Array Item) :=
  match area with
  | .static =>
    match state.statics with
    | some slots => .ok slots
    | none => .error (.invalidSlot .static index)
  | .locals =>
    match state.frames.toList with
    | frame :: _ => .ok frame.locals
    | [] => .error (.stackUnderflow state.address)
  | .arguments =>
    match state.frames.toList with
    | frame :: _ => .ok frame.arguments
    | [] => .error (.stackUnderflow state.address)

/-- The machine with other slots in an area. -/
def State.withSlots (state : State) (area : SlotArea) (slots : Array Item) : State :=
  match area, state.frames.pop? with
  | .static, _ => { state with statics := some slots }
  | .locals, some (frame, rest) => { state with frames := rest.push { frame with locals := slots } }
  | .arguments, some (frame, rest) =>
    { state with frames := rest.push { frame with arguments := slots } }
  | _, none => state

/-- Pushes the item of a slot. -/
def loadSlot (area : SlotArea) (index : UInt8) : Exec Unit := do
  let slots ← Exec.orFault ((← get).slots area index)
  match slots[index.toNat]? with
  | some item => Exec.evaluate (Eval.push item)
  | none => throw (.invalidSlot area index)

/-- Pops an item into a slot. -/
def storeSlot (area : SlotArea) (index : UInt8) : Exec Unit := do
  let item ← Exec.evaluate Eval.pop
  let slots ← Exec.orFault ((← get).slots area index)
  if index.toNat < slots.size then
    modify fun state => state.withSlots area (slots.setIfInBounds index.toNat item)
  else throw (.invalidSlot area index)

/-- Carries out a slot instruction. -/
def accessSlot (i : Instruction) : Exec Unit :=
  match i.access? with
  | some ⟨area, true, index⟩ => loadSlot area index
  | some ⟨area, false, index⟩ => storeSlot area index
  | none => throw (.unsupported i.opcode)

/-! ## Services -/

/-- Takes a notification off the stack: its name is on top, the array of its values below. -/
def popNotification : Eval Notification := do
  let name ← Eval.pop
  let values ← Eval.pop
  let heap ← Eval.heap
  match values with
  | .array ref | .struct ref =>
    return ⟨← Eval.orFault (name.asText heap), (heap.sequence ref).toList⟩
  | other => throw (other.invalid (.kind .array))

/-- Raises an event. -/
def notify : Exec Unit := do
  let notification ← Exec.evaluate popNotification
  modify fun state => { state with notifications := state.notifications.push notification }

/-- Logs the text on the stack. -/
def log : Exec Unit := do
  let text ← Exec.evaluate Eval.popText
  modify fun state => { state with logs := state.logs.push text }

/-- The identifier of the service that an instruction calls. -/
def serviceIdOf (i : Instruction) : UInt32 :=
  UInt32.ofNat (Number.natOfBytes (i.operand.take 4))

/-- Calls a service. -/
def callService (id : UInt32) : Exec Unit :=
  match Service.ofId? id with
  | none => throw (.unknownService id)
  | some .notify => notify
  | some .log => log
  | some .contractCall => throw (.unavailableService .contractCall)

/-! ## Instructions -/

/-- A message on the stack, for faults that carry one. -/
def popMessage (hasMessage : Bool) : Eval (Option String) := do
  if hasMessage then return some (← Eval.popText) else return none

/-- Fails unless the top truth value holds. -/
def assertTop (hasMessage : Bool) : Eval Unit := do
  let message ← popMessage hasMessage
  unless ← Eval.popBoolean do throw (.assertFailed message)

/-- The address on the stack that is to be called. -/
def popPointer : Eval Nat := do
  match ← Eval.pop with
  | .pointer address => return address
  | other => throw (other.invalid (.kind .pointer))

/-- Goes on with the next instruction. -/
def andNext (x : Exec Unit) : Exec Flow := do
  x
  return .next

/-- Carries out an operation of the instruction `i`. -/
def Operation.run (i : Located) : Operation → Exec Flow
  | .simple op => andNext (Exec.evaluate (op.run i.toInstruction))
  | .pushAddress => andNext do
    let target ← Exec.orFault (targetOf (← get).script i)
    Exec.evaluate (Eval.push (.pointer target))
  | .jump => jumpTo i
  | .jumpIf expected => do
    if (← Exec.evaluate Eval.popBoolean) = expected then jumpTo i else return .next
  | .jumpCompare relation => do
    if ← Exec.evaluate relation.test then jumpTo i else return .next
  | .call => do enter i (← Exec.orFault (targetOf (← get).script i))
  | .callPointer => do enter i (← Exec.evaluate popPointer)
  | .ret => leave
  | .abort hasMessage => do throw (.aborted (← Exec.evaluate (popMessage hasMessage)))
  | .assert hasMessage => andNext (Exec.evaluate (assertTop hasMessage))
  | .raise => do
    let item ← Exec.evaluate Eval.pop
    throw (.thrown (item.text (← get).memory.heap))
  | .service => andNext (callService (serviceIdOf i.toInstruction))
  | .initStatics => andNext (allocateStatics (i.operand.headD 0).toNat)
  | .initSlots =>
    andNext (allocateSlots (i.operand.headD 0).toNat (i.operand.getD 1 0).toNat)
  | .slot => andNext (accessSlot i.toInstruction)
  | .unsupported => throw (.unsupported i.opcode)

/-- Carries out an instruction. -/
def execute (i : Located) : Exec Flow :=
  (operation i.opcode).run i

/-- Checks the size of the stack and goes where control leads. The answer is whether the run goes on. -/
def settle (i : Located) (flow : Flow) : Exec Bool := do
  let state ← get
  if state.limits.stack < state.memory.stack.size then throw (.stackLimit state.limits.stack)
  match flow with
  | .next =>
    modify fun state => { state with address := i.next }
    return true
  | .jump address | .enter address | .leave (some address) =>
    modify fun state => { state with address }
    return true
  | .leave none => return false

/-- The instruction at the current address. -/
def State.current (state : State) : Except Fault Located :=
  match decode state.script state.address with
  | .ok i => .ok i
  | .error e => .error (.decode e)

/-- Carries out the instruction at the current address. The answer is whether the run goes on. -/
def step : Exec Bool := do
  let i ← Exec.orFault (← get).current
  settle i (← execute i)

end StackContract.Machine
