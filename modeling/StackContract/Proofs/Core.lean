import StackContract.Machine.Run
import StackContract.Proofs.Alike
import StackContract.Proofs.Discovery
/-!
# A machine for the core of the source

What the core of the source means, without its translation: a machine that goes from one source
instruction to another, with one stack for all methods in progress, and slots for each of them. What an
instruction computes is what a single opcode does.
-/

namespace StackContract.Core

open Machine Script Number
open Source (Op Place Condition Comparison Arithmetic Conversion)
open Compile (ofInt32 ofInt64)
open Contract (declaredMethods declaredBodies)

/-! ## Instructions -/

/-- What an instruction of the core does. -/
inductive Action
  | skip
  | push (item : Item)
  /-- Works on the stack as an opcode does. -/
  | compute (opcode : Opcode)
  | load (place : Place) (index : UInt16)
  | store (place : Place) (index : UInt16)
  | branch (condition : Condition) (target : UInt32)
  | switch (targets : List UInt32)
  | call (name : String)
  | ret
  | throw

/-- Whether some branch of a body leads to an offset. -/
def isTarget (body : List Source.Instruction) (offset : UInt32) : Bool :=
  body.any fun i => i.op.targets.contains offset

/-- The operation at a position, unless a branch may lead there. -/
def inline? (body : List Source.Instruction) (position : Nat) : Option Op :=
  body[position]?.bind fun i => if isTarget body i.offset then none else some i.op

/-- A literal of `bits` bits. A conversion right behind it reads it anew. -/
def literal (body : List Source.Instruction) (position : Nat) (v : Int128) (bits : Nat) :
    Action × Nat :=
  match inline? body (position + 1) with
  | some (.convert conversion) => (.push (.integer (conversion.reinterpret v bits)), position + 2)
  | _ => (.push (.integer v), position + 1)

/-- Whether a comparison with zero follows, which negates a truth value. -/
def isNegated (body : List Source.Instruction) (position : Nat) : Bool :=
  match inline? body (position + 1), inline? body (position + 2) with
  | some (.literal32 v), some (.compare .equal) => v = 0
  | _, _ => false

/-- The opcode of an operation on numbers. -/
def arithmetic? : Arithmetic → Option Opcode
  | .add => some .add
  | .sub => some .sub
  | .mul => some .mul
  | .div => some .div
  | .rem => some .mod
  | .neg => some .negate
  | .complement => some .invert
  | .and => some .and
  | .or => some .or
  | .xor => some .xor
  | .shl => some .shl
  | .shr => some .shr
  | _ => none

/-- What the instruction at a position does, and the position behind what it covers. With `idioms`, an
order whose truth value is negated right behind it is the opposite order. -/
def actionAt? (idioms : Bool) (body : List Source.Instruction) (position : Nat) :
    Op → Option (Action × Nat)
  | .nop | .convert _ => some (.skip, position + 1)
  | .pop => some (.compute .drop, position + 1)
  | .dup => some (.compute .dup, position + 1)
  | .ret => some (.ret, position + 1)
  | .throw => some (.throw, position + 1)
  | .literal32 v => some (literal body position (ofInt32 v) 32)
  | .literal64 v => some (literal body position (ofInt64 v) 64)
  | .loadString s => some (.push (.byteString (Text.utf8 s)), position + 1)
  | .load place index => some (.load place index, position + 1)
  | .store place index => some (.store place index, position + 1)
  | .arithmetic operation => (arithmetic? operation).map fun opcode => (.compute opcode, position + 1)
  | .compare .equal => some (.compute .numEqual, position + 1)
  | .compare .greater =>
    if idioms && isNegated body position then some (.compute .le, position + 3)
    else some (.compute .gt, position + 1)
  | .compare .less =>
    if idioms && isNegated body position then some (.compute .ge, position + 3)
    else some (.compute .lt, position + 1)
  | .branch condition target => some (.branch condition target, position + 1)
  | .switch targets => some (.switch targets, position + 1)
  | .call (.method name) => some (.call name, position + 1)
  | _ => none

/-- What an opcode computes. -/
def computation (opcode : Opcode) : Eval Unit :=
  match simpleOp? opcode with
  | some op => op.run ⟨opcode, []⟩
  | none => return ()

/-- Whether the top truth value, which is taken off, is as expected. -/
def truth (expected : Bool) : Eval Bool := do
  return (← Eval.popBoolean) == expected

/-- Whether a comparison holds. -/
def compared (opcode : Opcode) : Eval Bool := do
  computation opcode
  truth true

/-- Decides a branch. -/
def decision? : Condition → Option (Eval Bool)
  | .always | .leave => some (return true)
  | .ifTrue => some (truth true)
  | .ifFalse => some (truth false)
  | .equal => some (compared .numEqual)
  | .notEqual => some (compared .numNotEqual)
  | .less => some (compared .lt)
  | .lessEqual => some (compared .le)
  | .greater => some (compared .gt)
  | .greaterEqual => some (compared .ge)
  | _ => none

/-- The number that chooses among the cases of a switch. Without cases, any item will do. -/
def choice (targets : List UInt32) : Eval (Option UInt32) :=
  if targets.isEmpty then do
    let _ ← Eval.pop
    return none
  else do
    let v ← Eval.popInteger
    return if 0 ≤ v.val then targets[v.val.toNat]? else none

/-! ## The machine -/

/-- A method in progress. -/
structure Activation where
  method : Source.Method
  position : Nat
  locals : Array Item
  arguments : Array Item

/-- The machine between two instructions. -/
structure Config where
  memory : Memory
  /-- The method in progress. -/
  top : Activation
  /-- The methods that wait for it, the innermost first. -/
  callers : List Activation

/-- What comes of an instruction. -/
inductive Next
  | running (config : Config)
  | returned (items : List Item) (heap : Heap)
  | fault (kind : FaultKind)
  /-- The code is none of the core. -/
  | stuck

/-- Goes on with the result of a computation. -/
def follow {α : Type} (x : Eval α) (memory : Memory) (next : α → Memory → Next) : Next :=
  match x 0 memory with
  | .ok a memory => next a memory
  | .error fault _ => .fault fault.kind

namespace Activation

/-- The slots of a place. -/
def slots (activation : Activation) : Place → Array Item
  | .locals => activation.locals
  | .arguments => activation.arguments

def withSlots (activation : Activation) (place : Place) (items : Array Item) : Activation :=
  match place with
  | .locals => { activation with locals := items }
  | .arguments => { activation with arguments := items }

/-- A method at its start. -/
def enter (method : Source.Method) (arguments : List Item) : Activation where
  method
  position := 0
  locals := Array.replicate method.locals.length .null
  arguments := arguments.toArray

end Activation

namespace Config

/-- Goes on at a position, with this memory. -/
def goTo (config : Config) (position : Nat) (memory : Memory) : Next :=
  .running { config with memory, top := { config.top with position } }

/-- Goes on at the first instruction with an offset. -/
def jump (config : Config) (target : UInt32) (memory : Memory) : Next :=
  match config.top.method.body.findIdx? fun i => i.offset = target with
  | some position => config.goTo position memory
  | none => .stuck

/-- Leaves the method in progress. -/
def leave (config : Config) : Next :=
  match config.callers with
  | [] => .returned config.memory.stack.toList config.memory.heap
  | caller :: callers => .running ⟨config.memory, caller, callers⟩

/-- Calls a method. The last argument is on top of the stack. -/
def call (config : Config) (module : Source.Module) (name : String) (next : Nat) : Next :=
  match (declaredMethods module).find? fun method => method.name = name with
  | none => .stuck
  | some callee =>
    follow (Eval.popMany callee.params.length) config.memory fun arguments memory =>
      .running ⟨memory, .enter callee arguments.reverse,
        { config.top with position := next } :: config.callers⟩

/-- Carries out an action; `next` is the position behind it. -/
def perform (config : Config) (module : Source.Module) (next : Nat) : Action → Next
  | .skip => config.goTo next config.memory
  | .push item => follow (Eval.push item) config.memory fun _ memory => config.goTo next memory
  | .compute opcode =>
    follow (computation opcode) config.memory fun _ memory => config.goTo next memory
  | .load place index =>
    match (config.top.slots place)[index.toNat]? with
    | some item => follow (Eval.push item) config.memory fun _ memory => config.goTo next memory
    | none => .stuck
  | .store place index =>
    follow Eval.pop config.memory fun item memory =>
      let items := (config.top.slots place).setIfInBounds index.toNat item
      .running ⟨memory, { config.top.withSlots place items with position := next }, config.callers⟩
  | .branch condition target =>
    match decision? condition with
    | none => .stuck
    | some decision => follow decision config.memory fun taken memory =>
      if taken then config.jump target memory else config.goTo next memory
  | .switch targets =>
    follow (choice targets) config.memory fun chosen memory =>
      match chosen with
      | some target => config.jump target memory
      | none => config.goTo next memory
  | .call name => config.call module name next
  | .ret => config.leave
  | .throw => follow Eval.pop config.memory fun _ _ => .fault .thrown

theorem perform_load {config : Config} {module : Source.Module} {next : Nat} {place : Place}
    {index : UInt16} {item : Item} (h : (config.top.slots place)[index.toNat]? = some item) :
    config.perform module next (.load place index)
      = follow (Eval.push item) config.memory fun _ memory => config.goTo next memory := by
  show (match (config.top.slots place)[index.toNat]? with | some item => _ | none => _) = _
  rw [h]

theorem perform_branch {config : Config} {module : Source.Module} {next : Nat}
    {condition : Condition} {target : UInt32} {decision : Eval Bool}
    (h : decision? condition = some decision) :
    config.perform module next (.branch condition target)
      = follow decision config.memory fun taken memory =>
        if taken then config.jump target memory else config.goTo next memory := by
  show (match decision? condition with | none => _ | some decision => _) = _
  rw [h]

/-- Carries out the next instruction. Behind the last one, the method returns. -/
def step (config : Config) (idioms : Bool) (module : Source.Module) : Next :=
  match config.top.method.body[config.top.position]? with
  | none => config.leave
  | some i =>
    match actionAt? idioms config.top.method.body config.top.position i.op with
    | none => .stuck
    | some (action, next) => config.perform module next action

end Config

/-- A method that is called from outside, the first argument on top of the stack. -/
def start (method : Source.Method) (arguments : List Item) (heap : Heap) : Next :=
  follow (Eval.popMany method.params.length) ⟨.ofList arguments, heap⟩ fun arguments memory =>
    .running ⟨memory, .enter method arguments, []⟩

/-- How a run ends. -/
inductive Outcome
  | returned (items : List Item) (heap : Heap)
  | fault (kind : FaultKind)

/-- Runs of at most so many instructions. -/
inductive Executes (idioms : Bool) (module : Source.Module) : Nat → Next → Outcome → Prop
  | returned {n : Nat} {items : List Item} {heap : Heap} :
    Executes idioms module n (.returned items heap) (.returned items heap)
  | fault {n : Nat} {kind : FaultKind} : Executes idioms module n (.fault kind) (.fault kind)
  | running {n : Nat} {config : Config} {outcome : Outcome}
    (h : Executes idioms module n (config.step idioms module) outcome) :
    Executes idioms module (n + 1) (.running config) outcome

/-- The machine goes from one place to another one by so many instructions. -/
inductive Reaches (idioms : Bool) (module : Source.Module) : Nat → Next → Next → Prop
  | here {next : Next} : Reaches idioms module 0 next next
  | step {n : Nat} {config : Config} {next : Next}
    (h : Reaches idioms module n (config.step idioms module) next) :
    Reaches idioms module (n + 1) (.running config) next

/-- A run goes on behind the instructions that reach a place. -/
theorem Reaches.executes {idioms : Bool} {module : Source.Module} {k n : Nat} {next next' : Next}
    {outcome : Outcome} (h : Reaches idioms module k next next')
    (hrest : Executes idioms module n next' outcome) : Executes idioms module (n + k) next outcome := by
  induction h with
  | here => exact hrest
  | step _ ih => exact .running (ih hrest)

/-- A run goes through every place that it reaches. -/
theorem Reaches.rest {idioms : Bool} {module : Source.Module} {k n : Nat} {next next' : Next}
    {outcome : Outcome} (h : Reaches idioms module k next next')
    (hrun : Executes idioms module n next outcome) :
    ∃ m, n = m + k ∧ Executes idioms module m next' outcome := by
  induction h generalizing n with
  | here => exact ⟨n, rfl, hrun⟩
  | step _ ih =>
    cases hrun with
    | running hrun =>
      obtain ⟨m, rfl, hrest⟩ := ih hrun
      exact ⟨m, rfl, hrest⟩

/-! ## Modules of the core -/

/-- The operations of the core. -/
def InCore (module : Source.Module) : Op → Prop
  | .nop | .pop | .dup | .ret | .throw | .literal32 _ | .literal64 _ | .loadString _ | .load _ _
  | .store _ _ | .convert _ | .switch _ => True
  | .arithmetic operation => (arithmetic? operation).isSome = true
  | .compare comparison => comparison = .equal ∨ comparison = .greater ∨ comparison = .less
  | .branch condition _ => (decision? condition).isSome = true
  | .call (.method name) => name ∈ (declaredBodies module).map (·.2.name)
  | _ => False

/-- All methods with a body are of the core. -/
def ModuleInCore (module : Source.Module) : Prop :=
  ∀ entry ∈ declaredBodies module, ∀ i ∈ entry.2.body, InCore module i.op

end StackContract.Core
