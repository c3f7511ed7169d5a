import StackContract.Machine.Run
import StackContract.Text.Palette
/-!
# Traces

What a run does, as seen from the machines it goes through: the events of a step are a function of the
machine in front of it, found while the step is made, and `observedStep_snd` says that the step is the
one that is made unobserved. A brief trace leaves out the instructions. Lines are indented by the number
of calls in progress.
-/

namespace StackContract.Machine

open Script
open Text (Palette)

/-- Something that happens in a run. -/
inductive Event
  /-- An instruction is about to be carried out, with so many items on the stack. -/
  | instruction (offset : Nat) (opcode : Opcode) (depth : Nat)
  | call (target : Nat)
  | ret
  /-- A service was called with arguments, given by their texts. -/
  | service (service : Service) (arguments : List String)
  | fault (fault : Fault)
deriving DecidableEq, Repr

/-- The number of arguments that a service takes off the stack. -/
def argumentCount : Service → Option Nat
  | .notify => some 2
  | .log => some 1
  | .contractCall => none

/-- The call of a service by an instruction, if its arguments are there. -/
def serviceEvents (state : State) (i : Located) : List Event :=
  if operation i.opcode = .service then
    match Service.ofId? (serviceIdOf i.toInstruction) with
    | none => []
    | some service =>
      match argumentCount service with
      | none => []
      | some count =>
        let arguments := state.memory.stack.toList.take count
        if arguments.length < count then []
        else [.service service (arguments.map (·.text state.memory.heap))]
  else []

/-- The call or return by which control leaves an instruction. -/
def flowEvents : Flow → List Event
  | .enter target => [.call target]
  | .leave _ => [.ret]
  | _ => []

/-- What a machine shows of an instruction before it carries it out. -/
def instructionEvents (state : State) (i : Located) : List Event :=
  .instruction i.offset i.opcode state.memory.stack.size :: serviceEvents state i

/-- Adds a fault to the events of what failed with it. -/
def withFault {α : Type} (done : Array Event) :
    EStateM.Result Fault State α → Array Event × EStateM.Result Fault State α
  | .error fault state => (done.push (.fault fault), .error fault state)
  | .ok a state => (done, .ok a state)

/-- What the next step of a machine does, behind the events in `done`, and how it ends. -/
def observedStep (done : Array Event) (state : State) :
    Array Event × EStateM.Result Fault State Bool :=
  match state.current with
  | .error fault => withFault done (.error fault state)
  | .ok i =>
    let done := done.appendList (instructionEvents state i)
    match (execute i).run state with
    | .error fault after => withFault done (.error fault after)
    | .ok flow after => withFault (done.appendList (flowEvents flow)) ((settle i flow).run after)

/-- What a machine does within at most `fuel` instructions, behind the events in `done`. -/
def loopEvents (done : Array Event) : Nat → State → Array Event
  | 0, state => done.push (.fault (.executionLimit state.limits.execution))
  | fuel + 1, state =>
    match observedStep done state with
    | (done, .ok true after) => loopEvents done fuel after
    | (done, _) => done

theorem withFault_snd {α : Type} (done : Array Event) (result : EStateM.Result Fault State α) :
    (withFault done result).2 = result := by
  cases result <;> rfl

/-- Observing a step does not change it. -/
theorem observedStep_snd (done : Array Event) (state : State) :
    (observedStep done state).2 = step.run state := by
  show _ = EStateM.bind (Exec.orFault state.current) (fun i => execute i >>= settle i) state
  rw [observedStep]
  cases state.current with
  | error fault => rfl
  | ok i =>
    show _ = EStateM.bind (execute i) (settle i) state
    rw [EStateM.bind]
    dsimp only [EStateM.run]
    cases execute i state <;> exact withFault_snd ..

/-- What a run does. A run that is refused does nothing. -/
def runEvents (state : State) (entry : Nat) (arguments : List Item) : Array Event :=
  if state.script.size ≤ entry then #[]
  else loopEvents #[.call entry] state.limits.execution (state.start entry arguments)

/-- What the initializer does where it is still to run. -/
def initializerEvents (state : State) : Array Event :=
  match state.isInitialized, state.initializer with
  | false, some entry => runEvents state entry []
  | _, _ => #[]

/-- What an invocation does. -/
def invokeEvents (state : State) (entry : Nat) (arguments : List Item) : Array Event :=
  initializerEvents state ++
    match initializeStatics.run state with
    | .ok _ after => runEvents after entry arguments
    | .error _ _ => #[]

/-! ## Lines -/

/-- The text of an event, if the trace shows it. -/
def Event.text? (verbose : Bool) (palette : Palette) : Event → Option String
  | .instruction offset opcode depth =>
    if verbose then
      some (palette.paint palette.muted (Text.decimal4 offset) ++ " " ++ opcode.name ++ " "
        ++ palette.paint palette.muted ("[" ++ toString depth ++ "]"))
    else none
  | .call target => some (palette.paint palette.label "call" ++ " " ++ Text.decimal4 target)
  | .ret => some (palette.paint palette.label "return")
  | .service called arguments =>
    some (palette.paint palette.alert "syscall" ++ " " ++ called.name ++ "("
      ++ commaSeparated arguments ++ ")")
  | .fault cause => some (palette.paint palette.alert "fault" ++ " " ++ cause.message)

/-- The indentation of an event's line, and that of the events behind it. -/
def Event.indentation (depth : Nat) : Event → Nat × Nat
  | .call _ => (depth, depth + 1)
  | .ret => (depth - 1, depth - 1)
  | _ => (depth, depth)

/-- The lines of a trace that starts with no call in progress. -/
def traceLines (verbose : Bool) (palette : Palette) (events : Array Event) : Array String :=
  (events.foldl (fun (state : Nat × Array String) event =>
    let (own, next) := event.indentation state.1
    match event.text? verbose palette with
    | some text => (next, state.2.push (String.ofList (List.replicate (2 * own) ' ') ++ text))
    | none => (next, state.2)) (0, #[])).2

end StackContract.Machine
