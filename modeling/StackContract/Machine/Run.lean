import StackContract.Machine.Execution
/-!
# Runs

A run executes a script from an entry until the entry frame returns, within the limits. `invoke` runs an
exported entry; before the first one it runs the initializer, and does so again as long as that faults.
-/

namespace StackContract.Machine

/-- Executes at most `fuel` instructions. The answer is the stack at the end, top item first. -/
def loop : Nat → Exec (List Item)
  | 0 => do throw (.executionLimit (← get).limits.execution)
  | fuel + 1 => do
    if ← step then loop fuel
    else
      let stack := (← get).memory.stack
      modify fun state => { state with memory := { state.memory with stack := .empty } }
      return stack.toList

/-- The machine at an entry, with arguments on the stack and nothing else of earlier runs. -/
def State.start (state : State) (entry : Nat) (arguments : List Item) : State :=
  { state with
    memory := { state.memory with stack := .ofList arguments }
    frames := .ofList [{ returnTo := none }]
    address := entry }

/-- Runs the script from an entry, the first argument on top of the stack. -/
def run (entry : Nat) (arguments : List Item) : Exec (List Item) := do
  if (← get).script.size ≤ entry then throw (.invalidEntry entry)
  modify (·.start entry arguments)
  loop (← get).limits.execution

/-- Runs the initializer unless it has returned before. -/
def initializeStatics : Exec Unit := do
  let state ← get
  if state.isInitialized then return ()
  match state.initializer with
  | some entry => let _ ← run entry []
  | none => pure ()
  modify fun state => { state with isInitialized := true }

/-- Runs an entry, the initializer first if it is still to run. -/
def invoke (entry : Nat) (arguments : List Item) : Exec (List Item) := do
  initializeStatics
  run entry arguments

end StackContract.Machine
