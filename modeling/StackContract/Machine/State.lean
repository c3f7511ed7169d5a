import StackContract.Machine.Operation
/-!
# The state of the machine

A machine holds a script, the memory, the static slots, the frames of the calls in progress, and what
the script has told the outside. Static slots, notifications and logs outlast a run; stack and frames
do not.
-/

namespace StackContract.Machine

open Script

/-- The limits of a run. -/
structure Limits where
  /-- The most instructions of a run. -/
  execution : Nat := 1000000
  /-- The most frames at a time. -/
  recursion : Nat := 1024
  /-- The most items on the stack between two instructions. -/
  stack : Nat := 2048
deriving DecidableEq, Repr

/-- A call in progress. -/
structure Frame where
  /-- Where the caller goes on; none for the entry. -/
  returnTo : Option Nat
  locals : Array Item := #[]
  arguments : Array Item := #[]
deriving DecidableEq, Repr

/-- An event raised by the script. -/
structure Notification where
  name : String
  state : List Item
deriving DecidableEq, Repr

/-- A machine between two instructions. -/
structure State where
  script : Array UInt8
  /-- The entry that prepares the static slots. -/
  initializer : Option Nat := none
  limits : Limits := {}
  /-- Whether the initializer has returned, or none is needed. -/
  isInitialized : Bool := false
  /-- The static slots, once they are allocated. -/
  statics : Option (Array Item) := none
  memory : Memory := {}
  /-- The calls in progress, the innermost on top. -/
  frames : Stack Frame := .empty
  /-- The address of the current instruction. -/
  address : Nat := 0
  notifications : Array Notification := #[]
  logs : Array String := #[]

instance : Inhabited State := ⟨{ script := #[] }⟩

/-- A computation on the machine, which keeps its state when it faults. -/
abbrev Exec (α : Type) := EStateM Fault State α

namespace Exec

/-- Runs a computation on the memory at the current address. -/
def evaluate {α : Type} (x : Eval α) : Exec α := fun state =>
  let memory := state.memory
  let address := state.address
  let state := { state with memory := {} }
  match x address memory with
  | .ok a memory => .ok a { state with memory }
  | .error fault memory => .error fault { state with memory }

/-- Takes over a result that does not change the machine. -/
def orFault {α : Type} : Except Fault α → Exec α
  | .ok a => pure a
  | .error fault => throw fault

end Exec

end StackContract.Machine
