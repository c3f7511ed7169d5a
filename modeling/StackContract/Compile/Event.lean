import StackContract.Compile.Constant
import StackContract.Text.Palette
/-!
# Progress of a compilation

What a compilation reports as it goes, and the lines of its trace. A brief trace leaves out discovery.
-/

namespace StackContract.Compile

open Text (Palette)

/-- Something that a compilation has done. -/
inductive Event
  /-- A method with a body was found. -/
  | registered (name displayName : String)
  /-- A mutable static field has its slot. -/
  | slot (field : String) (index : UInt8)
  /-- A readonly static field has its value. -/
  | folded (field : String) (value : Constant)
  /-- A body is written, its own branches resolved. -/
  | lowered (name : String) (size pending : Nat)
  /-- The initializer is written. -/
  | initializer (slots statements : Nat)
  /-- A method has its place in the image. -/
  | placed (name : String) (base : Nat)
deriving DecidableEq, Repr

namespace Event

/-- Whether an event belongs to discovery. -/
def isDiscovery : Event → Bool
  | .registered _ _ | .slot _ _ | .folded _ _ => true
  | _ => false

/-- The word in front of an event's line. -/
def tag : Event → String
  | .registered _ _ => "register"
  | .slot _ _ => "slot"
  | .folded _ _ => "fold"
  | .lowered _ _ _ => "translate"
  | .initializer _ _ => "initialize"
  | .placed _ _ => "place"

def detail (palette : Palette) : Event → String
  | .registered name displayName => name ++ " as " ++ displayName
  | .slot field index => field ++ " -> " ++ toString index.toNat
  | .folded field value => field ++ " = " ++ palette.paint palette.literal value.text
  | .lowered name size pending =>
    palette.paint palette.label name ++ " " ++ toString size ++ " bytes, " ++ toString pending
      ++ " pending"
  | .initializer slots statements =>
    toString slots ++ " slots, " ++ toString statements ++ " statements"
  | .placed name base => palette.paint palette.label name ++ " @ " ++ Text.decimal4 base

def line (palette : Palette) (event : Event) : String :=
  palette.paint palette.muted (Text.spacePadded 10 event.tag) ++ " " ++ event.detail palette

/-- The lines of a trace; only a verbose one shows discovery. -/
def lines (verbose : Bool) (palette : Palette) (events : List Event) : List String :=
  (events.filter fun event => verbose || !event.isDiscovery).map (line palette)

end Event

/-- A compilation in progress: the events so far, and an error that ends it. -/
abbrev Progress (ε α : Type) := EStateM ε (Array Event) α

namespace Progress

variable {ε α : Type}

/-- Reports an event. -/
def report (event : Event) : Progress ε Unit :=
  modify fun events => events.push event

/-- Takes over a result that reports nothing. -/
def ofExcept : Except ε α → Progress ε α
  | .ok a => pure a
  | .error e => throw e

end Progress

end StackContract.Compile
