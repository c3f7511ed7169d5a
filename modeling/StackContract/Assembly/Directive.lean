import StackContract.Assembly.Body
import StackContract.Script.ItemKind
import StackContract.Script.Service
/-!
# Assembling

A directive adds one thing to the end of a method body: an instruction, an instruction whose operand
refers to an address still unknown, or the mark that the code of a source offset starts here.
`assemble` runs a list of directives from the empty body.
-/

namespace StackContract.Assembly

open Script Number

/-- One step of writing a method body. -/
inductive Directive
  /-- The code of a source offset starts here, unless it has started before. -/
  | mark (source : UInt32)
  | instruction (i : Instruction)
  /-- An instruction whose four-byte operand is filled in later. -/
  | reference (opcode : Opcode) (target : Target)
deriving DecidableEq, Repr

/-- The width of an operand that is filled in later. -/
def placeholderWidth : Nat := 4

namespace Directive

/-- An instruction without operand. -/
def op (opcode : Opcode) : Directive :=
  .instruction ⟨opcode, []⟩

def pushInteger (v : Int128) : Directive :=
  .instruction (.pushInteger v)

/-- Pushes a count. Counts beyond 128 bits do not occur and push zero. -/
def pushNat (n : Nat) : Directive :=
  pushInteger ((Int128.ofInt? n).getD default)

def pushBoolean (b : Bool) : Directive :=
  .instruction (.pushBoolean b)

def pushData (data : List UInt8) : Directive :=
  .instruction (.pushData data)

def load (area : SlotArea) (index : UInt8) : Directive :=
  .instruction (Access.mk area true index).instruction

def store (area : SlotArea) (index : UInt8) : Directive :=
  .instruction (Access.mk area false index).instruction

/-- Calls the service with this name. -/
def service (name : String) : Directive :=
  .instruction ⟨.syscall, serviceIdBytes name⟩

/-- Converts the top item to a kind. -/
def convert (kind : ItemKind) : Directive :=
  .instruction ⟨.convert, [kind.byte]⟩

/-- Jumps to the code of a source offset. -/
def jump (opcode : Opcode) (source : UInt32) : Directive :=
  .reference opcode (.source source)

/-- Calls a method. -/
def call (method : String) : Directive :=
  .reference .callL (.method method)

/-- Pushes the address of a method. -/
def pushAddress (method : String) : Directive :=
  .reference .pushA (.method method)

/-- Reverses the top `n` items. -/
def reverse : Nat → List Directive
  | 0 | 1 => []
  | 2 => [op .swap]
  | 3 => [op .reverse3]
  | 4 => [op .reverse4]
  | n => [pushNat n, op .reverseN]

end Directive

/-- A body that is being written, and the address of its end. -/
structure Draft where
  body : Body := {}
  address : Nat := 0

namespace Draft

instance : Inhabited Draft := ⟨{}⟩

/-- Puts an instruction at the end. -/
def emit (draft : Draft) (i : Instruction) : Draft :=
  { body := { draft.body with code := draft.body.code.insert draft.address i }
    address := draft.address + i.size }

/-- Carries out a directive. -/
def step (draft : Draft) : Directive → Draft
  | .mark source =>
    if draft.body.marks.contains source then draft
    else
      { draft with
        body := { draft.body with marks := draft.body.marks.insert source draft.address } }
  | .instruction i => draft.emit i
  | .reference opcode target =>
    let next := draft.emit ⟨opcode, List.replicate placeholderWidth 0⟩
    let relocation := ⟨draft.address, placeholderWidth, target⟩
    { next with
      body := { next.body with relocations := next.body.relocations ++ [relocation] } }

/-- Carries out directives one after the other. -/
def run (draft : Draft) (directives : List Directive) : Draft :=
  directives.foldl step draft

theorem run_append (draft : Draft) (first second : List Directive) :
    draft.run (first ++ second) = (draft.run first).run second := by
  simp [run]

/-- The opcode of the last instruction. -/
def lastOpcode? (draft : Draft) : Option Opcode :=
  draft.body.code.entries.getLast?.map fun entry => entry.2.opcode

/-- Whether control can reach the end: by falling through, or because a source offset starts there. -/
def endIsReachable (draft : Draft) : Bool :=
  !(draft.lastOpcode?.any Opcode.isTerminator) || draft.body.marks.values.contains draft.address

/-- Ends the body with a return if control can reach its end. -/
def close (draft : Draft) : Body :=
  if draft.endIsReachable then (draft.step (.op .ret)).body else draft.body

end Draft

/-- The body that directives write, closed by a return where control can reach its end. -/
def assemble (directives : List Directive) : Body :=
  (Draft.run {} directives).close

end StackContract.Assembly
