import StackContract.Machine.Equality
import StackContract.Machine.Reading
import StackContract.Machine.Stack
/-!
# Evaluation

Most instructions work on the evaluation stack and the heap alone. An `Eval` is such a computation: it
knows the address of its instruction, which a stack underflow reports, and leaves the memory as it was
when it failed, with whatever was popped gone.
-/

namespace StackContract.Machine

open Number

/-- The evaluation stack and the heap. -/
structure Memory where
  stack : Stack Item := .empty
  heap : Heap := {}

instance : Inhabited Memory := ⟨{}⟩

/-- A computation on the memory, at an address of the script. -/
abbrev Eval (α : Type) := ReaderT Nat (EStateM Fault Memory) α

namespace Eval

/-- Takes over a result that does not change the memory. -/
def orFault {α : Type} : Except Fault α → Eval α
  | .ok a => pure a
  | .error fault => throw fault

/-- The heap. -/
def heap : Eval Heap := do
  return (← get).heap

/-- Puts an item on top of the stack. -/
def push (item : Item) : Eval Unit :=
  modify fun m => { m with stack := m.stack.push item }

/-- Fails for want of items on the stack. -/
def underflow {α : Type} : Eval α := do
  throw (.stackUnderflow (← read))

/-- Takes the top item off the stack. -/
def pop : Eval Item := do
  match (← get).stack.pop? with
  | none => underflow
  | some (item, rest) =>
    modify fun m => { m with stack := rest }
    return item

/-- Takes `n` items off the stack, the top one first. Where there are fewer, all of them are gone. -/
def popMany (n : Nat) : Eval (List Item) := do
  match (← get).stack.popList? n with
  | none =>
    modify fun m => { m with stack := .empty }
    underflow
  | some (items, rest) =>
    modify fun m => { m with stack := rest }
    return items

/-- Takes the top item off the stack, as an integer. -/
def popInteger : Eval Int128 := do
  let item ← pop
  orFault (item.asInteger (← heap))

/-- Takes the top item off the stack, as a truth value. -/
def popBoolean : Eval Bool := do
  let item ← pop
  orFault item.asBoolean

/-- Takes the top item off the stack, as bytes. -/
def popBytes : Eval (List UInt8) := do
  let item ← pop
  orFault (item.asBytes (← heap))

/-- Takes the top item off the stack, as text. -/
def popText : Eval String := do
  let item ← pop
  orFault (item.asText (← heap))

/-- Takes a count below 2^64 off the stack. The fault tells how many items are left. -/
def popCount : Eval Nat := do
  let v ← popInteger
  if 0 ≤ v.val ∧ v.val < 0x1_0000_0000_0000_0000 then return v.val.toNat
  else throw (.indexOutOfRange v.val (← get).stack.size)

def pushBoolean (b : Bool) : Eval Unit :=
  push (.boolean b)

def pushInteger (v : Int128) : Eval Unit :=
  push (.integer v)

/-! ## New compounds -/

/-- Makes a buffer. -/
def newBuffer (bytes : List UInt8) : Eval Item :=
  modifyGet fun m =>
    let (ref, heap) := m.heap.newBuffer bytes.toArray
    (.buffer ref, { m with heap })

/-- Makes an array. -/
def newArray (items : Array Item) : Eval Item :=
  modifyGet fun m =>
    let (ref, heap) := m.heap.newSequence items
    (.array ref, { m with heap })

/-- Makes a struct. -/
def newStruct (items : Array Item) : Eval Item :=
  modifyGet fun m =>
    let (ref, heap) := m.heap.newSequence items
    (.struct ref, { m with heap })

/-- Makes a map. -/
def newMap (entries : List (Item × Item)) : Eval Item :=
  modifyGet fun m =>
    let (ref, heap) := m.heap.newMap entries
    (.map ref, { m with heap })

/-- Changes the heap. -/
def modifyHeap (f : Heap → Heap) : Eval Unit :=
  modify fun m => { m with heap := f m.heap }

/-- Pushes a new buffer. -/
def pushBuffer (bytes : List UInt8) : Eval Unit := do
  push (← newBuffer bytes)

/-- The copy of a struct and of the structs in it, at most `depth` inside each other. Other items are
shared. -/
def copyWithin : Nat → Item → Eval Item
  | depth + 1, .struct ref => do
    let items := (← heap).sequence ref
    newStruct (← items.mapM (copyWithin depth))
  | _, item => return item

/-- The item that is stored when `item` is put into a compound: a struct is copied. -/
def copyStruct (item : Item) : Eval Item := do
  copyWithin (← heap).sequenceDepth item

end Eval

end StackContract.Machine
