import StackContract.Number.Int128
import StackContract.Script.ItemKind
/-!
# Stack items and the heap

Null, truth values, integers, byte strings and addresses are values. Buffers, arrays, structs and maps
are references to the heap, so that copies of an item share the contents. The heap only grows.
-/

namespace StackContract.Machine

open Number Script

/-- An item on the evaluation stack, in a slot or in a compound. -/
inductive Item
  | null
  | boolean (b : Bool)
  | integer (v : Int128)
  | byteString (bytes : List UInt8)
  /-- An address of the script. -/
  | pointer (address : Nat)
  | buffer (ref : Nat)
  | array (ref : Nat)
  | struct (ref : Nat)
  | map (ref : Nat)
deriving DecidableEq, Repr, Inhabited

namespace Item

/-- The kind of an item. -/
def kind : Item → ItemKind
  | .null => .any
  | .boolean _ => .boolean
  | .integer _ => .integer
  | .byteString _ => .byteString
  | .pointer _ => .pointer
  | .buffer _ => .buffer
  | .array _ => .array
  | .struct _ => .struct
  | .map _ => .map

def isNull : Item → Bool
  | .null => true
  | _ => false

/-- The integer of a count. Counts beyond 128 bits do not occur and are zero. -/
def ofNat (n : Nat) : Item :=
  .integer ((Int128.ofInt? n).getD default)

end Item

/-- The contents of compound items, by kind and reference. Arrays and structs are sequences. -/
structure Heap where
  buffers : Array (Array UInt8) := #[]
  sequences : Array (Array Item) := #[]
  /-- Entries in the order in which their keys came. -/
  maps : Array (List (Item × Item)) := #[]

namespace Heap

instance : Inhabited Heap := ⟨{}⟩

/-- The bytes of a buffer. -/
def buffer (heap : Heap) (ref : Nat) : Array UInt8 :=
  heap.buffers.getD ref #[]

/-- The items of an array or a struct. -/
def sequence (heap : Heap) (ref : Nat) : Array Item :=
  heap.sequences.getD ref #[]

/-- The entries of a map. -/
def map (heap : Heap) (ref : Nat) : List (Item × Item) :=
  heap.maps.getD ref []

/-- A new buffer. -/
def newBuffer (heap : Heap) (bytes : Array UInt8) : Nat × Heap :=
  (heap.buffers.size, { heap with buffers := heap.buffers.push bytes })

/-- A new sequence. -/
def newSequence (heap : Heap) (items : Array Item) : Nat × Heap :=
  (heap.sequences.size, { heap with sequences := heap.sequences.push items })

/-- A new map. -/
def newMap (heap : Heap) (entries : List (Item × Item)) : Nat × Heap :=
  (heap.maps.size, { heap with maps := heap.maps.push entries })

/-- Changes the bytes of a buffer. -/
def modifyBuffer (heap : Heap) (ref : Nat) (f : Array UInt8 → Array UInt8) : Heap :=
  { heap with buffers := heap.buffers.modify ref f }

/-- Changes the items of a sequence. -/
def modifySequence (heap : Heap) (ref : Nat) (f : Array Item → Array Item) : Heap :=
  { heap with sequences := heap.sequences.modify ref f }

/-- Changes the entries of a map. -/
def modifyMap (heap : Heap) (ref : Nat) (f : List (Item × Item) → List (Item × Item)) : Heap :=
  { heap with maps := heap.maps.modify ref f }

/-- A bound on how deep distinct sequences can nest. -/
def sequenceDepth (heap : Heap) : Nat :=
  heap.sequences.size + 1

end Heap

end StackContract.Machine
