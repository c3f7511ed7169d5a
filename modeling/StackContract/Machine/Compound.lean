import StackContract.Machine.Evaluation
import StackContract.Machine.Rendering
/-!
# Compound items

Instructions that make, read and change buffers, arrays, structs and maps. Every check comes before the
change, so an instruction that faults has changed no compound. A struct is copied when it is stored into
another compound or collected from one.
-/

namespace StackContract.Machine

open Number Script

/-- An instruction on compounds. Those with a flag make structs or arrays alike. -/
inductive CompoundOp
  | packMap
  | pack (isStruct : Bool)
  | unpack
  | newEmpty (isStruct : Bool)
  | newNulls (isStruct : Bool)
  /-- An array of the defaults of the kind with this tag. -/
  | newDefaults (tag : UInt8)
  | newMap
  | size | hasKey | keys | values | pickItem | append | setItem | reverseItems | remove | clearItems
  | popItem
deriving DecidableEq, Repr

namespace Compound

open Eval

/-! ## Making compounds -/

/-- Makes a struct or an array. -/
def newSequence (isStruct : Bool) (items : Array Item) : Eval Item :=
  if isStruct then newStruct items else newArray items

/-- The item with which an array of a kind is filled. -/
def defaultOf (tag : UInt8) : Item :=
  match ItemKind.ofByte? tag with
  | some .boolean => .boolean false
  | some .integer => .ofNat 0
  | some .byteString => .byteString []
  | _ => .null

/-- Takes `n` pairs of a key and a value off the stack, adding them to `entries`. -/
def popEntries (entries : List (Item × Item)) : Nat → Eval (List (Item × Item))
  | 0 => return entries
  | n + 1 => do
    let key ← pop
    let value ← pop
    popEntries ((← heap).setEntry key value entries) n

/-- A map of the pairs on the stack. -/
def packMap : Eval Unit := do
  let n ← popCount
  push (← newMap (← popEntries [] n))

/-- A sequence of the items on the stack, the top one first. -/
def pack (isStruct : Bool) : Eval Unit := do
  let n ← popCount
  let items ← popMany n
  push (← newSequence isStruct items.toArray)

/-- The items of a sequence, the first on top, and above them their number. -/
def unpack : Eval Unit := do
  let item ← pop
  match item with
  | .array ref | .struct ref =>
    let items := (← heap).sequence ref
    modify fun m => { m with stack := (m.stack.pushList items.toList).push (.ofNat items.size) }
  | item => throw (item.invalid (.kind .array))

/-- A sequence of a given number of equal items. -/
def newFilled (isStruct : Bool) (item : Item) : Eval Unit := do
  let n ← popCount
  push (← newSequence isStruct (Array.replicate n item))

/-! ## Reading compounds -/

/-- The number of items, entries or bytes. -/
def size : Eval Unit := do
  let item ← pop
  let heap ← heap
  match item with
  | .array ref | .struct ref => push (.ofNat (heap.sequence ref).size)
  | .map ref => push (.ofNat (heap.map ref).length)
  | .buffer ref => push (.ofNat (heap.buffer ref).size)
  | item => push (.ofNat (← orFault (item.asBytes heap)).length)

/-- Whether a container has a key: an index of a sequence or of bytes, or the key of an entry. -/
def hasKey : Eval Unit := do
  let key ← pop
  let container ← pop
  let heap ← heap
  match container with
  | .array ref | .struct ref =>
    let i ← orFault (key.asInteger heap)
    pushBoolean (Item.isIndex i (heap.sequence ref).size)
  | .map ref => pushBoolean ((heap.findEntry? (heap.map ref) key).isSome)
  | other =>
    let i ← orFault (key.asInteger heap)
    if i.val < 0 then pushBoolean false
    else pushBoolean (Item.isIndex i (← orFault (other.asBytes heap)).length)

/-- The keys of a map. -/
def keys : Eval Unit := do
  let item ← pop
  match item with
  | .map ref => push (← newArray (((← heap).map ref).map Prod.fst).toArray)
  | item => throw (item.invalid (.kind .map))

/-- The items of a sequence or the values of a map. -/
def values : Eval Unit := do
  let item ← pop
  match item with
  | .array ref | .struct ref =>
    push (← newArray (← ((← heap).sequence ref).mapM copyStruct))
  | .map ref =>
    push (← newArray (← (((← heap).map ref).map Prod.snd).toArray.mapM copyStruct))
  | item => throw (item.invalid (.kind .array))

/-- The item at an index, the value under a key, or the byte at an index. -/
def pickItem : Eval Unit := do
  let key ← pop
  let container ← pop
  let heap ← heap
  match container with
  | .array ref | .struct ref =>
    let items := heap.sequence ref
    push (items.getD (← orFault (key.asIndex heap items.size)) .null)
  | .map ref =>
    match heap.findEntry? (heap.map ref) key with
    | some value => push value
    | none => throw (.keyNotFound (key.text heap))
  | other =>
    let bytes ← orFault (other.asBytes heap)
    push (.ofNat (bytes.getD (← orFault (key.asIndex heap bytes.length)) 0).toNat)

/-! ## Changing compounds -/

/-- Adds an item to the end of a sequence. -/
def append : Eval Unit := do
  let item ← copyStruct (← pop)
  let container ← pop
  match container with
  | .array ref | .struct ref => modifyHeap (·.modifySequence ref (·.push item))
  | other => throw (other.invalid (.kind .array))

/-- The byte that stores an integer from -128 to 255. -/
def byteOf? (v : Int128) : Option UInt8 :=
  if -128 ≤ v.val ∧ v.val < 256 then some (UInt8.ofNat (v.val % 256).toNat) else none

/-- A buffer is held while one of its bytes is replaced: the machine breaks down where it is to read that
buffer itself. -/
def unheld (ref : Nat) (item : Item) : Except Fault Unit :=
  if item = .buffer ref then .error .breakdown else .ok ()

/-- Stores a value at an index or under a key. -/
def setItem : Eval Unit := do
  let value ← copyStruct (← pop)
  let key ← pop
  let container ← pop
  let heap ← heap
  match container with
  | .array ref | .struct ref =>
    let index ← orFault (key.asIndex heap (heap.sequence ref).size)
    modifyHeap (·.modifySequence ref (·.setIfInBounds index value))
  | .map ref =>
    let entries := heap.setEntry key value (heap.map ref)
    modifyHeap (·.modifyMap ref fun _ => entries)
  | .buffer ref =>
    orFault (unheld ref key)
    let index ← orFault (key.asIndex heap (heap.buffer ref).size)
    orFault (unheld ref value)
    match byteOf? (← orFault (value.asInteger heap)) with
    | some byte => modifyHeap (·.modifyBuffer ref (·.setIfInBounds index byte))
    | none => throw .overflow
  | other => throw (other.invalid (.kind .array))

/-- Reverses a sequence or a buffer in place. -/
def reverseItems : Eval Unit := do
  let item ← pop
  match item with
  | .array ref | .struct ref => modifyHeap (·.modifySequence ref Array.reverse)
  | .buffer ref => modifyHeap (·.modifyBuffer ref Array.reverse)
  | other => throw (other.invalid (.kind .array))

/-- Removes the item at an index, or the entries of equal keys. -/
def remove : Eval Unit := do
  let key ← pop
  let container ← pop
  let heap ← heap
  match container with
  | .array ref | .struct ref =>
    let index ← orFault (key.asIndex heap (heap.sequence ref).size)
    modifyHeap (·.modifySequence ref (·.eraseIdxIfInBounds index))
  | .map ref =>
    let entries := (heap.map ref).filter fun entry => !entry.1.equals heap key
    modifyHeap (·.modifyMap ref fun _ => entries)
  | other => throw (other.invalid (.kind .array))

/-- Removes all items or entries. -/
def clearItems : Eval Unit := do
  let item ← pop
  match item with
  | .array ref | .struct ref => modifyHeap (·.modifySequence ref fun _ => #[])
  | .map ref => modifyHeap (·.modifyMap ref fun _ => [])
  | other => throw (other.invalid (.kind .array))

/-- Moves the last item of a sequence to the stack. -/
def popItem : Eval Unit := do
  let container ← pop
  match container with
  | .array ref | .struct ref =>
    match ((← heap).sequence ref).back? with
    | some item =>
      modifyHeap (·.modifySequence ref Array.pop)
      push item
    | none => throw (.indexOutOfRange (-1) 0)
  | other => throw (other.invalid (.kind .array))

/-! ## Kinds -/

/-- What the conversion of an item to another kind makes. -/
def convertTo (kind : ItemKind) (item : Item) : Eval Item := do
  let heap ← heap
  match kind, item with
  | .boolean, item => return .boolean (← orFault item.asBoolean)
  | .integer, item => return .integer (← orFault (item.asInteger heap))
  | .byteString, item => return .byteString (← orFault (item.asBytes heap))
  | .buffer, item => newBuffer (← orFault (item.asBytes heap))
  | .array, .struct ref => newArray (heap.sequence ref)
  | .struct, .array ref => newStruct (heap.sequence ref)
  | kind, item => throw (item.invalid (.kind kind))

/-- Converts an item to a kind. An item of that kind stays as it is, but a buffer is copied. -/
def convert (kind : ItemKind) (item : Item) : Eval Item := do
  if item.kind = kind then
    match item with
    | .buffer ref => newBuffer ((← heap).buffer ref).toList
    | item => return item
  else convertTo kind item

end Compound

/-- Carries out an instruction on compounds. -/
def CompoundOp.run : CompoundOp → Eval Unit
  | .packMap => Compound.packMap
  | .pack isStruct => Compound.pack isStruct
  | .unpack => Compound.unpack
  | .newEmpty isStruct => do Eval.push (← Compound.newSequence isStruct #[])
  | .newNulls isStruct => Compound.newFilled isStruct .null
  | .newDefaults tag => Compound.newFilled false (Compound.defaultOf tag)
  | .newMap => do Eval.push (← Eval.newMap [])
  | .size => Compound.size
  | .hasKey => Compound.hasKey
  | .keys => Compound.keys
  | .values => Compound.values
  | .pickItem => Compound.pickItem
  | .append => Compound.append
  | .setItem => Compound.setItem
  | .reverseItems => Compound.reverseItems
  | .remove => Compound.remove
  | .clearItems => Compound.clearItems
  | .popItem => Compound.popItem

end StackContract.Machine
