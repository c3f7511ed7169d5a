import StackContract.Machine.Item
/-!
# Equality of items

`Item.equals` is the equality of the machine: primitives by value, buffers, arrays and maps by identity,
structs by their fields. `Item.sameContents` compares contents throughout, for looking at results.

Structs never contain themselves, so the number of sequences bounds how deep a comparison goes.
-/

namespace StackContract.Machine

/-- Whether two sequences have the same length and pairwise related items. -/
def allPairs {α : Type} (related : α → α → Bool) (xs ys : List α) : Bool :=
  xs.length = ys.length && (xs.zip ys).all fun (x, y) => related x y

namespace Item

/-- Machine equality, with at most `depth` structs inside each other. -/
def equalsWithin (heap : Heap) : Nat → Item → Item → Bool
  | depth + 1, .struct r, .struct s =>
    r = s || allPairs (equalsWithin heap depth) (heap.sequence r).toList (heap.sequence s).toList
  | _, a, b => a = b

/-- Machine equality. -/
def equals (heap : Heap) (a b : Item) : Bool :=
  equalsWithin heap heap.sequenceDepth a b

/-- Equality of contents, with at most `depth` compounds inside each other. -/
def sameContentsWithin (heap : Heap) : Nat → Item → Item → Bool
  | depth + 1, .array r, .array s =>
    allPairs (sameContentsWithin heap depth) (heap.sequence r).toList (heap.sequence s).toList
  | depth + 1, .struct r, .struct s =>
    allPairs (sameContentsWithin heap depth) (heap.sequence r).toList (heap.sequence s).toList
  | depth + 1, .map r, .map s =>
    allPairs (fun a b => sameContentsWithin heap depth a.1 b.1 && sameContentsWithin heap depth a.2 b.2)
      (heap.map r) (heap.map s)
  | _, .buffer r, .buffer s => heap.buffer r = heap.buffer s
  | _, a, b => a = b

/-- Equality of contents. Maps are compared entry by entry in order. -/
def sameContents (heap : Heap) (a b : Item) : Bool :=
  sameContentsWithin heap (heap.sequenceDepth + heap.maps.size) a b

end Item

/-- The value of the first entry of a map whose key equals `key`. -/
def Heap.findEntry? (heap : Heap) (entries : List (Item × Item)) (key : Item) : Option Item :=
  (entries.find? fun entry => entry.1.equals heap key).map Prod.snd

/-- The entries with a value under a key: the first entry of an equal key takes it, or a new last
one. -/
def Heap.setEntry (heap : Heap) (key value : Item) :
    List (Item × Item) → List (Item × Item)
  | [] => [(key, value)]
  | (k, v) :: rest =>
    if k.equals heap key then (k, value) :: rest else (k, v) :: heap.setEntry key value rest

end StackContract.Machine
