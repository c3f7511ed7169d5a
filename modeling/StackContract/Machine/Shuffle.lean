import StackContract.Machine.Evaluation
/-!
# Rearranging the stack

The instructions that only move, copy or drop items. Each is a function on the stack, which has no value
where the stack is not deep enough.
-/

namespace StackContract.Machine

/-- A rearrangement of the stack. -/
inductive Shuffle
  /-- Pushes the number of items. -/
  | depth
  | drop
  /-- Removes the item below the top. -/
  | nip
  /-- Removes the item a given number of places below the top. -/
  | dropAt
  | clear
  | dup
  /-- Copies the item below the top. -/
  | over
  /-- Copies the item a given number of places below the top. -/
  | pick
  /-- Puts a copy of the top below the second item. -/
  | tuck
  | swap
  /-- Moves the third item to the top. -/
  | rotate
  /-- Moves the item a given number of places below the top to the top. -/
  | roll
  /-- Reverses a fixed number of items. -/
  | reverse (n : Nat)
  /-- Reverses a given number of items. -/
  | reverseCount
deriving DecidableEq, Repr

/-- The stack with a copy of the item at `n` on top. -/
def pickAt (n : Nat) (stack : Stack Item) : Option (Stack Item) :=
  (stack.toList[n]?).map stack.push

/-- The stack without the item at `n`. -/
def removeAt (n : Nat) (stack : Stack Item) : Option (Stack Item) :=
  stack.erase? n

/-- The stack with the item at `n` moved to the top. -/
def rollAt (n : Nat) (stack : Stack Item) : Option (Stack Item) := do
  let item ← stack.toList[n]?
  return (← stack.erase? n).push item

/-- The stack with the top `n` items reversed. -/
def reverseTop (n : Nat) (stack : Stack Item) : Option (Stack Item) :=
  (stack.popList? n).map fun (items, rest) => rest.pushList items.reverse

/-- The stack with a copy of the top below the second item. -/
def tuckTop (stack : Stack Item) : Option (Stack Item) := do
  let (a, rest) ← stack.pop?
  let (b, rest) ← rest.pop?
  return ((rest.push a).push b).push a

/-- Takes the number of places below the top off the stack. Places are counted by 64 bits, the top being
the first, so that the machine breaks down on the largest number. -/
def popPlace : Eval Nat := do
  let n ← Eval.popCount
  if n + 1 < 0x1_0000_0000_0000_0000 then return n else throw .breakdown

/-- Replaces the stack by its rearrangement. -/
def rearrange (f : Stack Item → Option (Stack Item)) : Eval Unit := do
  match f (← get).stack with
  | none => Eval.underflow
  | some stack => modify fun m => { m with stack }

/-- Carries out a rearrangement. -/
def Shuffle.run : Shuffle → Eval Unit
  | .depth => do Eval.push (.ofNat (← get).stack.size)
  | .drop => do let _ ← Eval.pop
  | .nip => do
    let top ← Eval.pop
    let _ ← Eval.pop
    Eval.push top
  | .dropAt => do rearrange (removeAt (← popPlace))
  | .clear => modify fun m => { m with stack := .empty }
  | .dup => rearrange (pickAt 0)
  | .over => rearrange (pickAt 1)
  | .pick => do rearrange (pickAt (← popPlace))
  | .tuck => rearrange tuckTop
  | .swap => rearrange (reverseTop 2)
  | .rotate => rearrange (rollAt 2)
  | .roll => do rearrange (rollAt (← popPlace))
  | .reverse n => rearrange (reverseTop n)
  | .reverseCount => do rearrange (reverseTop (← Eval.popCount))

end StackContract.Machine
