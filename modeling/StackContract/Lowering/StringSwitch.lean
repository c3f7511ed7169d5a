import StackContract.Lowering.Scope
/-!
# Switches over strings

A switch over strings arrives as a search by hash: the hash of the string is computed, tests on it lead
to buckets, and in each bucket a leaf compares the string with a key and branches to the case. The
region from the hash to the first case becomes a chain of comparisons with the keys, and the hash is
removed.
-/

namespace StackContract.Lowering

open Assembly Compile Script
open Source (Op Place)

/-- The comparison of a slot with a key, and the offset to go to if they are equal. -/
structure Leaf where
  /-- The position of the leaf's first instruction in the body. -/
  position : Nat
  /-- The source offset of that instruction. -/
  offset : UInt32
  place : Place
  index : UInt16
  key : String
  target : UInt32
deriving Repr

/-- The operations that may stand between the hash and the first case. -/
def isPlumbing : Op → Bool
  | .nop | .load _ _ | .store .locals _ | .literal32 _ | .literal64 _ | .loadString _ | .convert _
  | .call (.intrinsic .stringEquals) | .branch _ _ => true
  | _ => false

/-- The leaves from `position` on, and the position of the first instruction that is no plumbing. -/
def scanLeaves (position : Nat) : List Source.Instruction → List Leaf × Nat
  | ⟨offset, .load place index⟩ :: ⟨_, .loadString key⟩
      :: ⟨_, .call (.intrinsic .stringEquals)⟩ :: ⟨_, .branch .ifTrue target⟩ :: rest =>
    let (leaves, stop) := scanLeaves (position + 4) rest
    (⟨position, offset, place, index, key, target⟩ :: leaves, stop)
  | i :: rest => if isPlumbing i.op then scanLeaves (position + 1) rest else ([], position)
  | [] => ([], position)

/-- The offset that an instruction always goes to, if it is one from `limit` on. -/
def defaultTarget? (limit : Nat) : Op → Option UInt32
  | .branch .always target => if limit ≤ target.toNat then some target else none
  | .branch .leave target => if limit ≤ target.toNat then some target else none
  | _ => none

/-- The part of a body that makes up a switch over strings. -/
structure Region where
  leaves : List Leaf
  defaultTarget : UInt32
  /-- The number of instructions behind the hash. -/
  length : Nat

/-- Recognizes the region behind the hash at `position`. It ends in front of the first instruction
whose offset is not below every case, consists of plumbing only, and its last instruction goes to the
default case. -/
def findRegion? (body : Array Source.Instruction) (position : Nat) : Option Region :=
  let rest := body.toList.drop (position + 1)
  let (leaves, stop) := scanLeaves (position + 1) rest
  match (leaves.map fun leaf => leaf.target.toNat).min? with
  | none => none
  | some limit =>
    let length := (rest.findIdx? fun i => limit ≤ i.offset.toNat).getD rest.length
    let finish := position + 1 + length
    if length = 0 ∨ stop < finish then none
    else do
      let last ← rest[length - 1]?
      let target ← defaultTarget? limit last.op
      return ⟨leaves.filter fun leaf => leaf.position < finish, target, length⟩

/-- The comparison of a leaf. -/
def leafCode (scope : Scope) (leaf : Leaf) : Except Error (List Directive) := do
  let load ← scope.load leaf.offset leaf.place leaf.index
  return [load, .pushData (Text.utf8 leaf.key), .op .equal, .jump .jmpIfL leaf.target]

/-- The switch over strings that starts with the hash at `position`. -/
def lowerStringSwitch (scope : Scope) (position : Nat) (i : Source.Instruction) :
    Except Error Lowered :=
  match findRegion? scope.body position with
  | none => .error (scope.unsupported i)
  | some region => do
    let tests ← region.leaves.mapM (leafCode scope)
    return ⟨.op .drop :: tests.flatten ++ [.jump .jmpL region.defaultTarget], region.length⟩

end StackContract.Lowering
