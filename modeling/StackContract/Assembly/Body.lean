import StackContract.Script.Constant
import StackContract.Script.Slot
import StackContract.Source.Listing
import StackContract.Table
/-!
# Relocatable method bodies

The code of one method before its references are known: instructions at local addresses, relocations
for the operands that are still to be filled in, and the local address of every source offset.
-/

namespace StackContract.Assembly

open Script

/-- What the operand of an instruction is to refer to. -/
inductive Target
  /-- The code of a source offset of the same method. -/
  | source (offset : UInt32)
  /-- The entry of a method, by its internal name. -/
  | method (name : String)
deriving DecidableEq, Repr

def Target.text : Target → String
  | .source offset => Source.offsetText offset
  | .method name => name

/-- An operand to fill in: the last `width` bytes of the operand of the instruction at `address`. -/
structure Relocation where
  address : Nat
  width : Nat
  target : Target
deriving DecidableEq, Repr

/-- The code of one method. -/
structure Body where
  /-- Instructions by local address, in the order of the program. -/
  code : Table Nat Instruction := {}
  relocations : List Relocation := []
  /-- The local address at which the code of a source offset starts. -/
  marks : Table UInt32 Nat := {}

namespace Body

instance : Inhabited Body := ⟨{}⟩

/-- The instructions in the order of the program. -/
def instructions (body : Body) : List Instruction :=
  body.code.values

/-- The number of bytes that the code takes. -/
def size (body : Body) : Nat :=
  body.instructions.foldr (fun i rest => i.size + rest) 0

/-- The bytes of the code. -/
def encode (body : Body) : List UInt8 :=
  body.instructions.flatMap Instruction.encode

theorem length_encode (body : Body) : body.encode.length = body.size := by
  have h : ∀ code : List Instruction,
      (code.flatMap Instruction.encode).length = code.foldr (fun i rest => i.size + rest) 0 := by
    intro code
    induction code with
    | nil => rfl
    | cons i rest ih =>
      rw [List.flatMap_cons, List.length_append, Instruction.length_encode, ih, List.foldr_cons]
  exact h body.instructions

end Body

end StackContract.Assembly
