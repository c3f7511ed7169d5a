import StackContract.Compile.Error
/-!
# Filling in operands

`patch` writes a displacement into the placeholder of a relocation. `linkLocal` does so for every
branch within a method, whose target is known from the marks of its own body; displacements count from
the address of the instruction that holds them. References to other methods stay.
-/

namespace StackContract.Compile

open Assembly Script Number

/-- The instruction with `displacement` in the last `width` bytes of its operand. -/
def fillIn (i : Instruction) (width : Nat) (displacement : Int) : Instruction :=
  let start := i.operand.length - width
  ⟨i.opcode, i.operand.take start ++ bytesOfInt 4 displacement ++ i.operand.drop (start + 4)⟩

/-- The code with the operand of a relocation filled in. -/
def patch (method : String) (code : Table Nat Instruction) (relocation : Relocation)
    (displacement : Int) : Except Error (Table Nat Instruction) :=
  match code.find? relocation.address with
  | none => .error (.inconsistent method (.noInstruction relocation.address))
  | some i =>
    if relocation.width < 4 ∨ i.operand.length < relocation.width then
      .error (.inconsistent method
        (.narrowPlaceholder i.opcode relocation.address relocation.width))
    else if displacement < -0x8000_0000 ∨ 0x8000_0000 ≤ displacement then
      .error (.jumpTooFar method displacement)
    else .ok (code.insert relocation.address (fillIn i relocation.width displacement))

/-- Resolves one relocation against the marks of its body, or keeps it. -/
def resolveLocal (method : String) (body : Body) (relocation : Relocation) : Except Error Body :=
  match relocation.target with
  | .method _ => .ok { body with relocations := body.relocations ++ [relocation] }
  | .source offset =>
    match body.marks.find? offset with
    | none => .error (.unresolvedSource method offset)
    | some address => do
      let code ← patch method body.code relocation ((address : Int) - relocation.address)
      return { body with code }

/-- Resolves the branches of a body. What remains are references to other methods. -/
def linkLocal (method : String) (body : Body) : Except Error Body :=
  body.relocations.foldlM (resolveLocal method) { body with relocations := [] }

end StackContract.Compile
