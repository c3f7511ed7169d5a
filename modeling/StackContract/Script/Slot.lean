import StackContract.Script.Instruction
/-!
# Slot access

Loads and stores of the three slot areas. Each area and direction owns eight consecutive opcodes: one
for each of the slots 0 to 6, and one that takes the index as its operand.

`Access.instruction` writes an access in its shortest form and `Instruction.access?` reads it.
-/

namespace StackContract.Script

/-- The storage that slot instructions address. -/
inductive SlotArea
  | static | locals | arguments
deriving DecidableEq, Repr

/-- A load or a store of one slot. -/
structure Access where
  area : SlotArea
  isLoad : Bool
  index : UInt8
deriving DecidableEq, Repr

/-- The opcode that accesses slot 0 of an area; those of the slots 1 to 6 follow it. -/
def SlotArea.first (area : SlotArea) (isLoad : Bool) : Opcode :=
  match area, isLoad with
  | .static, true => .ldSFld0
  | .static, false => .stSFld0
  | .locals, true => .ldLoc0
  | .locals, false => .stLoc0
  | .arguments, true => .ldArg0
  | .arguments, false => .stArg0

/-- The opcode that takes the index of the slot as its operand. -/
def SlotArea.indexed (area : SlotArea) (isLoad : Bool) : Opcode :=
  match area, isLoad with
  | .static, true => .ldSFld
  | .static, false => .stSFld
  | .locals, true => .ldLoc
  | .locals, false => .stLoc
  | .arguments, true => .ldArg
  | .arguments, false => .stArg

/-- The shortest instruction for an access. -/
def Access.instruction (access : Access) : Instruction :=
  let indexed : Instruction := ⟨access.area.indexed access.isLoad, [access.index]⟩
  if access.index ≤ 6 then
    match Opcode.ofByte? ((access.area.first access.isLoad).byte + access.index) with
    | some op => ⟨op, []⟩
    | none => indexed
  else indexed

/-- The area and the direction that an opcode accesses. -/
def Opcode.slotArea? : Opcode → Option (SlotArea × Bool)
  | .ldSFld0 | .ldSFld1 | .ldSFld2 | .ldSFld3 | .ldSFld4 | .ldSFld5 | .ldSFld6 | .ldSFld =>
    some (.static, true)
  | .stSFld0 | .stSFld1 | .stSFld2 | .stSFld3 | .stSFld4 | .stSFld5 | .stSFld6 | .stSFld =>
    some (.static, false)
  | .ldLoc0 | .ldLoc1 | .ldLoc2 | .ldLoc3 | .ldLoc4 | .ldLoc5 | .ldLoc6 | .ldLoc =>
    some (.locals, true)
  | .stLoc0 | .stLoc1 | .stLoc2 | .stLoc3 | .stLoc4 | .stLoc5 | .stLoc6 | .stLoc =>
    some (.locals, false)
  | .ldArg0 | .ldArg1 | .ldArg2 | .ldArg3 | .ldArg4 | .ldArg5 | .ldArg6 | .ldArg =>
    some (.arguments, true)
  | .stArg0 | .stArg1 | .stArg2 | .stArg3 | .stArg4 | .stArg5 | .stArg6 | .stArg =>
    some (.arguments, false)
  | _ => none

/-- The access that an instruction makes, if it is a slot instruction. -/
def Instruction.access? (i : Instruction) : Option Access :=
  match i.opcode.slotArea? with
  | none => none
  | some (area, isLoad) =>
    if i.opcode = area.indexed isLoad then i.operand.head?.map fun index => ⟨area, isLoad, index⟩
    else some ⟨area, isLoad, i.opcode.byte - (area.first isLoad).byte⟩

end StackContract.Script
