import StackContract.Script.Constant
import StackContract.Script.ItemKind
import StackContract.Script.Service
import StackContract.Text.Palette
import StackContract.Text.Quoted
/-!
# Script listings

One line for each instruction: its address, its name and its operand in the form that suits the
opcode. A label stands on a line of its own in front of the address it names. The listing ends with
the error where the script cannot be read.
-/

namespace StackContract.Script

open Text (Palette)

/-- Data as a quoted text if it is one without control characters, else in hexadecimal. -/
def dataText (data : List UInt8) : String :=
  match Text.ofUtf8? data with
  | some text =>
    if text.toList ≠ [] ∧ text.toList.all (!Text.isControl ·) then Text.quoted text
    else "0x" ++ Text.hexOfBytes data
  | none => "0x" ++ Text.hexOfBytes data

/-- The target of a relative operand: its address, and its label if it has one. -/
def targetText (label? : Nat → Option String) (palette : Palette) (target : Nat) : String :=
  match label? target with
  | some label => Text.decimal4 target ++ " <" ++ palette.paint palette.label label ++ ">"
  | none => Text.decimal4 target

/-- The name of the service with this identifier, or the identifier itself. -/
def serviceText (palette : Palette) (id : UInt32) : String :=
  match Service.ofId? id with
  | some service => palette.paint palette.label service.name
  | none => "0x" ++ Text.hex8 id.toNat

/-- The name of the kind of items with this tag, or the tag itself. -/
def kindText (tag : UInt8) : String :=
  match ItemKind.ofByte? tag with
  | some kind => kind.name
  | none => "0x" ++ Text.hex2 tag.toNat

/-- The operand of an instruction whose opcode has one. -/
def operandText (palette : Palette) (i : Instruction) : String :=
  match i.opcode with
  | .pushData1 | .pushData2 | .pushData4 => palette.paint palette.literal (dataText i.data)
  | .syscall => serviceText palette (UInt32.ofNat (Number.natOfBytes i.operand))
  | .initSlot => String.intercalate " " (i.operand.map fun b => toString b.toNat)
  | .newArrayT | .isType | .convert => String.join (i.operand.map kindText)
  | .initSSlot | .ldSFld | .stSFld | .ldLoc | .stLoc | .ldArg | .stArg =>
    String.join (i.operand.map fun b => toString b.toNat)
  | _ => Text.hexOfBytes i.operand

/-- What stands behind the name of an instruction: nothing, a target, a number or its operand. -/
def argumentText (label? : Nat → Option String) (palette : Palette) (i : Located) : String :=
  if i.operand.isEmpty then ""
  else match i.target? with
    | some target => targetText label? palette target
    | none =>
      match i.integer? with
      | some v => palette.paint palette.literal (toString v.val)
      | none => operandText palette i.toInstruction

/-- The lines of one instruction, each with its line feed. -/
def instructionText (label? : Nat → Option String) (palette : Palette) (i : Located) : String :=
  let label := match label? i.offset with
    | some label => palette.paint palette.label label ++ ":\n"
    | none => ""
  let argument := argumentText label? palette i
  label ++ "  " ++ palette.paint palette.muted (Text.decimal4 i.offset) ++ "  " ++ i.opcode.name
    ++ (if argument = "" then "" else " " ++ argument) ++ "\n"

/-- The listing of a script, `label?` naming addresses. -/
def listing (script : Array UInt8) (label? : Nat → Option String) (palette : Palette) : String :=
  let (instructions, error?) := disassemble script
  let lines := instructions.toList.map (instructionText label? palette)
  let last := match error? with
    | some e => ["  " ++ palette.paint palette.alert ("<" ++ e.message ++ ">") ++ "\n"]
    | none => []
  String.join (lines ++ last)

end StackContract.Script
