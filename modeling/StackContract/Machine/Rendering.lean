import StackContract.Machine.Item
import StackContract.Text.Quoted
/-!
# The text of items

How items show in faults and traces: byte strings as quoted text if they are text, compounds with their
contents.
-/

namespace StackContract.Machine

/-- Bytes as quoted text if they are UTF-8, else in hexadecimal. -/
def bytesText (bytes : List UInt8) : String :=
  match Text.ofUtf8? bytes with
  | some text => Text.quoted text
  | none => "0x" ++ Text.hexOfBytes bytes

/-- The texts of items with commas between them. -/
def commaSeparated (texts : List String) : String :=
  String.intercalate ", " texts

namespace Item

/-- The text of an item, with at most `depth` compounds inside each other. -/
def textWithin (heap : Heap) : Nat → Item → String
  | _, .null => "null"
  | _, .boolean b => if b then "true" else "false"
  | _, .integer v => toString v.val
  | _, .byteString bytes => bytesText bytes
  | _, .pointer address => "&" ++ Text.decimal4 address
  | _, .buffer ref => "buffer:0x" ++ Text.hexOfBytes (heap.buffer ref).toList
  | 0, _ => "..."
  | depth + 1, .array ref =>
    "[" ++ commaSeparated ((heap.sequence ref).toList.map (textWithin heap depth)) ++ "]"
  | depth + 1, .struct ref =>
    "\x7b" ++ commaSeparated ((heap.sequence ref).toList.map (textWithin heap depth)) ++ "\x7d"
  | depth + 1, .map ref =>
    "map\x7b" ++ commaSeparated ((heap.map ref).map fun (k, v) =>
      textWithin heap depth k ++ ": " ++ textWithin heap depth v) ++ "\x7d"

/-- The text of an item that does not contain itself. -/
def text (heap : Heap) (item : Item) : String :=
  item.textWithin heap (heap.sequenceDepth + heap.maps.size)

end Item

end StackContract.Machine
