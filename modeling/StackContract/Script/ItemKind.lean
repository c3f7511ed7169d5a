/-!
# Kinds of stack items

The tags by which instructions name the kinds of items: in type tests, in conversions, and for the
elements of a new array.
-/

namespace StackContract.Script

/-- The kinds of items on the evaluation stack. -/
inductive ItemKind
  | any | pointer | boolean | integer | byteString | buffer | array | struct | map | interop
deriving DecidableEq, Repr

namespace ItemKind

/-- The byte that stands for a kind. -/
def byte : ItemKind → UInt8
  | .any => 0x00 | .pointer => 0x10 | .boolean => 0x20 | .integer => 0x21 | .byteString => 0x28
  | .buffer => 0x30 | .array => 0x40 | .struct => 0x41 | .map => 0x48 | .interop => 0x60

/-- The name of a kind. -/
def name : ItemKind → String
  | .any => "Any" | .pointer => "Pointer" | .boolean => "Boolean" | .integer => "Integer"
  | .byteString => "ByteString" | .buffer => "Buffer" | .array => "Array" | .struct => "Struct"
  | .map => "Map" | .interop => "InteropInterface"

/-- Every kind, by ascending byte. -/
def all : List ItemKind :=
  [.any, .pointer, .boolean, .integer, .byteString, .buffer, .array, .struct, .map, .interop]

/-- The kind that a byte stands for. -/
def ofByte? (b : UInt8) : Option ItemKind :=
  all.find? fun kind => kind.byte = b

theorem ofByte?_byte (kind : ItemKind) : ofByte? kind.byte = some kind := by
  cases kind <;> rfl

end ItemKind

end StackContract.Script
