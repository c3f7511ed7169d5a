/-!
# Types of the source language

The resolved types that source instructions and signatures mention.
-/

namespace StackContract.Source

/-- A type of the source language. -/
inductive ValueType
  | void | boolean | char | sbyte | byte | int16 | uint16 | int32 | uint32 | int64 | uint64
  | bigInteger | string | byteArray | object
  | array (element : ValueType)
  | tuple (items : List ValueType)
  /-- A user class or struct, by name. -/
  | named (name : String)
  /-- An opaque handle of the host. -/
  | interop (name : String)
  /-- A function type. -/
  | delegate (name : String)
deriving Repr, Inhabited

namespace ValueType

/-- The types without arguments. -/
def plain : List ValueType :=
  [.void, .boolean, .char, .sbyte, .byte, .int16, .uint16, .int32, .uint32, .int64, .uint64,
    .bigInteger, .string, .byteArray, .object]

/-- The integer types, characters among them. -/
def isInteger : ValueType → Bool
  | .char | .sbyte | .byte | .int16 | .uint16 | .int32 | .uint32 | .int64 | .uint64
  | .bigInteger => true
  | _ => false

def isBoolean : ValueType → Bool
  | .boolean => true
  | _ => false

/-- The types whose boxed form is the value itself. -/
def isPrimitive (type : ValueType) : Bool :=
  type.isInteger || type.isBoolean

/-- The name of the outermost constructor. -/
def tag : ValueType → String
  | .void => "Void" | .boolean => "Boolean" | .char => "Char" | .sbyte => "SByte"
  | .byte => "Byte" | .int16 => "Int16" | .uint16 => "UInt16" | .int32 => "Int32"
  | .uint32 => "UInt32" | .int64 => "Int64" | .uint64 => "UInt64"
  | .bigInteger => "BigInteger" | .string => "String" | .byteArray => "ByteArray"
  | .object => "Object" | .array _ => "Array" | .tuple _ => "Tuple" | .named _ => "Class"
  | .interop _ => "Interop" | .delegate _ => "Delegate"

mutual

/-- The text of a type in listings and messages. -/
def text : ValueType → String
  | .array element => element.text ++ "[]"
  | .tuple items => "(" ++ textOfItems items ++ ")"
  | .named name => name
  | .interop name => name
  | .delegate name => name
  | type => type.tag

/-- The texts of types with commas between them. -/
def textOfItems : List ValueType → String
  | [] => ""
  | [item] => item.text
  | item :: next :: rest => item.text ++ ", " ++ textOfItems (next :: rest)

end

end ValueType

end StackContract.Source
