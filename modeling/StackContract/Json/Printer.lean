import StackContract.Json.Basic
import StackContract.Text.Digits
/-!
# Printing JSON

`render` writes a value without blanks, `pretty` with one member or element per line. Characters are
written as they are but for the quote, the backslash and the control characters below U+0020.
-/

namespace StackContract.Json

/-- A character inside a JSON string. -/
def escapeChar : Char → List Char
  | '"' => ['\\', '"']
  | '\\' => ['\\', '\\']
  | '\x08' => ['\\', 'b']
  | '\x0c' => ['\\', 'f']
  | '\n' => ['\\', 'n']
  | '\r' => ['\\', 'r']
  | '\t' => ['\\', 't']
  | c =>
    if c.toNat < 32 then
      ['\\', 'u', '0', '0', Text.hexDigit (c.toNat / 16), Text.hexDigit (c.toNat % 16)]
    else [c]

/-- A text as a JSON string. Where there is no text, an unpaired surrogate stands for it. -/
def renderText : Option String → List Char
  | some s => '"' :: s.toList.flatMap escapeChar ++ ['"']
  | none => ['"', '\\', 'u', 'd', '8', '0', '0', '"']

/-- An integer in decimal. -/
def renderInt (v : Int) : List Char :=
  if v < 0 then '-' :: Nat.toDigits 10 v.natAbs else Nat.toDigits 10 v.natAbs

mutual

/-- A value without blanks. -/
def render : Json → List Char
  | .null => ['n', 'u', 'l', 'l']
  | .bool true => ['t', 'r', 'u', 'e']
  | .bool false => ['f', 'a', 'l', 's', 'e']
  | .int v => renderInt v
  | .decimal literal => literal.toList
  | .text s => renderText s
  | .list elements => '[' :: renderElements elements ++ [']']
  | .object members => '\x7b' :: renderMembers members ++ ['\x7d']

/-- Elements with commas between them. -/
def renderElements : List Json → List Char
  | [] => []
  | [element] => render element
  | element :: next :: rest => render element ++ ',' :: renderElements (next :: rest)

/-- Members with commas between them. -/
def renderMembers : List (Option String × Json) → List Char
  | [] => []
  | [(key, value)] => renderText key ++ ':' :: render value
  | (key, value) :: next :: rest =>
    renderText key ++ ':' :: render value ++ ',' :: renderMembers (next :: rest)

end

/-- The start of a line `depth` levels deep, two spaces for each. -/
def newline (depth : Nat) : List Char :=
  '\n' :: List.replicate (2 * depth) ' '

mutual

/-- A value whose elements and members stand on lines of their own. -/
def prettyAt (depth : Nat) : Json → List Char
  | .list [] => ['[', ']']
  | .list elements => '[' :: prettyElements (depth + 1) elements ++ newline depth ++ [']']
  | .object [] => ['\x7b', '\x7d']
  | .object members =>
    '\x7b' :: prettyMembers (depth + 1) members ++ newline depth ++ ['\x7d']
  | .null => render .null
  | .bool b => render (.bool b)
  | .int v => render (.int v)
  | .decimal literal => render (.decimal literal)
  | .text s => render (.text s)

/-- Elements, each on its line. -/
def prettyElements (depth : Nat) : List Json → List Char
  | [] => []
  | [element] => newline depth ++ prettyAt depth element
  | element :: next :: rest =>
    newline depth ++ prettyAt depth element ++ ',' :: prettyElements depth (next :: rest)

/-- Members, each on its line. -/
def prettyMembers (depth : Nat) : List (Option String × Json) → List Char
  | [] => []
  | [(key, value)] => newline depth ++ renderText key ++ ':' :: ' ' :: prettyAt depth value
  | (key, value) :: next :: rest =>
    newline depth ++ renderText key ++ ':' :: ' ' :: prettyAt depth value
      ++ ',' :: prettyMembers depth (next :: rest)

end

/-- The text of a value without blanks. -/
def compact (json : Json) : String :=
  String.ofList (render json)

/-- The text of a value with indentation. -/
def pretty (json : Json) : String :=
  String.ofList (prettyAt 0 json)

end StackContract.Json
