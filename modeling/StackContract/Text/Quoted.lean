import StackContract.Text.Digits
import StackContract.Text.Extending
import StackContract.Text.Ignorable
import StackContract.Text.Unprintable
import StackContract.Text.Utf8
/-!
# Quoted text

A text between quotes with every character that would not show as itself escaped: the quote and
the backslash, NUL, tab, line feed and carriage return by a letter, other unprintable, extending or
ignorable characters by their code point in braces. `isPlain` says which characters are written as
they are.
-/

namespace StackContract.Text

/-- The escape that names a character by its code point. -/
def codePointEscape (c : Char) : List Char :=
  ['\\', 'u', '\x7b'] ++ Nat.toDigits 16 c.toNat ++ ['\x7d']

/-- A printable character that shows and stands on its own. -/
def isPlain (c : Char) : Bool :=
  let code := c.toNat
  if code < 127 then 32 ≤ code
  else !extending.contains code && !ignorable.contains code && !unprintable.contains code

/-- One character between quotes of the kind `quote`. -/
def escapeChar (quote c : Char) : List Char :=
  if c = quote then ['\\', c]
  else match c with
    | '\\' => ['\\', '\\']
    | '\x00' => ['\\', '0']
    | '\t' => ['\\', 't']
    | '\n' => ['\\', 'n']
    | '\r' => ['\\', 'r']
    | c => if isPlain c then [c] else codePointEscape c

/-- A text between double quotes. -/
def quoted (text : String) : String :=
  String.ofList ('"' :: text.toList.flatMap (escapeChar '"') ++ ['"'])

/-- A character between single quotes. -/
def quotedChar (c : Char) : String :=
  String.ofList ('\x27' :: escapeChar '\x27' c ++ ['\x27'])

/-- Whether a character is a control: U+0000 to U+001F and U+007F to U+009F. -/
def isControl (c : Char) : Bool :=
  c.toNat < 32 || (127 ≤ c.toNat && c.toNat < 160)

end StackContract.Text
