import StackContract.Text.Quoted
/-!
# Reading hexadecimal

Pairs of hexadecimal digits of either case as bytes. The length is checked before any digit is, and
it is counted in bytes of UTF-8; a character that is no digit is reported by its first such byte.
-/

namespace StackContract.Text

/-- Why a text is not a sequence of pairs of hexadecimal digits. -/
inductive HexError
  /-- An odd number of bytes of UTF-8. -/
  | oddLength
  /-- The byte at `position` is no digit. -/
  | notADigit (byte : UInt8) (position : Nat)
deriving DecidableEq, Repr

/-- The byte is shown as the character of that code point. -/
def HexError.message : HexError → String
  | .oddLength => "Odd number of digits"
  | .notADigit byte position =>
    "Invalid character " ++ quotedChar (Char.ofNat byte.toNat) ++ " at position "
      ++ toString position

/-- The value of a hexadecimal digit given as an ASCII byte. -/
def hexValue? (b : UInt8) : Option UInt8 :=
  if 48 ≤ b ∧ b ≤ 57 then some (b - 48)
  else if 65 ≤ b ∧ b ≤ 70 then some (b - 55)
  else if 97 ≤ b ∧ b ≤ 102 then some (b - 87)
  else none

/-- Reads pairs of digits; `position` counts the bytes in front and `done` holds the bytes read,
last one first. -/
def bytesOfDigits (position : Nat) (done : List UInt8) :
    List UInt8 → Except HexError (List UInt8)
  | [] => .ok done.reverse
  | [_] => .error .oddLength
  | high :: low :: rest =>
    match hexValue? high, hexValue? low with
    | none, _ => .error (.notADigit high position)
    | some _, none => .error (.notADigit low (position + 1))
    | some h, some l => bytesOfDigits (position + 2) ((h * 16 + l) :: done) rest

/-- The bytes that `text` spells, two digits each. -/
def bytesOfHex (text : String) : Except HexError (List UInt8) :=
  let digits := utf8 text
  if digits.length % 2 = 1 then .error .oddLength else bytesOfDigits 0 [] digits

end StackContract.Text
