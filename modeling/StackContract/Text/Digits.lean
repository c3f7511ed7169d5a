/-!
# Digits

Numbers as the listings write them: decimal and hexadecimal, padded with zeros on the left up to a
least width. Padding never cuts, so a number wider than its column is written in full.

* `hexDigit`, `hex`: lower-case hexadecimal;
* `zeroPadded`: the padding rule;
* `decimal4`, `hex2`, `hex4`, `hex8`: the columns in use;
* `hexOfBytes`: two digits for each byte.
-/

namespace StackContract.Text

/-- The lower-case hexadecimal digit of a value below sixteen. -/
def hexDigit (n : Nat) : Char :=
  if n < 10 then Char.ofNat (48 + n) else Char.ofNat (87 + n)

/-- Puts zeros in front of `digits` until there are at least `width` of them. -/
def zeroPadded (width : Nat) (digits : List Char) : List Char :=
  List.replicate (width - digits.length) '0' ++ digits

/-- Lower-case hexadecimal without padding. -/
def hex (n : Nat) : String :=
  String.ofList (Nat.toDigits 16 n)

/-- Decimal, at least four digits wide: the column of addresses. -/
def decimal4 (n : Nat) : String :=
  String.ofList (zeroPadded 4 (Nat.toDigits 10 n))

/-- Hexadecimal, at least two digits wide. -/
def hex2 (n : Nat) : String :=
  String.ofList (zeroPadded 2 (Nat.toDigits 16 n))

/-- Hexadecimal, at least four digits wide: the column of source offsets. -/
def hex4 (n : Nat) : String :=
  String.ofList (zeroPadded 4 (Nat.toDigits 16 n))

/-- Hexadecimal, at least eight digits wide. -/
def hex8 (n : Nat) : String :=
  String.ofList (zeroPadded 8 (Nat.toDigits 16 n))

/-- The two hexadecimal digits of a byte, high half first. -/
def digitsOfByte (b : UInt8) : List Char :=
  [hexDigit (b.toNat / 16), hexDigit (b.toNat % 16)]

/-- Each byte as two lower-case hexadecimal digits. -/
def hexOfBytes (bytes : List UInt8) : String :=
  String.ofList (bytes.flatMap digitsOfByte)

/-- Spaces behind `text` until it is at least `width` characters long. -/
def spacePadded (width : Nat) (text : String) : String :=
  text ++ String.ofList (List.replicate (width - text.length) ' ')

end StackContract.Text
