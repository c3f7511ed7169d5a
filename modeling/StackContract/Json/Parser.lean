import StackContract.Json.Basic
/-!
# Parsing JSON

A strict reader of JSON texts: no comments, no trailing commas, no raw control characters in strings,
no leading zeros, and nothing but blanks behind the value. Strings with an unpaired surrogate are
accepted as values that denote no text.

Every function takes the characters that are left and gives back those behind what it read.
-/

namespace StackContract.Json

/-- The four blanks of JSON. -/
def isBlank (c : Char) : Bool :=
  c = ' ' || c = '\t' || c = '\n' || c = '\r'

/-- The characters from the first that is no blank. -/
def skipBlanks (chars : List Char) : List Char :=
  chars.dropWhile isBlank

/-! ## Strings -/

/-- The value of a hexadecimal digit of either case. -/
def hexValue? (c : Char) : Option Nat :=
  if '0' ≤ c ∧ c ≤ '9' then some (c.toNat - 48)
  else if 'a' ≤ c ∧ c ≤ 'f' then some (c.toNat - 87)
  else if 'A' ≤ c ∧ c ≤ 'F' then some (c.toNat - 55)
  else none

/-- The value of four hexadecimal digits. -/
def unit? (a b c d : Char) : Option Nat := do
  let a ← hexValue? a
  let b ← hexValue? b
  let c ← hexValue? c
  let d ← hexValue? d
  return ((a * 16 + b) * 16 + c) * 16 + d

/-- The character that a one-letter escape stands for. -/
def escaped? : Char → Option Char
  | '"' => some '"'
  | '\\' => some '\\'
  | '/' => some '/'
  | 'b' => some '\x08'
  | 'f' => some '\x0c'
  | 'n' => some '\n'
  | 'r' => some '\r'
  | 't' => some '\t'
  | _ => none

/-- What a string holds so far: its characters, last one first, the leading half of a surrogate pair
whose other half has to come next, and whether every surrogate has found its partner. -/
structure Scan where
  done : List Char := []
  pending : Option Nat := none
  isPaired : Bool := true

namespace Scan

/-- The string goes on with a character. -/
def char (scan : Scan) (c : Char) : Scan :=
  ⟨c :: scan.done, none, scan.isPaired && scan.pending.isNone⟩

/-- The string goes on with a 16-bit unit given by its escape. -/
def unit (scan : Scan) (u : Nat) : Scan :=
  if 0xd800 ≤ u ∧ u < 0xdc00 then
    ⟨scan.done, some u, scan.isPaired && scan.pending.isNone⟩
  else if 0xdc00 ≤ u ∧ u < 0xe000 then
    match scan.pending with
    | some high =>
      ⟨Char.ofNat (0x10000 + (high - 0xd800) * 1024 + (u - 0xdc00)) :: scan.done, none,
        scan.isPaired⟩
    | none => ⟨scan.done, none, false⟩
  else scan.char (Char.ofNat u)

/-- The text of a string that ends here. -/
def text? (scan : Scan) : Option String :=
  if scan.isPaired && scan.pending.isNone then some (String.ofList scan.done.reverse) else none

end Scan

/-- Reads the rest of a string, up to its closing quote. -/
def parseString (scan : Scan) : List Char → Option (Option String × List Char)
  | '"' :: rest => some (scan.text?, rest)
  | '\\' :: 'u' :: a :: b :: c :: d :: rest =>
    match unit? a b c d with
    | some u => parseString (scan.unit u) rest
    | none => none
  | '\\' :: c :: rest =>
    match escaped? c with
    | some c => parseString (scan.char c) rest
    | none => none
  | c :: rest => if c.toNat < 32 ∨ c = '\\' then none else parseString (scan.char c) rest
  | [] => none

/-! ## Numbers -/

/-- Splits off the digits in front. -/
def spanDigits (chars : List Char) : List Char × List Char :=
  (chars.takeWhile Char.isDigit, chars.dropWhile Char.isDigit)

/-- The number that decimal digits denote. -/
def natOfDigits (digits : List Char) : Nat :=
  digits.foldl (fun n c => 10 * n + (c.toNat - 48)) 0

/-- A fraction, if there is one: a point and at least one digit. -/
def parseFraction : List Char → Option (List Char × List Char)
  | '.' :: chars =>
    let (digits, rest) := spanDigits chars
    if digits.isEmpty then none else some ('.' :: digits, rest)
  | chars => some ([], chars)

/-- The sign of an exponent, if there is one. -/
def spanSign : List Char → List Char × List Char
  | '+' :: rest => (['+'], rest)
  | '-' :: rest => (['-'], rest)
  | chars => ([], chars)

/-- An exponent, if there is one: the letter, an optional sign and at least one digit. -/
def parseExponent : List Char → Option (List Char × List Char)
  | [] => some ([], [])
  | c :: chars =>
    if c = 'e' ∨ c = 'E' then
      let (sign, rest) := spanSign chars
      let (digits, rest) := spanDigits rest
      if digits.isEmpty then none else some (c :: sign ++ digits, rest)
    else some ([], c :: chars)

/-- A number of the given sign: digits without a leading zero, a fraction, an exponent. -/
def parseNumber (negative : Bool) (chars : List Char) : Option (Json × List Char) := do
  let (digits, rest) := spanDigits chars
  if digits.isEmpty ∨ (digits.head? = some '0' ∧ digits ≠ ['0']) then none
  let (fraction, rest) ← parseFraction rest
  let (exponent, rest) ← parseExponent rest
  let n := natOfDigits digits
  if fraction.isEmpty ∧ exponent.isEmpty ∧ ¬(negative ∧ n = 0) then
    return (.int (if negative then -(n : Int) else n), rest)
  let sign := if negative then ['-'] else []
  return (.decimal (String.ofList (sign ++ digits ++ fraction ++ exponent)), rest)

/-! ## Values -/

/-- The characters behind `word`, if the text goes on with it. -/
def keyword? (word : String) (value : Json) (chars : List Char) : Option (Json × List Char) :=
  if word.toList.isPrefixOf chars then some (value, chars.drop word.length) else none

mutual

/-- Reads a value. -/
def parseValue : Nat → List Char → Option (Json × List Char)
  | 0, _ => none
  | fuel + 1, chars =>
    match skipBlanks chars with
    | '"' :: rest => (parseString {} rest).map fun (s, rest) => (.text s, rest)
    | '[' :: rest =>
      match skipBlanks rest with
      | ']' :: rest => some (.list [], rest)
      | rest => parseElements fuel [] rest
    | '\x7b' :: rest =>
      match skipBlanks rest with
      | '\x7d' :: rest => some (.object [], rest)
      | rest => parseMembers fuel [] rest
    | '-' :: rest => parseNumber true rest
    | 't' :: rest => keyword? "rue" (.bool true) rest
    | 'f' :: rest => keyword? "alse" (.bool false) rest
    | 'n' :: rest => keyword? "ull" .null rest
    | rest => parseNumber false rest

/-- Reads the elements of a list behind those in `done`, last one first, and its closing bracket. -/
def parseElements : Nat → List Json → List Char → Option (Json × List Char)
  | 0, _, _ => none
  | fuel + 1, done, chars =>
    match parseValue fuel chars with
    | none => none
    | some (element, rest) =>
      match skipBlanks rest with
      | ',' :: rest => parseElements fuel (element :: done) rest
      | ']' :: rest => some (.list (element :: done).reverse, rest)
      | _ => none

/-- Reads the members of an object behind those in `done`, last one first, and its closing brace. -/
def parseMembers : Nat → List (Option String × Json) → List Char → Option (Json × List Char)
  | 0, _, _ => none
  | fuel + 1, done, chars =>
    match skipBlanks chars with
    | '"' :: rest =>
      match parseString {} rest with
      | none => none
      | some (key, rest) =>
        match skipBlanks rest with
        | ':' :: rest =>
          match parseValue fuel rest with
          | none => none
          | some (value, rest) =>
            match skipBlanks rest with
            | ',' :: rest => parseMembers fuel ((key, value) :: done) rest
            | '\x7d' :: rest => some (.object ((key, value) :: done).reverse, rest)
            | _ => none
        | _ => none
    | _ => none

end

/-- The value that a text denotes. Two units of fuel for each character are enough, since of any two
calls in a row one takes a character. -/
def parse (text : String) : Option Json :=
  let chars := text.toList
  match parseValue (2 * chars.length + 2) chars with
  | some (value, rest) => if (skipBlanks rest).isEmpty then some value else none
  | none => none

end StackContract.Json
