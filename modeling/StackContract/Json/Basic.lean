/-!
# JSON values

The values that JSON texts denote, with what readers of this library distinguish: a number written as
a plain integer is told apart from every other number, and a string whose escapes contain an unpaired
surrogate denotes no text.
-/

namespace StackContract

/-- A JSON value. -/
inductive Json
  | null
  | bool (b : Bool)
  /-- A number written without fraction and exponent. -/
  | int (v : Int)
  /-- Any other number, as it is written; so is negative zero. -/
  | decimal (literal : String)
  /-- A string; none when its escapes contain an unpaired surrogate. -/
  | text (s : Option String)
  | list (elements : List Json)
  /-- Members in the order of the text; keys may repeat. -/
  | object (members : List (Option String × Json))
deriving Repr, Inhabited

namespace Json

/-- The JSON string of a text. -/
def ofText (s : String) : Json :=
  .text (some s)

/-- The JSON number of a natural number. -/
def ofNat (n : Nat) : Json :=
  .int n

/-- An object whose keys are texts. -/
def ofMembers (members : List (String × Json)) : Json :=
  .object (members.map fun member => (some member.1, member.2))

/-- The value of the first member with a key. -/
def member? (key : String) : Json → Option Json
  | .object members => members.lookup (some key)
  | _ => none

end Json

end StackContract
