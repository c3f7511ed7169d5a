import StackContract.Json.Basic
/-!
# Reading records and variants from JSON

The rules by which JSON values become values of a model:

* a record is an object, in which unknown keys are ignored and known ones must not repeat, or the list
  of its fields in order; a field that is missing takes its default if it has one;
* a variant is its tag, or an object whose only key is the tag and whose value is the payload;
* an integer is written as one and lies in the range of its type.

Lists, records and variants with a payload nest at most as deep as the number of levels that a reader
is given. A value that no reader looks at may nest to any depth.
-/

namespace StackContract.Json

/-- Reads a value of a type, given how many levels of lists and objects may still open. -/
abbrev Reader (α : Type) := Nat → Json → Option α

namespace Reader

/-- A text. -/
def text : Reader String
  | _, .text s => s
  | _, _ => none

/-- A truth value. -/
def bool : Reader Bool
  | _, .bool b => some b
  | _, _ => none

/-- An integer from `low` up to `high`, as `make` of it. -/
def int {α : Type} (low high : Int) (make : Int → α) : Reader α
  | _, .int v => if low ≤ v ∧ v ≤ high then some (make v) else none
  | _, _ => none

def uint8 : Reader UInt8 := int 0 255 fun v => UInt8.ofNat v.toNat
def uint16 : Reader UInt16 := int 0 65535 fun v => UInt16.ofNat v.toNat
def uint32 : Reader UInt32 := int 0 4294967295 fun v => UInt32.ofNat v.toNat
def int32 : Reader Int32 := int (-2147483648) 2147483647 Int32.ofInt
def int64 : Reader Int64 := int (-9223372036854775808) 9223372036854775807 Int64.ofInt

/-- A list, each element read one level deeper. -/
def list {α : Type} (element : Reader α) : Reader (List α)
  | depth + 1, .list elements => elements.mapM (element depth)
  | _, _ => none

/-- `null` or a value. -/
def optional {α : Type} (value : Reader α) : Reader (Option α)
  | _, .null => some none
  | depth, json => (value depth json).map some

end Reader

/-! ## Records -/

/-- Whether every key is a text and no known key repeats. -/
def hasValidKeys (names : List String) (members : List (Option String × Json)) : Bool :=
  members.all (fun member => member.1.isSome) &&
    names.all fun name => (members.filter fun member => member.1 = some name).length ≤ 1

/-- The fields of a record by their names, in the order of the names. -/
def fields? (names : List String) : Json → Option (List (Option Json))
  | .object members =>
    if hasValidKeys names members then
      some (names.map fun name => members.lookup (some name))
    else none
  | .list elements =>
    if elements.length ≤ names.length then
      some (elements.map some ++ List.replicate (names.length - elements.length) none)
    else none
  | _ => none

/-- A field that must be there. -/
def required {α : Type} (value : Reader α) (depth : Nat) (field : Option Json) : Option α :=
  field.bind (value depth)

/-- A field that has a default. -/
def defaulted {α : Type} (default : α) (value : Reader α) (depth : Nat) :
    Option Json → Option α
  | some json => value depth json
  | none => some default

/-- A record with these fields, read by `make` one level deeper. -/
def record {α : Type} (names : List String) (make : Nat → List (Option Json) → Option α) :
    Reader α
  | depth + 1, json => (fields? names json).bind (make depth)
  | 0, _ => none

/-! ## Variants -/

/-- A variant: one of the tags of `plain?`, or a tag and a payload for `payload?`, which is read one
level deeper. A tag without payload may also come with `null`. -/
def variant {α : Type} (plain? : String → Option α)
    (payload? : String → Nat → Json → Option α) : Reader α
  | _, .text (some tag) => plain? tag
  | depth + 1, .object [(some tag, value)] =>
    match plain? tag, value with
    | some a, .null => some a
    | some _, _ => none
    | none, value => payload? tag depth value
  | _, _ => none

end StackContract.Json
