import StackContract.Compile.Constant
import StackContract.Compile.Error
/-!
# Folding static initializers

A small stack machine for the initializers of readonly static fields: literals and their conversions,
concatenation of strings, and arrays of bytes and strings. An array lives outside the stack, so that
copies of it on the stack share its elements.
-/

namespace StackContract.Compile

open Number
open Source (Op ValueType Conversion)

/-- The integer of a 32-bit literal. -/
def ofInt32 (v : Int32) : Int128 :=
  (Int128.ofInt? v.toInt).getD default

/-- The integer of a 64-bit literal. -/
def ofInt64 (v : Int64) : Int128 :=
  (Int128.ofInt? v.toInt).getD default

namespace Folding

/-- A value on the stack; an array is named by its position among the arrays made. -/
inductive Value
  | integer (v : Int128)
  | string (s : String)
  | array (id : Nat)
deriving DecidableEq, Repr

/-- The elements of an array. A string element is missing until it is assigned. -/
inductive Elements
  | bytes (data : List UInt8)
  | strings (items : List (Option String))
deriving DecidableEq, Repr

/-- The machine between two instructions. -/
structure State where
  stack : List Value := []
  arrays : List Elements := []
  /-- The width of the literal that the last instruction pushed. -/
  literalBits : Option Nat := none

/-- The problem or the next value of a computation. -/
abbrev Result (α : Type) := Except FoldProblem α

def push (state : State) (value : Value) : State :=
  { state with stack := value :: state.stack }

def pop (state : State) : Result (Value × State) :=
  match state.stack with
  | [] => .error .stackUnderflow
  | value :: rest => .ok (value, { state with stack := rest })

def popInteger (state : State) : Result (Int128 × State) := do
  match ← pop state with
  | (.integer v, state) => return (v, state)
  | _ => throw .expectedInteger

def popString (state : State) : Result (String × State) := do
  match ← pop state with
  | (.string s, state) => return (s, state)
  | _ => throw .expectedString

def popArray (state : State) : Result (Nat × State) := do
  match ← pop state with
  | (.array id, state) => return (id, state)
  | _ => throw .expectedArray

/-- The elements of an array. -/
def elements (state : State) (id : Nat) : Elements :=
  state.arrays.getD id (.bytes [])

/-- A new array without assigned elements, on top of the stack. -/
def newArray (state : State) (element : ValueType) (length : Nat) : Result State := do
  let array ← match element with
    | .byte => pure (Elements.bytes (List.replicate length 0))
    | .string => pure (.strings (List.replicate length none))
    | other => throw (.elementType other)
  return push { state with arrays := state.arrays ++ [array] } (.array state.arrays.length)

/-- Gives a byte array its contents. -/
def initArray (state : State) (id : Nat) (data : List UInt8) : Result State :=
  match elements state id with
  | .bytes old =>
    if old.length = data.length then
      .ok { state with arrays := state.arrays.set id (.bytes data) }
    else .error (.dataLength data.length old.length)
  | .strings _ => .error .rawStrings

/-- The position that an integer names in a list, if it does. -/
def position (index : Int) (length : Nat) : Result Nat :=
  if 0 ≤ index ∧ index < length then .ok index.toNat else .error (.indexRange index)

/-- Assigns one element of an array. -/
def storeElement (state : State) (id : Nat) (index : Int) (value : Value) : Result State :=
  match elements state id, value with
  | .bytes data, .integer v => do
    if v.val < 0 ∨ 256 ≤ v.val then throw (.byteRange v.val)
    let place ← position index data.length
    return { state with
      arrays := state.arrays.set id (.bytes (data.set place (UInt8.ofNat v.val.toNat))) }
  | .strings items, .string s => do
    let place ← position index items.length
    return { state with arrays := state.arrays.set id (.strings (items.set place (some s))) }
  | _, _ => .error .elementMismatch

/-- A conversion changes the literal that was just pushed, and nothing else. -/
def convertLiteral (state : State) (conversion : Conversion) (literalBits : Option Nat) : State :=
  match literalBits, state.stack with
  | some bits, .integer v :: rest =>
    { state with stack := .integer (conversion.reinterpret v bits) :: rest }
  | _, _ => state

/-- Carries out one instruction. -/
def step (before : State) (op : Op) : Result State :=
  let literalBits := before.literalBits
  let state := { before with literalBits := none }
  match op with
  | .nop => .ok state
  | .convert conversion => .ok (convertLiteral state conversion literalBits)
  | .literal32 v => .ok { push state (.integer (ofInt32 v)) with literalBits := some 32 }
  | .literal64 v => .ok { push state (.integer (ofInt64 v)) with literalBits := some 64 }
  | .loadString s => .ok (push state (.string s))
  | .dup =>
    match state.stack with
    | [] => .error .stackUnderflow
    | value :: _ => .ok (push state value)
  | .newArray element => do
    let (length, state) ← popInteger state
    if length.val < 0 then throw (.negativeLength length.val)
    newArray state element length.val.toNat
  | .initArray data => do
    let (id, state) ← popArray state
    initArray state id data
  | .storeElement => do
    let (value, state) ← pop state
    let (index, state) ← popInteger state
    let (id, state) ← popArray state
    storeElement state id index.val value
  | .call (.intrinsic .stringConcat) => do
    let (right, state) ← popString state
    let (left, state) ← popString state
    return push state (.string (left ++ right))
  | other => .error (.notConstant other)

/-- Whether fields of a type hold byte arrays. -/
def isByteArray : ValueType → Bool
  | .byteArray => true
  | .array .byte => true
  | _ => false

/-- Whether fields of a type hold arrays of strings. -/
def isStringArray : ValueType → Bool
  | .array .string => true
  | _ => false

/-- The strings of an array of which every element is assigned, counting from `index`. -/
def assignedStrings (index : Nat) : List (Option String) → Result (List String)
  | [] => .ok []
  | none :: _ => .error (.unassigned index)
  | some s :: rest => do return s :: (← assignedStrings (index + 1) rest)

/-- The constant that a value is as the value of a field of this type. -/
def coerce (state : State) (value : Value) (type : ValueType) : Result Constant :=
  match value, type with
  | .integer v, .boolean => .ok (.boolean (v.val ≠ 0))
  | .integer v, type => if type.isInteger then .ok (.integer v) else .error (.resultType type)
  | .string s, .string => .ok (.string s)
  | .string _, type => .error (.resultType type)
  | .array id, type =>
    match elements state id with
    | .bytes data => if isByteArray type then .ok (.bytes data) else .error (.resultType type)
    | .strings items =>
      if isStringArray type then (assignedStrings 0 items).map .strings
      else .error (.resultType type)

/-- The constant that code leaves as the only value, as a value of this type. -/
def evaluate (code : List Source.Instruction) (type : ValueType) : Result Constant := do
  let state ← code.foldlM (fun state i => step state i.op) {}
  let (value, state) ← pop state
  if !state.stack.isEmpty then throw .extraValues
  coerce state value type

end Folding

end StackContract.Compile
