import StackContract.Machine.Evaluation
/-!
# Numbers, truth values and comparisons

Arithmetic is exact or faults. The right operand is on top of the stack, and both are read before
anything is computed.
-/

namespace StackContract.Machine

open Number

/-- A function of one integer. -/
inductive UnaryOp
  | complement | sign | abs | negate | increment | decrement | sqrt
deriving DecidableEq, Repr

/-- A function of two integers. -/
inductive BinaryOp
  | and | or | xor | add | sub | mul | div | mod | pow | shl | shr | min | max
deriving DecidableEq, Repr

/-- An order relation or equality. -/
inductive Relation
  | eq | ne | lt | le | gt | ge
deriving DecidableEq, Repr

/-- The value, or an overflow where there is none. -/
def orOverflow : Option Int128 → Except Fault Int128
  | some v => .ok v
  | none => .error .overflow

def UnaryOp.apply (a : Int128) : UnaryOp → Except Fault Int128
  | .complement => .ok a.complement
  | .sign => .ok a.sign
  | .abs => orOverflow a.abs?
  | .negate => orOverflow a.neg?
  | .increment => orOverflow (a.add? .one)
  | .decrement => orOverflow (a.sub? .one)
  | .sqrt => orOverflow a.sqrt?

def BinaryOp.apply (a b : Int128) : BinaryOp → Except Fault Int128
  | .and => .ok (a.and b)
  | .or => .ok (a.or b)
  | .xor => .ok (a.xor b)
  | .add => orOverflow (a.add? b)
  | .sub => orOverflow (a.sub? b)
  | .mul => orOverflow (a.mul? b)
  | .div => if b.val = 0 then .error .divideByZero else orOverflow (a.quot? b)
  | .mod => if b.val = 0 then .error .divideByZero else orOverflow (a.rem? b)
  | .pow => orOverflow (a.pow? b)
  | .shl => orOverflow (a.shiftLeft? b)
  | .shr => orOverflow (a.shiftRight? b)
  | .min => .ok (a.min b)
  | .max => .ok (a.max b)

def Relation.holds (a b : Int) : Relation → Bool
  | .eq => a = b
  | .ne => a ≠ b
  | .lt => a < b
  | .le => a ≤ b
  | .gt => b < a
  | .ge => b ≤ a

/-- Applies a function to the top integer. -/
def UnaryOp.run (op : UnaryOp) : Eval Unit := do
  let a ← Eval.popInteger
  Eval.pushInteger (← Eval.orFault (op.apply a))

/-- Applies a function to the top two integers. -/
def BinaryOp.run (op : BinaryOp) : Eval Unit := do
  let b ← Eval.popInteger
  let a ← Eval.popInteger
  Eval.pushInteger (← Eval.orFault (op.apply a b))

/-- Whether a relation holds between the top two integers, which are taken off. -/
def Relation.test (relation : Relation) : Eval Bool := do
  let b ← Eval.popInteger
  let a ← Eval.popInteger
  return relation.holds a.val b.val

/-- Compares the top two items as integers. Null is in no order with anything. -/
def Relation.compare (relation : Relation) : Eval Unit := do
  let b ← Eval.pop
  let a ← Eval.pop
  if a.isNull || b.isNull then Eval.pushBoolean false
  else
    let heap ← Eval.heap
    let a ← Eval.orFault (a.asInteger heap)
    let b ← Eval.orFault (b.asInteger heap)
    Eval.pushBoolean (relation.holds a.val b.val)

/-- Whether the third integer lies between the second, included, and the top, excluded. -/
def within : Eval Unit := do
  let upper ← Eval.popInteger
  let lower ← Eval.popInteger
  let v ← Eval.popInteger
  Eval.pushBoolean (lower.val ≤ v.val ∧ v.val < upper.val)

/-- Whether the top two items are equal, or whether they differ. -/
def compareItems (expected : Bool) : Eval Unit := do
  let b ← Eval.pop
  let a ← Eval.pop
  let heap ← Eval.heap
  Eval.pushBoolean (a.equals heap b == expected)

/-- Negates the top truth value. -/
def negateBoolean : Eval Unit := do
  Eval.pushBoolean (!(← Eval.popBoolean))

/-- Whether the top integer is not zero. -/
def isNonzero : Eval Unit := do
  Eval.pushBoolean ((← Eval.popInteger).val ≠ 0)

/-- Joins the top two truth values by a conjunction or a disjunction. -/
def joinBooleans (conjunction : Bool) : Eval Unit := do
  let b ← Eval.popBoolean
  let a ← Eval.popBoolean
  Eval.pushBoolean (if conjunction then a && b else a || b)

end StackContract.Machine
