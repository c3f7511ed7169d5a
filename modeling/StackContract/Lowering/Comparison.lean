import StackContract.Lowering.Scope
/-!
# Literals, comparisons and branches

A literal takes in the conversion behind it. A comparison takes in its negation, a comparison with zero
behind it, and turns into the opposite one. Comparisons with null are tests for identity.

Unsigned comparisons compare magnitudes: on the machine numbers that are unsigned in the source are
never negative unless they were reinterpreted.
-/

namespace StackContract.Lowering

open Assembly Script Number
open Source (Op Condition Comparison)

/-- Pushes a literal of `bits` bits, the conversion behind it applied. -/
def lowerLiteral (scope : Scope) (position : Nat) (v : Int128) (bits : Nat) : Lowered :=
  match scope.inline? (position + 1) with
  | some (.convert conversion) => ⟨[.pushInteger (conversion.reinterpret v bits)], 1⟩
  | _ => .code [.pushInteger v]

/-- Whether a comparison with zero follows, which negates a truth value. -/
def isNegated (scope : Scope) (position : Nat) : Bool :=
  match scope.inline? (position + 1), scope.inline? (position + 2) with
  | some (.literal32 v), some (.compare .equal) => v = 0
  | _, _ => false

/-- Whether null was pushed right before, with no branch coming in between. -/
def isAfterNull (scope : Scope) (position : Nat) : Bool :=
  match position with
  | 0 => false
  | previous + 1 =>
    match scope.body[previous]? with
    | some ⟨_, .loadNull⟩ => (scope.inline? position).isSome
    | _ => false

/-- Both operands by their magnitudes. -/
def magnitudes : List Directive :=
  [.op .abs, .op .swap, .op .abs, .op .swap]

/-- The opcodes of a comparison: as it stands, and negated. -/
def comparisonOpcode (afterNull : Bool) : Comparison → Opcode × Opcode
  | .equal => if afterNull then (.equal, .notEqual) else (.numEqual, .numNotEqual)
  | .greaterUnsigned => if afterNull then (.notEqual, .equal) else (.gt, .le)
  | .greater => (.gt, .le)
  | .less | .lessUnsigned => (.lt, .ge)

/-- Whether the operands of a comparison are taken by magnitude. -/
def comparesMagnitudes (afterNull : Bool) : Comparison → Bool
  | .greaterUnsigned => !afterNull
  | .lessUnsigned => true
  | _ => false

/-- A comparison that leaves a truth value. -/
def lowerComparison (scope : Scope) (position : Nat) (comparison : Comparison) : Lowered :=
  let afterNull := isAfterNull scope position
  let negated := isNegated scope position
  let opcodes := comparisonOpcode afterNull comparison
  let operands := if comparesMagnitudes afterNull comparison then magnitudes else []
  if negated then ⟨operands ++ [.op opcodes.2], 2⟩ else ⟨operands ++ [.op opcodes.1], 0⟩

/-- The code that decides a branch, and the jump that takes it. -/
def branchCode : Condition → List Directive × Opcode
  | .always | .leave => ([], .jmpL)
  | .ifTrue => ([], .jmpIfL)
  | .ifFalse => ([], .jmpIfNotL)
  | .equal => ([.op .numEqual], .jmpIfL)
  | .notEqual => ([.op .numNotEqual], .jmpIfL)
  | .less => ([.op .lt], .jmpIfL)
  | .lessUnsigned => (magnitudes ++ [.op .lt], .jmpIfL)
  | .lessEqual => ([.op .le], .jmpIfL)
  | .lessEqualUnsigned => (magnitudes ++ [.op .le], .jmpIfL)
  | .greater => ([.op .gt], .jmpIfL)
  | .greaterUnsigned => (magnitudes ++ [.op .gt], .jmpIfL)
  | .greaterEqual => ([.op .ge], .jmpIfL)
  | .greaterEqualUnsigned => (magnitudes ++ [.op .ge], .jmpIfL)

/-- A branch to a source offset. -/
def lowerBranch (condition : Condition) (target : UInt32) : List Directive :=
  let (test, jump) := branchCode condition
  test ++ [.jump jump target]

/-- The bytes from the conditional jump of a switch case to the next case: that jump, the removal of
the tag, and the jump to the case. -/
def caseSize : Nat := 5 + 1 + 5

/-- One case of a switch: if the tag is `index`, removes it and jumps. -/
def switchCase (index : Nat) (target : UInt32) : List Directive :=
  [.op .dup, .pushNat index, .op .numEqual, .instruction ⟨.jmpIfNotL, bytesOfNat 4 caseSize⟩,
    .op .drop, .jump .jmpL target]

/-- A switch tests the tag against each case in turn. Behind the last case it removes the tag. -/
def lowerSwitch (targets : List UInt32) : List Directive :=
  (targets.zipIdx.flatMap fun (target, index) => switchCase index target) ++ [.op .drop]

end StackContract.Lowering
