import StackContract.Proofs.Exits
/-!
# Verdicts

Code that compares two items leaves a truth value on top of the stack, or faults (`Decides`). Each
comparison has two opcodes, of which one leaves the opposite of what the other one leaves, and both
fault alike (`opposed_comparison`); but no order holds of null (`decides_null`).
-/

namespace StackContract.Contract

open Assembly Script Lowering Machine Number
open Source (Comparison)

/-! ## Code that faults -/

/-- Code faults with a kind of fault, with at most so many items on the way. -/
def Faults (items : Nat) (code : List Directive) (m : Memory) (kind : FaultKind) : Prop :=
  ∀ ⦃here : Surroundings⦄ ⦃before rest : List Directive⦄ ⦃frame : Frame⦄ ⦃s : State⦄,
    Facing here before (code ++ rest) m frame s → items ≤ s.limits.stack →
    ∃ n t, n < instructionCount code ∧ Advances n s t ∧ Breaks t kind

section

variable {items : Nat} {code first second : List Directive} {m m' : Memory} {kind : FaultKind}

namespace Faults

theorem simple {i : Instruction} (op : SimpleOp) (hop : operation i.opcode = .simple op)
    (hoperand : op.HasOperand i) {fault : Fault} (hrun : op.run i 0 m = .error fault m') :
    Faults items [.instruction i] m fault.kind := by
  intro here before rest frame s h _
  refine ⟨0, s, ?_, .here, (h.simple hop hoperand).2 hrun⟩
  rw [instructionCount_instruction]
  exact Nat.one_pos

theorem append (h : Faults items first m kind) (second : List Directive) :
    Faults items (first ++ second) m kind := by
  intro here before rest frame s hfacing hitems
  rw [List.append_assoc] at hfacing
  obtain ⟨n, t, hn, hadvances, hbreaks⟩ := h hfacing hitems
  refine ⟨n, t, ?_, hadvances, hbreaks⟩
  rw [instructionCount_append]
  omega

end Faults

theorem Carries.faults (h : Carries items first m m') (h' : Faults items second m' kind) :
    Faults items (first ++ second) m kind := by
  intro here before rest frame s hfacing hitems
  rw [List.append_assoc] at hfacing
  obtain ⟨n, t, hn, hadvances, rfl⟩ := h hfacing hitems
  obtain ⟨k, u, hk, hadvances', hbreaks⟩ := h' (hfacing.behind m') hitems
  refine ⟨n + k, u, ?_, hadvances.append hadvances', hbreaks⟩
  rw [instructionCount_append]
  omega

end

/-! ## Code that decides -/

/-- Code leaves a truth value on top of a stack, or faults. -/
def Decides (items : Nat) (code : List Directive) (m : Memory) (stack : Stack Item) :
    Except FaultKind Bool → Prop
  | .ok b => Carries items code m ⟨stack.push (.boolean b), m.heap⟩
  | .error kind => Faults items code m kind

section

variable {items : Nat} {code first second : List Directive} {m m' : Memory} {stack : Stack Item}
  {outcome : Except FaultKind Bool} {f : Bool → Bool}

theorem Decides.behind (h : Decides items second m' stack outcome) (hfirst : Carries items first m m')
    (hheap : m'.heap = m.heap) : Decides items (first ++ second) m stack outcome := by
  cases outcome with
  | ok b =>
    have hsecond : Carries items second m' ⟨stack.push (.boolean b), m'.heap⟩ := h
    rw [hheap] at hsecond
    exact hfirst.append hsecond
  | error kind => exact hfirst.faults h

/-- Code behind a decision that turns the truth value into another one. -/
theorem Decides.map (h : Decides items first m stack outcome)
    (hsecond : ∀ b, Carries items second ⟨stack.push (.boolean b), m.heap⟩
      ⟨stack.push (.boolean (f b)), m.heap⟩) :
    Decides items (first ++ second) m stack (outcome.map f) := by
  cases outcome with
  | ok b => exact Carries.append h (hsecond b)
  | error kind => exact Faults.append h second

/-- A computation pushes a truth value on a stack, or faults. -/
def Judges (x : Eval Unit) (m : Memory) (stack : Stack Item) : Except Fault Bool → Prop
  | .ok b => ∀ address, x address m = .ok () ⟨stack.push (.boolean b), m.heap⟩
  | .error fault => ∃ m', x 0 m = .error fault m'

/-- An instruction decides as its computation does. -/
theorem Judges.decides {i : Instruction} {op : SimpleOp} {verdict : Except Fault Bool}
    (h : Judges (op.run i) m stack verdict) (hop : operation i.opcode = .simple op)
    (hoperand : op.HasOperand i) (hitems : stack.size < items) :
    Decides items [.instruction i] m stack (verdict.mapError Fault.kind) := by
  cases verdict with
  | ok b => exact .simple op hop h hitems
  | error fault =>
    obtain ⟨m', hrun⟩ := h
    exact .simple op hop hoperand hrun

end

/-! ## Opcodes -/

section

variable {items : Nat} {stack : Stack Item} {a b : Item} {heap : Heap}

/-- A test reads the integer on top first. -/
theorem judges_numeric (relation : Relation) (i : Instruction) :
    Judges ((SimpleOp.numeric relation).run i) ⟨(stack.push a).push b, heap⟩ stack (do
      let y ← b.asInteger heap
      let x ← a.asInteger heap
      return relation.holds x.val y.val) := by
  have hrun : ∀ address, (SimpleOp.numeric relation).run i address ⟨(stack.push a).push b, heap⟩
      = ((Eval.orFault (b.asInteger heap) >>= fun y => Eval.popInteger >>= fun x =>
        return relation.holds x.val y.val) >>= fun t => Eval.pushBoolean t) address
          ⟨stack.push a, heap⟩ := fun _ => rfl
  cases hy : b.asInteger heap with
  | error fault => exact ⟨⟨stack.push a, heap⟩, by rw [hrun, hy]; rfl⟩
  | ok y =>
    have hrun' : ∀ address, (SimpleOp.numeric relation).run i address ⟨(stack.push a).push b, heap⟩
        = ((Eval.orFault (a.asInteger heap) >>= fun x => return relation.holds x.val y.val)
          >>= fun t => Eval.pushBoolean t) address ⟨stack, heap⟩ := by
      intro address
      rw [hrun, hy]
      rfl
    cases hx : a.asInteger heap with
    | error fault => exact ⟨⟨stack, heap⟩, by rw [hrun', hx]; rfl⟩
    | ok x =>
      intro address
      rw [hrun', hx]
      rfl

/-- An order reads the integer below first. -/
theorem judges_ordered (relation : Relation) (i : Instruction) (ha : a.isNull = false)
    (hb : b.isNull = false) :
    Judges ((SimpleOp.ordered relation).run i) ⟨(stack.push a).push b, heap⟩ stack (do
      let x ← a.asInteger heap
      let y ← b.asInteger heap
      return relation.holds x.val y.val) := by
  have hrun : ∀ address, (SimpleOp.ordered relation).run i address ⟨(stack.push a).push b, heap⟩
      = (Eval.orFault (a.asInteger heap) >>= fun x => Eval.orFault (b.asInteger heap) >>= fun y =>
        Eval.pushBoolean (relation.holds x.val y.val)) address ⟨stack, heap⟩ := by
    intro address
    show (if a.isNull || b.isNull then Eval.pushBoolean false else _ : Eval Unit) address
      ⟨stack, heap⟩ = _
    rw [ha, hb]
    rfl
  cases hx : a.asInteger heap with
  | error fault => exact ⟨⟨stack, heap⟩, by rw [hrun, hx]; rfl⟩
  | ok x =>
    cases hy : b.asInteger heap with
    | error fault => exact ⟨⟨stack, heap⟩, by rw [hrun, hx, hy]; rfl⟩
    | ok y =>
      intro address
      rw [hrun, hx, hy]
      rfl

/-- No order holds of null. -/
theorem judges_null (relation : Relation) (i : Instruction) (h : a.isNull = true ∨ b.isNull = true) :
    Judges ((SimpleOp.ordered relation).run i) ⟨(stack.push a).push b, heap⟩ stack (.ok false) := by
  intro address
  show (if a.isNull || b.isNull then Eval.pushBoolean false else _ : Eval Unit) address ⟨stack, heap⟩ = _
  rw [if_pos (Bool.or_eq_true .. ▸ h)]
  rfl

theorem judges_equal (expected : Bool) (i : Instruction) :
    Judges ((SimpleOp.equal expected).run i) ⟨(stack.push a).push b, heap⟩ stack
      (.ok (a.equals heap b == expected)) :=
  fun _ => rfl

end

/-! ## Opposite decisions -/

/-- Two pieces of code leave opposite truth values, or fault alike. -/
def Opposed (items : Nat) (code code' : List Directive) (m : Memory) (stack : Stack Item) : Prop :=
  ∃ outcome, Decides items code m stack outcome ∧ Decides items code' m stack (outcome.map (!·))

section

variable {items : Nat} {code code' first : List Directive} {m m' : Memory} {stack : Stack Item}

theorem Opposed.symm (h : Opposed items code code' m stack) : Opposed items code' code m stack := by
  obtain ⟨outcome, hdecides, hdecides'⟩ := h
  refine ⟨outcome.map (!·), hdecides', ?_⟩
  cases outcome with
  | ok b =>
    show Decides items code m stack (.ok (!!b))
    rw [Bool.not_not]
    exact hdecides
  | error kind => exact hdecides

theorem Opposed.behind (h : Opposed items code code' m' stack) (hfirst : Carries items first m m')
    (hheap : m'.heap = m.heap) : Opposed items (first ++ code) (first ++ code') m stack := by
  obtain ⟨outcome, hdecides, hdecides'⟩ := h
  exact ⟨outcome, hdecides.behind hfirst hheap, hdecides'.behind hfirst hheap⟩

theorem opposed_of_faults {kind : FaultKind} (h : Faults items first m kind)
    (code code' : List Directive) : Opposed items (first ++ code) (first ++ code') m stack :=
  ⟨.error kind, h.append code, h.append code'⟩

/-- Two instructions whose computations have opposite verdicts. -/
theorem opposed_of_judges {i i' : Instruction} {op op' : SimpleOp} {verdict verdict' : Except Fault Bool}
    (h : Judges (op.run i) m stack verdict) (h' : Judges (op'.run i') m stack verdict')
    (hverdict : verdict' = verdict.map (!·)) (hop : operation i.opcode = .simple op)
    (hoperand : op.HasOperand i) (hop' : operation i'.opcode = .simple op')
    (hoperand' : op'.HasOperand i') (hitems : stack.size < items) :
    Opposed items [.instruction i] [.instruction i'] m stack := by
  refine ⟨_, h.decides hop hoperand hitems, ?_⟩
  have hdecides := h'.decides hop' hoperand' hitems
  rw [hverdict] at hdecides
  cases verdict <;> exact hdecides

end

/-- The relation that holds where another one does not. -/
def oppositeRelation : Relation → Relation
  | .eq => .ne
  | .ne => .eq
  | .lt => .ge
  | .le => .gt
  | .gt => .le
  | .ge => .lt

theorem holds_oppositeRelation (relation : Relation) (x y : Int) :
    (oppositeRelation relation).holds x y = !relation.holds x y := by
  cases relation <;> simp only [oppositeRelation, Relation.holds] <;> grind

section

variable {items : Nat} {stack : Stack Item} {a b : Item} {heap : Heap}

theorem opposed_equality (hitems : stack.size < items) :
    Opposed items [.op .numEqual] [.op .numNotEqual] ⟨(stack.push a).push b, heap⟩ stack := by
  refine opposed_of_judges (judges_numeric .eq _) (judges_numeric .ne _) ?_ rfl trivial rfl trivial hitems
  cases b.asInteger heap with
  | error fault => rfl
  | ok y =>
    cases a.asInteger heap with
    | error fault => rfl
    | ok x => exact congrArg Except.ok (holds_oppositeRelation .eq x.val y.val)

theorem opposed_identity (hitems : stack.size < items) :
    Opposed items [.op .equal] [.op .notEqual] ⟨(stack.push a).push b, heap⟩ stack := by
  refine opposed_of_judges (judges_equal true _) (judges_equal false _) ?_ rfl trivial rfl trivial hitems
  cases a.equals heap b <;> rfl

/-- An order and the opposite one, of operands that are not null. -/
theorem opposed_order {opcode opcode' : Opcode} (relation : Relation)
    (hop : operation opcode = .simple (.ordered relation))
    (hop' : operation opcode' = .simple (.ordered (oppositeRelation relation)))
    (ha : a.isNull = false) (hb : b.isNull = false) (hitems : stack.size < items) :
    Opposed items [.op opcode] [.op opcode'] ⟨(stack.push a).push b, heap⟩ stack := by
  refine opposed_of_judges (judges_ordered relation _ ha hb)
    (judges_ordered (oppositeRelation relation) _ ha hb) ?_ hop trivial hop' trivial hitems
  cases a.asInteger heap with
  | error fault => rfl
  | ok x =>
    cases b.asInteger heap with
    | error fault => rfl
    | ok y => exact congrArg Except.ok (holds_oppositeRelation relation x.val y.val)

/-! ## Magnitudes -/

theorem run_unary (op : UnaryOp) (address : Nat) (stack : Stack Item) (item : Item) (heap : Heap) :
    op.run address ⟨stack.push item, heap⟩
      = match item.asInteger heap >>= fun v => op.apply v with
        | .ok w => .ok () ⟨stack.push (.integer w), heap⟩
        | .error fault => .error fault ⟨stack, heap⟩ := by
  unfold UnaryOp.run
  rw [Eval.bind_apply, popInteger_push]
  cases item.asInteger heap with
  | error fault => rfl
  | ok v =>
    dsimp only [bind, Except.bind]
    cases op.apply v <;> rfl

/-- The magnitude of the item on top is an integer, unless it faults. -/
theorem carries_abs_or_faults (stack : Stack Item) (item : Item) (heap : Heap)
    (hitems : stack.size < items) :
    (∃ x, Carries items [.op .abs] ⟨stack.push item, heap⟩ ⟨stack.push (.integer x), heap⟩)
      ∨ ∃ kind, Faults items [.op .abs] ⟨stack.push item, heap⟩ kind := by
  have hrun : ∀ address, (SimpleOp.unary .abs).run ⟨.abs, []⟩ address ⟨stack.push item, heap⟩ = _ :=
    fun address => run_unary .abs address stack item heap
  cases hmagnitude : item.asInteger heap >>= fun v => UnaryOp.abs.apply v with
  | error fault =>
    simp only [hmagnitude] at hrun
    exact .inr ⟨_, .simple (.unary .abs) rfl trivial (hrun 0)⟩
  | ok x =>
    simp only [hmagnitude] at hrun
    exact .inl ⟨x, .simple (.unary .abs) rfl hrun hitems⟩

/-- Both operands are replaced by integers, unless one of them faults. -/
theorem carries_magnitudes_or_faults (stack : Stack Item) (a b : Item) (heap : Heap)
    (hitems : stack.size + 2 ≤ items) :
    (∃ x y, Carries items magnitudes ⟨(stack.push a).push b, heap⟩
        ⟨(stack.push (.integer x)).push (.integer y), heap⟩)
      ∨ ∃ kind, Faults items magnitudes ⟨(stack.push a).push b, heap⟩ kind := by
  have hswap := fun x y => carries_swap stack heap x y hitems
  rcases carries_abs_or_faults (stack.push a) b heap hitems with ⟨y, hb⟩ | ⟨kind, hb⟩
  · rcases carries_abs_or_faults (stack.push (.integer y)) a heap hitems with ⟨x, ha⟩ | ⟨kind, ha⟩
    · exact .inl ⟨x, y, hb.cons ((hswap _ _).cons (ha.cons (hswap _ _)))⟩
    · exact .inr ⟨kind, hb.faults ((hswap _ _).faults (ha.append [.op .swap]))⟩
  · exact .inr ⟨kind, hb.append [.op .swap, .op .abs, .op .swap]⟩

/-! ## Comparisons -/

/-- The code of a comparison, or of its negation. -/
def comparisonCode (afterNull negated : Bool) (comparison : Comparison) : List Directive :=
  let opcodes := comparisonOpcode afterNull comparison
  (if comparesMagnitudes afterNull comparison then magnitudes else [])
    ++ [.op (if negated then opcodes.2 else opcodes.1)]

/-- Whether a comparison is an order of its operands as they are, in which null takes no part. -/
def isSignedOrder (comparison : Comparison) : Bool :=
  comparison = .greater ∨ comparison = .less

/-- A comparison and its negation decide oppositely, unless they are orders of null. -/
theorem opposed_comparison (afterNull : Bool) {comparison : Comparison} (hitems : stack.size + 2 ≤ items)
    (hnull : isSignedOrder comparison = true → a.isNull = false ∧ b.isNull = false) :
    Opposed items (comparisonCode afterNull false comparison) (comparisonCode afterNull true comparison)
      ⟨(stack.push a).push b, heap⟩ stack := by
  have hsize : stack.size < items := Nat.lt_of_succ_lt hitems
  -- behind the magnitudes the operands are integers
  have hunsigned : ∀ {opcode opcode' : Opcode} (relation : Relation),
      operation opcode = .simple (.ordered relation) →
      operation opcode' = .simple (.ordered (oppositeRelation relation)) →
      Opposed items (magnitudes ++ [.op opcode]) (magnitudes ++ [.op opcode'])
        ⟨(stack.push a).push b, heap⟩ stack := by
    intro opcode opcode' relation hop hop'
    rcases carries_magnitudes_or_faults stack a b heap hitems with ⟨x, y, hcarries⟩ | ⟨kind, hfaults⟩
    · exact (opposed_order relation hop hop' rfl rfl hsize).behind hcarries rfl
    · exact opposed_of_faults hfaults _ _
  cases comparison with
  | equal =>
    cases afterNull with
    | true => exact opposed_identity hsize
    | false => exact opposed_equality hsize
  | greater =>
    obtain ⟨ha, hb⟩ := hnull rfl
    exact opposed_order .gt rfl rfl ha hb hsize
  | less =>
    obtain ⟨ha, hb⟩ := hnull rfl
    exact opposed_order .lt rfl rfl ha hb hsize
  | greaterUnsigned =>
    cases afterNull with
    | true => exact (opposed_identity hsize).symm
    | false => exact hunsigned .gt rfl rfl
  | lessUnsigned => exact hunsigned .lt rfl rfl

/-- Neither a signed order of null holds, nor its opposite. -/
theorem decides_null (afterNull negated : Bool) {comparison : Comparison}
    (horder : isSignedOrder comparison = true) (hnull : a.isNull = true ∨ b.isNull = true)
    (hitems : stack.size < items) : Decides items (comparisonCode afterNull negated comparison)
      ⟨(stack.push a).push b, heap⟩ stack (.ok false) := by
  have hop : ∀ {opcode : Opcode} {relation : Relation},
      operation opcode = .simple (.ordered relation) →
      Decides items [.op opcode] ⟨(stack.push a).push b, heap⟩ stack (.ok false) :=
    fun hop => (judges_null _ _ hnull).decides hop trivial hitems
  cases comparison with
  | greater => cases negated <;> exact hop rfl
  | less => cases negated <;> exact hop rfl
  | equal | greaterUnsigned | lessUnsigned => cases horder

end

end StackContract.Contract
