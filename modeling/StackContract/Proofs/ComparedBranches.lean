import StackContract.Proofs.BranchTargets
import StackContract.Proofs.Negations
/-!
# Branches that compare

A branch that compares two items goes where a comparison with a conditional branch behind it goes
(`branchesAgree_of_build`), unless null was pushed right before: then some comparisons are of
identities, and branches are not.

A comparison for equality may be written as the negation of the comparison in front of it. It still
agrees with a branch that compares the truth value with zero, unless it negates an order of null.
-/

namespace StackContract.Contract

open Assembly Script Lowering Machine Number
open Compile (ofInt32)
open Source (Comparison Condition Module)

/-! ## Statement -/

/-- What a branch compares, and whether it is taken where the comparison holds or where it does not. -/
def comparedBy? : Condition → Option (Comparison × Bool)
  | .equal => some (.equal, true)
  | .notEqual => some (.equal, false)
  | .greater => some (.greater, true)
  | .greaterUnsigned => some (.greaterUnsigned, true)
  | .less => some (.less, true)
  | .lessUnsigned => some (.lessUnsigned, true)
  | _ => none

/-- The condition that an item is a truth value. -/
def isTruth (expected : Bool) : Condition :=
  if expected then .ifTrue else .ifFalse

/-- Whether a comparison right behind null is one of identities. -/
def isNullTest : Comparison → Bool
  | .equal | .greaterUnsigned => true
  | _ => false

/-- A branch in a routine, and the segments in front of it for what it decides on. -/
structure Decision (routine : Routine) where
  before : List Segment
  operands : List Segment
  /-- The segment of the branch. -/
  branch : Segment
  after : List Segment
  condition : Condition
  target : UInt32
  segments_eq : routine.segments = before ++ (operands ++ branch :: after)
  op_eq : branch.source.op = .branch condition target

namespace Decision

variable {routine : Routine}

/-- The segment in front of which a decision starts. -/
def first (site : Decision routine) : Segment :=
  site.operands.headD site.branch

/-- Whether null was pushed right before, with no branch coming in between. -/
def afterNull (site : Decision routine) : Bool :=
  isAfterNull routine.scope site.first.position

/-- A branch that compares by itself. -/
def Compares (site : Decision routine) (comparison : Comparison) (expected : Bool) : Prop :=
  site.operands = [] ∧ comparedBy? site.condition = some (comparison, expected)

/-- A conditional branch behind a comparison. Code for the comparison that covers its negation leaves
the opposite truth value. -/
def Tests (site : Decision routine) (isFused : Bool) (comparison : Comparison) (expected : Bool) :
    Prop :=
  ∃ compare, site.operands = [compare] ∧ compare.source.op = .compare comparison
    ∧ isNegated routine.scope compare.position = isFused ∧ site.condition = isTruth expected

/-- A branch that compares the truth value of a comparison in front of it with zero. -/
def ComparesWithZero (site : Decision routine) (comparison : Comparison) (expected : Bool) : Prop :=
  ∃ compare zero, site.operands = [compare, zero] ∧ compare.source.op = .compare comparison
    ∧ isNegated routine.scope compare.position = false ∧ zero.source.op = .literal32 0
    ∧ comparedBy? site.condition = some (.equal, expected)

/-- What is written for the operands and the branch. -/
def code (site : Decision routine) : List Directive :=
  site.operands.flatMap Segment.code ++ site.branch.code

/-- From a machine in front of a decision, control comes to the target of the branch or behind it, with
the items below the operands on the stack and everything else as it was, or it comes to a fault. -/
def EndsWith (site : Decision routine) (program : Program) (method : PlacedMethod) (s : State)
    (below : List Item) : Except FaultKind Bool → Prop
  | .ok taken => ∃ n address, n ≤ instructionCount site.code
    ∧ Advances n s { s with memory := ⟨.ofList below, s.memory.heap⟩, address }
    ∧ ExitsAt program method routine (site.before ++ site.operands) site.branch
      (if taken then some site.target else none) address
  | .error kind => ∃ n t, n < instructionCount site.code ∧ Advances n s t ∧ Breaks t kind

end Decision

/-- A branch that compares agrees with a comparison and a conditional branch behind it. -/
structure BranchesAgree (program : Program) (method : PlacedMethod) (routine : Routine)
    (program' : Program) (method' : PlacedMethod) (routine' : Routine) : Prop where
  /-- Every branch that compares has code of its own, unless it is part of a switch over strings. -/
  exists_compares : ∀ ⦃position i condition target comparison expected⦄,
    routine.scope.body[position]? = some i → i.op = .branch condition target →
    comparedBy? condition = some (comparison, expected) →
    (∃ site : Decision routine, site.Compares comparison expected ∧ site.branch.position = position
        ∧ site.target = target)
      ∨ ∃ hash ∈ routine.segments, hashesString hash.source.op = true ∧ hash.position < position
        ∧ position < hash.position + 1 + hash.lowered.consumed
  /-- Every comparison with a conditional branch behind it has code of its own, or it is an equality that
  negates the comparison in front of it. -/
  exists_tests : ∀ ⦃position compare branch comparison expected target⦄,
    routine'.scope.body[position]? = some compare → compare.op = .compare comparison →
    routine'.scope.body[position + 1]? = some branch →
    branch.op = .branch (isTruth expected) target →
    ∃ site : Decision routine', site.branch.position = position + 1 ∧ site.target = target
      ∧ (site.first.position = position ∧ site.Tests false comparison expected
        ∨ site.first.position + 2 = position ∧ comparison = .equal
          ∧ ∃ negated, site.Tests true negated expected)
  /-- Every comparison has code of its own with zero and a branch on equality behind it. -/
  exists_comparesWithZero : ∀ ⦃before compare after comparison expected condition target zero branch⦄,
    routine.segments = before ++ compare :: after → compare.source.op = .compare comparison →
    routine.scope.body[compare.position + 1]? = some zero → zero.op = .literal32 0 →
    routine.scope.body[compare.position + 2]? = some branch → branch.op = .branch condition target →
    comparedBy? condition = some (.equal, expected) →
    ∃ site : Decision routine, site.before = before ∧ site.first = compare ∧ site.target = target
      ∧ site.ComparesWithZero comparison expected
  /-- Both decide alike for the same items, wherever they are in the two programs. -/
  agree : ∀ ⦃site : Decision routine⦄ ⦃site' : Decision routine'⦄ ⦃comparison expected⦄,
    site.Compares comparison expected → site'.Tests false comparison expected →
    (isNullTest comparison = true → site.afterNull = false ∧ site'.afterNull = false) →
    ∀ ⦃s s' : State⦄ ⦃a b : Item⦄ ⦃below : List Item⦄,
    InFrontOf program method routine site.before site.first s →
    InFrontOf program' method' routine' site'.before site'.first s' →
    s.memory = s'.memory → s.memory.stack.toList = b :: a :: below →
    below.length + 2 ≤ s.limits.stack → below.length + 2 ≤ s'.limits.stack →
    ∃ outcome, site.EndsWith program method s below outcome
      ∧ site'.EndsWith program' method' s' below outcome
  /-- So do a branch that compares a truth value with zero and an equality that negates it. -/
  agreeNegated : ∀ ⦃site : Decision routine⦄ ⦃site' : Decision routine'⦄ ⦃comparison expected⦄,
    site.ComparesWithZero comparison expected → site'.Tests true comparison expected →
    site.afterNull = site'.afterNull →
    ∀ ⦃s s' : State⦄ ⦃a b : Item⦄ ⦃below : List Item⦄,
    InFrontOf program method routine site.before site.first s →
    InFrontOf program' method' routine' site'.before site'.first s' →
    s.memory = s'.memory → s.memory.stack.toList = b :: a :: below →
    (isSignedOrder comparison = true → a.isNull = false ∧ b.isNull = false) →
    below.length + 2 ≤ s.limits.stack → below.length + 2 ≤ s'.limits.stack →
    ∃ outcome, site.EndsWith program method s below outcome
      ∧ site'.EndsWith program' method' s' below outcome
  /-- They decide oppositely for an order of null, which does not hold and whose opposite does not
  either. -/
  orderOfNull : ∀ ⦃site : Decision routine⦄ ⦃site' : Decision routine'⦄ ⦃comparison expected⦄,
    site.ComparesWithZero comparison expected → site'.Tests true comparison expected →
    isSignedOrder comparison = true →
    ∀ ⦃s s' : State⦄ ⦃a b : Item⦄ ⦃below : List Item⦄,
    InFrontOf program method routine site.before site.first s →
    InFrontOf program' method' routine' site'.before site'.first s' →
    s.memory = s'.memory → s.memory.stack.toList = b :: a :: below →
    a.isNull = true ∨ b.isNull = true →
    below.length + 2 ≤ s.limits.stack → below.length + 2 ≤ s'.limits.stack →
    site.EndsWith program method s below (.ok expected)
      ∧ site'.EndsWith program' method' s' below (.ok !expected)

/-! ## Branches -/

theorem branchCode_of_comparedBy? {condition : Condition} {comparison : Comparison} {expected : Bool}
    (h : comparedBy? condition = some (comparison, expected)) :
    branchCode condition = (comparisonCode false (!expected) comparison, .jmpIfL) := by
  cases condition <;> cases h <;> rfl

theorem lowerBranch_isTruth (expected : Bool) (target : UInt32) : lowerBranch (isTruth expected) target
    = [.jump (if expected then .jmpIfL else .jmpIfNotL) target] := by
  cases expected <;> rfl

theorem lowered_of_branch {scope : Scope} {position : Nat} {i : Source.Instruction}
    {carry carry' : Carry} {lowered : Lowered} {condition : Condition} {target : UInt32}
    (hop : i.op = .branch condition target)
    (h : (lower scope position i).run carry = .ok (lowered, carry')) :
    lowered = .code (lowerBranch condition target) := by
  obtain ⟨offset, op⟩ := i
  cases hop
  cases h
  rfl

/-- Whatever decides a branch, its code ends with a jump that control may pass. -/
theorem lowerBranch_ends {condition : Condition} (target : UInt32)
    (h : (∃ expected, condition = isTruth expected) ∨ (comparedBy? condition).isSome = true) :
    ∃ first d, lowerBranch condition target = first ++ [d] ∧ 0 < d.size ∧ d.isTerminator = false := by
  rcases h with ⟨expected, rfl⟩ | h
  · cases expected <;> exact ⟨[], _, rfl, Nat.succ_pos _, rfl⟩
  · obtain ⟨⟨comparison, expected⟩, h⟩ := Option.isSome_iff_exists.mp h
    refine ⟨comparisonCode false (!expected) comparison, .jump .jmpIfL target, ?_, Nat.succ_pos _, rfl⟩
    unfold lowerBranch
    rw [branchCode_of_comparedBy? h]

/-- The code of a branch takes its operands off a stack and decides, or faults. -/
def Branches (items : Nat) (condition : Condition) (target : UInt32) (m : Memory)
    (stack : Stack Item) : Except FaultKind Bool → Prop
  | .ok taken => ∀ frame, Exits items frame (lowerBranch condition target) m ⟨stack, m.heap⟩
    (if taken then some target else none)
  | .error kind => Faults items (lowerBranch condition target) m kind

section

variable {items : Nat} {condition : Condition} {comparison : Comparison} {expected : Bool}
  {m : Memory} {stack : Stack Item} {a b : Item} {heap : Heap} {outcome : Except FaultKind Bool}

theorem branches_of_comparedBy? (hcondition : comparedBy? condition = some (comparison, expected))
    (target : UInt32) (hdecides : Decides items (comparisonCode false (!expected) comparison) m stack
      outcome) (hitems : stack.size ≤ items) : Branches items condition target m stack outcome := by
  unfold Branches lowerBranch
  rw [branchCode_of_comparedBy? hcondition]
  cases outcome with
  | ok taken => exact fun frame => (hdecides.exits frame).append (.jumpIf target taken hitems)
  | error kind => exact Faults.append hdecides _

theorem branches_isTruth (expected b : Bool) (target : UInt32) (hitems : stack.size ≤ items) :
    Branches items (isTruth expected) target ⟨stack.push (.boolean b), heap⟩ stack
      (.ok (b == expected)) := by
  unfold Branches
  rw [lowerBranch_isTruth]
  intro frame
  have hjump : Exits items frame [.jump (if expected then .jmpIfL else .jmpIfNotL) target]
      ⟨stack.push (.boolean b), heap⟩ ⟨stack, heap⟩ _ := .jumpOn expected target b hitems
  cases b <;> cases expected <;> exact hjump

/-- A comparison decides, whatever its operands are. -/
theorem exists_decides (afterNull : Bool) (comparison : Comparison) (hitems : stack.size + 2 ≤ items) :
    ∃ outcome, Decides items (comparisonCode afterNull false comparison) ⟨(stack.push a).push b, heap⟩
      stack outcome := by
  by_cases hnull : isSignedOrder comparison = true ∧ (a.isNull = true ∨ b.isNull = true)
  · exact ⟨_, decides_null afterNull false hnull.1 hnull.2 (Nat.lt_of_succ_lt hitems)⟩
  · have hoperands : isSignedOrder comparison = true → a.isNull = false ∧ b.isNull = false := by
      intro horder
      have hneither := not_or.mp fun h => hnull ⟨horder, h⟩
      exact ⟨Bool.eq_false_iff.mpr hneither.1, Bool.eq_false_iff.mpr hneither.2⟩
    obtain ⟨outcome, hdecides, -⟩ : Opposed items _ _ ⟨(stack.push a).push b, heap⟩ stack :=
      opposed_comparison afterNull hitems hoperands
    exact ⟨outcome, hdecides⟩

/-- What a branch compares decides as the comparison does, or oppositely if it is taken where the
comparison does not hold. -/
theorem exists_decides_of_comparedBy? (hcondition : comparedBy? condition = some (comparison, expected))
    (hitems : stack.size + 2 ≤ items) :
    ∃ outcome, Decides items (comparisonCode false false comparison) ⟨(stack.push a).push b, heap⟩ stack
        outcome
      ∧ Decides items (comparisonCode false (!expected) comparison) ⟨(stack.push a).push b, heap⟩ stack
        (outcome.map (· == expected)) := by
  cases expected with
  | true =>
    obtain ⟨outcome, hdecides⟩ := exists_decides false comparison hitems
    refine ⟨outcome, hdecides, ?_⟩
    cases outcome with
    | ok verdict => cases verdict <;> exact hdecides
    | error kind => exact hdecides
  | false =>
    obtain rfl : comparison = .equal := by
      cases condition <;> cases hcondition
      rfl
    obtain ⟨outcome, hdecides, hdecides'⟩ : Opposed items _ _ ⟨(stack.push a).push b, heap⟩ stack :=
      opposed_equality (Nat.lt_of_succ_lt hitems)
    refine ⟨outcome, hdecides, ?_⟩
    cases outcome with
    | ok verdict => cases verdict <;> exact hdecides'
    | error kind => exact hdecides'

end

/-! ## Passing segments -/

section

variable {limits : Compile.Limits} {module : Module} {program : Program}
  {image : Image limits module program} {routine : Routine} {method : PlacedMethod}
  {before passed after : List Segment} {segment next : Segment} {items : Nat} {m : Memory} {s : State}
  {kind : FaultKind}

/-- The mark of an instruction takes no room, so a machine behind it is in front of it as well. -/
theorem InFrontOf.facing_segments (h : InFrontOf program method routine before segment s)
    (hat : image.At routine method) {rest : List Segment} (hsegments : routine.segments = before ++ rest) :
    ∃ (frame : Frame) (below : List Frame),
      Facing ⟨program.script.toArray, baseOf? program.methods, method.base, routine.code, below⟩
        (routine.prologue ++ before.flatMap Segment.code)
        (rest.flatMap Segment.code ++ routine.close) s.memory frame s := by
  obtain ⟨frame, below, hframes⟩ := List.exists_cons_of_ne_nil h.running
  refine ⟨frame, below, h.script, hat.resident.loaded, ?_, ?_, rfl, hframes⟩
  · rw [Routine.code_eq, hsegments, List.flatMap_append]
    simp only [List.append_assoc]
  · rw [h.address]
    unfold Routine.addressOf
    rw [extent_append]
    rfl

/-- A machine passes segments whose code carries it on. -/
theorem InFrontOf.passes (h : InFrontOf program method routine before segment s)
    (hat : image.At routine method)
    (hsegments : routine.segments = before ++ (passed ++ next :: after))
    (hcarries : Carries items (passed.flatMap Segment.code) s.memory m)
    (hitems : items ≤ s.limits.stack) :
    ∃ n address, n ≤ instructionCount (passed.flatMap Segment.code)
      ∧ Advances n s { s with memory := m, address }
      ∧ InFrontOf program method routine (before ++ passed) next { s with memory := m, address } := by
  obtain ⟨frame, below, hfacing⟩ := h.facing_segments hat hsegments
  rw [List.flatMap_append, List.append_assoc] at hfacing
  obtain ⟨n, t, hn, hadvances, rfl⟩ := hcarries hfacing hitems
  refine ⟨n, _, hn, hadvances, h.script, ?_, h.running⟩
  unfold Routine.addressOf
  rw [List.flatMap_append, ← List.append_assoc, extent_append _ [_]]
  rfl

theorem InFrontOf.faults (h : InFrontOf program method routine before segment s)
    (hat : image.At routine method)
    (hsegments : routine.segments = before ++ (passed ++ next :: after))
    (hfaults : Faults items (passed.flatMap Segment.code) s.memory kind)
    (hitems : items ≤ s.limits.stack) :
    ∃ n t, n < instructionCount (passed.flatMap Segment.code) ∧ Advances n s t ∧ Breaks t kind := by
  obtain ⟨frame, below, hfacing⟩ := h.facing_segments hat hsegments
  rw [List.flatMap_append, List.append_assoc] at hfacing
  exact hfaults hfacing hitems

end

/-! ## Decisions -/

namespace Decision

variable {limits : Compile.Limits} {module : Module} {program : Program}
  {image : Image limits module program} {routine : Routine} {method : PlacedMethod}
  {site : Decision routine} {isFused : Bool} {comparison : Comparison} {expected : Bool}
  {s : State} {a b : Item} {below : List Item} {outcome : Except FaultKind Bool}

theorem instructionCount_code (site : Decision routine) : instructionCount site.code
    = instructionCount (site.operands.flatMap Segment.code)
      + instructionCount site.branch.lowered.directives := by
  unfold code
  rw [instructionCount_append]
  rfl

theorem lowered_branch (site : Decision routine) (hat : image.At routine method) :
    site.branch.lowered = .code (lowerBranch site.condition site.target) := by
  have hlowers := image.lowers hat.routine_mem
  rw [site.segments_eq, ← List.append_assoc] at hlowers
  obtain ⟨position, carry, htail⟩ := hlowers.behind
  obtain ⟨-, -, carry', hlower, -⟩ := htail.uncons
  exact lowered_of_branch site.op_eq hlower

/-- A decision ends as its branch does behind the operands. -/
theorem endsWith (hat : image.At routine method) {m : Memory}
    (hcondition : (∃ expected, site.condition = isTruth expected)
      ∨ (comparedBy? site.condition).isSome = true)
    (hfront : InFrontOf program method routine site.before site.first s)
    (hcarries : Carries (below.length + 2) (site.operands.flatMap Segment.code) s.memory m)
    (hheap : m.heap = s.memory.heap) (hitems : below.length + 2 ≤ s.limits.stack)
    (hbranches : Branches (below.length + 2) site.condition site.target m (.ofList below) outcome) :
    site.EndsWith program method s below outcome := by
  obtain ⟨n, address, hn, hadvances, hthere⟩ := hfront.passes hat site.segments_eq hcarries hitems
  have hsegments : routine.segments = (site.before ++ site.operands) ++ site.branch :: site.after := by
    rw [site.segments_eq, List.append_assoc]
  have hlowered := site.lowered_branch hat
  have hdirectives : site.branch.lowered.directives = lowerBranch site.condition site.target :=
    congrArg Lowered.directives hlowered
  have hcount := site.instructionCount_code
  cases outcome with
  | ok taken =>
    obtain ⟨frame, callers, hframes⟩ := List.exists_cons_of_ne_nil hthere.running
    have hleaves := hbranches frame
    rw [← hdirectives] at hleaves
    obtain ⟨k, address', hk, hadvances', hexits⟩ := hat.exits hsegments hthere hframes hitems hleaves
      fun _ => hdirectives ▸ lowerBranch_ends site.target hcondition
    rw [hheap] at hadvances'
    exact ⟨n + k, address', by omega, hadvances.append hadvances', hexits⟩
  | error kind =>
    obtain ⟨frame, callers, front, -, hfacing, -⟩ := hthere.facing hat hsegments
    have hfaults : Faults (below.length + 2) (lowerBranch site.condition site.target) m kind := hbranches
    rw [hdirectives] at hfacing hcount
    obtain ⟨k, t, hk, hadvances', hbreaks⟩ := hfaults hfacing hitems
    exact ⟨n + k, t, by omega, hadvances.append hadvances', hbreaks⟩

/-- A decision faults if its operands do. -/
theorem endsWith_error (hat : image.At routine method) {kind : FaultKind}
    (hfront : InFrontOf program method routine site.before site.first s)
    (hfaults : Faults (below.length + 2) (site.operands.flatMap Segment.code) s.memory kind)
    (hitems : below.length + 2 ≤ s.limits.stack) :
    site.EndsWith program method s below (.error kind) := by
  obtain ⟨n, t, hn, hadvances, hbreaks⟩ := hfront.faults hat site.segments_eq hfaults hitems
  have hcount := site.instructionCount_code
  exact ⟨n, t, by omega, hadvances, hbreaks⟩

theorem endsWith_compares (h : site.Compares comparison expected) (hat : image.At routine method)
    (hfront : InFrontOf program method routine site.before site.first s)
    (hitems : below.length + 2 ≤ s.limits.stack)
    (hdecides : Decides (below.length + 2) (comparisonCode false (!expected) comparison) s.memory
      (.ofList below) outcome) : site.EndsWith program method s below outcome := by
  obtain ⟨hoperands, hcondition⟩ := h
  have hcarries : Carries (below.length + 2) (site.operands.flatMap Segment.code) s.memory s.memory := by
    rw [hoperands]
    exact .nil
  have hsize : (Stack.ofList below).size ≤ below.length + 2 := Nat.le_add_right ..
  exact endsWith hat (.inr (hcondition ▸ rfl)) hfront hcarries rfl hitems
    (branches_of_comparedBy? hcondition site.target hdecides hsize)

/-- What is written for the comparison of a decision, behind the mark. -/
theorem code_compare {compare : Segment} {others : List Segment}
    (hoperands : site.operands = compare :: others) (hop : compare.source.op = .compare comparison)
    (hat : image.At routine method) : compare.lowered.directives
      = comparisonCode site.afterNull (isNegated routine.scope compare.position) comparison := by
  have hlowers := image.lowers hat.routine_mem
  rw [site.segments_eq, hoperands] at hlowers
  obtain ⟨position, carry, htail⟩ := hlowers.behind
  obtain ⟨rfl, -, carry', hlower, -⟩ := htail.uncons
  unfold afterNull first
  rw [hoperands, lowered_of_comparison hop hlower]
  rfl

theorem endsWith_tests (h : site.Tests isFused comparison expected) (hat : image.At routine method)
    (hfront : InFrontOf program method routine site.before site.first s)
    (hitems : below.length + 2 ≤ s.limits.stack)
    (hdecides : Decides (below.length + 2) (comparisonCode site.afterNull isFused comparison) s.memory
      (.ofList below) outcome) :
    site.EndsWith program method s below (outcome.map (· == expected)) := by
  obtain ⟨compare, hoperands, hop, rfl, hcondition⟩ := h
  have hcode : site.operands.flatMap Segment.code = .mark compare.source.offset :: comparisonCode
      site.afterNull (isNegated routine.scope compare.position) comparison := by
    rw [hoperands, List.flatMap_singleton]
    unfold Segment.code
    rw [code_compare hoperands hop hat]
  cases outcome with
  | ok verdict =>
    have hcarries := (Carries.mark compare.source.offset).cons hdecides
    rw [← hcode] at hcarries
    have hbranches : Branches (below.length + 2) site.condition site.target
        ⟨(Stack.ofList below).push (.boolean verdict), s.memory.heap⟩ _ (.ok (verdict == expected)) :=
      hcondition ▸ branches_isTruth expected verdict site.target (Nat.le_add_right ..)
    exact endsWith hat (.inl ⟨expected, hcondition⟩) hfront hcarries rfl hitems hbranches
  | error kind =>
    have hfaults := (Carries.mark compare.source.offset).faults hdecides
    exact endsWith_error hat hfront (hcode ▸ hfaults) hitems

theorem directives_of_zero {scope : Scope} {position : Nat} {i : Source.Instruction}
    {carry carry' : Carry} {lowered : Lowered} (hop : i.op = .literal32 0)
    (h : (lower scope position i).run carry = .ok (lowered, carry')) :
    lowered.directives = [.pushInteger (ofInt32 0)] := by
  obtain ⟨offset, op⟩ := i
  cases hop
  cases h
  unfold lowerLiteral
  split
  · next conversion _ => cases conversion <;> rfl
  · rfl

theorem endsWith_comparesWithZero (h : site.ComparesWithZero comparison expected)
    (hat : image.At routine method)
    (hfront : InFrontOf program method routine site.before site.first s)
    (hitems : below.length + 2 ≤ s.limits.stack)
    (hdecides : Decides (below.length + 2) (comparisonCode site.afterNull false comparison) s.memory
      (.ofList below) outcome) :
    site.EndsWith program method s below (outcome.map (· == !expected)) := by
  obtain ⟨compare, zero, hoperands, hop, hseparate, hzero, hcondition⟩ := h
  have hpush : zero.lowered.directives = [.pushInteger (ofInt32 0)] := by
    have hlowers := image.lowers hat.routine_mem
    rw [site.segments_eq, hoperands, List.cons_append, List.append_cons] at hlowers
    obtain ⟨position, carry, htail⟩ := hlowers.behind
    obtain ⟨-, -, carry', hlower, -⟩ := htail.uncons
    exact directives_of_zero hzero hlower
  have hcode : site.operands.flatMap Segment.code
      = (.mark compare.source.offset :: comparisonCode site.afterNull false comparison)
        ++ [.mark zero.source.offset, .pushInteger (ofInt32 0)] := by
    rw [hoperands, List.flatMap_cons, List.flatMap_singleton]
    unfold Segment.code
    rw [code_compare hoperands hop hat, hseparate, hpush]
  cases outcome with
  | ok verdict =>
    have hsize : ((Stack.ofList below).push (.boolean verdict)).size < below.length + 2 :=
      Nat.lt_succ_self _
    have hcarries := ((Carries.mark compare.source.offset).cons hdecides).append
      ((Carries.mark zero.source.offset).cons (.pushes (.integer (ofInt32 0)) _ s.memory.heap hsize))
    rw [← hcode] at hcarries
    have hzero : Decides (below.length + 2) (comparisonCode false (!expected) .equal)
        ⟨((Stack.ofList below).push (.boolean verdict)).push (.integer (ofInt32 0)), s.memory.heap⟩ _ _ :=
      decides_comparedWithZero (!expected) verdict (Nat.lt_of_succ_lt hsize)
    exact endsWith hat (.inr (hcondition ▸ rfl)) hfront hcarries rfl hitems
      (branches_of_comparedBy? hcondition site.target hzero (Nat.le_add_right below.length 2))
  | error kind =>
    have hfaults := ((Carries.mark compare.source.offset).faults hdecides).append
      [.mark zero.source.offset, .pushInteger (ofInt32 0)]
    exact endsWith_error hat hfront (hcode ▸ hfaults) hitems

end Decision

/-! ## Where decisions are -/

section

variable {scope : Scope} {position : Nat} {carry : Carry} {before after : List Segment}
  {segment : Segment}

/-- Behind a segment stands that of the instruction behind what the segment covers. -/
theorem exists_next_segment {i : Source.Instruction}
    (h : Lowers scope position carry (before ++ segment :: after))
    (hi : scope.body[segment.position + 1 + segment.lowered.consumed]? = some i) :
    ∃ next rest, after = next :: rest ∧ next.source = i
      ∧ next.position = segment.position + 1 + segment.lowered.consumed := by
  obtain ⟨position, carry, htail⟩ := h.behind
  obtain ⟨rfl, -, carry', -, hrest⟩ := htail.uncons
  obtain ⟨next, rest, rfl, hsource⟩ := hrest.exists_cons hi
  exact ⟨next, rest, rfl, hsource, hrest.uncons.1⟩

theorem lowered_of_mem {comparison : Comparison}
    (h : Lowers scope position carry (before ++ segment :: after))
    (hop : segment.source.op = .compare comparison) : segment.lowered
      = ⟨comparisonCode (isAfterNull scope segment.position) (isNegated scope segment.position) comparison,
        2 * (isNegated scope segment.position).toNat⟩ := by
  obtain ⟨-, _, _, hlower⟩ := h.exists_lower (List.mem_append_right _ (List.mem_cons_self ..))
  exact lowered_of_comparison hop hlower

/-- The code of a switch over strings covers plumbing only. -/
theorem isPlumbing_of_covered {i : Source.Instruction} {carry' : Carry} {lowered : Lowered} {q : Nat}
    (hhash : hashesString i.op = true)
    (h : (lower scope position i).run carry = .ok (lowered, carry')) (hq : position < q)
    (hq' : q < position + 1 + lowered.consumed) :
    ∃ j, scope.body[q]? = some j ∧ isPlumbing j.op = true := by
  obtain ⟨offset, op⟩ := i
  obtain rfl : op = .call (.intrinsic .stringHash) := op_of_hashesString hhash
  have hswitch := (run_liftM_eq_ok h).1
  unfold lowerStringSwitch at hswitch
  split at hswitch
  · cases hswitch
  · next region hregion =>
    obtain ⟨tests, -, hpure⟩ := exceptBind_eq_ok hswitch
    cases hpure
    have hlast : q < position + 1 + region.length := hq'
    exact (isBehind_of_findRegion? hregion).plumbing q ⟨hq, by omega⟩

/-- A comparison that is covered is an equality that negates the comparison in front of it. -/
theorem isNegated_of_covered {q : Nat} {i : Source.Instruction} {comparison : Comparison}
    (h : Lowers scope position carry (before ++ segment :: after)) (hi : scope.body[q]? = some i)
    (hop : i.op = .compare comparison) (hq : segment.position < q)
    (hq' : q < segment.position + 1 + segment.lowered.consumed) :
    comparison = .equal ∧ ∃ negated, segment.source.op = .compare negated
      ∧ isNegated scope segment.position = true ∧ q = segment.position + 2 := by
  have hmem : segment ∈ before ++ segment :: after := List.mem_append_right _ (List.mem_cons_self ..)
  cases hhash : hashesString segment.source.op with
  | true =>
    obtain ⟨-, _, _, hlower⟩ := h.exists_lower hmem
    obtain ⟨j, hj, hplumbing⟩ := isPlumbing_of_covered hhash hlower hq hq'
    obtain rfl : i = j := Option.some.inj (hi.symm.trans hj)
    rw [hop] at hplumbing
    cases hplumbing
  | false =>
    obtain ⟨op, hinline, htakes⟩ := (h.keepsBranches hmem hhash).covered q hq hq'
    obtain ⟨j, hj, -, rfl⟩ := inline?_eq_some_iff.mp hinline
    obtain rfl : i = j := Option.some.inj (hi.symm.trans hj)
    rw [hop] at htakes
    obtain ⟨rfl, negated, hnegated⟩ := takesIn_compare htakes
    refine ⟨rfl, negated, hnegated, ?_⟩
    rw [lowered_of_mem h hnegated] at hq'
    dsimp only at hq'
    cases hfused : isNegated scope segment.position with
    | false =>
      rw [hfused] at hq'
      exact absurd hq (Nat.not_lt_of_le (Nat.le_of_lt_succ hq'))
    | true =>
      refine ⟨rfl, ?_⟩
      rw [hfused] at hq'
      dsimp only [Bool.toNat_true] at hq'
      rcases (by omega : q = segment.position + 1 ∨ q = segment.position + 2) with rfl | rfl
      · -- that one is the zero
        obtain ⟨zero, _, hzero, hzeroOp, -⟩ := (isNegated_iff.mp hfused).1.zero
        obtain rfl : i = zero := Option.some.inj (hi.symm.trans hzero)
        rw [hop] at hzeroOp
        cases hzeroOp
      · rfl

/-- A comparison is not written together with what is behind it unless that is a zero and an equality. -/
theorem isNegated_eq_false {q : Nat} {i : Source.Instruction} {condition : Condition} {target : UInt32}
    (hi : scope.body[q]? = some i) (hop : i.op = .branch condition target)
    (hq : q = position + 1 ∨ q = position + 2) : isNegated scope position = false := by
  rw [Bool.eq_false_iff]
  intro hnegated
  obtain ⟨zero, equal, hzero, hzeroOp, hequal, hequalOp⟩ := (isNegated_iff.mp hnegated).1.zero
  rcases hq with rfl | rfl
  · obtain rfl : i = zero := Option.some.inj (hi.symm.trans hzero)
    rw [hop] at hzeroOp
    cases hzeroOp
  · obtain rfl : i = equal := Option.some.inj (hi.symm.trans hequal)
    rw [hop] at hequalOp
    cases hequalOp

end

section

variable {routine : Routine} {position : Nat} {carry : Carry}

theorem exists_compares (hlowers : Lowers routine.scope 0 carry routine.segments)
    {i : Source.Instruction} {condition : Condition} {target : UInt32} {comparison : Comparison}
    {expected : Bool} (hi : routine.scope.body[position]? = some i) (hop : i.op = .branch condition target)
    (hcondition : comparedBy? condition = some (comparison, expected)) :
    (∃ site : Decision routine, site.Compares comparison expected ∧ site.branch.position = position
        ∧ site.target = target)
      ∨ ∃ hash ∈ routine.segments, hashesString hash.source.op = true ∧ hash.position < position
        ∧ position < hash.position + 1 + hash.lowered.consumed := by
  have hexposed : routine.scope.IsExposed i := by
    refine .inr ?_
    rw [hop]
    exact List.cons_ne_nil _ _
  refine (hlowers.exists_segment_of_exposed (Nat.zero_le position) hi hexposed).imp ?_ id
  rintro ⟨before, segment, after, hsegments, hat, rfl, -⟩
  exact ⟨⟨before, [], segment, after, condition, target, hsegments, hop⟩, ⟨rfl, hcondition⟩, hat, rfl⟩

/-- Behind a comparison, and the negation that is written together with it, stands the branch. -/
theorem exists_tests_of_segment (hlowers : Lowers routine.scope 0 carry routine.segments)
    {before after : List Segment} {segment : Segment} {branch : Source.Instruction} {isFused : Bool}
    {comparison : Comparison} {expected : Bool} {target : UInt32}
    (hsegments : routine.segments = before ++ segment :: after)
    (hop : segment.source.op = .compare comparison)
    (hfused : isNegated routine.scope segment.position = isFused)
    (hbranch : routine.scope.body[segment.position + 1 + 2 * isFused.toNat]? = some branch)
    (hbranchOp : branch.op = .branch (isTruth expected) target) :
    ∃ site : Decision routine, site.first = segment ∧ site.target = target
      ∧ site.branch.position = segment.position + 1 + 2 * isFused.toNat
      ∧ site.Tests isFused comparison expected := by
  rw [hsegments] at hlowers
  have hconsumed : segment.lowered.consumed = 2 * isFused.toNat := by
    rw [lowered_of_mem hlowers hop, hfused]
  rw [← hconsumed] at hbranch ⊢
  obtain ⟨next, rest, rfl, rfl, hat⟩ := exists_next_segment hlowers hbranch
  exact ⟨⟨before, [segment], next, rest, isTruth expected, target, hsegments, hbranchOp⟩, rfl, rfl, hat,
    segment, rfl, hop, hfused, rfl⟩

theorem exists_tests (hlowers : Lowers routine.scope 0 carry routine.segments)
    {compare branch : Source.Instruction} {comparison : Comparison} {expected : Bool} {target : UInt32}
    (hcompare : routine.scope.body[position]? = some compare) (hop : compare.op = .compare comparison)
    (hbranch : routine.scope.body[position + 1]? = some branch)
    (hbranchOp : branch.op = .branch (isTruth expected) target) :
    ∃ site : Decision routine, site.branch.position = position + 1 ∧ site.target = target
      ∧ (site.first.position = position ∧ site.Tests false comparison expected
        ∨ site.first.position + 2 = position ∧ comparison = .equal
          ∧ ∃ negated, site.Tests true negated expected) := by
  rcases hlowers.own_or_covered (Nat.zero_le position) hcompare with
    ⟨before, segment, after, hsegments, rfl, rfl, -⟩ | ⟨before, segment, after, hsegments, hlt, hcovered⟩
  · obtain ⟨site, rfl, htarget, hat, htests⟩ := exists_tests_of_segment hlowers hsegments hop
      (isNegated_eq_false hbranch hbranchOp (.inl rfl)) hbranch hbranchOp
    exact ⟨site, hat, htarget, .inl ⟨rfl, htests⟩⟩
  · obtain ⟨rfl, negated, hnegated, hfused, rfl⟩ :=
      isNegated_of_covered (hsegments ▸ hlowers) hcompare hop hlt hcovered
    obtain ⟨site, rfl, htarget, hat, htests⟩ :=
      exists_tests_of_segment hlowers hsegments hnegated hfused hbranch hbranchOp
    exact ⟨site, hat, htarget, .inr ⟨rfl, rfl, negated, htests⟩⟩

theorem exists_comparesWithZero (hlowers : Lowers routine.scope 0 carry routine.segments)
    {before after : List Segment} {compare : Segment} {zero branch : Source.Instruction}
    {comparison : Comparison} {expected : Bool} {condition : Condition} {target : UInt32}
    (hsegments : routine.segments = before ++ compare :: after)
    (hop : compare.source.op = .compare comparison)
    (hzero : routine.scope.body[compare.position + 1]? = some zero) (hzeroOp : zero.op = .literal32 0)
    (hbranch : routine.scope.body[compare.position + 2]? = some branch)
    (hbranchOp : branch.op = .branch condition target)
    (hcondition : comparedBy? condition = some (.equal, expected)) :
    ∃ site : Decision routine, site.before = before ∧ site.first = compare ∧ site.target = target
      ∧ site.ComparesWithZero comparison expected := by
  have hseparate : isNegated routine.scope compare.position = false :=
    isNegated_eq_false hbranch hbranchOp (.inr rfl)
  rw [hsegments] at hlowers
  have hconsumed := congrArg Lowered.consumed (lowered_of_mem hlowers hop)
  rw [hseparate] at hconsumed
  have hnext : routine.scope.body[compare.position + 1 + compare.lowered.consumed]? = some zero := by
    rw [hconsumed]
    exact hzero
  obtain ⟨second, rest, rfl, rfl, hat⟩ := exists_next_segment hlowers hnext
  rw [hconsumed] at hat
  rw [List.append_cons] at hlowers
  have hat : second.position = compare.position + 1 := hat
  have hbehind : routine.scope.body[second.position + 1]? = some branch := by
    rw [hat]
    exact hbranch
  have hnext : routine.scope.body[second.position + 1 + second.lowered.consumed]? = some branch := by
    obtain ⟨-, _, _, hlower⟩ := hlowers.exists_lower (List.mem_append_right _ (List.mem_cons_self ..))
    rw [lowered_of_zero hzeroOp hbehind (fun _ => hbranchOp ▸ nofun) hlower]
    exact hbehind
  obtain ⟨third, rest, rfl, rfl, -⟩ := exists_next_segment hlowers hnext
  exact ⟨⟨before, [compare, second], third, rest, condition, target, hsegments, hbranchOp⟩, rfl, rfl, rfl,
    compare, second, rfl, hop, hseparate, hzeroOp, hcondition⟩

end

/-! ## Accepted modules -/

/-- Unless null was pushed right before, a comparison compares numbers. -/
theorem comparisonCode_eq {afterNull : Bool} (negated : Bool) {comparison : Comparison}
    (h : isNullTest comparison = true → afterNull = false) :
    comparisonCode afterNull negated comparison = comparisonCode false negated comparison := by
  cases comparison with
  | equal | greaterUnsigned => rw [h rfl]
  | greater | less | lessUnsigned => rfl

section

variable {limits limits' : Compile.Limits} {module module' : Module} {program program' : Program}
  {image : Image limits module program} {image' : Image limits' module' program'}
  {routine routine' : Routine} {method method' : PlacedMethod}

theorem Image.At.branchesAgree (hat : image.At routine method) (hat' : image'.At routine' method') :
    BranchesAgree program method routine program' method' routine' := by
  have hmemory_eq : ∀ {s : State} {a b : Item} {below : List Item},
      s.memory.stack.toList = b :: a :: below →
      s.memory = ⟨((Stack.ofList below).push a).push b, s.memory.heap⟩ :=
    fun hstack => memory_eq hstack
  constructor
  · intro position i condition target comparison expected hi hop hcondition
    exact exists_compares (image.lowers hat.routine_mem) hi hop hcondition
  · intro position compare branch comparison expected target hcompare hop hbranch hbranchOp
    exact exists_tests (image'.lowers hat'.routine_mem) hcompare hop hbranch hbranchOp
  · intro before compare after comparison expected condition target zero branch hsegments hop hzero
      hzeroOp hbranch hbranchOp hcondition
    exact exists_comparesWithZero (image.lowers hat.routine_mem) hsegments hop hzero hzeroOp hbranch
      hbranchOp hcondition
  · intro site site' comparison expected hcompares htests hnull s s' a b below hfront hfront' hmemory
      hstack hitems hitems'
    obtain ⟨outcome, hdecides, hdecides'⟩ : ∃ outcome,
        Decides (below.length + 2) _ ⟨((Stack.ofList below).push a).push b, s.memory.heap⟩ (.ofList below)
          outcome ∧ Decides (below.length + 2) _ _ (.ofList below) _ :=
      exists_decides_of_comparedBy? hcompares.2 (Nat.le_refl _)
    rw [← hmemory_eq hstack] at hdecides hdecides'
    refine ⟨_, Decision.endsWith_compares hcompares hat hfront hitems hdecides', ?_⟩
    rw [hmemory, ← comparisonCode_eq false fun h => (hnull h).2] at hdecides
    exact Decision.endsWith_tests htests hat' hfront' hitems' hdecides
  · intro site site' comparison expected hzero htests hnull s s' a b below hfront hfront' hmemory hstack
      hoperands hitems hitems'
    obtain ⟨outcome, hdecides, hdecides'⟩ : Opposed (below.length + 2) _ _
        ⟨((Stack.ofList below).push a).push b, s.memory.heap⟩ (.ofList below) :=
      opposed_comparison site.afterNull (Nat.le_refl _) hoperands
    rw [← hmemory_eq hstack] at hdecides hdecides'
    have hends := Decision.endsWith_comparesWithZero hzero hat hfront hitems hdecides
    rw [hmemory, hnull] at hdecides'
    have hends' := Decision.endsWith_tests htests hat' hfront' hitems' hdecides'
    refine ⟨_, hends, ?_⟩
    cases outcome with
    | ok verdict => cases verdict <;> cases expected <;> exact hends'
    | error kind => exact hends'
  · intro site site' comparison expected hzero htests horder s s' a b below hfront hfront' hmemory hstack
      hnull hitems hitems'
    have hdecides : ∀ afterNull negated, Decides (below.length + 2)
        (comparisonCode afterNull negated comparison) s.memory (.ofList below) (.ok false) := by
      intro afterNull negated
      rw [hmemory_eq hstack]
      exact decides_null afterNull negated horder hnull (Nat.lt_succ_of_lt (Nat.lt_succ_self _))
    have hends := Decision.endsWith_comparesWithZero hzero hat hfront hitems (hdecides _ _)
    have hends' := Decision.endsWith_tests htests hat' hfront' hitems' (hmemory ▸ hdecides _ _)
    constructor
    · cases expected <;> exact hends
    · cases expected <;> exact hends'

end

/-- In accepted modules, a branch that compares agrees with a comparison and a conditional branch behind
it, unless null was pushed right before; an equality that negates an order of null is the other
exception. -/
theorem branchesAgree_of_build {limits limits' : Compile.Limits} {module module' : Module}
    {contract contract' : Contract} (h : build limits module = .ok contract)
    (h' : build limits' module' = .ok contract') :
    EveryMethod limits module contract.program fun method routine =>
      EveryMethod limits' module' contract'.program fun method' routine' =>
        BranchesAgree contract.program method routine contract'.program method' routine' :=
  everyMethod_of_build (P := fun program method routine =>
    EveryMethod limits' module' contract'.program fun method' routine' =>
      BranchesAgree program method routine contract'.program method' routine') h fun _ _ _ hat =>
    everyMethod_of_build (P := fun program' method' routine' =>
      BranchesAgree contract.program _ _ program' method' routine') h' fun _ _ _ hat' =>
      hat.branchesAgree hat'

/-- A method that returns whether its code goes to offset 20. -/
def deciding (name : String) (code : List Source.Op) : Source.Method where
  name := "T::" ++ name
  displayName := name
  isPublic := true
  returnType := .int32
  body := (code.zipIdx.map fun (op, k) => ⟨.ofNat k, op⟩)
    ++ [⟨18, .literal32 0⟩, ⟨19, .ret⟩, ⟨20, .literal32 1⟩, ⟨21, .ret⟩]

/-- Whether 7 is null, and whether null is not greater than 1: once by a branch that compares and once by
a comparison with a branch behind it. -/
def sampleDecisions : Module where
  types := [{ name := "T", methods := [
    deciding "isNull" [.literal32 7, .loadNull, .branch .equal 20],
    deciding "testsNull" [.literal32 7, .loadNull, .compare .equal, .branch .ifTrue 20],
    deciding "isNotGreater" [.loadNull, .literal32 1, .compare .greater, .literal32 0, .branch .equal 20],
    deciding "testsNotGreater" [.loadNull, .literal32 1, .compare .greater, .literal32 0,
      .compare .equal, .branch .ifTrue 20]] }]

theorem branchesAgree_sampleDecisions : ∃ contract, build {} sampleDecisions = .ok contract
    ∧ EveryMethod {} sampleDecisions contract.program fun method routine =>
      EveryMethod {} sampleDecisions contract.program fun method' routine' =>
        BranchesAgree contract.program method routine contract.program method' routine' := by
  have hbuilds : (build {} sampleDecisions).toOption.isSome = true := by decide +kernel
  obtain ⟨contract, h⟩ := exists_contract hbuilds
  exact ⟨contract, h, branchesAgree_of_build h h⟩

/-- A switch over one string, with a decision between its hash and its leaf. -/
def sampleHashed (decision : List Source.Op) : Module where
  types := [{ name := "T", methods := [{
    name := "T::m"
    displayName := "m"
    params := [⟨"s", .string⟩]
    locals := [.uint32]
    returnType := .int32
    body := [⟨0, .load .arguments 0⟩, ⟨1, .call (.intrinsic .stringHash)⟩, ⟨2, .store .locals 0⟩,
        ⟨3, .load .locals 0⟩, ⟨4, .literal32 5⟩]
      ++ (decision.zipIdx.map fun (op, k) => ⟨.ofNat (5 + k), op⟩)
      ++ [⟨10, .load .arguments 0⟩, ⟨11, .loadString "a"⟩, ⟨12, .call (.intrinsic .stringEquals)⟩,
        ⟨13, .branch .ifTrue 20⟩, ⟨14, .branch .always 22⟩, ⟨20, .literal32 1⟩, ⟨21, .ret⟩,
        ⟨22, .literal32 2⟩, ⟨23, .ret⟩] }] }]

/-- How an entry without arguments ends. -/
def ending (contract : Contract) (name : String) : Option (Except FaultKind (List Item)) :=
  (contract.entry? name).map fun entry =>
    match invoke entry [] { script := contract.program.script.toArray } with
    | .ok items _ => .ok items
    | .error fault _ => .error fault.kind

/-- Behind null a comparison is one of identities and a branch faults; of null neither an order holds
nor the opposite one; and within a switch over strings there are branches but no comparisons. -/
theorem ending_sampleDecisions : (build {} sampleDecisions).toOption.map (fun contract =>
      ["isNull", "testsNull", "isNotGreater", "testsNotGreater"].map (ending contract))
      = some [some (.error .invalidType), some (.ok [.integer (.ofNat 0)]),
        some (.ok [.integer (.ofNat 1)]), some (.ok [.integer (.ofNat 0)])]
    ∧ (build {} (sampleHashed [.branch .equal 10])).toOption.isSome = true
    ∧ (build {} (sampleHashed [.compare .equal, .branch .ifTrue 10])).toOption.isNone = true := by
  decide +kernel

end StackContract.Contract
