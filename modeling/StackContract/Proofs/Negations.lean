import StackContract.Proofs.Regions
import StackContract.Proofs.Verdicts
/-!
# Negated comparisons

A comparison with zero behind a comparison negates it. Where no branch leads in between, both are
written as one instruction that decides oppositely; otherwise each has instructions of its own. For
the items on top of the stack it makes no difference how a comparison and the negations behind it are
written (`negationsAgree_of_build`), unless it is an order of null.
-/

namespace StackContract.Contract

open Assembly Script Lowering Machine Number
open Compile (ofInt32)
open Source (Comparison Module)

/-! ## Statement -/

/-- There are `count` comparisons with zero from a position on. -/
def NegationsFrom (body : Array Source.Instruction) (position count : Nat) : Prop :=
  ∀ k < count, ∃ zero equal, body[position + 2 * k]? = some zero ∧ zero.op = .literal32 0
    ∧ body[position + 2 * k + 1]? = some equal ∧ equal.op = .compare .equal

/-- The number of source instructions that segments are written for. -/
def coveredBy (segments : List Segment) : Nat :=
  (segments.map fun segment => 1 + segment.lowered.consumed).sum

/-- A truth value, negated so many times. -/
def negated : Nat → Bool → Bool
  | 0, b => b
  | count + 1, b => negated count (!b)

/-- A comparison in a routine with negations behind it, and the segments that are written for them. -/
structure NegatedComparison (routine : Routine) where
  comparison : Comparison
  /-- The number of negations. -/
  count : Nat
  before : List Segment
  /-- The segment of the comparison. -/
  first : Segment
  rest : List Segment
  after : List Segment
  segments_eq : routine.segments = before ++ first :: (rest ++ after)
  op_eq : first.source.op = .compare comparison
  negations : NegationsFrom routine.scope.body (first.position + 1) count
  covered_eq : coveredBy (first :: rest) = 1 + 2 * count

namespace NegatedComparison

variable {routine : Routine}

/-- Whether the comparison follows a null, and is one of identities for that reason. -/
def afterNull (site : NegatedComparison routine) : Bool :=
  isAfterNull routine.scope site.first.position

/-- Whether the comparison and its first negation are written as one instruction. -/
def isFused (site : NegatedComparison routine) : Bool :=
  isNegated routine.scope site.first.position

/-- What is written for the comparison and its negations. -/
def code (site : NegatedComparison routine) : List Directive :=
  site.first.lowered.directives ++ site.rest.flatMap Segment.code

/-- From a machine in front of the code, it comes behind the code with a truth value on top of the items
below the operands and everything else as it was, or to a fault. -/
def EndsWith (site : NegatedComparison routine) (method : PlacedMethod) (s : State)
    (below : List Item) : Except FaultKind Bool → Prop
  | .ok b => ∃ n, n ≤ instructionCount site.code ∧ Advances n s { s with
      memory := ⟨.ofList (.boolean b :: below), s.memory.heap⟩
      address := method.base + routine.addressOf site.before site.first site.code }
  | .error kind => ∃ n t, n < instructionCount site.code ∧ Advances n s t ∧ Breaks t kind

end NegatedComparison

/-- It makes no difference how a comparison and its negations are written, but for orders of null. -/
structure NegationsAgree (program : Program) (method : PlacedMethod) (routine : Routine)
    (program' : Program) (method' : PlacedMethod) (routine' : Routine) : Prop where
  /-- Every comparison with negations behind it is one, maybe with another negation: the last one may be
  written together with the next. -/
  exists_site : ∀ ⦃before first after comparison count⦄, routine.segments = before ++ first :: after →
    first.source.op = .compare comparison →
    NegationsFrom routine.scope.body (first.position + 1) count →
    ∃ site : NegatedComparison routine, site.before = before ∧ site.first = first ∧ count ≤ site.count
  /-- The first negation is written together with the comparison unless a branch leads to it. -/
  isFused_iff : ∀ site : NegatedComparison routine, 0 < site.count →
    (site.isFused = true ↔ ∀ position i, site.first.position < position →
      position < site.first.position + 3 → routine.scope.body[position]? = some i →
      routine.scope.isTarget i.offset = false)
  /-- The same comparison with the same negations ends the same for the same items, wherever it is in
  the two programs, and however it is written. -/
  agree : ∀ (site : NegatedComparison routine) (site' : NegatedComparison routine'),
    site.comparison = site'.comparison → site.count = site'.count → site.afterNull = site'.afterNull →
    ∀ ⦃s s' : State⦄ ⦃a b : Item⦄ ⦃below : List Item⦄,
    InFrontOf program method routine site.before site.first s →
    InFrontOf program' method' routine' site'.before site'.first s' →
    s.memory = s'.memory → s.memory.stack.toList = b :: a :: below →
    (isSignedOrder site.comparison = true → a.isNull = false ∧ b.isNull = false) →
    below.length + 2 ≤ s.limits.stack → below.length + 2 ≤ s'.limits.stack →
    ∃ outcome, site.EndsWith method s below outcome ∧ site'.EndsWith method' s' below outcome
  /-- No order holds of null, nor does the opposite one: a negation that is written as part of the order
  does not count. -/
  orderOfNull : ∀ (site : NegatedComparison routine), isSignedOrder site.comparison = true →
    ∀ ⦃s : State⦄ ⦃a b : Item⦄ ⦃below : List Item⦄,
    InFrontOf program method routine site.before site.first s →
    s.memory.stack.toList = b :: a :: below → a.isNull = true ∨ b.isNull = true →
    below.length + 2 ≤ s.limits.stack →
    site.EndsWith method s below (.ok (negated (site.count - site.isFused.toNat) false))

/-! ## Negations -/

theorem coveredBy_cons (segment : Segment) (rest : List Segment) :
    coveredBy (segment :: rest) = 1 + segment.lowered.consumed + coveredBy rest :=
  List.sum_cons

section

variable {scope : Scope} {position : Nat} {i : Source.Instruction} {carry carry' : Carry}
  {lowered : Lowered}

theorem lowered_of_zero (hop : i.op = .literal32 0) {next : Source.Instruction}
    (hnext : scope.body[position + 1]? = some next) (hplain : ∀ conversion, next.op ≠ .convert conversion)
    (h : (lower scope position i).run carry = .ok (lowered, carry')) :
    lowered = ⟨[.pushInteger (ofInt32 0)], 0⟩ := by
  obtain ⟨offset, op⟩ := i
  cases hop
  cases h
  unfold lowerLiteral
  split
  · next conversion hinline =>
    obtain ⟨j, hj, -, hconvert⟩ := inline?_eq_some_iff.mp hinline
    obtain rfl : next = j := Option.some.inj (hnext.symm.trans hj)
    exact absurd hconvert (hplain conversion)
  · rfl

theorem lowered_of_comparison {comparison : Comparison} (hop : i.op = .compare comparison)
    (h : (lower scope position i).run carry = .ok (lowered, carry')) :
    lowered = ⟨comparisonCode (isAfterNull scope position) (isNegated scope position) comparison,
      2 * (isNegated scope position).toNat⟩ := by
  obtain ⟨offset, op⟩ := i
  cases hop
  cases h
  unfold lowerComparison comparisonCode
  cases isNegated scope position <;> rfl

theorem isAfterNull_of_zero {zero : Source.Instruction} (hzero : scope.body[position]? = some zero)
    (hop : zero.op = .literal32 0) : isAfterNull scope (position + 1) = false := by
  obtain ⟨offset, op⟩ := zero
  cases hop
  simp only [isAfterNull, hzero]

theorem NegationsFrom.zero {body : Array Source.Instruction} {count : Nat}
    (h : NegationsFrom body position (count + 1)) :
    ∃ zero equal, body[position]? = some zero ∧ zero.op = .literal32 0
      ∧ body[position + 1]? = some equal ∧ equal.op = .compare .equal :=
  h 0 (Nat.succ_pos count)

theorem NegationsFrom.drop {body : Array Source.Instruction} {count : Nat} (skipped : Nat)
    (h : NegationsFrom body position count) :
    NegationsFrom body (position + 2 * skipped) (count - skipped) := by
  intro k hk
  have hposition : position + 2 * skipped + 2 * k = position + 2 * (skipped + k) := by omega
  rw [hposition]
  exact h (skipped + k) (by omega)

end

section

variable {items : Nat} {stack : Stack Item} {heap : Heap}

/-- A truth value is equal to zero if it is false. -/
theorem decides_comparedWithZero (fused b : Bool) (hitems : stack.size < items) :
    Decides items (comparisonCode false fused .equal)
      ⟨(stack.push (.boolean b)).push (.integer (ofInt32 0)), heap⟩ stack (.ok (b == fused)) := by
  cases fused with
  | false =>
    have hdecides : Decides items [.op .numEqual]
        ⟨(stack.push (.boolean b)).push (.integer (ofInt32 0)), heap⟩ stack _ :=
      (judges_numeric .eq ⟨.numEqual, []⟩).decides rfl trivial hitems
    cases b <;> exact hdecides
  | true =>
    have hdecides : Decides items [.op .numNotEqual]
        ⟨(stack.push (.boolean b)).push (.integer (ofInt32 0)), heap⟩ stack _ :=
      (judges_numeric .ne ⟨.numNotEqual, []⟩).decides rfl trivial hitems
    cases b <;> exact hdecides

/-- A truth value that is compared with zero. -/
theorem carries_comparedWithZero (zero equal : UInt32) (fused b : Bool)
    (hitems : stack.size + 2 ≤ items) : Carries items
      ([.mark zero, .pushInteger (ofInt32 0), .mark equal] ++ comparisonCode false fused .equal)
      ⟨stack.push (.boolean b), heap⟩ ⟨stack.push (.boolean (b == fused)), heap⟩ := by
  have hpush := Carries.pushes (.integer (ofInt32 0)) (stack.push (.boolean b)) heap hitems
  exact Carries.append ((Carries.mark zero).cons (hpush.cons (.mark equal)))
    (decides_comparedWithZero fused b (Nat.lt_of_succ_lt hitems))

theorem isNegated_iff : isNegated scope position = true
    ↔ NegationsFrom scope.body (position + 1) 1 ∧ ∀ q i, position < q → q < position + 3 →
      scope.body[q]? = some i → scope.isTarget i.offset = false := by
  constructor
  · intro h
    unfold isNegated at h
    split at h
    · next v hinline hinline' =>
      obtain ⟨zero, hzero, hzeroFree, hzeroOp⟩ := inline?_eq_some_iff.mp hinline
      obtain ⟨equal, hequal, hequalFree, hequalOp⟩ := inline?_eq_some_iff.mp hinline'
      rw [of_decide_eq_true h] at hzeroOp
      refine ⟨fun k hk => ?_, fun q i hq hq' hi => ?_⟩
      · obtain rfl := Nat.lt_one_iff.mp hk
        exact ⟨zero, equal, hzero, hzeroOp, hequal, hequalOp⟩
      · obtain rfl | rfl : q = position + 1 ∨ q = position + 2 := by omega
        · cases hzero.symm.trans hi
          exact hzeroFree
        · cases hequal.symm.trans hi
          exact hequalFree
    · cases h
  · rintro ⟨hnegations, hfree⟩
    obtain ⟨zero, equal, hzero, hzeroOp, hequal, hequalOp⟩ := hnegations.zero
    have hinline := inline?_eq_some_iff.mpr ⟨zero, hzero, hfree _ _ (by omega) (by omega) hzero, hzeroOp⟩
    have hinline' := inline?_eq_some_iff.mpr
      ⟨equal, hequal, hfree _ _ (by omega) (by omega) hequal, hequalOp⟩
    unfold isNegated
    rw [hinline, hinline']
    rfl

theorem NegationsFrom.append {body : Array Source.Instruction} {count count' : Nat}
    (h : NegationsFrom body position count) (h' : NegationsFrom body (position + 2 * count) count') :
    NegationsFrom body position (count + count') := by
  intro k hk
  by_cases hlt : k < count
  · exact h k hlt
  · have hposition : position + 2 * k = position + 2 * count + 2 * (k - count) := by omega
    rw [hposition]
    exact h' (k - count) (by omega)

/-- In front of a negation, the first two segments are written for that one, or for that one and the
next. -/
theorem exists_first_negation {segments : List Segment} {count : Nat}
    (h : Lowers scope position carry segments)
    (hnegations : NegationsFrom scope.body position (count + 1)) :
    ∃ (fused : Bool) (first second : Segment) (rest : List Segment) (carry' : Carry),
      segments = first :: second :: rest
        ∧ first.lowered = ⟨[.pushInteger (ofInt32 0)], 0⟩
        ∧ second.lowered = ⟨comparisonCode false fused .equal, 2 * fused.toNat⟩
        ∧ NegationsFrom scope.body position (fused.toNat + 1)
        ∧ Lowers scope (position + 2 * (fused.toNat + 1)) carry' rest := by
  obtain ⟨zero, equal, hzero, hzeroOp, hequal, hequalOp⟩ := hnegations.zero
  obtain ⟨first, segments, rfl, rfl⟩ := h.exists_cons hzero
  obtain ⟨-, -, carry', hlower, htail⟩ := h.uncons
  have hpush := lowered_of_zero hzeroOp hequal (fun _ => hequalOp ▸ nofun) hlower
  rw [hpush] at htail
  dsimp only [Nat.add_zero] at htail
  obtain ⟨second, rest, rfl, rfl⟩ := htail.exists_cons hequal
  obtain ⟨-, -, carry'', hlower', htail'⟩ := htail.uncons
  have hcompare := lowered_of_comparison hequalOp hlower'
  rw [isAfterNull_of_zero hzero hzeroOp] at hcompare
  rw [hcompare] at htail'
  refine ⟨isNegated scope (position + 1), first, second, rest, carry'', rfl, hpush, hcompare, ?_, ?_⟩
  · have hfirst : NegationsFrom scope.body position 1 := fun k hk => hnegations k (by omega)
    cases hfused : isNegated scope (position + 1) with
    | false => exact hfirst
    | true => exact hfirst.append ((isNegated_iff.mp hfused).1)
  · have hposition : position + 2 * ((isNegated scope (position + 1)).toNat + 1)
        = position + 1 + 1 + 2 * (isNegated scope (position + 1)).toNat := by omega
    rw [hposition]
    exact htail'

/-- Negations are written as segments of their own, the last one maybe together with another one
behind. -/
theorem exists_negations {segments : List Segment} {count : Nat}
    (h : Lowers scope position carry segments) (hnegations : NegationsFrom scope.body position count) :
    ∃ segments' after count', segments = segments' ++ after ∧ count ≤ count'
      ∧ NegationsFrom scope.body position count' ∧ coveredBy segments' = 2 * count' := by
  -- two segments may be written for two negations
  induction count using Nat.strongRecOn generalizing position carry segments with
  | ind count ih =>
    rcases count with _ | count
    · exact ⟨[], segments, 0, rfl, Nat.le_refl _, hnegations, rfl⟩
    obtain ⟨fused, first, second, rest, carry', rfl, hfirst, hsecond, hwritten, hrest⟩ :=
      exists_first_negation h hnegations
    have hleft := hnegations.drop (fused.toNat + 1)
    rw [Nat.add_sub_add_right] at hleft
    obtain ⟨segments', after, count', rfl, hcount, hnegations', hcovered⟩ :=
      ih (count - fused.toNat) (by omega) hrest hleft
    refine ⟨first :: second :: segments', after, fused.toNat + 1 + count', rfl, by omega,
      hwritten.append hnegations', ?_⟩
    rw [coveredBy_cons, coveredBy_cons, hfirst, hsecond, hcovered]
    dsimp only
    omega

theorem exists_negatedComparison {routine : Routine} {before after : List Segment} {first : Segment}
    {comparison : Comparison} {count : Nat} {position : Nat} {carry : Carry}
    (hlowers : Lowers routine.scope position carry routine.segments)
    (hsegments : routine.segments = before ++ first :: after)
    (hop : first.source.op = .compare comparison)
    (hnegations : NegationsFrom routine.scope.body (first.position + 1) count) :
    ∃ site : NegatedComparison routine,
      site.before = before ∧ site.first = first ∧ count ≤ site.count := by
  rw [hsegments] at hlowers
  obtain ⟨position, carry, htail⟩ := hlowers.behind
  obtain ⟨rfl, -, carry', hlower, hrest⟩ := htail.uncons
  have hlowered := lowered_of_comparison hop hlower
  rw [hlowered] at hrest
  dsimp only at hrest
  have hwritten : NegationsFrom routine.scope.body (first.position + 1)
      (isNegated routine.scope first.position).toNat := by
    cases hfused : isNegated routine.scope first.position with
    | false => exact nofun
    | true => exact (isNegated_iff.mp hfused).1
  obtain ⟨rest, after, count', rfl, hcount, hnegations', hcovered⟩ :=
    exists_negations hrest (hnegations.drop _)
  refine ⟨⟨comparison, _, before, first, rest, after, hsegments, hop, hwritten.append hnegations', ?_⟩,
    rfl, rfl, ?_⟩
  · rw [coveredBy_cons, hlowered, hcovered]
    dsimp only
    omega
  · dsimp only
    omega

theorem negated_add (fused b : Bool) (count : Nat) :
    negated (count + (fused.toNat + 1)) b = negated count (b == fused) := by
  cases fused <;> cases b <;> rfl

/-- What is written for negations negates the truth value in front of them. -/
theorem carries_negations {scope : Scope} {position : Nat} {carry : Carry} {segments after : List Segment}
    {count : Nat} (h : Lowers scope position carry (segments ++ after))
    (hnegations : NegationsFrom scope.body position count) (hcovered : coveredBy segments = 2 * count)
    (hitems : stack.size + 2 ≤ items) (b : Bool) :
    Carries items (segments.flatMap Segment.code) ⟨stack.push (.boolean b), heap⟩
      ⟨stack.push (.boolean (negated count b)), heap⟩ := by
  -- two segments may be written for two negations
  induction count using Nat.strongRecOn generalizing position carry segments b with
  | ind count ih =>
    rcases count with _ | count
    · rcases segments with _ | ⟨first, segments⟩
      · exact .nil
      · rw [coveredBy_cons] at hcovered
        omega
    obtain ⟨fused, first, second, rest, carry', hsegments, hfirst, hsecond, -, hrest⟩ :=
      exists_first_negation h hnegations
    obtain ⟨rest, rfl, rfl⟩ : ∃ rest', segments = first :: second :: rest' ∧ rest = rest' ++ after := by
      rcases segments with _ | ⟨first', _ | ⟨second', segments⟩⟩
      · cases hcovered
      · cases hsegments
        rw [coveredBy_cons, hfirst] at hcovered
        dsimp only at hcovered
        have hnone : coveredBy [] = 0 := rfl
        omega
      · cases hsegments
        exact ⟨segments, rfl, rfl⟩
    rw [coveredBy_cons, coveredBy_cons, hfirst, hsecond] at hcovered
    dsimp only at hcovered
    obtain ⟨left, rfl⟩ : ∃ left, count = left + fused.toNat := ⟨count - fused.toNat, by omega⟩
    have hcode : (first :: second :: rest).flatMap Segment.code = ([.mark first.source.offset,
          .pushInteger (ofInt32 0), .mark second.source.offset] ++ comparisonCode false fused .equal)
        ++ rest.flatMap Segment.code := by
      rw [List.flatMap_cons, List.flatMap_cons]
      unfold Segment.code
      rw [hfirst, hsecond]
      rfl
    rw [hcode, Nat.add_assoc, negated_add]
    have hleft := hnegations.drop (fused.toNat + 1)
    rw [Nat.add_assoc, Nat.add_sub_cancel] at hleft
    exact (carries_comparedWithZero _ _ fused b hitems).append
      (ih left (by omega) hrest hleft (by omega) _)

/-- What is written for a comparison and its negations, in terms of the code of the comparison and of
that of its negation. -/
theorem decides_negations {scope : Scope} {position : Nat} {carry : Carry} {first : Segment}
    {rest after : List Segment} {comparison : Comparison} {count : Nat} {m : Memory}
    {outcome : Except FaultKind Bool} (h : Lowers scope position carry (first :: (rest ++ after)))
    (hop : first.source.op = .compare comparison)
    (hnegations : NegationsFrom scope.body (position + 1) count)
    (hcovered : coveredBy (first :: rest) = 1 + 2 * count)
    (hdecides : Decides items (comparisonCode (isAfterNull scope position) (isNegated scope position)
      comparison) m stack outcome) (hitems : stack.size + 2 ≤ items) :
    Decides items (first.lowered.directives ++ rest.flatMap Segment.code) m stack
      (outcome.map (negated (count - (isNegated scope position).toNat))) := by
  obtain ⟨-, -, carry', hlower, hrest⟩ := h.uncons
  have hlowered := lowered_of_comparison hop hlower
  rw [coveredBy_cons, hlowered] at hcovered
  rw [hlowered] at hrest ⊢
  dsimp only at hcovered
  exact hdecides.map fun b => carries_negations hrest (hnegations.drop _) (by omega) hitems b

end

/-! ## Accepted modules -/

section

variable {limits : Compile.Limits} {module : Module} {program : Program}
  {image : Image limits module program} {routine : Routine} {method : PlacedMethod}

theorem NegatedComparison.exists_lowers (site : NegatedComparison routine)
    (hat : image.At routine method) : ∃ carry,
    Lowers routine.scope site.first.position carry (site.first :: (site.rest ++ site.after)) := by
  have hlowers := image.lowers hat.routine_mem
  rw [site.segments_eq] at hlowers
  obtain ⟨position, carry, htail⟩ := hlowers.behind
  obtain rfl := htail.uncons.1
  exact ⟨carry, htail⟩

/-- A negation that is written as part of the comparison is one of its negations. -/
theorem NegatedComparison.isFused_le (site : NegatedComparison routine) (hat : image.At routine method) :
    site.isFused.toNat ≤ site.count := by
  obtain ⟨carry, htail⟩ := site.exists_lowers hat
  obtain ⟨-, -, carry', hlower, -⟩ := htail.uncons
  have hcovered := site.covered_eq
  rw [coveredBy_cons, lowered_of_comparison site.op_eq hlower] at hcovered
  dsimp only at hcovered
  unfold NegatedComparison.isFused
  omega

/-- Wherever a comparison and its negations are in an image, they decide as what is written for the
comparison does. -/
theorem NegatedComparison.endsWith (site : NegatedComparison routine) (hat : image.At routine method)
    {s : State} {a b : Item} {below : List Item} {outcome : Except FaultKind Bool}
    (hfront : InFrontOf program method routine site.before site.first s)
    (hstack : s.memory.stack.toList = b :: a :: below) (hitems : below.length + 2 ≤ s.limits.stack)
    (hdecides : Decides (below.length + 2) (comparisonCode site.afterNull site.isFused site.comparison)
      ⟨((Stack.ofList below).push a).push b, s.memory.heap⟩ (.ofList below) outcome) :
    site.EndsWith method s below (outcome.map (negated (site.count - site.isFused.toNat))) := by
  obtain ⟨carry, htail⟩ := site.exists_lowers hat
  have hcode := decides_negations htail site.op_eq site.negations site.covered_eq hdecides (Nat.le_refl _)
  have hmemory : s.memory = ⟨((Stack.ofList below).push a).push b, s.memory.heap⟩ :=
    memory_eq hstack
  obtain ⟨frame, callers, front, -, hfacing, hextent⟩ := hfront.facing hat site.segments_eq
  rw [List.flatMap_append, List.append_assoc, ← List.append_assoc site.first.lowered.directives,
    hmemory] at hfacing
  cases hresult : outcome.map (negated (site.count - site.isFused.toNat)) with
  | ok verdict =>
    have hcarries : Carries (below.length + 2) site.code _
      ⟨(Stack.ofList below).push (.boolean verdict), _⟩ := hresult ▸ hcode
    obtain ⟨n, t, hn, hadvances, rfl⟩ := hcarries hfacing hitems
    rw [hextent] at hadvances
    exact ⟨n, hn, hadvances⟩
  | error kind =>
    have hfaults : Faults (below.length + 2) site.code _ kind := hresult ▸ hcode
    exact hfaults hfacing hitems

/-- Where a comparison and its negation decide oppositely, all negations count alike. -/
theorem NegatedComparison.endsWith_opposed (site : NegatedComparison routine)
    (hat : image.At routine method) {s : State} {a b : Item} {below : List Item}
    {outcome : Except FaultKind Bool}
    (hfront : InFrontOf program method routine site.before site.first s)
    (hstack : s.memory.stack.toList = b :: a :: below) (hitems : below.length + 2 ≤ s.limits.stack)
    (hdecides : Decides (below.length + 2) (comparisonCode site.afterNull false site.comparison)
      ⟨((Stack.ofList below).push a).push b, s.memory.heap⟩ (.ofList below) outcome)
    (hdecides' : Decides (below.length + 2) (comparisonCode site.afterNull true site.comparison)
      ⟨((Stack.ofList below).push a).push b, s.memory.heap⟩ (.ofList below) (outcome.map (!·))) :
    site.EndsWith method s below (outcome.map (negated site.count)) := by
  have hle := site.isFused_le hat
  cases hfused : site.isFused with
  | false =>
    rw [← hfused] at hdecides
    have hends := site.endsWith hat hfront hstack hitems hdecides
    rw [hfused] at hends
    exact hends
  | true =>
    rw [← hfused] at hdecides'
    have hends := site.endsWith hat hfront hstack hitems hdecides'
    rw [hfused] at hends hle
    obtain ⟨count, hcount⟩ : ∃ count, site.count = count + 1 := ⟨site.count - 1, by
      have : 1 ≤ site.count := hle
      omega⟩
    rw [hcount] at hends ⊢
    cases outcome <;> exact hends

theorem Image.At.negationsAgree {limits' : Compile.Limits} {module' : Module} {program' : Program}
    {image' : Image limits' module' program'} {routine' : Routine} {method' : PlacedMethod}
    (hat : image.At routine method) (hat' : image'.At routine' method') :
    NegationsAgree program method routine program' method' routine' := by
  constructor
  · intro before first after comparison count hsegments hop hnegations
    exact exists_negatedComparison (image.lowers hat.routine_mem) hsegments hop hnegations
  · intro site hcount
    have hfirst : NegationsFrom routine.scope.body (site.first.position + 1) 1 :=
      fun k hk => site.negations k (by omega)
    exact isNegated_iff.trans (and_iff_right hfirst)
  · intro site site' hcomparison hcount hnull s s' a b below hfront hfront' hmemory hstack hoperands
      hitems hitems'
    obtain ⟨outcome, hdecides, hdecides'⟩ : Opposed (below.length + 2) _ _
        ⟨((Stack.ofList below).push a).push b, s.memory.heap⟩ (.ofList below) :=
      opposed_comparison site.afterNull (Nat.le_refl _) hoperands
    refine ⟨_, site.endsWith_opposed hat hfront hstack hitems hdecides hdecides', ?_⟩
    rw [hmemory] at hstack hdecides hdecides'
    rw [hcomparison, hnull] at hdecides hdecides'
    rw [hcount]
    exact site'.endsWith_opposed hat' hfront' hstack hitems' hdecides hdecides'
  · intro site horder s a b below hfront hstack hnull hitems
    exact site.endsWith hat hfront hstack hitems
      (decides_null _ _ horder hnull (Nat.lt_succ_of_lt (Nat.lt_succ_self _)))

end

/-- In accepted modules, it makes no difference how a comparison and its negations are written, but for
orders of null. -/
theorem negationsAgree_of_build {limits limits' : Compile.Limits} {module module' : Module}
    {contract contract' : Contract} (h : build limits module = .ok contract)
    (h' : build limits' module' = .ok contract') :
    EveryMethod limits module contract.program fun method routine =>
      EveryMethod limits' module' contract'.program fun method' routine' =>
        NegationsAgree contract.program method routine contract'.program method' routine' :=
  everyMethod_of_build (P := fun program method routine =>
    EveryMethod limits' module' contract'.program fun method' routine' =>
      NegationsAgree program method routine contract'.program method' routine') h fun _ _ _ hat =>
    everyMethod_of_build (P := fun program' method' routine' =>
      NegationsAgree contract.program _ _ program' method' routine') h' fun _ _ _ hat' =>
      hat.negationsAgree hat'

/-- Whether null is not greater than 1, with something behind that is not reached. -/
def orderOfNull (name : String) (behind : List Source.Instruction) : Source.Method where
  name := "T::" ++ name
  displayName := name
  isPublic := true
  returnType := .boolean
  body := [⟨0, .loadNull⟩, ⟨1, .literal32 1⟩, ⟨2, .compare .greater⟩, ⟨3, .literal32 0⟩,
    ⟨4, .compare .equal⟩, ⟨5, .ret⟩] ++ behind

/-- The same twice, once with a branch that leads to the negation. -/
def sampleOrders : Module where
  types := [{ name := "T", methods := [orderOfNull "fused" [],
    orderOfNull "separate" [⟨6, .branch .always 3⟩]] }]

theorem negationsAgree_sampleOrders : ∃ contract, build {} sampleOrders = .ok contract
    ∧ EveryMethod {} sampleOrders contract.program fun method routine =>
      EveryMethod {} sampleOrders contract.program fun method' routine' =>
        NegationsAgree contract.program method routine contract.program method' routine' := by
  have hbuilds : (build {} sampleOrders).toOption.isSome = true := by decide +kernel
  obtain ⟨contract, h⟩ := exists_contract hbuilds
  exact ⟨contract, h, negationsAgree_of_build h h⟩

/-- What an entry without arguments returns. -/
def returned (contract : Contract) (name : String) : Option (List Item) :=
  (contract.entry? name).bind fun entry =>
    match invoke entry [] { script := contract.program.script.toArray } with
    | .ok items _ => some items
    | .error _ _ => none

/-- The opposite of an order, which is written for it and its negation, is false of null as the order is;
with its negation behind it, the order is negated to true. -/
theorem returned_sampleOrders : (build {} sampleOrders).toOption.map (fun contract =>
      (contract.program.methods.map fun method => method.body.instructions.map (·.opcode),
        returned contract "fused", returned contract "separate"))
    = some ([[.pushNull, .push1, .le, .ret], [.pushNull, .push1, .gt, .push0, .numEqual, .ret, .jmpL]],
      some [.boolean false], some [.boolean true]) := by
  decide +kernel

end StackContract.Contract
