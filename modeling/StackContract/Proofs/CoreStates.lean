import StackContract.Proofs.CoreActions
import StackContract.Proofs.Twins
/-!
# Corresponding states of the source machine and its code

The source machine stands between two instructions, the machine of the image between the code that is
written for them (`Gap`). Behind the code of an instruction there is the gap of the next one
(`Gap.next`), and a jump to an offset leads to the gap in front of the first instruction there
(`MethodAt.gap_of_mark`): instructions that are written as part of others are the target of no jump.
-/

namespace StackContract.Contract

open Assembly Script Lowering Machine
open StackContract.Core (Activation Config InCore ModuleInCore actionAt?)
open Source (TypeDecl Module)

variable {limits : Compile.Limits} {module : Module} {program : Program}

/-! ## Methods and gaps -/

/-- The return that ends a routine, if control can reach its end. -/
def Routine.close (routine : Routine) : List Directive :=
  if (Draft.run {} routine.directives).endIsReachable then [.op .ret] else []

theorem Routine.code_eq (routine : Routine) :
    routine.code = routine.prologue ++ (routine.segments.flatMap Segment.code ++ routine.close) := by
  unfold Routine.code closing Routine.close Routine.directives
  split
  · rw [List.append_assoc]
  · rw [List.append_nil]

/-- A method of an image, with the method of the source that it is written for. -/
structure MethodAt (image : Image limits module program) where
  entry : TypeDecl × Source.Method
  routine : Routine
  placed : PlacedMethod
  mem : entry ∈ declaredBodies module
  isAt : image.At routine placed
  isMethod : IsMethod limits image.catalogue entry routine

namespace MethodAt

variable {image : Image limits module program}

/-- The method in the script, above other frames. -/
def surroundings (method : MethodAt image) (below : List Frame) : Surroundings :=
  ⟨program.script.toArray, baseOf? program.methods, method.placed.base, method.routine.code, below⟩

theorem body_eq (method : MethodAt image) :
    method.routine.scope.body = method.entry.2.body.toArray := by
  rw [method.isMethod.scope]
  rfl

theorem catalogue_eq (method : MethodAt image) :
    method.routine.scope.catalogue = catalogueOf module image.statics := by
  rw [method.isMethod.scope]
  rfl

theorem closed (method : MethodAt image) (below : List Frame) :
    Closed (method.surroundings below).code :=
  closed_closing _

end MethodAt

/-- The code in front of a gap. -/
def MethodAt.written {image : Image limits module program} (method : MethodAt image)
    (before : List Segment) : List Directive :=
  method.routine.prologue ++ before.flatMap Segment.code

/-- The code behind a gap. -/
def MethodAt.ahead {image : Image limits module program} (method : MethodAt image)
    (after : List Segment) : List Directive :=
  after.flatMap Segment.code ++ method.routine.close

/-- A method is cut between the segments of two instructions, the second one being at a position of the
source. -/
structure Gap {image : Image limits module program} (method : MethodAt image)
    (before after : List Segment) (position : Nat) (carry : Carry) : Prop where
  segments : method.routine.segments = before ++ after
  lowers : Lowers method.routine.scope position carry after

namespace Gap

variable {image : Image limits module program} {method : MethodAt image} {before after : List Segment}
  {position : Nat} {carry : Carry}

theorem code (h : Gap method before after position carry) :
    method.routine.code = method.written before ++ method.ahead after := by
  unfold MethodAt.written MethodAt.ahead
  rw [Routine.code_eq, h.segments, List.flatMap_append, List.append_assoc, List.append_assoc]

/-- The gap behind the code of an instruction. -/
theorem next {segment : Segment} (h : Gap method before (segment :: after) position carry) :
    ∃ carry', Gap method (before ++ [segment]) after (position + 1 + segment.lowered.consumed)
      carry' := by
  obtain ⟨hsegments, hlowers⟩ := h
  cases hlowers with
  | next hposition hlower hrest =>
    exact ⟨_, by rw [hsegments, List.append_assoc]; rfl, hrest⟩

theorem written_next (method : MethodAt image) (before : List Segment) (segment : Segment) :
    method.written (before ++ [segment])
      = method.written before ++ [.mark segment.source.offset] ++ segment.lowered.directives := by
  unfold MethodAt.written
  rw [List.flatMap_append, List.flatMap_singleton, ← List.append_assoc, List.append_assoc _ [_]]
  rfl

theorem ahead_cons (method : MethodAt image) (segment : Segment) (after : List Segment) :
    method.ahead (segment :: after)
      = .mark segment.source.offset :: (segment.lowered.directives ++ method.ahead after) := by
  unfold MethodAt.ahead
  rw [List.flatMap_cons, List.append_assoc]
  rfl

/-- The instruction behind a gap, and what is written for it. -/
theorem instruction {segment : Segment} (h : Gap method before (segment :: after) position carry) :
    method.entry.2.body[position]? = some segment.source
      ∧ ∃ carry', (lower method.routine.scope position segment.source).run carry
        = .ok (segment.lowered, carry') := by
  obtain ⟨-, hlowers⟩ := h
  cases hlowers with
  | next hposition hlower _ =>
    refine ⟨?_, _, hlower⟩
    rw [← List.getElem?_toArray, ← method.body_eq]
    exact Array.getElem?_eq_getElem hposition

/-- Behind the last gap there is a return, if there is anything. -/
theorem last (h : Gap method before [] position carry) (hpos : 0 < extent (method.ahead [])) :
    method.entry.2.body[position]? = none ∧ method.ahead [] = [.op .ret] := by
  obtain ⟨-, hlowers⟩ := h
  cases hlowers with
  | finish hposition =>
    constructor
    · rw [← List.getElem?_toArray, ← method.body_eq]
      exact Array.getElem?_eq_none hposition
    · unfold MethodAt.ahead Routine.close at hpos ⊢
      split at hpos
      · next hreachable =>
        rw [if_pos hreachable]
        rfl
      · exact absurd hpos (Nat.lt_irrefl 0)

/-- The code of an instruction of the core. -/
theorem lowered {segment : Segment} (h : Gap method before (segment :: after) position carry)
    (hcore : ModuleInCore module) :
    (∃ action, actionAt? true method.entry.2.body position segment.source.op
        = some (action, position + 1 + segment.lowered.consumed)
      ∧ CodeFor method.routine.scope action segment.lowered.directives)
    ∨ (segment.source.op = .compare .equal ∧ Core.isNegated method.entry.2.body position = true
      ∧ segment.lowered = ⟨[.op .numNotEqual], 2⟩) := by
  obtain ⟨hsource, carry', hlower⟩ := h.instruction
  refine lower_core method.body_eq (hcore _ method.mem) (List.mem_of_getElem? hsource)
    method.catalogue_eq image.names_nodup ?_ hlower
  have hextent := image.extent_le method.isAt.routine_mem
  rw [h.code, ahead_cons, extent_append, extent_mark, extent_append] at hextent
  omega

theorem not_mark_lowered {segment : Segment}
    (h : Gap method before (segment :: after) position carry) (hcore : ModuleInCore module)
    (source : UInt32) : .mark source ∉ segment.lowered.directives := by
  rcases h.lowered hcore with ⟨action, -, hcode⟩ | ⟨-, -, hequal⟩
  · exact hcode.not_mark source
  · rw [hequal]
    simp [Directive.op]

/-- What is written as part of another instruction is no target. -/
theorem not_target_of_covered {segment : Segment} {j : Nat} {i : Source.Instruction}
    (h : Gap method before (segment :: after) position carry) (hcore : ModuleInCore module)
    (hposition : position < j) (hj : j < position + 1 + segment.lowered.consumed)
    (hi : method.entry.2.body[j]? = some i) :
    Core.isTarget method.entry.2.body i.offset = false := by
  have hinline : (Core.inline? method.entry.2.body j).isSome = true := by
    rcases h.lowered hcore with ⟨action, haction, -⟩ | ⟨-, hnegated, hequal⟩
    · exact inline?_of_covered haction hposition hj
    · obtain ⟨hfirst, hsecond⟩ := inline?_of_isNegated hnegated
      rw [hequal] at hj
      have hj : j < position + 1 + 2 := hj
      rcases (by omega : j = position + 1 ∨ j = position + 2) with rfl | rfl
      · exact hfirst
      · exact hsecond
  unfold Core.inline? at hinline
  rw [hi, Option.bind_some] at hinline
  split at hinline
  · cases hinline
  · next hfree => exact Bool.eq_false_iff.mpr hfree

/-- From a gap on, there is a gap in front of the first instruction with an offset that is a target. -/
theorem exists_at {target : UInt32} {position' : Nat} {i : Source.Instruction}
    (h : Gap method before after position carry) (hcore : ModuleInCore module)
    (htarget : Core.isTarget method.entry.2.body target = true)
    (hi : method.entry.2.body[position']? = some i) (hoffset : i.offset = target)
    (hfirst : ∀ j < position', ∀ i', method.entry.2.body[j]? = some i' → i'.offset ≠ target)
    (hle : position ≤ position') (hbefore : .mark target ∉ before.flatMap Segment.code) :
    ∃ before' segment after' carry', Gap method before' (segment :: after') position' carry'
      ∧ segment.source = i ∧ .mark target ∉ before'.flatMap Segment.code := by
  -- on the segments behind the gap, none of which steps over the position
  induction after generalizing before position carry with
  | nil =>
    have hlowers := h.lowers
    cases hlowers with
    | finish hend =>
      rw [method.body_eq, List.size_toArray] at hend
      have := (List.getElem?_eq_some_iff.mp hi).1
      omega
  | cons segment after ih =>
    have hsource := h.instruction.1
    rcases Nat.lt_or_eq_of_le hle with hlt | rfl
    · obtain ⟨carry', hnext⟩ := h.next
      refine ih hnext ?_ ?_
      · -- the instruction is not one that this one covers
        by_contra hcovered
        have hfree := h.not_target_of_covered hcore hlt (by omega) hi
        rw [hoffset, htarget] at hfree
        cases hfree
      · rw [List.flatMap_append, List.mem_append, not_or]
        refine ⟨hbefore, ?_⟩
        rw [List.flatMap_singleton]
        intro hmem
        rcases List.mem_cons.mp hmem with hmark | hmem
        · cases hmark
          exact hfirst position hlt _ hsource rfl
        · exact h.not_mark_lowered hcore target hmem
    · refine ⟨before, segment, after, carry, h, ?_, hbefore⟩
      exact Option.some.inj (hsource.symm.trans hi)

/-- A mark behind a gap is the start of the code of an instruction. -/
theorem exists_of_mark {target : UInt32} (h : Gap method before after position carry)
    (hcore : ModuleInCore module) (hmark : .mark target ∈ after.flatMap Segment.code) :
    ∃ i ∈ method.entry.2.body, i.offset = target := by
  induction after generalizing before position carry with
  | nil => cases hmark
  | cons segment after ih =>
    rcases List.mem_append.mp hmark with hfirst | hrest
    · rcases List.mem_cons.mp hfirst with hsource | hmem
      · cases hsource
        exact ⟨segment.source, List.mem_of_getElem? h.instruction.1, rfl⟩
      · exact absurd hmem (h.not_mark_lowered hcore target)
    · obtain ⟨carry', hnext⟩ := h.next
      exact ih hnext hrest

end Gap

namespace MethodAt

variable {image : Image limits module program}

theorem gap_first (method : MethodAt image) : Gap method [] method.routine.segments 0 {} :=
  ⟨rfl, method.isMethod.lowers⟩

/-- A mark is the start of the code of an instruction. -/
theorem exists_of_mark (method : MethodAt image) (hcore : ModuleInCore module) {target : UInt32}
    (h : .mark target ∈ method.routine.code) : ∃ i ∈ method.entry.2.body, i.offset = target := by
  rcases method.routine.mem_code h with hprologue | ⟨segment, hsegment, hmark⟩ | hret
  · rw [method.isMethod.prologue] at hprologue
    exact absurd hprologue (not_mark_slotPrologue _ _ target)
  · exact method.gap_first.exists_of_mark hcore (List.mem_flatMap.mpr ⟨segment, hsegment, hmark⟩)
  · cases hret

/-- The first mark of a target stands behind the gap in front of the first instruction there. -/
theorem gap_of_mark (method : MethodAt image) (hcore : ModuleInCore module) {target : UInt32}
    (htarget : Core.isTarget method.entry.2.body target = true) {front rest : List Directive}
    (hcode : method.routine.code = front ++ .mark target :: rest) (hfirst : .mark target ∉ front)
    (hpos : 0 < extent rest) : ∃ position before after carry,
      method.entry.2.body.findIdx? (fun i => i.offset = target) = some position
        ∧ Gap method before after position carry ∧ extent front = extent (method.written before)
        ∧ 0 < extent (method.ahead after) := by
  have hmem : .mark target ∈ method.routine.code := by
    rw [hcode]
    exact List.mem_append_right _ (List.mem_cons_self ..)
  obtain ⟨i, hi, hoffset⟩ := method.exists_of_mark hcore hmem
  obtain ⟨position, hposition⟩ :
      ∃ position, method.entry.2.body.findIdx? (fun i => i.offset = target) = some position :=
    Option.isSome_iff_exists.mp (List.findIdx?_isSome ▸ List.any_eq_true.mpr ⟨i, hi, by simpa⟩)
  obtain ⟨hlt, hthere, hearlier⟩ := List.findIdx?_eq_some_iff_getElem.mp hposition
  obtain ⟨before, segment, after, carry, hgap, hsource, hbefore⟩ :=
    method.gap_first.exists_at hcore htarget (List.getElem?_eq_getElem hlt) (by simpa using hthere)
      (fun j hj i' hi' => by
        obtain ⟨hlt', rfl⟩ := List.getElem?_eq_some_iff.mp hi'
        simpa using hearlier j hj)
      (Nat.zero_le _) (List.not_mem_nil)
  have hstart : segment.source.offset = target := by
    rw [hsource]
    simpa using hthere
  have hsplit : method.routine.code = method.written before
      ++ .mark target :: (segment.lowered.directives ++ method.ahead after) := by
    rw [hgap.code, Gap.ahead_cons, hstart]
  -- an offset has one first mark
  have hnone : .mark target ∉ method.written before := by
    unfold MethodAt.written
    rw [List.mem_append, not_or, method.isMethod.prologue]
    exact ⟨not_mark_slotPrologue _ _ target, hbefore⟩
  have hextent : extent front = extent (method.written before) := by
    have hfront := markIn_eq_some_iff.mpr ⟨_, _, hcode, hfirst, (Nat.zero_add _).symm⟩
    have hwritten := markIn_eq_some_iff.mpr ⟨_, _, hsplit, hnone, (Nat.zero_add _).symm⟩
    exact Option.some.inj (hfront.symm.trans hwritten)
  refine ⟨position, before, segment :: after, carry, hposition, hgap, hextent, ?_⟩
  rw [Gap.ahead_cons, extent_mark]
  have htotal := congrArg extent (hcode.symm.trans hsplit)
  rw [extent_append, extent_append, extent_mark, extent_mark] at htotal
  omega

theorem toNat_locals (method : MethodAt image) :
    method.routine.scope.locals.toNat = method.entry.2.locals.length := by
  rw [method.isMethod.scope]
  exact UInt8.toNat_ofNat_of_lt' (Nat.lt_of_le_of_lt method.isMethod.locals limits.locals.toNat_lt)

theorem toNat_params (method : MethodAt image) :
    method.routine.scope.params.toNat = method.entry.2.params.length := by
  rw [method.isMethod.scope]
  exact UInt8.toNat_ofNat_of_lt' (Nat.lt_of_le_of_lt method.isMethod.params limits.params.toNat_lt)

/-- The code of a method is its prologue and the code behind its first gap. -/
theorem code_eq (method : MethodAt image) : method.routine.code
    = slotPrologue method.routine.scope.locals method.routine.scope.params
      ++ method.ahead method.routine.segments := by
  rw [← method.isMethod.prologue]
  exact method.routine.code_eq

/-- Behind its first gap, a method has code. -/
theorem ahead_first (method : MethodAt image) : 0 < extent (method.ahead method.routine.segments) := by
  have hcode := method.code_eq
  have hpos := extent_closing_pos method.routine.directives
  unfold slotPrologue at hcode
  split at hcode
  · rw [show closing method.routine.directives = _ from hcode] at hpos
    exact hpos
  · have hsplit : closing method.routine.directives = [] ++ _ :: _ := hcode
    -- the prologue falls through, and closed code does not end there
    exact (closed_closing _).falls hsplit (Instruction.size_pos _) rfl

end MethodAt

end StackContract.Contract
