import StackContract.Proofs.Exits
/-!
# Switches

A switch takes its tag off the stack and goes on at the case of that number, or behind itself if there
is none (`switchesDispatch_of_build`).

The tag stays on the stack until a case is chosen, and each way out of the switch removes it once. The
jump over the rest of a case always goes the same number of bytes, whatever number the case compares
with, since the push of that number stands in front of it (`Exits.skip`).
-/

namespace StackContract.Contract

open Assembly Script Lowering Machine Number
open StackContract.Core (computation)
open Source (Module)

/-! ## Statement -/

/-- What is written for a switch takes the tag off the stack, leaves everything else as it is and goes
on at the target of that number, or at the instruction that follows. -/
def DispatchesTag (program : Program) (method : PlacedMethod) (routine : Routine)
    (before : List Segment) (segment : Segment) (targets : List UInt32) : Prop :=
  ∀ ⦃s : State⦄ ⦃tag : Item⦄ ⦃rest : List Item⦄ ⦃v : Int128⦄,
    InFrontOf program method routine before segment s → s.memory.stack.toList = tag :: rest →
    tag.asInteger s.memory.heap = .ok v → rest.length + 3 ≤ s.limits.stack →
    ∃ n address, n ≤ instructionCount segment.lowered.directives
      ∧ Advances n s { s with memory := ⟨.ofList rest, s.memory.heap⟩, address }
      ∧ ExitsAt program method routine before segment
        (if 0 ≤ v.val then targets[v.val.toNat]? else none) address

/-- Every switch in the body of a method dispatches on its tag. -/
def SwitchesDispatch (program : Program) (method : PlacedMethod) (routine : Routine) : Prop :=
  ∀ position i targets, routine.scope.body[position]? = some i → i.op = .switch targets →
    ∃ before segment after, routine.segments = before ++ segment :: after
      ∧ segment.position = position ∧ segment.source = i
      ∧ DispatchesTag program method routine before segment targets

/-! ## Cases -/

section

variable {items : Nat} {frame : Frame} {stack : Stack Item} {item : Item} {heap : Heap} {v : Int128}

/-- A case of a switch compares a copy of the tag with its number. -/
theorem carries_tag (hv : item.asInteger heap = .ok v) {index : Nat} (hindex : index < 2 ^ 64)
    (hitems : stack.size + 3 ≤ items) :
    Carries items [.op .dup, .pushNat index, .op .numEqual] ⟨stack.push item, heap⟩
      ⟨(stack.push item).push (.boolean (v.val = index)), heap⟩ := by
  have hsize : stack.size + 2 ≤ items := Nat.le_of_succ_le hitems
  have hdup : Carries items [.op .dup] ⟨stack.push item, heap⟩ ⟨(stack.push item).push item, heap⟩ :=
    .simple (.shuffle .dup) rfl (fun _ => rfl) hsize
  obtain ⟨w, hw, hpush⟩ := Carries.pushNat hindex ((stack.push item).push item) heap hitems
  have hcompare : Carries items [.op .numEqual] ⟨((stack.push item).push item).push (.integer w), heap⟩
      ⟨(stack.push item).push (.boolean (v.val = index)), heap⟩ := by
    refine .simple (.numeric .eq) rfl (fun address => ?_) hsize
    have hresult := computation_numEqual address (stack.push item) item w heap
    rw [hv, hw] at hresult
    exact hresult
  exact hdup.cons (hpush.cons hcompare)

/-- A case of a switch is left for its target if the tag is its number. Otherwise the next case is. -/
theorem exits_case (hv : item.asInteger heap = .ok v) {index : Nat} (hindex : index < 2 ^ 64)
    (target : UInt32) {next : List Directive} {exit : Option UInt32} (hitems : stack.size + 3 ≤ items)
    (hpos : 0 < extent next)
    (hnext : Exits items frame next ⟨stack.push item, heap⟩ ⟨stack, heap⟩ exit) :
    Exits items frame (switchCase index target ++ next) ⟨stack.push item, heap⟩ ⟨stack, heap⟩
      (if v.val = index then some target else exit) := by
  have htag := (carries_tag hv hindex hitems).exits frame
  have hsize : (stack.push item).size ≤ items := by
    show stack.size + 1 ≤ items
    omega
  by_cases heq : v.val = index
  · rw [if_pos heq]
    rw [decide_eq_true heq] at htag
    have hdrop := (Carries.drop stack item heap (Nat.le_of_succ_le hsize)).exits frame
    have htaken := (hdrop.append (.jump target (Nat.le_of_succ_le hsize))).stop next
    exact htag.append (.skip true hpos hsize (fun _ => htaken) nofun)
  · rw [if_neg heq]
    rw [decide_eq_false heq] at htag
    exact htag.append (.skip false hpos hsize nofun fun _ => hnext)

/-- The cases from number `k` on, and the removal of the tag behind them. -/
theorem exits_cases (hv : item.asInteger heap = .ok v) (targets : List UInt32) {k : Nat}
    (hrange : k + targets.length ≤ 2 ^ 64) (hitems : stack.size + 3 ≤ items) :
    Exits items frame (((targets.zipIdx k).flatMap fun (target, index) =>
        switchCase index target) ++ [.op .drop]) ⟨stack.push item, heap⟩ ⟨stack, heap⟩
      (chosen targets k v.val) := by
  induction targets generalizing k with
  | nil =>
    have hnone : chosen [] k v.val = none := by
      unfold chosen
      split <;> rfl
    rw [hnone]
    exact (Carries.drop stack item heap (by omega)).exits frame
  | cons target targets ih =>
    rw [List.length_cons] at hrange
    rw [List.zipIdx_cons, List.flatMap_cons, List.append_assoc, chosen_cons]
    refine exits_case hv (by omega) target hitems ?_ (ih (by omega))
    rw [extent_append]
    exact Nat.lt_of_lt_of_le (Instruction.size_pos ⟨.drop, []⟩)
      (Nat.le_trans (Nat.le_add_right ..) (Nat.le_add_left ..))

/-- A switch is left for the target whose number is the tag. -/
theorem exits_switch (hv : item.asInteger heap = .ok v) {targets : List UInt32}
    (htargets : targets.length ≤ 2 ^ 64) (hitems : stack.size + 3 ≤ items) :
    Exits items frame (lowerSwitch targets) ⟨stack.push item, heap⟩ ⟨stack, heap⟩
      (if 0 ≤ v.val then targets[v.val.toNat]? else none) := by
  rw [← chosen_zero]
  exact exits_cases hv targets (by omega) hitems

end

/-! ## Accepted modules -/

theorem directives_of_switch {scope : Scope} {position : Nat} {i : Source.Instruction}
    {carry carry' : Carry} {lowered : Lowered} {targets : List UInt32} (hop : i.op = .switch targets)
    (h : (lower scope position i).run carry = .ok (lowered, carry')) :
    lowered.directives = lowerSwitch targets := by
  obtain ⟨offset, op⟩ := i
  cases hop
  cases h
  rfl

theorem Image.At.dispatches {limits : Compile.Limits} {module : Module} {program : Program}
    {image : Image limits module program} {routine : Routine} {method : PlacedMethod}
    (hat : image.At routine method) : SwitchesDispatch program method routine := by
  intro position i targets hi hop
  have hown : isCovered i.op = false := by
    rw [hop]
    rfl
  obtain ⟨before, segment, after, hsegments, rfl, rfl, carry, carry', hlower⟩ :=
    hat.exists_segment hi hown
  refine ⟨before, segment, after, hsegments, rfl, rfl, ?_⟩
  have hdirectives := directives_of_switch hop hlower
  have htargets : targets.length ≤ 2 ^ 64 := by
    have hextent := hat.extent_lowered_le hsegments
    rw [hdirectives] at hextent
    exact Nat.le_trans (length_le_extent_lowerSwitch targets) (Nat.le_trans hextent (by decide))
  intro s tag rest v hfront hstack hv hitems
  obtain ⟨frame, below, hframes⟩ := List.exists_cons_of_ne_nil hfront.running
  have hmemory : s.memory = ⟨(Stack.ofList rest).push tag, s.memory.heap⟩ :=
    memory_eq hstack
  have hexits : Exits (rest.length + 3) frame (lowerSwitch targets) ⟨(Stack.ofList rest).push tag, _⟩
      ⟨.ofList rest, _⟩ _ := exits_switch hv htargets (Nat.le_refl _)
  rw [← hmemory, ← hdirectives] at hexits
  refine hat.exits hsegments hfront hframes hitems hexits fun _ => ?_
  exact ⟨_, .op .drop, hdirectives, Nat.one_pos, rfl⟩

/-- Every switch of an accepted module dispatches on its tag. -/
theorem switchesDispatch_of_build {limits : Compile.Limits} {module : Module} {contract : Contract}
    (h : build limits module = .ok contract) :
    EveryMethod limits module contract.program (SwitchesDispatch contract.program) :=
  everyMethod_of_build h fun _ => Image.At.dispatches

theorem switchesDispatch_sample : ∃ contract, build {} sample = .ok contract
    ∧ EveryMethod {} sample contract.program (SwitchesDispatch contract.program) := by
  obtain ⟨contract, h⟩ := build_sample
  exact ⟨contract, h, switchesDispatch_of_build h⟩

end StackContract.Contract
