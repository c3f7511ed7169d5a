import StackContract.Proofs.Exits
/-!
# Switches over strings

The chain that a switch over strings becomes takes the hash off the stack and goes on at the target of
the first leaf whose slot is equal to its key, or at the default target if there is none
(`stringSwitchesSelect_of_build`).
-/

namespace StackContract.Contract

open Assembly Script Lowering Machine
open Compile
open Source (Module)

/-! ## Statement -/

/-- Whether the slot of a leaf is equal to its key. -/
def isEqualToKey (frame : Frame) (heap : Heap) (leaf : Leaf) : Bool :=
  ((itemsOf frame leaf.place)[leaf.index.toNat]?).any fun item =>
    item.equals heap (.byteString (Text.utf8 leaf.key))

/-- The target of the first leaf whose slot is equal to its key, or else the default target. -/
def selected (frame : Frame) (heap : Heap) (leaves : List Leaf) (defaultTarget : UInt32) : UInt32 :=
  ((leaves.find? (isEqualToKey frame heap)).map (·.target)).getD defaultTarget

/-- What is written for a hash and the region behind it takes the hash off the stack, leaves everything
else as it is and goes on where the leaves select, in a frame that has their slots. -/
def SelectsLeaf (program : Program) (method : PlacedMethod) (routine : Routine)
    (before : List Segment) (segment : Segment) (region : Region) : Prop :=
  ∀ ⦃s : State⦄ ⦃frame : Frame⦄ ⦃callers : List Frame⦄ ⦃hash : Item⦄ ⦃rest : List Item⦄,
    InFrontOf program method routine before segment s → s.frames.toList = frame :: callers →
    (∀ leaf ∈ region.leaves, leaf.index.toNat < (itemsOf frame leaf.place).size) →
    s.memory.stack.toList = hash :: rest → rest.length + 2 ≤ s.limits.stack →
    ∃ n address, n ≤ instructionCount segment.lowered.directives
      ∧ Advances n s { s with memory := ⟨.ofList rest, s.memory.heap⟩, address }
      ∧ ExitsAt program method routine before segment
        (some (selected frame s.memory.heap region.leaves region.defaultTarget)) address

/-- Every switch over strings in the body of a method selects among its leaves. -/
def StringSwitchesSelect (program : Program) (method : PlacedMethod) (routine : Routine) : Prop :=
  ∀ position i, routine.scope.body[position]? = some i → i.op = .call (.intrinsic .stringHash) →
    ∃ before segment after region, routine.segments = before ++ segment :: after
      ∧ segment.position = position ∧ segment.source = i
      ∧ region.IsBehind routine.scope.body position ∧ segment.lowered.consumed = region.length
      ∧ SelectsLeaf program method routine before segment region

/-! ## Chains -/

section

variable {items : Nat} {frame : Frame} {stack : Stack Item} {heap : Heap} {scope : Scope} {leaf : Leaf}
  {code : List Directive}

theorem leafCode_eq (h : leafCode scope leaf = .ok code) : ∃ slot : UInt8,
    slot.toNat = leaf.index.toNat ∧ code = [.load (areaOf leaf.place) slot,
      .pushData (Text.utf8 leaf.key), .op .equal, .jump .jmpIfL leaf.target] := by
  obtain ⟨load, hload, hpure⟩ := exceptBind_eq_ok h
  cases hpure
  obtain ⟨slot, hslot, rfl⟩ := exceptMap_eq_ok hload
  exact ⟨slot, (slot_bounded hslot).1, rfl⟩

/-- The code of a leaf is left for the target of the leaf if its slot is equal to its key. -/
theorem exits_leaf (h : leafCode scope leaf = .ok code)
    (hindex : leaf.index.toNat < (itemsOf frame leaf.place).size)
    (hkey : (Text.utf8 leaf.key).length < 256 ^ 4) (hitems : stack.size + 2 ≤ items) :
    Exits items frame code ⟨stack, heap⟩ ⟨stack, heap⟩
      (if isEqualToKey frame heap leaf then some leaf.target else none) := by
  obtain ⟨slot, hslot, rfl⟩ := leafCode_eq h
  obtain ⟨item, hitem⟩ : ∃ item, (itemsOf frame leaf.place)[slot.toNat]? = some item :=
    ⟨_, Array.getElem?_eq_getElem (hslot ▸ hindex)⟩
  have hequal : isEqualToKey frame heap leaf = item.equals heap (.byteString (Text.utf8 leaf.key)) := by
    unfold isEqualToKey
    rw [← hslot, hitem]
    rfl
  have hload : Exits items frame [.load (areaOf leaf.place) slot] ⟨stack, heap⟩
      ⟨stack.push item, heap⟩ none := .load leaf.place hitem (by omega)
  have hpush := Carries.pushes (.byteString hkey) (stack.push item) heap hitems
  have hcompare : Carries items [.op .equal]
      ⟨(stack.push item).push (.byteString (Text.utf8 leaf.key)), heap⟩
      ⟨stack.push (.boolean (isEqualToKey frame heap leaf)), heap⟩ := by
    refine .simple (.equal true) rfl (fun address => ?_) (Nat.le_of_succ_le hitems)
    rw [hequal, ← beq_true (item.equals heap _)]
    rfl
  have htest := (hpush.cons hcompare).exits frame
  exact hload.append (htest.append (.jumpIf leaf.target _ (by omega)))

/-- A chain of leaves with a jump behind it is left for the target that the leaves select. -/
theorem exits_chain {leaves : List Leaf} {tests : List (List Directive)} (defaultTarget : UInt32)
    (h : List.Forall₂ (fun leaf code => leafCode scope leaf = .ok code) leaves tests)
    (hindex : ∀ leaf ∈ leaves, leaf.index.toNat < (itemsOf frame leaf.place).size)
    (hkey : ∀ leaf ∈ leaves, (Text.utf8 leaf.key).length < 256 ^ 4) (hitems : stack.size + 2 ≤ items) :
    Exits items frame (tests.flatten ++ [.jump .jmpL defaultTarget]) ⟨stack, heap⟩ ⟨stack, heap⟩
      (some (selected frame heap leaves defaultTarget)) := by
  induction h with
  | nil => exact .jump defaultTarget (Nat.le_of_add_right_le hitems)
  | @cons leaf code leaves tests hcode _ ih =>
    have hfirst : Exits items frame code ⟨stack, heap⟩ ⟨stack, heap⟩ _ :=
      exits_leaf hcode (hindex _ (List.mem_cons_self ..)) (hkey _ (List.mem_cons_self ..)) hitems
    have hrest := ih (fun leaf hleaf => hindex leaf (List.mem_cons_of_mem _ hleaf))
      (fun leaf hleaf => hkey leaf (List.mem_cons_of_mem _ hleaf))
    rw [List.flatten_cons, List.append_assoc]
    have hboth := hfirst.orElse fun _ => hrest
    unfold selected at hboth ⊢
    rw [List.find?_cons]
    cases hequal : isEqualToKey frame heap leaf with
    | true =>
      rw [hequal] at hboth
      exact hboth
    | false =>
      rw [hequal] at hboth
      exact hboth

end

/-! ## Accepted modules -/

/-- The code for a hash and the region behind it. -/
theorem lowered_of_hash {scope : Scope} {position : Nat} {i : Source.Instruction}
    {carry carry' : Carry} {lowered : Lowered} (hop : i.op = .call (.intrinsic .stringHash))
    (h : (lower scope position i).run carry = .ok (lowered, carry')) :
    ∃ (region : Region) (tests : List (List Directive)), region.IsBehind scope.body position
      ∧ List.Forall₂ (fun leaf code => leafCode scope leaf = .ok code) region.leaves tests
      ∧ lowered = ⟨.op .drop :: tests.flatten ++ [.jump .jmpL region.defaultTarget], region.length⟩ := by
  obtain ⟨offset, op⟩ := i
  cases hop
  have hswitch := (run_liftM_eq_ok h).1
  unfold lowerStringSwitch at hswitch
  split at hswitch
  · cases hswitch
  · next region hregion =>
    obtain ⟨tests, htests, hpure⟩ := exceptBind_eq_ok hswitch
    cases hpure
    exact ⟨region, tests, isBehind_of_findRegion? hregion, exceptMapM_eq_ok htests, rfl⟩

theorem Image.At.selects {limits : Compile.Limits} {module : Module} {program : Program}
    {image : Image limits module program} {routine : Routine} {method : PlacedMethod}
    (hat : image.At routine method) : StringSwitchesSelect program method routine := by
  intro position i hi hop
  have hown : isCovered i.op = false := by
    rw [hop]
    rfl
  obtain ⟨before, segment, after, hsegments, rfl, rfl, carry, carry', hlower⟩ :=
    hat.exists_segment hi hown
  obtain ⟨region, tests, hregion, htests, hlowered⟩ := lowered_of_hash hop hlower
  refine ⟨before, segment, after, region, hsegments, rfl, rfl, hregion,
    congrArg Lowered.consumed hlowered, ?_⟩
  have hdirectives : segment.lowered.directives
      = [.op .drop] ++ (tests.flatten ++ [.jump .jmpL region.defaultTarget]) :=
    congrArg Lowered.directives hlowered
  -- the keys are in the script
  have hkey : ∀ leaf ∈ region.leaves, (Text.utf8 leaf.key).length < 256 ^ 4 := by
    intro leaf hleaf
    obtain ⟨code, hcode, hleafCode⟩ := exists_right_of_mem htests hleaf
    obtain ⟨slot, -, rfl⟩ := leafCode_eq hleafCode
    have hmem : .pushData (Text.utf8 leaf.key) ∈ segment.lowered.directives := by
      rw [hdirectives]
      exact List.mem_append_right _ (List.mem_append_left _
        (List.mem_flatten.mpr ⟨_, hcode, by simp⟩))
    have hsmall := Nat.le_trans (size_le_extent hmem) (hat.extent_lowered_le hsegments)
    exact Nat.lt_of_lt_of_le (Instruction.size_pushData _) (Nat.le_trans hsmall (by decide))
  intro s frame callers hash rest hfront hframes hslots hstack hitems
  have hmemory : s.memory = ⟨(Stack.ofList rest).push hash, s.memory.heap⟩ :=
    memory_eq hstack
  have hdrop :=
    (Carries.drop (.ofList rest) hash s.memory.heap (Nat.le_of_add_right_le hitems)).exits frame
  have hexits := hdrop.append (exits_chain region.defaultTarget htests hslots hkey hitems)
  rw [← hmemory, ← hdirectives] at hexits
  exact hat.exits hsegments hfront hframes (Nat.le_refl _) hexits nofun

/-- Every switch over strings in an accepted module selects among its leaves. -/
theorem stringSwitchesSelect_of_build {limits : Compile.Limits} {module : Module} {contract : Contract}
    (h : build limits module = .ok contract) :
    EveryMethod limits module contract.program (StringSwitchesSelect contract.program) :=
  everyMethod_of_build h fun _ => Image.At.selects

/-- Goes by a string: to 1 for one key, to 2 for another one, to 0 for any other string. -/
def sampleRoute : Source.Method where
  name := "T::route"
  displayName := "route"
  isPublic := true
  params := [⟨"s", .string⟩]
  returnType := .int32
  locals := [.string, .uint32]
  body := [⟨0, .load .arguments 0⟩, ⟨1, .store .locals 0⟩, ⟨2, .load .locals 0⟩,
    ⟨3, .call (.intrinsic .stringHash)⟩, ⟨4, .store .locals 1⟩, ⟨5, .load .locals 1⟩,
    ⟨6, .literal32 100⟩, ⟨7, .branch .greater 13⟩, ⟨8, .load .locals 0⟩, ⟨9, .loadString "a"⟩,
    ⟨10, .call (.intrinsic .stringEquals)⟩, ⟨11, .branch .ifTrue 18⟩, ⟨12, .branch .always 22⟩,
    ⟨13, .load .locals 0⟩, ⟨14, .loadString "b"⟩, ⟨15, .call (.intrinsic .stringEquals)⟩,
    ⟨16, .branch .ifTrue 20⟩, ⟨17, .branch .always 22⟩, ⟨18, .literal32 1⟩, ⟨19, .ret⟩,
    ⟨20, .literal32 2⟩, ⟨21, .ret⟩, ⟨22, .literal32 0⟩, ⟨23, .ret⟩]

def sampleRoutes : Module where
  types := [{ name := "T", methods := [sampleRoute] }]

theorem stringSwitchesSelect_sampleRoutes : ∃ contract, build {} sampleRoutes = .ok contract
    ∧ EveryMethod {} sampleRoutes contract.program (StringSwitchesSelect contract.program) := by
  have hbuilds : (build {} sampleRoutes).toOption.isSome = true := by decide +kernel
  obtain ⟨contract, h⟩ := exists_contract hbuilds
  exact ⟨contract, h, stringSwitchesSelect_of_build h⟩

end StackContract.Contract
