import StackContract.Proofs.BranchTargets
/-!
# Returns that are written

A return is written for a return of the source, and for nothing else (`op_of_isReturn`), unless machine
instructions are spliced in.
-/

namespace StackContract.Assembly

open Script

/-- Whether a directive writes a return. -/
def Directive.isReturn : Directive → Bool
  | .mark _ => false
  | .instruction i => i.opcode = .ret
  | .reference opcode _ => opcode = .ret

/-- Code that writes no return. -/
def Returnless (code : List Directive) : Prop :=
  ∀ d ∈ code, d.isReturn = false

namespace Directive

/-- A return works neither on the stack alone nor on a slot. -/
theorem isReturn_instruction {i : Instruction}
    (h : (Machine.simpleOp? i.opcode).isSome = true ∨ i.opcode.slotArea?.isSome = true) :
    (Directive.instruction i).isReturn = false := by
  refine decide_eq_false fun hret => ?_
  rw [hret] at h
  rcases h with h | h <;> cases h

@[simp]
theorem isReturn_op (opcode : Opcode) : (Directive.op opcode).isReturn = decide (opcode = .ret) :=
  rfl

@[simp]
theorem isReturn_reference (opcode : Opcode) (target : Target) :
    (Directive.reference opcode target).isReturn = decide (opcode = .ret) :=
  rfl

@[simp]
theorem isReturn_pushInteger (v : Number.Int128) : (Directive.pushInteger v).isReturn = false :=
  isReturn_instruction (.inl (by rw [Lowering.simpleOp?_pushInteger]; rfl))

@[simp]
theorem isReturn_pushNat (n : Nat) : (Directive.pushNat n).isReturn = false :=
  isReturn_pushInteger _

@[simp]
theorem isReturn_pushBoolean (b : Bool) : (Directive.pushBoolean b).isReturn = false := by
  cases b <;> rfl

@[simp]
theorem isReturn_pushData (data : List UInt8) : (Directive.pushData data).isReturn = false :=
  isReturn_instruction (.inl (by rw [Lowering.simpleOp?_pushData]; rfl))

theorem isReturn_access (access : Access) : (Directive.instruction access.instruction).isReturn = false :=
  isReturn_instruction (.inr (by rw [access.instruction_spec.2.2]; rfl))

@[simp]
theorem isReturn_load (area : SlotArea) (index : UInt8) : (Directive.load area index).isReturn = false :=
  isReturn_access _

@[simp]
theorem isReturn_store (area : SlotArea) (index : UInt8) : (Directive.store area index).isReturn = false :=
  isReturn_access _

@[simp]
theorem isReturn_service (name : String) : (Directive.service name).isReturn = false :=
  rfl

@[simp]
theorem isReturn_convert (kind : ItemKind) : (Directive.convert kind).isReturn = false :=
  rfl

end Directive

namespace Returnless

@[simp]
theorem nil : Returnless [] := nofun

@[simp]
theorem cons_iff {d : Directive} {rest : List Directive} :
    Returnless (d :: rest) ↔ d.isReturn = false ∧ Returnless rest :=
  List.forall_mem_cons

@[simp]
theorem append_iff {first second : List Directive} :
    Returnless (first ++ second) ↔ Returnless first ∧ Returnless second :=
  List.forall_mem_append

@[simp]
theorem reverse_iff {code : List Directive} : Returnless code.reverse ↔ Returnless code := by
  unfold Returnless
  simp only [List.mem_reverse]

theorem map {α : Type} {f : α → Directive} (h : ∀ x, (f x).isReturn = false) (xs : List α) :
    Returnless (xs.map f) := by
  intro d hd
  obtain ⟨x, -, rfl⟩ := List.mem_map.mp hd
  exact h x

theorem flatten {codes : List (List Directive)} (h : ∀ code ∈ codes, Returnless code) :
    Returnless codes.flatten := by
  intro d hd
  obtain ⟨code, hcode, hd⟩ := List.mem_flatten.mp hd
  exact h code hcode d hd

theorem flatMap {α : Type} {f : α → List Directive} (h : ∀ x, Returnless (f x)) (xs : List α) :
    Returnless (xs.flatMap f) := by
  refine flatten fun code hcode => ?_
  obtain ⟨x, -, rfl⟩ := List.mem_map.mp hcode
  exact h x

end Returnless

@[simp]
theorem returnless_reverse (n : Nat) : Returnless (Directive.reverse n) := by
  unfold Directive.reverse
  split <;> simp

end StackContract.Assembly

namespace StackContract.Lowering

open Assembly Compile Script
open Source (Op ValueType)

/-! ## Code for what is no return -/

@[simp]
theorem returnless_packArguments (n : Nat) : Returnless (packArguments n) := by
  unfold packArguments
  split <;> simp

theorem returnless_packLiteral {items : List Directive} (h : Returnless items) :
    Returnless (packLiteral items) := by
  unfold packLiteral
  split <;> simp [h]

@[simp]
theorem returnless_pushConstant (value : Constant) : Returnless (pushConstant value) := by
  cases value with
  | strings items => exact returnless_packLiteral (.map (fun _ => by simp) items)
  | _ => simp [pushConstant]

@[simp]
theorem isReturn_pushElement (element : ValueType) (v : Number.Int128) :
    (pushElement element v).isReturn = false := by
  unfold pushElement
  split <;> simp

@[simp]
theorem isReturn_pushDefault (type : ValueType) : (pushDefault type).isReturn = false := by
  unfold pushDefault
  split
  · simp
  · split <;> simp

@[simp]
theorem returnless_pushDefaults (fields : List ValueType) : Returnless (pushDefaults fields) := by
  unfold pushDefaults
  split
  · simp
  · simp [Returnless.map isReturn_pushDefault]

@[simp]
theorem returnless_magnitudes : Returnless magnitudes := by
  simp [magnitudes]

section

variable {scope : Scope} {position : Nat} {i : Source.Instruction} {carry carry' : Carry}
  {lowered : Lowered}

theorem returnless_arrayLiteral {offset : UInt32} {element : ValueType} {data : List UInt8}
    {code : List Directive} (h : arrayLiteral scope offset i element data = .ok code) :
    Returnless code := by
  unfold arrayLiteral at h
  split at h
  · cases h
    simp
  · split at h
    · cases h
    · dsimp only at h
      split at h <;> cases h
      rw [Returnless.cons_iff]
      exact ⟨rfl, returnless_packLiteral (.map (isReturn_pushElement _) _)⟩

theorem returnless_callMethod {name : String} {code : List Directive}
    (hop : i.op = .call (.method name)) (hsplices : ¬ scope.Splices i)
    (h : callMethod scope i name = .ok code) : Returnless code := by
  unfold callMethod at h
  split at h
  · cases h
  · next method hmethod =>
    split at h
    · next binding hbinding =>
      cases binding with
      | instructions spliced => exact absurd ⟨name, method, spliced, hop, hmethod, hbinding⟩ hsplices
      | service service =>
        cases h
        simp
      | contract hash method =>
        unfold callBinding at h
        dsimp only at h
        split at h <;> cases h
        simp
    · split at h <;> cases h
      simp [Directive.call]

theorem returnless_notify {code : List Directive}
    (h : (notify scope i).run carry = .ok (code, carry')) : Returnless code := by
  obtain ⟨addressOf, event⟩ := carry
  cases event <;> cases h
  simp

theorem returnless_lowerSwitch (targets : List UInt32) : Returnless (lowerSwitch targets) := by
  unfold lowerSwitch
  have hcase : ∀ entry : UInt32 × Nat, Returnless (switchCase entry.2 entry.1) := by
    intro entry
    have hskip : (Directive.instruction ⟨.jmpIfNotL, Number.bytesOfNat 4 caseSize⟩).isReturn = false := rfl
    simp [switchCase, Directive.jump, hskip]
  simp [Returnless.flatMap hcase]

theorem returnless_lowerBranch (condition : Source.Condition) (target : UInt32) :
    Returnless (lowerBranch condition target) := by
  cases condition <;> simp [lowerBranch, branchCode, Directive.jump]

theorem returnless_lowerComparison (comparison : Source.Comparison) :
    Returnless (lowerComparison scope position comparison).directives := by
  have hopcodes : ∀ afterNull, (comparisonOpcode afterNull comparison).1 ≠ .ret
      ∧ (comparisonOpcode afterNull comparison).2 ≠ .ret := by
    intro afterNull
    cases afterNull <;> cases comparison <;> decide
  unfold lowerComparison
  dsimp only
  split <;> split <;> simp [hopcodes]

theorem returnless_lowerStringSwitch (h : lowerStringSwitch scope position i = .ok lowered) :
    Returnless lowered.directives := by
  unfold lowerStringSwitch at h
  split at h
  · cases h
  · obtain ⟨tests, htests, hpure⟩ := exceptBind_eq_ok h
    cases hpure
    have htest : ∀ code ∈ tests, Returnless code := by
      intro code hcode
      obtain ⟨leaf, -, hleaf⟩ := exists_left_of_mem (exceptMapM_eq_ok htests) hcode
      obtain ⟨load, hload, hpure⟩ := exceptBind_eq_ok hleaf
      cases hpure
      obtain ⟨slot, -, rfl⟩ := exceptMap_eq_ok hload
      simp [Directive.jump]
    simp [Returnless.flatten htest, Directive.jump]

theorem returnless_lowerLoadStatic {field : Source.FieldRef}
    (h : (lowerLoadStatic scope field).run carry = .ok (lowered, carry')) :
    Returnless lowered.directives := by
  unfold lowerLoadStatic at h
  split at h
  · cases h
    exact .nil
  · split at h
    · cases h
      exact returnless_pushConstant _
    · split at h <;> cases h
      simp [Lowered.code]

theorem returnless_lowerStoreStatic {field : Source.FieldRef}
    (h : lowerStoreStatic scope field = .ok lowered) : Returnless lowered.directives := by
  unfold lowerStoreStatic at h
  dsimp only at h
  split at h
  · cases h
    simp [Lowered.code]
  · split at h <;> cases h

theorem returnless_lowerNewArray {offset : UInt32} {element : ValueType}
    (h : lowerNewArray scope position offset element = .ok lowered) :
    Returnless lowered.directives := by
  unfold lowerNewArray at h
  split at h
  · obtain ⟨code, hcode, hpure⟩ := exceptBind_eq_ok h
    cases hpure
    exact returnless_arrayLiteral hcode
  · cases h
    unfold newArray
    split
    · simp [Lowered.code]
    · exact Returnless.cons_iff.mpr ⟨rfl, .nil⟩

theorem returnless_lowerNewObject {fields : List ValueType} {ctorArgs : UInt16}
    (h : lowerNewObject scope i fields ctorArgs = .ok lowered) : Returnless lowered.directives := by
  unfold lowerNewObject at h
  dsimp only at h
  split at h
  · cases h
  · split at h <;> cases h
    · exact returnless_pushDefaults fields
    · have hrest : ∀ type : ValueType, Returnless [.op .dup, pushDefault type, .op .append] := by simp
      simp [Lowered.code, Returnless.flatMap hrest]

theorem returnless_lowerInitObject {fields : List ValueType}
    (h : (lowerInitObject scope i fields).run carry = .ok (lowered, carry')) :
    Returnless lowered.directives := by
  obtain ⟨addressOf, event⟩ := carry
  cases addressOf <;> cases h
  simp [Lowered.code]

theorem returnless_lowerCall {callee : Source.Callee} (hop : i.op = .call callee)
    (hsplices : ¬ scope.Splices i)
    (h : (lowerCall scope position i callee).run carry = .ok (lowered, carry')) :
    Returnless lowered.directives := by
  cases callee with
  | method name =>
    obtain ⟨code, _, hcall, hrest⟩ := run_bind_eq_ok h
    cases hrest
    exact returnless_callMethod hop hsplices (run_liftM_eq_ok hcall).1
  | intrinsic intrinsic =>
    cases intrinsic with
    | stringHash => exact returnless_lowerStringSwitch (run_liftM_eq_ok h).1
    | stringConcat | stringEquals | stringLength =>
      cases h
      simp [Lowered.code]
  | event =>
    obtain ⟨code, _, hnotify, hrest⟩ := run_bind_eq_ok h
    cases hrest
    exact returnless_notify hnotify
  | delegate args =>
    cases h
    simp [Lowered.code]

theorem returnless_lowerFunction {name : String}
    (h : lowerFunction scope position i name = .ok lowered) : Returnless lowered.directives := by
  unfold lowerFunction at h
  split at h
  · split at h <;> cases h
    simp [Directive.pushAddress]
  · cases h

/-- What is written for an instruction that is no return has none in it. -/
theorem returnless_of_lower (hsplices : ¬ scope.Splices i) (hop : i.op ≠ .ret)
    (h : (lower scope position i).run carry = .ok (lowered, carry')) :
    Returnless lowered.directives := by
  obtain ⟨offset, op⟩ := i
  cases op
  case ret => exact absurd rfl hop
  case nop | convert | isInstance | castClass | pop | dup | throw | loadNull | length | loadElement
      | storeElement | loadString | loadField | storeField =>
    cases h
    simp [Lowered.code]
  case arithmetic operation =>
    cases h
    cases operation <;> simp [Lowered.code, arithmeticOpcode]
  case literal32 | literal64 =>
    cases h
    unfold lowerLiteral
    split <;> simp [Lowered.code]
  case load place index =>
    obtain ⟨d, _, hload, hrest⟩ := run_bind_eq_ok h
    cases hrest
    obtain ⟨slot, -, rfl⟩ := exceptMap_eq_ok (run_liftM_eq_ok hload).1
    simp [Lowered.code]
  case store | address =>
    obtain ⟨_, _, -, hrest⟩ := run_bind_eq_ok h
    cases hrest
    simp [Lowered.code]
  case loadStatic => exact returnless_lowerLoadStatic h
  case storeStatic => exact returnless_lowerStoreStatic (run_liftM_eq_ok h).1
  case newArray => exact returnless_lowerNewArray (run_liftM_eq_ok h).1
  case newObject => exact returnless_lowerNewObject (run_liftM_eq_ok h).1
  case initObject => exact returnless_lowerInitObject h
  case branch condition target =>
    cases h
    exact returnless_lowerBranch condition target
  case switch targets =>
    cases h
    exact returnless_lowerSwitch targets
  case compare comparison =>
    cases h
    exact returnless_lowerComparison comparison
  case call => exact returnless_lowerCall rfl hsplices h
  case loadFunction => exact returnless_lowerFunction (run_liftM_eq_ok h).1
  case box | unbox | unboxAny =>
    unfold lower at h
    dsimp only at h
    split at h <;> cases h
    exact .nil
  case initArray | newDelegate | pointerOp => cases h

/-- A return is written for a return. -/
theorem op_of_isReturn (hsplices : ¬ scope.Splices i)
    (h : (lower scope position i).run carry = .ok (lowered, carry')) {d : Directive}
    (hd : d ∈ lowered.directives) (hreturn : d.isReturn = true) : i.op = .ret := by
  by_contra hop
  rw [returnless_of_lower hsplices hop h d hd] at hreturn
  cases hreturn

end

end StackContract.Lowering
