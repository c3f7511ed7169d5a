import StackContract.Lowering.Body
import StackContract.Machine.Operation
import StackContract.Proofs.Computations
import StackContract.Proofs.Encoding
import StackContract.Proofs.Layout
/-!
# What lowering emits

Every directive that `lower` writes is of one of the forms of `Emitted`, except for the instructions of
a binding. Slots are among those that the method and the module declare, and every jump over a switch
case has the case behind it (`Code`).

`lower_code` is the classification, `lower_encodable` what holds of all directives alike: they encode
to instructions that can be read back.
-/

namespace StackContract.Lowering

open Assembly Compile Script Number
open Source (Op Place ValueType FieldRef)

/-! ## Forms of directives -/

/-- Opcodes without operand that work on the stack and the heap, return, throw or call a pointer. -/
def isPlain (op : Opcode) : Bool :=
  op.operand = .none &&
    match Machine.operation op with
    | .simple _ | .ret | .raise | .callPointer => true
    | _ => false

/-- The jumps to source offsets. -/
def jumpOpcodes : List Opcode := [.jmpL, .jmpIfL, .jmpIfNotL]

/-- The jump over the rest of a switch case. -/
def skipCase : Instruction := ⟨.jmpIfNotL, bytesOfNat 4 caseSize⟩

/-- The forms of the directives of a method, but for those that access a static field. -/
inductive Common (scope : Scope) : Directive → Prop
  | mark (source : UInt32) : Common scope (.mark source)
  | plain {op : Opcode} (h : isPlain op = true) : Common scope (.op op)
  | pushInteger (v : Int128) : Common scope (.pushInteger v)
  | pushBoolean (b : Bool) : Common scope (.pushBoolean b)
  | pushData (data : List UInt8) : Common scope (.pushData data)
  | slot (place : Place) (isLoad : Bool) {index : UInt8}
    (h : index.toNat < (scope.declared place).toNat) :
    Common scope (.instruction (Access.mk (areaOf place) isLoad index).instruction)
  | service (name : String) : Common scope (.service name)
  | convert (kind : ItemKind) : Common scope (.convert kind)
  | newArray (kind : ItemKind) : Common scope (.instruction ⟨.newArrayT, [kind.byte]⟩)
  | jump {op : Opcode} (h : op ∈ jumpOpcodes) (target : UInt32) : Common scope (.jump op target)
  | call {name : String} (h : name ∈ scope.catalogue.compiled) : Common scope (.call name)
  | pushAddress {name : String} (h : name ∈ scope.catalogue.compiled) :
    Common scope (.pushAddress name)

/-- The forms of the directives of a method. -/
inductive Emitted (scope : Scope) : Directive → Prop
  | common {d : Directive} (h : Common scope d) : Emitted scope d
  | static (isLoad : Bool) {slot : UInt8} (h : slot.toNat < scope.catalogue.statics.slots.size) :
    Emitted scope (.instruction (Access.mk .static isLoad slot).instruction)

/-- Code of directives of these forms. A jump over a switch case has the rest of the case and an
instruction behind it. -/
inductive Code (scope : Scope) : List Directive → Prop
  | nil : Code scope []
  | cons {d : Directive} {rest : List Directive} (h : Emitted scope d) (hrest : Code scope rest) :
    Code scope (d :: rest)
  | skip {target : UInt32} {op : Opcode} {rest : List Directive}
    (hrest : Code scope (.op .drop :: .jump .jmpL target :: .op op :: rest)) :
    Code scope (.instruction skipCase :: .op .drop :: .jump .jmpL target :: .op op :: rest)

section

variable {scope : Scope}

theorem Emitted.plain {op : Opcode} (h : isPlain op = true) : Emitted scope (.op op) :=
  .common (.plain h)

theorem Emitted.pushInteger (v : Int128) : Emitted scope (.pushInteger v) :=
  .common (.pushInteger v)

theorem Emitted.pushBoolean (b : Bool) : Emitted scope (.pushBoolean b) :=
  .common (.pushBoolean b)

theorem Emitted.pushData (data : List UInt8) : Emitted scope (.pushData data) :=
  .common (.pushData data)

theorem Emitted.convert (kind : ItemKind) : Emitted scope (.convert kind) :=
  .common (.convert kind)

theorem Emitted.jump {op : Opcode} (h : op ∈ jumpOpcodes) (target : UInt32) :
    Emitted scope (.jump op target) :=
  .common (.jump h target)

theorem Emitted.service (name : String) : Emitted scope (.service name) :=
  .common (.service name)

end

theorem Code.tail {scope : Scope} {d : Directive} {rest : List Directive}
    (h : Code scope (d :: rest)) : Code scope rest := by
  cases h with
  | cons _ hrest => exact hrest
  | skip hrest => exact hrest

theorem Code.drop {scope : Scope} {first rest : List Directive} (h : Code scope (first ++ rest)) :
    Code scope rest := by
  induction first with
  | nil => exact h
  | cons d first ih => exact ih h.tail

theorem Code.append {scope : Scope} {first second : List Directive} (hfirst : Code scope first)
    (hsecond : Code scope second) : Code scope (first ++ second) := by
  induction hfirst with
  | nil => exact hsecond
  | cons h _ ih => exact .cons h ih
  | skip _ ih => exact .skip ih

theorem Code.of_forall {scope : Scope} {code : List Directive} (h : ∀ d ∈ code, Emitted scope d) :
    Code scope code := by
  induction code with
  | nil => exact .nil
  | cons d rest ih =>
    exact .cons (h d (List.mem_cons_self ..)) (ih fun d hd => h d (List.mem_cons_of_mem _ hd))

theorem Code.flatten {scope : Scope} {codes : List (List Directive)}
    (h : ∀ code ∈ codes, Code scope code) : Code scope codes.flatten := by
  induction codes with
  | nil => exact .nil
  | cons code codes ih =>
    exact (h code (List.mem_cons_self ..)).append (ih fun code hc => h code (List.mem_cons_of_mem _ hc))

theorem Code.singleton {scope : Scope} {d : Directive} (h : Emitted scope d) : Code scope [d] :=
  .cons h .nil

/-! ## Operations of the forms -/

theorem simpleOp?_pushInteger (v : Int128) :
    Machine.simpleOp? (Instruction.pushInteger v).opcode = some .pushInteger := by
  rcases Instruction.opcode_pushInteger v with ⟨n, hsmall⟩ | hmem
  · unfold Opcode.ofSmall? at hsmall
    split at hsmall
    · rw [← Option.some.inj hsmall]
      rfl
    · split at hsmall
      · next hrange =>
        -- the opcodes from 0 to 16 stand behind each other
        have hall : ∀ n : Fin 17, ∀ op, Opcode.ofByte? (Opcode.push0.byte + UInt8.ofNat n.val) = some op →
            Machine.simpleOp? op = some .pushInteger := by
          simp only [Opcode.ofByte?_eq_find?]
          decide +kernel
        exact hall ⟨n.toNat, by omega⟩ _ hsmall
      · cases hsmall
  · simp only [List.mem_cons, List.not_mem_nil, or_false] at hmem
    rcases hmem with h | h | h | h | h <;> rw [h] <;> rfl

theorem simpleOp?_pushData (data : List UInt8) :
    Machine.simpleOp? (Instruction.pushData data).opcode = some .pushData := by
  have hmem := Instruction.opcode_pushData data
  simp only [List.mem_cons, List.not_mem_nil, or_false] at hmem
  rcases hmem with h | h | h <;> rw [h] <;> rfl

/-- A relative opcode neither works on the stack alone nor accesses a slot. -/
theorem isRelative_eq_false {op : Opcode}
    (h : (Machine.simpleOp? op).isSome = true ∨ op.slotArea?.isSome = true) : op.isRelative = false := by
  cases op <;> first | rfl | (rcases h with h | h <;> cases h)

/-- The jump over a switch case leads eleven bytes on. -/
theorem target?_skipCase (address : Nat) :
    Located.target? ⟨skipCase, address⟩ = some (address + caseSize) := by
  have hskip : skipCase = ⟨.jmpIfNotL, Number.bytesOfInt 4 11⟩ := by decide
  rw [hskip]
  exact Instruction.target?_relative rfl (by decide) (by decide) rfl

/-! ## Instructions that can be read back -/

theorem Common.encodable {scope : Scope} {d : Directive} (h : Common scope d)
    (hsize : d.size ≤ 256 ^ 4) : d.Encodable := by
  cases h with
  | mark source => trivial
  | plain h =>
    unfold isPlain at h
    rw [Bool.and_eq_true, decide_eq_true_eq] at h
    exact Instruction.fits_plain h.1
  | pushInteger v => exact Instruction.fits_pushInteger v
  | pushBoolean b => cases b <;> exact Instruction.fits_plain rfl
  | pushData data =>
    have := Instruction.size_pushData data
    exact Instruction.fits_pushData (Nat.lt_of_lt_of_le this hsize)
  | slot place isLoad _ => exact (Access.instruction_spec _).1
  | service name => exact Instruction.fits_fixed (congrArg Operand.fixed (length_serviceIdBytes name).symm)
  | convert kind => exact Instruction.fits_fixed rfl
  | newArray kind => exact Instruction.fits_fixed rfl
  | jump h target =>
    simp only [jumpOpcodes, List.mem_cons, List.not_mem_nil, or_false] at h
    rcases h with rfl | rfl | rfl <;> exact ⟨rfl, rfl⟩
  | call _ => exact ⟨rfl, rfl⟩
  | pushAddress _ => exact ⟨rfl, rfl⟩

theorem Emitted.encodable {scope : Scope} {d : Directive} (h : Emitted scope d)
    (hsize : d.size ≤ 256 ^ 4) : d.Encodable := by
  cases h with
  | common h => exact h.encodable hsize
  | static isLoad _ => exact (Access.instruction_spec _).1

theorem Code.encodable {scope : Scope} {code : List Directive} (h : Code scope code)
    (hsize : ∀ d ∈ code, d.size ≤ 256 ^ 4) : ∀ d ∈ code, d.Encodable := by
  induction h with
  | nil => exact nofun
  | cons h _ ih =>
    intro d hd
    rcases List.mem_cons.mp hd with rfl | hd
    · exact h.encodable (hsize _ (List.mem_cons_self ..))
    · exact ih (fun d hd => hsize d (List.mem_cons_of_mem _ hd)) d hd
  | skip _ ih =>
    intro d hd
    rcases List.mem_cons.mp hd with rfl | hd
    · exact Instruction.fits_fixed rfl
    · exact ih (fun d hd => hsize d (List.mem_cons_of_mem _ hd)) d hd

/-! ## Building blocks -/

section

variable {scope : Scope}

theorem code_reverse (n : Nat) : Code scope (Directive.reverse n) := by
  unfold Directive.reverse
  split
  · exact .nil
  · exact .nil
  · exact .singleton (.plain rfl)
  · exact .singleton (.plain rfl)
  · exact .singleton (.plain rfl)
  · exact .cons (.pushInteger _) (.singleton (.plain rfl))

theorem code_packArguments (n : Nat) : Code scope (packArguments n) := by
  unfold packArguments
  split
  · exact .singleton (.plain rfl)
  · exact (code_reverse n).append (.cons (.pushInteger _) (.singleton (.plain rfl)))

theorem code_packLiteral {items : List Directive} (h : ∀ d ∈ items, Emitted scope d) :
    Code scope (packLiteral items) := by
  unfold packLiteral
  split
  · exact .singleton (.plain rfl)
  · refine Code.append (.of_forall ?_) (.cons (.pushInteger _) (.singleton (.plain rfl)))
    exact fun d hd => h d (List.mem_reverse.mp hd)

theorem code_pushConstant (value : Constant) : Code scope (pushConstant value) := by
  cases value with
  | integer v => exact .singleton (.pushInteger v)
  | boolean b => exact .singleton (.pushBoolean b)
  | string s => exact .singleton (.pushData _)
  | bytes data => exact .cons (.pushData data) (.singleton (.convert .buffer))
  | strings items =>
    refine code_packLiteral ?_
    intro d hd
    obtain ⟨s, -, rfl⟩ := List.mem_map.mp hd
    exact .pushData _

theorem emitted_pushElement (element : ValueType) (v : Int128) :
    Emitted scope (pushElement element v) := by
  unfold pushElement
  split
  · exact .pushBoolean _
  · exact .pushInteger _

theorem emitted_pushDefault (type : ValueType) : Emitted scope (pushDefault type) := by
  unfold pushDefault
  split
  · exact .pushBoolean _
  · split
    · exact .pushInteger _
    · exact .plain rfl

theorem code_pushDefaults (fields : List ValueType) : Code scope (pushDefaults fields) := by
  unfold pushDefaults
  split
  · exact .singleton (.plain rfl)
  · refine Code.append (.of_forall ?_) (.cons (.pushInteger _) (.singleton (.plain rfl)))
    intro d hd
    obtain ⟨type, -, rfl⟩ := List.mem_map.mp (List.mem_reverse.mp hd)
    exact emitted_pushDefault type

theorem code_magnitudes : Code scope magnitudes := by
  refine .of_forall ?_
  intro d hd
  simp only [magnitudes, List.mem_cons, List.not_mem_nil, or_false] at hd
  rcases hd with rfl | rfl | rfl | rfl <;> exact .plain rfl

theorem code_newArray (element : ValueType) : Code scope [newArray element] := by
  unfold newArray
  split
  · exact .singleton (.plain rfl)
  · exact .singleton (.common (.newArray _))

/-! ## Branches -/

theorem code_lowerBranch (condition : Source.Condition) (target : UInt32) :
    Code scope (lowerBranch condition target) := by
  have hjump : ∀ {op : Opcode}, op ∈ jumpOpcodes → Code scope [.jump op target] :=
    fun h => .singleton (.jump h target)
  have htest : ∀ {op : Opcode}, isPlain op = true → Code scope [.op op, .jump .jmpIfL target] :=
    fun h => .cons (.plain h) (hjump (by decide))
  have hmagnitudes : ∀ {op : Opcode}, isPlain op = true →
      Code scope (magnitudes ++ [.op op, .jump .jmpIfL target]) :=
    fun h => code_magnitudes.append (htest h)
  cases condition
  case always | leave | ifTrue | ifFalse => exact hjump (by decide)
  case equal | notEqual | less | lessEqual | greater | greaterEqual => exact htest rfl
  case lessUnsigned | lessEqualUnsigned | greaterUnsigned | greaterEqualUnsigned =>
    exact hmagnitudes rfl

/-- A switch consists of its cases and the removal of the tag, and each case has an instruction behind
it. -/
theorem code_cases (cases : List (UInt32 × Nat)) :
    Code scope ((cases.flatMap fun (target, index) => switchCase index target) ++ [.op .drop])
      ∧ ∃ op rest, (cases.flatMap fun (target, index) => switchCase index target) ++ [.op .drop]
        = .op op :: rest := by
  induction cases with
  | nil => exact ⟨.singleton (.plain rfl), .drop, [], rfl⟩
  | cons head cases ih =>
    obtain ⟨target, index⟩ := head
    obtain ⟨hcode, op, rest, hrest⟩ := ih
    rw [List.flatMap_cons, List.append_assoc]
    refine ⟨?_, .dup, _, rfl⟩
    rw [hrest] at hcode ⊢
    refine .cons (.plain rfl) (.cons (.pushInteger _) (.cons (.plain rfl) (.skip ?_)))
    exact .cons (.plain rfl) (.cons (.jump (by decide) target) hcode)

theorem code_lowerSwitch (targets : List UInt32) : Code scope (lowerSwitch targets) :=
  (code_cases targets.zipIdx).1

/-! ## Comparisons and literals -/

theorem isPlain_comparisonOpcode (afterNull : Bool) (comparison : Source.Comparison) :
    isPlain (comparisonOpcode afterNull comparison).1 = true
      ∧ isPlain (comparisonOpcode afterNull comparison).2 = true := by
  cases afterNull <;> cases comparison <;> exact ⟨rfl, rfl⟩

theorem code_lowerComparison (position : Nat) (comparison : Source.Comparison) :
    Code scope (lowerComparison scope position comparison).directives := by
  obtain ⟨hplain, hnegated⟩ := isPlain_comparisonOpcode (isAfterNull scope position) comparison
  have hoperands : Code scope
      (if comparesMagnitudes (isAfterNull scope position) comparison then magnitudes else []) := by
    split
    · exact code_magnitudes
    · exact .nil
  unfold lowerComparison
  simp only
  split
  · exact hoperands.append (.singleton (.plain hnegated))
  · exact hoperands.append (.singleton (.plain hplain))

theorem code_lowerLiteral (position : Nat) (v : Int128) (bits : Nat) :
    Code scope (lowerLiteral scope position v bits).directives := by
  unfold lowerLiteral
  split <;> exact .singleton (.pushInteger _)

theorem isPlain_arithmeticOpcode (operation : Source.Arithmetic) :
    isPlain (arithmeticOpcode operation) = true := by
  cases operation <;> rfl

/-! ## Slots -/

/-- The slots of static fields are numbered below their count. -/
def Catalogue.SlotsBounded (catalogue : Catalogue) : Prop :=
  ∀ key slot, catalogue.statics.slots.find? key = some slot →
    slot.toNat < catalogue.statics.slots.size

/-- The slot whose address was taken is declared. -/
def Carry.Bounded (scope : Scope) (carry : Carry) : Prop :=
  ∀ place slot, carry.addressOf = some (place, slot) → slot.toNat < (scope.declared place).toNat

theorem emitted_slot {place : Place} {slot : UInt8} (isLoad : Bool)
    (h : slot.toNat < (scope.declared place).toNat) :
    Emitted scope (.instruction (Access.mk (areaOf place) isLoad slot).instruction) :=
  .common (.slot place isLoad h)

theorem slot_bounded {offset : UInt32} {place : Place} {index : UInt16} {slot : UInt8}
    (h : scope.slot offset place index = .ok slot) :
    slot.toNat = index.toNat ∧ slot.toNat < (scope.declared place).toNat := by
  unfold Scope.slot at h
  split at h
  · next hindex =>
    cases h
    have hbound := (scope.declared place).toNat_lt
    have hslot : index.toUInt8.toNat = index.toNat := by
      rw [UInt16.toNat_toUInt8]
      exact Nat.mod_eq_of_lt (by omega)
    rw [hslot]
    exact ⟨rfl, hindex⟩
  · cases h

theorem emitted_load {offset : UInt32} {place : Place} {index : UInt16} {d : Directive}
    (h : scope.load offset place index = .ok d) : Emitted scope d := by
  obtain ⟨slot, hslot, rfl⟩ := exceptMap_eq_ok h
  exact emitted_slot true (slot_bounded hslot).2

end

/-! ## Calls -/

/-- Whether the lowering of an instruction takes its code from a binding to machine instructions. -/
def Scope.Splices (scope : Scope) (i : Source.Instruction) : Prop :=
  ∃ name method code, i.op = .call (.method name) ∧ scope.catalogue.methods.find? name = some method
    ∧ method.binding = some (.instructions code)

section

variable {scope : Scope}

theorem code_callMethod {i : Source.Instruction} {name : String} {directives : List Directive}
    (hop : i.op = .call (.method name)) (h : callMethod scope i name = .ok directives)
    (hsplices : ¬ scope.Splices i) : Code scope directives := by
  unfold callMethod at h
  split at h
  · cases h
  · next method hmethod =>
    split at h
    · next binding hbinding =>
      cases binding with
      | service service =>
        cases h
        exact (code_reverse _).append (.singleton (.service service))
      | instructions code => exact absurd ⟨name, method, code, hop, hmethod, hbinding⟩ hsplices
      | contract hash method =>
        cases hhash : Hash.parse hash with
        | error e =>
          simp only [callBinding, hhash] at h
          cases h
        | ok parsed =>
          simp only [callBinding, hhash] at h
          cases h
          refine (code_packArguments _).append (.cons (.pushInteger _) (.cons (.pushData _) ?_))
          exact .cons (.pushData _) (.singleton (.service _))
    · split at h
      · next hcompiled =>
        cases h
        have hcall := Common.call (List.contains_iff_mem.mp hcompiled)
        exact (code_reverse _).append (.singleton (.common hcall))
      · cases h

/-- The instructions of a binding are those that can be read back. -/
theorem fits_of_rawInstruction {i : Source.Instruction} {name : String}
    {raw : Source.RawInstruction} {d : Directive} (h : rawInstruction scope i name raw = .ok d) :
    ∃ instruction, d = .instruction instruction ∧ instruction.fits = true := by
  unfold rawInstruction at h
  split at h
  · cases h
  · split at h
    · next hfits =>
      cases h
      exact ⟨_, rfl, hfits⟩
    · cases h

theorem fits_of_splices {i : Source.Instruction} {name : String} {directives : List Directive}
    (hop : i.op = .call (.method name)) (h : callMethod scope i name = .ok directives)
    (hsplices : scope.Splices i) :
    ∀ d ∈ directives, ∃ instruction, d = .instruction instruction ∧ instruction.fits = true := by
  obtain ⟨other, method, code, hother, hmethod, hbinding⟩ := hsplices
  rw [hop] at hother
  cases hother
  unfold callMethod at h
  simp only [hmethod, hbinding] at h
  have hcode : code.mapM (rawInstruction scope i name) = .ok directives := h
  intro d hd
  obtain ⟨raw, -, hraw⟩ := exists_left_of_mem (exceptMapM_eq_ok hcode) hd
  exact fits_of_rawInstruction hraw

/-! ## Single instructions -/

theorem code_arrayLiteral {offset : UInt32} {initializer : Source.Instruction} {element : ValueType}
    {data : List UInt8} {directives : List Directive}
    (h : arrayLiteral scope offset initializer element data = .ok directives) :
    Code scope directives := by
  unfold arrayLiteral at h
  split at h
  · cases h
    exact .cons (.plain rfl) (.cons (.pushData data) (.singleton (.convert .buffer)))
  · split at h
    · cases h
    · split at h
      · cases h
      · cases h
        refine .cons (.plain rfl) (code_packLiteral ?_)
        intro d hd
        obtain ⟨v, -, rfl⟩ := List.mem_map.mp hd
        exact emitted_pushElement _ v

theorem code_lowerNewArray {position : Nat} {offset : UInt32} {element : ValueType}
    {lowered : Lowered} (h : lowerNewArray scope position offset element = .ok lowered) :
    Code scope lowered.directives := by
  unfold lowerNewArray at h
  split at h
  · next data initializer _ _ _ =>
    obtain ⟨directives, hliteral, hpure⟩ := exceptBind_eq_ok h
    cases hpure
    exact code_arrayLiteral hliteral
  · cases h
    exact code_newArray element

theorem code_lowerNewObject {i : Source.Instruction} {fields : List ValueType} {ctorArgs : UInt16}
    {lowered : Lowered} (h : lowerNewObject scope i fields ctorArgs = .ok lowered) :
    Code scope lowered.directives := by
  unfold lowerNewObject at h
  simp only at h
  split at h
  · cases h
  · split at h
    · cases h
      exact code_pushDefaults fields
    · cases h
      refine Code.append ((code_reverse _).append (.cons (.pushInteger _) (.singleton (.plain rfl))))
        (.of_forall ?_)
      intro d hd
      obtain ⟨type, -, hd⟩ := List.mem_flatMap.mp hd
      simp only [List.mem_cons, List.not_mem_nil, or_false] at hd
      rcases hd with rfl | rfl | rfl
      · exact .plain rfl
      · exact emitted_pushDefault type
      · exact .plain rfl

theorem code_leafCode {leaf : Leaf} {directives : List Directive}
    (h : leafCode scope leaf = .ok directives) : Code scope directives := by
  obtain ⟨load, hload, hpure⟩ := exceptBind_eq_ok h
  cases hpure
  exact .cons (emitted_load hload) (.cons (.pushData _)
    (.cons (.plain rfl) (.singleton (.jump (by decide) leaf.target))))

theorem code_lowerStringSwitch {position : Nat} {i : Source.Instruction} {lowered : Lowered}
    (h : lowerStringSwitch scope position i = .ok lowered) : Code scope lowered.directives := by
  unfold lowerStringSwitch at h
  split at h
  · cases h
  · next region _ =>
    obtain ⟨tests, htests, hpure⟩ := exceptBind_eq_ok h
    cases hpure
    have hcode : Code scope tests.flatten := by
      refine .flatten fun code hcode => ?_
      obtain ⟨leaf, -, hleaf⟩ := exists_left_of_mem (exceptMapM_eq_ok htests) hcode
      exact code_leafCode hleaf
    exact .cons (.plain rfl) (hcode.append (.singleton (.jump (by decide) region.defaultTarget)))

/-! ## Lowering -/

/-- A result that is taken over leaves what a lowering carries. -/
theorem run_liftM_eq_ok {α : Type} {x : Except Error α} {carry carry' : Carry} {a : α}
    (h : (liftM x : Lower α).run carry = .ok (a, carry')) : x = .ok a ∧ carry' = carry := by
  cases x with
  | error e => cases h
  | ok b =>
    cases h
    exact ⟨rfl, rfl⟩

theorem run_bind_eq_ok {α β : Type} {x : Lower α} {f : α → Lower β} {carry carry' : Carry} {b : β}
    (h : (x >>= f).run carry = .ok (b, carry')) :
    ∃ a next, x.run carry = .ok (a, next) ∧ (f a).run next = .ok (b, carry') := by
  rw [StateT.run_bind] at h
  obtain ⟨⟨a, next⟩, hx, hrest⟩ := exceptBind_eq_ok h
  exact ⟨a, next, hx, hrest⟩

theorem code_lowerLoadStatic {field : FieldRef} {carry carry' : Carry} {lowered : Lowered}
    (hslots : scope.catalogue.SlotsBounded)
    (h : (lowerLoadStatic scope field).run carry = .ok (lowered, carry')) :
    Code scope lowered.directives ∧ carry'.addressOf = carry.addressOf := by
  unfold lowerLoadStatic at h
  cases hevent : scope.catalogue.events.find? field.key with
  | some event =>
    simp only [hevent] at h
    cases h
    exact ⟨.nil, rfl⟩
  | none =>
    cases hfolded : scope.catalogue.statics.folded.find? field.key with
    | some value =>
      simp only [hevent, hfolded] at h
      cases h
      exact ⟨code_pushConstant value, rfl⟩
    | none =>
      cases hslot : scope.catalogue.statics.slots.find? field.key with
      | some slot =>
        simp only [hevent, hfolded, hslot] at h
        cases h
        exact ⟨.singleton (.static true (hslots _ _ hslot)), rfl⟩
      | none =>
        simp only [hevent, hfolded, hslot] at h
        cases h

theorem code_lowerStoreStatic {field : FieldRef} {lowered : Lowered}
    (hslots : scope.catalogue.SlotsBounded) (h : lowerStoreStatic scope field = .ok lowered) :
    Code scope lowered.directives := by
  unfold lowerStoreStatic at h
  simp only at h
  split at h
  · next slot hslot =>
    cases h
    exact .singleton (.static false (hslots _ _ hslot))
  · split at h <;> cases h

theorem code_lowerInitObject {i : Source.Instruction} {fields : List ValueType}
    {carry carry' : Carry} {lowered : Lowered} (hcarry : carry.Bounded scope)
    (h : (lowerInitObject scope i fields).run carry = .ok (lowered, carry')) :
    Code scope lowered.directives ∧ carry'.Bounded scope := by
  obtain ⟨addressOf, event⟩ := carry
  cases addressOf with
  | none => cases h
  | some taken =>
    obtain ⟨place, slot⟩ := taken
    cases h
    refine ⟨.cons (.plain rfl) ((code_pushDefaults fields).append (.singleton ?_)), nofun⟩
    exact emitted_slot false (hcarry place slot rfl)

theorem code_notify {i : Source.Instruction} {carry carry' : Carry} {directives : List Directive}
    (h : (notify scope i).run carry = .ok (directives, carry')) :
    Code scope directives ∧ carry'.addressOf = carry.addressOf := by
  obtain ⟨addressOf, event⟩ := carry
  cases event with
  | none => cases h
  | some event =>
    cases h
    exact ⟨(code_packArguments _).append (.cons (.pushData _) (.singleton (.service _))), rfl⟩

theorem code_lowerFunction {position : Nat} {i : Source.Instruction} {name : String}
    {lowered : Lowered} (h : lowerFunction scope position i name = .ok lowered) :
    Code scope lowered.directives := by
  unfold lowerFunction at h
  split at h
  · split at h
    · next hcompiled =>
      cases h
      have hpush := Common.pushAddress (List.contains_iff_mem.mp hcompiled)
      exact .cons (.plain rfl) (.singleton (.common hpush))
    · cases h
  · cases h

/-- The lowering of an instruction writes code of the known forms, unless it splices a binding. -/
theorem lower_code {position : Nat} {i : Source.Instruction} {carry carry' : Carry}
    {lowered : Lowered} (hslots : scope.catalogue.SlotsBounded) (hcarry : carry.Bounded scope)
    (hsplices : ¬ scope.Splices i) (h : (lower scope position i).run carry = .ok (lowered, carry')) :
    Code scope lowered.directives ∧ carry'.Bounded scope := by
  obtain ⟨offset, op⟩ := i
  -- what is carried is only checked for the slot whose address was taken
  have hsame : ∀ {carry' : Carry}, carry'.addressOf = carry.addressOf → carry'.Bounded scope := by
    intro carry' haddress place slot htaken
    exact hcarry place slot (haddress.symm.trans htaken)
  cases op
  case nop | convert | isInstance | castClass =>
    cases h
    exact ⟨.nil, hcarry⟩
  case pop | dup | ret | throw | loadNull | length | loadElement | storeElement =>
    cases h
    exact ⟨.singleton (.plain rfl), hcarry⟩
  case literal32 v | literal64 v =>
    cases h
    exact ⟨code_lowerLiteral position _ _, hcarry⟩
  case loadString s =>
    cases h
    exact ⟨.singleton (.pushData _), hcarry⟩
  case load place index =>
    obtain ⟨d, next, hload, hrest⟩ := run_bind_eq_ok h
    obtain ⟨hresult, rfl⟩ := run_liftM_eq_ok hload
    cases hrest
    exact ⟨.singleton (emitted_load hresult), hcarry⟩
  case store place index =>
    obtain ⟨slot, next, hslot, hrest⟩ := run_bind_eq_ok h
    obtain ⟨hresult, rfl⟩ := run_liftM_eq_ok hslot
    cases hrest
    exact ⟨.singleton (emitted_slot false (slot_bounded hresult).2), hcarry⟩
  case address place index =>
    -- the slot whose address is taken is the one carried from here on
    obtain ⟨slot, next, hslot, hrest⟩ := run_bind_eq_ok h
    obtain ⟨hresult, rfl⟩ := run_liftM_eq_ok hslot
    cases hrest
    refine ⟨.singleton (emitted_slot true (slot_bounded hresult).2), ?_⟩
    intro other taken htaken
    cases htaken
    exact (slot_bounded hresult).2
  case loadStatic field =>
    obtain ⟨hcode, haddress⟩ := code_lowerLoadStatic hslots h
    exact ⟨hcode, hsame haddress⟩
  case storeStatic field =>
    obtain ⟨hresult, rfl⟩ := run_liftM_eq_ok h
    exact ⟨code_lowerStoreStatic hslots hresult, hcarry⟩
  case loadField index =>
    cases h
    exact ⟨.cons (.pushInteger _) (.singleton (.plain rfl)), hcarry⟩
  case storeField index =>
    cases h
    exact ⟨.cons (.pushInteger _) (.cons (.plain rfl) (.singleton (.plain rfl))), hcarry⟩
  case newArray element =>
    obtain ⟨hresult, rfl⟩ := run_liftM_eq_ok h
    exact ⟨code_lowerNewArray hresult, hcarry⟩
  case newObject fields ctorArgs =>
    obtain ⟨hresult, rfl⟩ := run_liftM_eq_ok h
    exact ⟨code_lowerNewObject hresult, hcarry⟩
  case initObject fields => exact code_lowerInitObject hcarry h
  case branch condition target =>
    cases h
    exact ⟨code_lowerBranch condition target, hcarry⟩
  case switch targets =>
    cases h
    exact ⟨code_lowerSwitch targets, hcarry⟩
  case arithmetic operation =>
    cases h
    exact ⟨.singleton (.plain (isPlain_arithmeticOpcode operation)), hcarry⟩
  case compare comparison =>
    cases h
    exact ⟨code_lowerComparison position comparison, hcarry⟩
  case call callee =>
    cases callee with
    | method name =>
      obtain ⟨directives, next, hcall, hrest⟩ := run_bind_eq_ok h
      obtain ⟨hresult, rfl⟩ := run_liftM_eq_ok hcall
      cases hrest
      exact ⟨code_callMethod rfl hresult hsplices, hcarry⟩
    | intrinsic intrinsic =>
      cases intrinsic with
      | stringHash =>
        obtain ⟨hresult, rfl⟩ := run_liftM_eq_ok h
        exact ⟨code_lowerStringSwitch hresult, hcarry⟩
      | stringConcat =>
        cases h
        exact ⟨.cons (.plain rfl) (.singleton (.convert .byteString)), hcarry⟩
      | stringEquals | stringLength =>
        cases h
        exact ⟨.singleton (.plain rfl), hcarry⟩
    | event =>
      obtain ⟨directives, next, hnotify, hrest⟩ := run_bind_eq_ok h
      obtain ⟨hcode, haddress⟩ := code_notify hnotify
      cases hrest
      exact ⟨hcode, hsame haddress⟩
    | delegate args =>
      cases h
      exact ⟨(code_reverse _).append (.singleton (.plain rfl)), hcarry⟩
  case loadFunction name =>
    obtain ⟨hresult, rfl⟩ := run_liftM_eq_ok h
    exact ⟨code_lowerFunction hresult, hcarry⟩
  case box type | unbox type | unboxAny type =>
    unfold lower at h
    dsimp only at h
    split at h
    · cases h
      exact ⟨.nil, hcarry⟩
    · cases h
  case initArray | newDelegate | pointerOp => cases h

/-- The lowering of a call that splices a binding writes instructions that can be read back. -/
theorem lower_splices {position : Nat} {i : Source.Instruction} {carry carry' : Carry}
    {lowered : Lowered} (hsplices : scope.Splices i)
    (h : (lower scope position i).run carry = .ok (lowered, carry')) :
    (∀ d ∈ lowered.directives, ∃ instruction, d = .instruction instruction ∧ instruction.fits = true)
      ∧ carry' = carry := by
  obtain ⟨offset, op⟩ := i
  obtain ⟨name, method, code, hop, hmethod, hbinding⟩ := hsplices
  cases hop
  obtain ⟨directives, next, hcall, hrest⟩ := run_bind_eq_ok h
  obtain ⟨hresult, rfl⟩ := run_liftM_eq_ok hcall
  cases hrest
  exact ⟨fits_of_splices rfl hresult ⟨name, method, code, rfl, hmethod, hbinding⟩, rfl⟩

/-- What an instruction leaves for later ones names declared slots. -/
theorem bounded_of_lower {position : Nat} {i : Source.Instruction} {carry carry' : Carry}
    {lowered : Lowered} (hslots : scope.catalogue.SlotsBounded) (hcarry : carry.Bounded scope)
    (h : (lower scope position i).run carry = .ok (lowered, carry')) : carry'.Bounded scope := by
  -- a binding that is spliced in leaves what is carried
  by_cases hsplices : scope.Splices i
  · rw [(lower_splices hsplices h).2]
    exact hcarry
  · exact (lower_code hslots hcarry hsplices h).2

/-- Everything that lowering writes can be read back, unless it is too large for a script. -/
theorem lower_encodable {position : Nat} {i : Source.Instruction} {carry carry' : Carry}
    {lowered : Lowered} (hslots : scope.catalogue.SlotsBounded) (hcarry : carry.Bounded scope)
    (h : (lower scope position i).run carry = .ok (lowered, carry'))
    (hsize : ∀ d ∈ lowered.directives, d.size ≤ 256 ^ 4) :
    ∀ d ∈ lowered.directives, d.Encodable := by
  by_cases hsplices : scope.Splices i
  · intro d hd
    obtain ⟨instruction, rfl, hfits⟩ := (lower_splices hsplices h).1 d hd
    exact hfits
  · exact (lower_code hslots hcarry hsplices h).1.encodable hsize

end

/-! ## Whole bodies -/

/-- A source instruction and what is written for it. -/
structure Segment where
  /-- The position of the instruction in its body. -/
  position : Nat
  source : Source.Instruction
  lowered : Lowered

/-- The code of a segment behind the mark of its source offset. -/
def Segment.code (segment : Segment) : List Directive :=
  .mark segment.source.offset :: segment.lowered.directives

/-- The segments of a body from a position on. -/
inductive Lowers (scope : Scope) : Nat → Carry → List Segment → Prop
  | finish {position : Nat} {carry : Carry} (h : scope.body.size ≤ position) :
    Lowers scope position carry []
  | next {position : Nat} {carry carry' : Carry} {lowered : Lowered} {rest : List Segment}
    (h : position < scope.body.size)
    (hlower : (lower scope position scope.body[position]).run carry = .ok (lowered, carry'))
    (hrest : Lowers scope (position + 1 + lowered.consumed) carry' rest) :
    Lowers scope position carry (⟨position, scope.body[position], lowered⟩ :: rest)

theorem lowerFrom_spec {scope : Scope} {position : Nat} {written written' : Array Directive}
    {carry carry' : Carry}
    (h : (lowerFrom scope position written).run carry = .ok (written', carry')) :
    ∃ segments, Lowers scope position carry segments
      ∧ written'.toList = written.toList ++ segments.flatMap Segment.code := by
  -- on the rest of the body, which an instruction can shorten by more than one
  induction hn : scope.body.size - position using Nat.strongRecOn
    generalizing position written carry with
  | ind n ih =>
    unfold lowerFrom at h
    by_cases hposition : position < scope.body.size
    · rw [dif_pos hposition] at h
      obtain ⟨lowered, next, hlower, hrest⟩ := run_bind_eq_ok h
      obtain ⟨segments, hsegments, hwritten⟩ := ih _ (by omega) hrest rfl
      refine ⟨⟨position, scope.body[position], lowered⟩ :: segments, .next hposition hlower hsegments, ?_⟩
      rw [hwritten, Array.appendList_eq_append, Array.toList_appendList, Array.toList_push,
        List.flatMap_cons, List.append_assoc, List.append_assoc]
      rfl
    · rw [dif_neg hposition] at h
      cases h
      exact ⟨[], .finish (Nat.le_of_not_lt hposition), (List.append_nil _).symm⟩

/-- A body is its prologue and the segments of its instructions. -/
theorem lowerBody_spec {scope : Scope} {prologue directives : List Directive}
    (h : lowerBody scope prologue = .ok directives) :
    ∃ segments, Lowers scope 0 {} segments
      ∧ directives = prologue ++ segments.flatMap Segment.code := by
  unfold lowerBody at h
  obtain ⟨⟨written, carry⟩, hrun, hpure⟩ := exceptBind_eq_ok h
  cases hpure
  exact lowerFrom_spec hrun

theorem carry_bounded_empty (scope : Scope) : Carry.Bounded scope {} := nofun

/-- Each segment of a body is the lowering of its instruction with slots known to be declared. -/
theorem Lowers.segment {scope : Scope} {position : Nat} {carry : Carry} {segments : List Segment}
    (hslots : scope.catalogue.SlotsBounded) (hcarry : carry.Bounded scope)
    (h : Lowers scope position carry segments) {segment : Segment} (hmem : segment ∈ segments) :
    segment.source ∈ scope.body ∧ ∃ carry carry', carry.Bounded scope
      ∧ (lower scope segment.position segment.source).run carry = .ok (segment.lowered, carry') := by
  induction h with
  | finish _ => cases hmem
  | next hposition hlower _ ih =>
    rcases List.mem_cons.mp hmem with rfl | hmem
    · exact ⟨Array.getElem_mem hposition, _, _, hcarry, hlower⟩
    · exact ih (bounded_of_lower hslots hcarry hlower) hmem

end StackContract.Lowering
