import StackContract.Proofs.JsonText
import StackContract.Proofs.Readers
import StackContract.Source.Printer
import StackContract.Source.Reader
/-!
# The interchange format

A module that is written as JSON text is read back as it was, if it nests no deeper than the format
allows, and it is not read at all otherwise. Each type of the source model has a reader that inverts
its printer; the text that is written spells the JSON value.
-/

namespace StackContract.Source

open Json

/-! ## Tags -/

theorem inverts_intrinsic : Inverts Intrinsic.read fun kind => ofText kind.tag :=
  inverts_enumeration fun kind => by cases kind <;> rfl

theorem inverts_conversion : Inverts Conversion.read fun kind => ofText kind.tag :=
  inverts_enumeration fun kind => by cases kind <;> rfl

theorem inverts_typeRole : Inverts TypeRole.read fun role => ofText role.tag :=
  inverts_enumeration fun role => by cases role <;> rfl

theorem inverts_methodRole : Inverts MethodRole.read fun role => ofText role.tag :=
  inverts_enumeration fun role => by cases role <;> rfl

/-! ## Types -/

theorem ValueType.itemsToJson_eq (items : List ValueType) :
    itemsToJson items = items.map toJson := by
  induction items with
  | nil => rw [itemsToJson, List.map_nil]
  | cons item items ih => rw [itemsToJson, List.map_cons, ih]

theorem ValueType.inverts : Inverts ValueType.read ValueType.toJson := by
  intro depth
  -- the payload of a type is read with fewer levels
  induction depth using Nat.strongRecOn with
  | _ depth ih =>
    intro type b
    have hpayload {tag : String} {payload : Json} (make : Reader ValueType)
        (hread : ∀ depth, ValueType.read (depth + 1) (tagged tag payload) = make depth payload)
        (hmake : ∀ fewer < depth, make fewer payload = some b ↔ nesting payload ≤ fewer ∧ type = b) :
        ValueType.read depth (tagged tag payload) = some b
          ↔ nesting (tagged tag payload) ≤ depth ∧ type = b := by
      cases depth with
      | zero => simp [ValueType.read, tagged, ofMembers, nesting]
      | succ depth =>
        rw [hread, hmake depth (by omega), tagged, nesting_ofMembers_le]
        simp
    cases type with
    | array element =>
      exact hpayload (fun depth json => (ValueType.read depth json).map .array) (fun _ => rfl)
        fun fewer hlt => map_eq_some_of (ih fewer hlt element) _ b
    | tuple items =>
      rw [ValueType.toJson, ValueType.itemsToJson_eq]
      apply hpayload (fun depth json => (Reader.list ValueType.read depth json).map .tuple)
      · intro depth
        cases depth <;> rfl
      · intro fewer hlt
        apply map_eq_some_of
        intro read
        cases fewer with
        | zero => simp only [Reader.list, nesting_list_pos, false_and, reduceCtorEq]
        | succ fewer =>
          rw [Reader.list, nesting_list_le, List.forall_mem_map]
          exact mapM_map_eq_some (fun item _ => ih fewer (by omega) item) read
    | named name =>
      exact hpayload (fun depth json => (Reader.text depth json).map .named) (fun _ => rfl)
        fun fewer _ => map_eq_some_iff inverts_text _ fewer name b
    | interop name =>
      exact hpayload (fun depth json => (Reader.text depth json).map .interop) (fun _ => rfl)
        fun fewer _ => map_eq_some_iff inverts_text _ fewer name b
    | delegate name =>
      exact hpayload (fun depth json => (Reader.text depth json).map .delegate) (fun _ => rfl)
        fun fewer _ => map_eq_some_iff inverts_text _ fewer name b
    | _ => cases depth <;> simp [ValueType.toJson, ValueType.read, ofText, nesting, ofTag?, findTag, plain, tag]

/-! ## Operations -/

theorem FieldRef.inverts : Inverts FieldRef.read FieldRef.toJson := by
  intro depth field b
  refine record_ofMembers (by rfl) (by decide) ?_ depth b
  intro depth b
  simp only [List.map_cons, List.map_nil, Option.bind_eq_bind, Option.pure_def,
    required_bind inverts_text, List.forall_mem_cons, List.not_mem_nil, false_implies, implies_true,
    Option.some.injEq, and_true, and_assoc]

theorem Callee.inverts : Inverts Callee.read Callee.toJson := by
  intro depth callee b
  cases callee with
  | method name => exact variant_payload rfl (map_eq_some_iff inverts_text _ · name) depth b
  | intrinsic kind => exact variant_payload rfl (map_eq_some_iff inverts_intrinsic _ · kind) depth b
  | event => exact variant_plain (by rfl) depth b
  | delegate args =>
    refine variant_payload rfl (record_ofMembers (by rfl) (by decide) ?_) depth b
    intro depth b
    simp only [List.map_cons, List.map_nil, List.forall_mem_singleton]
    exact map_eq_some_iff inverts_uint16 _ depth args b

theorem inverts_listOf {α : Type} {read : Reader α} {toJson : α → Json} (h : Inverts read toJson) :
    Inverts (Reader.list read) (listOf toJson) :=
  inverts_list h

theorem inverts_bytes : Inverts (Reader.list Reader.uint8) bytesToJson :=
  inverts_list inverts_uint8

theorem Op.inverts : Inverts Op.read Op.toJson := by
  intro depth op b
  cases op with
  | literal32 v => exact variant_payload rfl (map_eq_some_iff inverts_int32 _ · v) depth b
  | literal64 v => exact variant_payload rfl (map_eq_some_iff inverts_int64 _ · v) depth b
  | loadString s => exact variant_payload rfl (map_eq_some_iff inverts_text _ · s) depth b
  | load place index =>
    cases place <;> exact variant_payload rfl (map_eq_some_iff inverts_uint16 _ · index) depth b
  | store place index =>
    cases place <;> exact variant_payload rfl (map_eq_some_iff inverts_uint16 _ · index) depth b
  | address place index =>
    cases place <;> exact variant_payload rfl (map_eq_some_iff inverts_uint16 _ · index) depth b
  | loadStatic field =>
    exact variant_payload rfl (map_eq_some_iff FieldRef.inverts _ · field) depth b
  | storeStatic field =>
    exact variant_payload rfl (map_eq_some_iff FieldRef.inverts _ · field) depth b
  | loadField index => exact variant_payload rfl (map_eq_some_iff inverts_uint16 _ · index) depth b
  | storeField index => exact variant_payload rfl (map_eq_some_iff inverts_uint16 _ · index) depth b
  | newArray type => exact variant_payload rfl (map_eq_some_iff ValueType.inverts _ · type) depth b
  | initArray data => exact variant_payload rfl (map_eq_some_iff inverts_bytes _ · data) depth b
  | newObject fields ctorArgs =>
    refine variant_payload rfl (record_ofMembers (by rfl) (by decide) ?_) depth b
    intro depth b
    simp only [List.map_cons, List.map_nil, Option.bind_eq_bind, Option.pure_def,
      required_bind (inverts_listOf ValueType.inverts), required_bind inverts_uint16,
      List.forall_mem_cons, List.not_mem_nil, false_implies, implies_true, Option.some.injEq, and_true,
      and_assoc]
  | initObject fields =>
    exact variant_payload rfl (map_eq_some_iff (inverts_list ValueType.inverts) _ · fields) depth b
  | branch condition target =>
    cases condition <;>
      exact variant_payload rfl (map_eq_some_iff inverts_uint32 _ · target) depth b
  | switch targets =>
    exact variant_payload rfl (map_eq_some_iff (inverts_list inverts_uint32) _ · targets) depth b
  | arithmetic operation => cases operation <;> exact variant_plain (by rfl) depth b
  | compare comparison => cases comparison <;> exact variant_plain (by rfl) depth b
  | convert conversion =>
    exact variant_payload rfl (map_eq_some_iff inverts_conversion _ · conversion) depth b
  | call callee => exact variant_payload rfl (map_eq_some_iff Callee.inverts _ · callee) depth b
  | loadFunction name => exact variant_payload rfl (map_eq_some_iff inverts_text _ · name) depth b
  | box type => exact variant_payload rfl (map_eq_some_iff ValueType.inverts _ · type) depth b
  | unbox type => exact variant_payload rfl (map_eq_some_iff ValueType.inverts _ · type) depth b
  | unboxAny type => exact variant_payload rfl (map_eq_some_iff ValueType.inverts _ · type) depth b
  | isInstance type => exact variant_payload rfl (map_eq_some_iff ValueType.inverts _ · type) depth b
  | castClass type => exact variant_payload rfl (map_eq_some_iff ValueType.inverts _ · type) depth b
  | pointerOp operation => cases operation <;> exact variant_plain (by rfl) depth b
  | _ => exact variant_plain (by rfl) depth b

theorem Instruction.inverts : Inverts Instruction.read Instruction.toJson := by
  intro depth instruction b
  refine record_ofMembers (by rfl) (by decide) ?_ depth b
  intro depth b
  simp only [List.map_cons, List.map_nil, Option.bind_eq_bind, Option.pure_def,
    required_bind inverts_uint32, required_bind Op.inverts, List.forall_mem_cons, List.not_mem_nil,
    false_implies, implies_true, Option.some.injEq, and_true, and_assoc]

/-! ## Declarations -/

theorem Parameter.inverts : Inverts Parameter.read Parameter.toJson := by
  intro depth param b
  refine record_ofMembers (by rfl) (by decide) ?_ depth b
  intro depth b
  simp only [List.map_cons, List.map_nil, Option.bind_eq_bind, Option.pure_def,
    required_bind inverts_text, required_bind ValueType.inverts, List.forall_mem_cons,
    List.not_mem_nil, false_implies, implies_true, Option.some.injEq, and_true, and_assoc]

theorem RawInstruction.inverts : Inverts RawInstruction.read RawInstruction.toJson := by
  intro depth raw b
  refine record_ofMembers (by rfl) (by decide) ?_ depth b
  intro depth b
  simp only [List.map_cons, List.map_nil, Option.bind_eq_bind, Option.pure_def,
    required_bind inverts_uint8, defaulted_bind inverts_bytes, List.forall_mem_cons,
    List.not_mem_nil, false_implies, implies_true, Option.some.injEq, and_true, and_assoc]

theorem Binding.inverts : Inverts Binding.read Binding.toJson := by
  intro depth binding b
  cases binding with
  | service name => exact variant_payload rfl (map_eq_some_iff inverts_text _ · name) depth b
  | instructions code =>
    exact variant_payload rfl (map_eq_some_iff (inverts_list RawInstruction.inverts) _ · code) depth b
  | contract hash method =>
    refine variant_payload rfl (record_ofMembers (by rfl) (by decide) ?_) depth b
    intro depth b
    simp only [List.map_cons, List.map_nil, Option.bind_eq_bind, Option.pure_def,
      required_bind inverts_text, List.forall_mem_cons, List.not_mem_nil, false_implies, implies_true,
      Option.some.injEq, and_true, and_assoc]

theorem Binding.inverts_optional : Inverts (Reader.optional Binding.read) fun binding? =>
    match binding? with | some binding => binding.toJson | none => .null := by
  have hnull (binding : Binding) : binding.toJson ≠ .null := by
    cases binding <;> exact Json.noConfusion
  intro depth binding? b
  have h := Json.inverts_optional Binding.inverts hnull depth binding? b
  cases binding? <;> exact h

theorem Method.inverts : Inverts Method.read Method.toJson := by
  intro depth method b
  refine record_ofMembers (by rfl) (by decide) ?_ depth b
  intro depth b
  simp only [List.map_cons, List.map_nil, Option.bind_eq_bind, Option.pure_def,
    required_bind inverts_text, defaulted_bind inverts_methodRole, defaulted_bind inverts_bool,
    defaulted_bind (inverts_listOf Parameter.inverts), defaulted_bind ValueType.inverts,
    defaulted_bind (inverts_listOf ValueType.inverts), List.forall_mem_cons, List.not_mem_nil,
    false_implies, implies_true, and_true, and_assoc, and_congr_right_iff]
  intro _ _ _ _ _ _ _
  -- the case split on the binding is the same up to unfolding only
  apply (defaulted_bind Binding.inverts_optional none depth method.binding _ b).trans
  apply and_congr Iff.rfl
  apply (defaulted_bind (inverts_listOf Instruction.inverts) [] depth method.body _ b).trans
  exact and_congr Iff.rfl Option.some_inj

theorem Field.inverts : Inverts Field.read Field.toJson := by
  intro depth field b
  refine record_ofMembers (by rfl) (by decide) ?_ depth b
  intro depth b
  simp only [List.map_cons, List.map_nil, Option.bind_eq_bind, Option.pure_def,
    required_bind inverts_text, required_bind ValueType.inverts, defaulted_bind inverts_bool,
    List.forall_mem_cons, List.not_mem_nil, false_implies, implies_true, Option.some.injEq, and_true,
    and_assoc]

theorem Event.inverts : Inverts Event.read Event.toJson := by
  intro depth event b
  refine record_ofMembers (by rfl) (by decide) ?_ depth b
  intro depth b
  simp only [List.map_cons, List.map_nil, Option.bind_eq_bind, Option.pure_def,
    required_bind inverts_text, defaulted_bind (inverts_listOf Parameter.inverts),
    List.forall_mem_cons, List.not_mem_nil, false_implies, implies_true, Option.some.injEq, and_true,
    and_assoc]

theorem TypeDecl.inverts : Inverts TypeDecl.read TypeDecl.toJson := by
  intro depth type b
  refine record_ofMembers (by rfl) (by decide) ?_ depth b
  intro depth b
  simp only [List.map_cons, List.map_nil, Option.bind_eq_bind, Option.pure_def,
    required_bind inverts_text, defaulted_bind inverts_typeRole,
    defaulted_bind (inverts_listOf Method.inverts), defaulted_bind (inverts_listOf Field.inverts),
    defaulted_bind (inverts_listOf Event.inverts),
    defaulted_bind (inverts_listOf Instruction.inverts), List.forall_mem_cons,
    List.not_mem_nil, false_implies, implies_true, Option.some.injEq, and_true, and_assoc]

theorem Module.inverts : Inverts Module.read Module.toJson := by
  intro depth module b
  refine record_ofMembers (by rfl) (by decide) ?_ depth b
  intro depth b
  simp only [List.map_cons, List.map_nil, List.forall_mem_singleton]
  exact map_eq_some_iff (inverts_listOf TypeDecl.inverts) _ depth module.types b

/-! ## Spellings -/

theorem exact_ofNat (n : Nat) : Exact (ofNat n) :=
  .int n

theorem exact_tagged (tag : String) {payload : Json} (h : Exact payload) :
    Exact (tagged tag payload) :=
  .members (by simpa using h)

theorem exact_listOf {α : Type} {toJson : α → Json} (h : ∀ a, Exact (toJson a)) (values : List α) :
    Exact (listOf toJson values) :=
  .list (by simp [h])

mutual

theorem ValueType.exact (type : ValueType) : Exact type.toJson := by
  cases type with
  | array element => exact exact_tagged _ element.exact
  | tuple items => exact exact_tagged _ (.list (ValueType.exact_items items))
  | named name => exact exact_tagged _ (.text name)
  | interop name => exact exact_tagged _ (.text name)
  | delegate name => exact exact_tagged _ (.text name)
  | _ => exact .text _

theorem ValueType.exact_items (items : List ValueType) :
    ∀ json ∈ ValueType.itemsToJson items, Exact json := by
  cases items with
  | nil => simp [ValueType.itemsToJson]
  | cons item items =>
    simp only [ValueType.itemsToJson, List.forall_mem_cons]
    exact ⟨item.exact, ValueType.exact_items items⟩

end

theorem FieldRef.exact (field : FieldRef) : Exact field.toJson :=
  .members (by simp [Exact.text])

theorem Callee.exact (callee : Callee) : Exact callee.toJson := by
  cases callee with
  | method name => exact exact_tagged _ (.text name)
  | intrinsic kind => exact exact_tagged _ (.text kind.tag)
  | event => exact .text _
  | delegate args => exact exact_tagged _ (exact_tagged _ (exact_ofNat args.toNat))

theorem Op.exact (op : Op) : Exact op.toJson := by
  have hpayload : ∀ payload, op.payload? = some payload → Exact payload := by
    intro payload hsome
    cases op <;> cases hsome
    case newObject => exact .members (by simp [exact_listOf, ValueType.exact, exact_ofNat])
    all_goals first
      | exact exact_ofNat _
      | exact .int _
      | exact .text _
      | exact FieldRef.exact _
      | exact ValueType.exact _
      | exact Callee.exact _
      | exact exact_listOf (fun _ => exact_ofNat _) _
      | exact exact_listOf ValueType.exact _
  unfold Op.toJson
  split
  · next payload hsome => exact exact_tagged _ (hpayload payload hsome)
  · exact .text _

theorem Instruction.exact (instruction : Instruction) : Exact instruction.toJson :=
  .members (by simp [exact_ofNat, Op.exact])

theorem Parameter.exact (param : Parameter) : Exact param.toJson :=
  .members (by simp [Exact.text, ValueType.exact])

theorem RawInstruction.exact (raw : RawInstruction) : Exact raw.toJson :=
  .members (by simp [exact_ofNat, bytesToJson, exact_listOf])

theorem Binding.exact (binding : Binding) : Exact binding.toJson := by
  cases binding with
  | service name => exact exact_tagged _ (.text name)
  | instructions code => exact exact_tagged _ (exact_listOf RawInstruction.exact code)
  | contract hash method => exact exact_tagged _ (.members (by simp [Exact.text]))

theorem Method.exact (method : Method) : Exact method.toJson := by
  apply Exact.members
  cases hbinding : method.binding <;>
    simp [Exact.text, Exact.bool, Exact.null, exact_listOf, Parameter.exact, ValueType.exact,
      Binding.exact, Instruction.exact]

theorem Field.exact (field : Field) : Exact field.toJson :=
  .members (by simp [Exact.text, Exact.bool, ValueType.exact])

theorem Event.exact (event : Event) : Exact event.toJson :=
  .members (by simp [Exact.text, exact_listOf, Parameter.exact])

theorem TypeDecl.exact (type : TypeDecl) : Exact type.toJson :=
  .members (by
    simp [Exact.text, exact_listOf, Method.exact, Field.exact, Event.exact, Instruction.exact])

theorem Module.exact (module : Module) : Exact module.toJson :=
  .members (by simp [exact_listOf, TypeDecl.exact])

/-! ## Texts -/

/-- The text of a module reads as that module if it nests within the levels of the format, and it does
not read as anything else or at all if it nests deeper. -/
theorem Module.parse_print_iff (module result : Module) :
    Module.parse? module.print = some result
      ↔ nesting module.toJson ≤ nestingLimit ∧ module = result := by
  have hspelled : Json.parse module.print = some module.toJson := parse_compact module.exact
  rw [Module.parse?, hspelled, Option.bind_some]
  exact Module.inverts nestingLimit module result

end StackContract.Source
