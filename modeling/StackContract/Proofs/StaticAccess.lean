import StackContract.Proofs.Exits
import StackContract.Proofs.FoldedCode
import StackContract.Proofs.StaticStorage
/-!
# Access to static fields

Every load of a readonly field makes a value of its own, which counts as what the code of the last
statement that assigns the field leaves (`StaticAccess.loadFolded`). That is the last one of the text,
whether an initializer would come to it or not.

Loads and stores of any other field go to the slot of its key, and to no other one
(`StaticAccess.loadStored`, `StaticAccess.store`).
-/

namespace StackContract.Compile

open Source (Field)

/-- A statement is the last one that assigns the field of a key. -/
def AssignsLast (statements : List Statement) (key : String) (statement : Statement) : Prop :=
  ∃ front behind, statements = front ++ statement :: behind ∧ statement.target.key = key
    ∧ ∀ other ∈ behind, other.target.key ≠ key

theorem AssignsLast.append {statements : List Statement} {key : String} {last statement : Statement}
    (h : AssignsLast statements key last) (hother : statement.target.key ≠ key) :
    AssignsLast (statements ++ [statement]) key last := by
  obtain ⟨front, behind, rfl, hkey, hbehind⟩ := h
  refine ⟨front, behind ++ [statement], List.append_assoc .., hkey, fun other hmem => ?_⟩
  rcases List.mem_append.mp hmem with hmem | hmem
  · exact hbehind other hmem
  · exact List.mem_singleton.mp hmem ▸ hother

/-- A value that was folded is that of the last statement on its key, which is the key of a readonly
field. -/
theorem exists_statement_of_foldedBy {fields : Table String Field} {statements : List Statement}
    {key : String} {c : Constant} (hknown : ∀ s ∈ statements, ∃ field,
      fields.find? s.target.key = some field
        ∧ (field.isReadonly = true → ∃ value, Folding.evaluate s.code field.type = .ok value))
    (h : (foldedBy fields {} statements).find? key = some c) :
    ∃ statement field, AssignsLast statements key statement ∧ fields.find? key = some field
      ∧ field.isReadonly = true ∧ Folding.evaluate statement.code field.type = .ok c := by
  induction statements using List.reverseRecOn with
  | nil => cases h
  | append_singleton statements statement ih =>
    have hfolded : foldedBy fields {} (statements ++ [statement])
        = foldStatement fields (foldedBy fields {} statements) statement := List.foldl_append
    have hearlier := ih fun s hs => hknown s (List.mem_append_left _ hs)
    obtain ⟨field, hfield, hvalue⟩ :=
      hknown statement (List.mem_append_right _ (List.mem_singleton_self _))
    rw [hfolded, foldStatement, hfield] at h
    dsimp only at h
    by_cases hreadonly : field.isReadonly = true
    · obtain ⟨value, hvalue⟩ := hvalue hreadonly
      rw [if_pos hreadonly, hvalue] at h
      dsimp only at h
      rw [Table.find?_insert] at h
      split at h
      · next hkey =>
        cases h
        have hlast : AssignsLast (statements ++ [statement]) statement.target.key statement :=
          ⟨statements, [], rfl, rfl, List.forall_mem_nil _⟩
        exact ⟨statement, field, hkey ▸ hlast, hkey ▸ hfield, hreadonly, hvalue⟩
      · next hkey =>
        obtain ⟨last, field, hlast, hrest⟩ := hearlier h
        exact ⟨last, field, hlast.append fun heq => hkey heq.symm, hrest⟩
    · rw [if_neg hreadonly] at h
      obtain ⟨last, other, hlast, hother, hrest⟩ := hearlier h
      refine ⟨last, other, hlast.append fun heq => ?_, hother, hrest⟩
      -- the key is that of a readonly field
      rw [heq, hother] at hfield
      cases hfield
      exact hreadonly hrest.1

/-- A key with a slot is not that of a readonly field. -/
theorem not_readonly_of_slot {fields : Table String Field} (hnodup : fields.keys.Nodup) {key : String}
    {slot : UInt8} (h : (assignSlots (mutableKeys fields)).find? key = some slot) {field : Field}
    (hfield : fields.find? key = some field) : field.isReadonly = false := by
  have hmem : key ∈ (assignSlots (mutableKeys fields)).keys :=
    List.mem_map_of_mem (Table.mem_of_findIn h)
  rw [keys_assignSlots] at hmem
  obtain ⟨⟨_, other⟩, hother, rfl⟩ := List.mem_map.mp hmem
  obtain ⟨hthere, hmutable⟩ := List.mem_filter.mp hother
  obtain rfl : field = other :=
    Option.some.inj (hfield.symm.trans ((Table.findIn_eq_some_iff hnodup).mpr hthere))
  rw [Bool.and_eq_true] at hmutable
  exact Bool.not_eq_true' _ |>.mp hmutable.1

end StackContract.Compile

namespace StackContract.Contract

open Assembly Compile Script Lowering Machine
open Source (FieldRef Module ValueType)

/-! ## Statement -/

/-- An item in a heap counts as what code leaves for a field of a type, wherever the code is accepted as
the body of a method. -/
def ValueOf (code : List Source.Instruction) (type : ValueType) (heap : Heap) (item : Item) : Prop :=
  ∀ ⦃scope : Scope⦄ ⦃offset : UInt32⦄ ⦃body : Body⦄ ⦃s : State⦄,
    scope.body = (code ++ [(⟨offset, .ret⟩ : Source.Instruction)]).toArray →
    writeBody scope [] = .ok body → Ready body s →
    ∃ item' heap', Leaves s item' heap' ∧ CountsAs type heap' heap item' item

/-- What loads and stores of static fields are compiled to. The keys of events are not those of fields. -/
structure StaticAccess (module : Module) (program : Program) (method : PlacedMethod)
    (routine : Routine) : Prop where
  /-- A load of a field without a slot pushes a new value of a readonly field, that of the last statement
  that assigns it. -/
  loadFolded : ∀ ⦃position i f⦄, routine.scope.body[position]? = some i → i.op = .loadStatic f →
    (declaredEvents module).find? f.key = none → program.fields.find? f.key = none →
    ∃ field statement c, (staticFields module).find? f.key = some field ∧ field.isReadonly = true
      ∧ AssignsLast (module.compiledTypes.flatMap statementsOf) f.key statement
      ∧ Folding.evaluate statement.code field.type = .ok c
      ∧ ∃ before segment after, routine.segments = before ++ segment :: after
      ∧ segment.position = position ∧ segment.source = i
      ∧ ∀ ⦃s : State⦄, InFrontOf program method routine before segment s →
        s.memory.stack.size + extent segment.lowered.directives ≤ s.limits.stack →
        ∃ item heap, Makes c s.memory.heap heap item ∧ ValueOf statement.code field.type heap item
          ∧ ComesBehind method routine before segment s ⟨s.memory.stack.push item, heap⟩
  /-- A load of a field with a slot pushes what the slot holds. -/
  loadStored : ∀ ⦃position i f slot⦄, routine.scope.body[position]? = some i → i.op = .loadStatic f →
    (declaredEvents module).find? f.key = none → program.fields.find? f.key = some slot →
    ∃ before segment after, routine.segments = before ++ segment :: after
      ∧ segment.position = position ∧ segment.source = i
      ∧ ∀ ⦃s : State⦄ ⦃items : Array Item⦄ ⦃item : Item⦄,
        InFrontOf program method routine before segment s → s.statics = some items →
        items[slot.toNat]? = some item → s.memory.stack.size < s.limits.stack →
        ComesBehind method routine before segment s ⟨s.memory.stack.push item, s.memory.heap⟩
  /-- A store puts an item into the slot of its field, and changes no other one. -/
  store : ∀ ⦃position i f⦄, routine.scope.body[position]? = some i → i.op = .storeStatic f →
    ∃ slot, program.fields.find? f.key = some slot
      ∧ ∃ before segment after, routine.segments = before ++ segment :: after
      ∧ segment.position = position ∧ segment.source = i
      ∧ ∀ ⦃s : State⦄ ⦃items : Array Item⦄ ⦃item : Item⦄ ⦃rest : List Item⦄,
        InFrontOf program method routine before segment s → s.statics = some items →
        slot.toNat < items.size → s.memory.stack.toList = item :: rest →
        rest.length ≤ s.limits.stack →
        Advances 1 s { s with
          statics := some (items.setIfInBounds slot.toNat item)
          memory := ⟨.ofList rest, s.memory.heap⟩
          address := method.base + routine.addressOf before segment segment.lowered.directives }

/-! ## What is written -/

section

variable {scope : Scope} {position : Nat} {i : Source.Instruction} {carry carry' : Carry}
  {lowered : Lowered} {f : FieldRef}

/-- A load that is not one of an event pushes the constant of its field, or what its slot holds. -/
theorem directives_of_loadStatic (hop : i.op = .loadStatic f)
    (hevent : scope.catalogue.events.find? f.key = none)
    (h : (lower scope position i).run carry = .ok (lowered, carry')) :
    (∃ c, scope.catalogue.statics.folded.find? f.key = some c
        ∧ lowered.directives = pushConstant c)
      ∨ scope.catalogue.statics.folded.find? f.key = none
        ∧ ∃ slot, scope.catalogue.statics.slots.find? f.key = some slot
          ∧ lowered.directives = [.load .static slot] := by
  obtain ⟨offset, op⟩ := i
  cases hop
  have hload : (lowerLoadStatic scope f).run carry = .ok (lowered, carry') := h
  unfold lowerLoadStatic at hload
  simp only [hevent] at hload
  split at hload
  · next c hc =>
    cases hload
    exact .inl ⟨c, hc, rfl⟩
  · next hnone =>
    split at hload <;> cases hload
    next slot hslot => exact .inr ⟨hnone, slot, hslot, rfl⟩

theorem directives_of_storeStatic (hop : i.op = .storeStatic f)
    (h : (lower scope position i).run carry = .ok (lowered, carry')) :
    ∃ slot, scope.catalogue.statics.slots.find? f.key = some slot
      ∧ lowered.directives = [.store .static slot] := by
  obtain ⟨offset, op⟩ := i
  cases hop
  have hstore := (run_liftM_eq_ok h).1
  unfold lowerStoreStatic at hstore
  dsimp only at hstore
  split at hstore
  · next slot hslot =>
    cases hstore
    exact ⟨slot, hslot, rfl⟩
  · split at hstore <;> cases hstore

/-- The slots of static fields are the same for all methods. -/
theorem slots_static {s : State} {items : Array Item} (h : s.statics = some items) (slot : UInt8) :
    s.slots .static slot = .ok items := by
  unfold State.slots
  rw [h]

end

/-! ## Accepted modules -/

section

variable {limits : Compile.Limits} {module : Module} {program : Program}
  {image : Image limits module program} {routine : Routine} {method : PlacedMethod}
  {before after : List Segment} {segment : Segment} {s : State} {slot : UInt8} {items : Array Item}
  {item : Item}

/-- A field with a slot has no value that was folded. -/
theorem Image.folded_of_slot (image : Image limits module program) {key : String} {slot : UInt8}
    (h : image.statics.slots.find? key = some slot) : image.statics.folded.find? key = none := by
  obtain ⟨events, events', hstatics⟩ := image.statics_eq
  obtain ⟨hslots, -, hfolded, -, hknown, -⟩ := ofModule_spec hstatics
  rw [hslots] at h
  cases hfind : image.statics.folded.find? key with
  | none => rfl
  | some c =>
    rw [hfolded] at hfind
    obtain ⟨_, field, -, hfield, hreadonly, -⟩ := exists_statement_of_foldedBy hknown hfind
    rw [not_readonly_of_slot (Table.nodup_keys_ofList _) h hfield] at hreadonly
    cases hreadonly

/-- The code of a constant makes a value of it. -/
theorem Image.At.makes (hat : image.At routine method) {c : Constant}
    (hsegments : routine.segments = before ++ segment :: after)
    (hdirectives : segment.lowered.directives = pushConstant c)
    (hfront : InFrontOf program method routine before segment s)
    (hroom : s.memory.stack.size + extent segment.lowered.directives ≤ s.limits.stack) :
    ∃ item heap, Makes c s.memory.heap heap item
      ∧ ComesBehind method routine before segment s ⟨s.memory.stack.push item, heap⟩ := by
  obtain ⟨item, heap, hperforms, hmakes⟩ := performs_pushConstant c s.memory.stack s.memory.heap
  rw [← hdirectives] at hperforms
  have hcarries := hperforms.carries (hat.extent_lowered_le hsegments)
  exact ⟨item, heap, hmakes, hat.comesBehind hsegments hfront hroom hcarries⟩

/-- The load of a static slot pushes what the slot holds. -/
theorem Image.At.loadsSlot (hat : image.At routine method)
    (hsegments : routine.segments = before ++ segment :: after)
    (hdirectives : segment.lowered.directives = [.load .static slot])
    (hfront : InFrontOf program method routine before segment s) (hitems : s.statics = some items)
    (hitem : items[slot.toNat]? = some item) (hroom : s.memory.stack.size < s.limits.stack) :
    ComesBehind method routine before segment s ⟨s.memory.stack.push item, s.memory.heap⟩ := by
  obtain ⟨frame, below, front, -, hfacing, hextent⟩ := hfront.facing hat hsegments
  rw [hdirectives] at hfacing
  have hexecute := execute_accessLoad s.address (slots_static hitems slot) hitem
  have hstep := step_of_execute hfacing.current hexecute (congrArg some hfacing.address_behind) hroom
  rw [← hdirectives, hextent] at hstep
  refine ⟨1, ?_, .single hstep⟩
  rw [hdirectives]
  exact Nat.le_of_eq (instructionCount_instruction _).symm

/-- The store of a static slot puts the item on top of the stack into the slot. -/
theorem Image.At.storesSlot (hat : image.At routine method) {rest : List Item}
    (hsegments : routine.segments = before ++ segment :: after)
    (hdirectives : segment.lowered.directives = [.store .static slot])
    (hfront : InFrontOf program method routine before segment s) (hitems : s.statics = some items)
    (hlt : slot.toNat < items.size) (hstack : s.memory.stack.toList = item :: rest)
    (hroom : rest.length ≤ s.limits.stack) :
    Advances 1 s { s with
      statics := some (items.setIfInBounds slot.toNat item)
      memory := ⟨.ofList rest, s.memory.heap⟩
      address := method.base + routine.addressOf before segment segment.lowered.directives } := by
  obtain ⟨frame, below, front, -, hfacing, hextent⟩ := hfront.facing hat hsegments
  rw [hdirectives] at hfacing
  have hmemory : s.memory = ⟨(Stack.ofList rest).push item, s.memory.heap⟩ := memory_eq hstack
  have hexecute := execute_accessStore s.address (slots_static hitems slot) hlt
  rw [hmemory] at hexecute
  have hstep := step_of_execute hfacing.current hexecute (congrArg some hfacing.address_behind) hroom
  rw [← hdirectives, hextent] at hstep
  exact .single hstep

theorem Image.At.staticAccess (hat : image.At routine method) :
    StaticAccess module program method routine := by
  have hcatalogue := image.catalogue_eq hat.routine_mem
  have hevents : routine.scope.catalogue.events = declaredEvents module := by
    rw [hcatalogue]
    rfl
  have hstatics : routine.scope.catalogue.statics = image.statics := by
    rw [hcatalogue]
    rfl
  refine ⟨?_, ?_, ?_⟩
  · intro position i f hi hop hevent hnone
    obtain ⟨before, segment, after, hsegments, rfl, rfl, _, _, hlower⟩ :=
      hat.exists_segment hi (by rw [hop]; rfl)
    obtain ⟨events, events', hlayout⟩ := image.statics_eq
    obtain ⟨-, -, hfolded, -, hknown, -⟩ := ofModule_spec hlayout
    rcases directives_of_loadStatic hop (hevents ▸ hevent) hlower with
      ⟨c, hc, hdirectives⟩ | ⟨-, slot, hslot, -⟩
    · rw [hstatics, hfolded] at hc
      obtain ⟨statement, field, hlast, hfield, hreadonly, hvalue⟩ :=
        exists_statement_of_foldedBy hknown hc
      refine ⟨field, statement, c, hfield, hreadonly, hlast, hvalue, before, segment, after, hsegments,
        rfl, rfl, fun s hfront hroom => ?_⟩
      obtain ⟨item, heap, hmakes, hbehind⟩ := hat.makes hsegments hdirectives hfront hroom
      refine ⟨item, heap, hmakes, fun scope offset body u hbody hwrite hready => ?_, hbehind⟩
      obtain ⟨item', heap', hleaves, hcounts⟩ := leaves_of_evaluate hvalue hbody hwrite hready
      exact ⟨item', heap', hleaves, hcounts heap item hmakes.denotes⟩
    · rw [hstatics, ← image.fields, hnone] at hslot
      cases hslot
  · intro position i f slot hi hop hevent hslot
    obtain ⟨before, segment, after, hsegments, rfl, rfl, _, _, hlower⟩ :=
      hat.exists_segment hi (by rw [hop]; rfl)
    rw [image.fields] at hslot
    rcases directives_of_loadStatic hop (hevents ▸ hevent) hlower with
      ⟨c, hc, -⟩ | ⟨-, other, hother, hdirectives⟩
    · rw [hstatics, image.folded_of_slot hslot] at hc
      cases hc
    · rw [hstatics, hslot] at hother
      cases hother
      exact ⟨before, segment, after, hsegments, rfl, rfl, fun _ _ _ => hat.loadsSlot hsegments hdirectives⟩
  · intro position i f hi hop
    obtain ⟨before, segment, after, hsegments, rfl, rfl, _, _, hlower⟩ :=
      hat.exists_segment hi (by rw [hop]; rfl)
    obtain ⟨slot, hslot, hdirectives⟩ := directives_of_storeStatic hop hlower
    rw [hstatics, ← image.fields] at hslot
    exact ⟨slot, hslot, before, segment, after, hsegments, rfl, rfl,
      fun _ _ _ _ => hat.storesSlot hsegments hdirectives⟩

end

/-- In every accepted module, static fields are loaded and stored by their keys. -/
theorem staticAccess_of_build {limits : Compile.Limits} {module : Module} {contract : Contract}
    (h : build limits module = .ok contract) :
    EveryMethod limits module contract.program (StaticAccess module contract.program) :=
  everyMethod_of_build (P := StaticAccess module) h fun _ _ _ hat => hat.staticAccess

end StackContract.Contract
