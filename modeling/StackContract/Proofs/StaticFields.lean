import StackContract.Compile.StaticLayout
import StackContract.Proofs.Computations
/-!
# The layout of static fields

What `StaticLayout.ofModule` finds, apart from its steps: slots are numbered from zero within the
limit, the kept code is that of the statements on fields that are not readonly, and each readonly
field has the value of its last statement (`ofModule_spec`).
-/

namespace StackContract.Compile

open Source (Field TypeDecl Module)

/-! ## Closed forms -/

/-- Whether a key names a readonly field. -/
def isReadonlyKey (fields : Table String Field) (key : String) : Bool :=
  (fields.find? key).any (·.isReadonly)

/-- The statements of the initializer of a type. -/
def statementsOf (type : TypeDecl) : List Statement :=
  (splitStatements [] type.staticInit).1

/-- The code of a type that is kept. -/
def keptCode (fields : Table String Field) (type : TypeDecl) : List Source.Instruction :=
  ((statementsOf type).filter fun s => !isReadonlyKey fields s.target.key).flatMap Statement.instructions
    ++ (splitStatements [] type.staticInit).2.filter isKeptBehind

/-- The kept code of types one behind the other. -/
def keptInit (fields : Table String Field) (shift : UInt32) : List TypeDecl → List Source.Instruction
  | [] => []
  | type :: rest =>
    (keptCode fields type).map (·.shift shift) ++ keptInit fields (shiftBehind shift type) rest

/-- Adds the value of a statement on a readonly field. -/
def foldStatement (fields : Table String Field) (folded : Table String Constant)
    (statement : Statement) : Table String Constant :=
  match fields.find? statement.target.key with
  | none => folded
  | some field =>
    if field.isReadonly then
      match Folding.evaluate statement.code field.type with
      | .error _ => folded
      | .ok value => folded.insert statement.target.key value
    else folded

/-- The values of the readonly fields that statements assign. -/
def foldedBy (fields : Table String Field) (folded : Table String Constant)
    (statements : List Statement) : Table String Constant :=
  statements.foldl (foldStatement fields) folded

/-! ## Steps -/

/-- A statement on a known field is folded or kept. -/
theorem placeStatement_spec {fields : Table String Field} {scope : String} {shift : UInt32}
    {layout layout' : StaticLayout} {statement : Statement} {events events' : Array Event}
    (h : placeStatement fields scope shift layout statement events = .ok layout' events') :
    layout'.slots = layout.slots
      ∧ layout'.folded = foldStatement fields layout.folded statement
      ∧ layout'.init = layout.init
        ++ ((if isReadonlyKey fields statement.target.key then [] else statement.instructions).map
          (·.shift shift))
      ∧ ∃ field, fields.find? statement.target.key = some field
        ∧ (field.isReadonly = true →
          ∃ value, Folding.evaluate statement.code field.type = .ok value) := by
  unfold placeStatement at h
  unfold foldStatement isReadonlyKey
  cases hfield : fields.find? statement.target.key with
  | none =>
    simp only [hfield] at h
    cases h
  | some field =>
    simp only [hfield] at h ⊢
    rw [Option.any_some]
    cases hreadonly : field.isReadonly with
    | true =>
      -- a readonly field is folded, and nothing is left of its statement
      rw [if_pos hreadonly] at h
      cases hvalue : Folding.evaluate statement.code field.type with
      | error problem =>
        simp only [hvalue] at h
        cases h
      | ok value =>
        simp only [hvalue] at h
        obtain ⟨_, _, -, h⟩ := bind_eq_ok h
        cases h
        exact ⟨rfl, rfl, (List.append_nil _).symm, field, rfl, fun _ => ⟨value, hvalue⟩⟩
    | false =>
      -- any other field is assigned by the code of its statement
      rw [if_neg (by rw [hreadonly]; exact Bool.false_ne_true)] at h
      cases h
      refine ⟨rfl, rfl, rfl, field, rfl, fun htrue => ?_⟩
      rw [hreadonly] at htrue
      cases htrue

/-- What holds of the layout behind some statements. -/
structure PlacedBehind (fields : Table String Field) (shift : UInt32) (layout : StaticLayout)
    (statements : List Statement) (layout' : StaticLayout) : Prop where
  slots : layout'.slots = layout.slots
  folded : layout'.folded = foldedBy fields layout.folded statements
  init : layout'.init = layout.init
    ++ ((statements.filter fun s => !isReadonlyKey fields s.target.key).flatMap
      Statement.instructions).map (·.shift shift)
  known : ∀ s ∈ statements, ∃ field, fields.find? s.target.key = some field
    ∧ (field.isReadonly = true → ∃ value, Folding.evaluate s.code field.type = .ok value)

theorem placeStatements_spec {fields : Table String Field} {scope : String} {shift : UInt32}
    {layout layout' : StaticLayout} {statements : List Statement} {events events' : Array Event}
    (h : statements.foldlM (placeStatement fields scope shift) layout events = .ok layout' events') :
    PlacedBehind fields shift layout statements layout' := by
  refine foldlM_eq_ok (fun statements next => PlacedBehind fields shift layout statements next)
    ?_ ⟨rfl, rfl, (List.append_nil _).symm, nofun⟩ h
  intro statements next statement next' events events' hnext hstep
  obtain ⟨hslots, hfolded, hinit, hfield⟩ := placeStatement_spec hstep
  refine ⟨hslots.trans hnext.slots, ?_, ?_, ?_⟩
  · rw [hfolded, hnext.folded]
    unfold foldedBy
    rw [List.foldl_append]
    rfl
  · rw [hinit, hnext.init, List.append_assoc, ← List.map_append, List.filter_append,
      List.flatMap_append]
    cases hreadonly : isReadonlyKey fields statement.target.key with
    | true =>
      rw [List.filter_cons_of_neg (by rw [hreadonly]; exact Bool.false_ne_true)]
      rfl
    | false =>
      rw [List.filter_cons_of_pos (by rw [hreadonly]; rfl), List.filter_nil, List.flatMap_singleton]
      rfl
  · intro s hs
    rcases List.mem_append.mp hs with hs | hs
    · exact hnext.known s hs
    · rw [List.mem_singleton.mp hs]
      exact hfield

/-- The code behind the last statement is kept, except for its returns. -/
theorem placeType_spec {fields : Table String Field} {shift : UInt32} {layout layout' : StaticLayout}
    {type : TypeDecl} {events events' : Array Event}
    (h : placeType fields shift layout type events = .ok layout' events') :
    layout'.slots = layout.slots
      ∧ layout'.folded = foldedBy fields layout.folded (statementsOf type)
      ∧ layout'.init = layout.init ++ (keptCode fields type).map (·.shift shift)
      ∧ ∀ s ∈ statementsOf type, ∃ field, fields.find? s.target.key = some field
        ∧ (field.isReadonly = true → ∃ value, Folding.evaluate s.code field.type = .ok value) := by
  unfold placeType at h
  simp only at h
  obtain ⟨next, t, hstatements, h⟩ := bind_eq_ok h
  have hnext := placeStatements_spec hstatements
  split at h
  · next hempty =>
    cases h
    refine ⟨hnext.slots, hnext.folded, ?_, hnext.known⟩
    rw [hnext.init]
    unfold keptCode
    rw [List.isEmpty_iff.mp hempty, List.append_nil]
    rfl
  · cases h
    refine ⟨hnext.slots, hnext.folded, ?_, hnext.known⟩
    show next.init ++ _ = _
    rw [hnext.init, List.append_assoc, ← List.map_append]
    rfl

theorem placeTypes_spec {fields : Table String Field} {shift : UInt32} {layout layout' : StaticLayout}
    {types : List TypeDecl} {events events' : Array Event}
    (h : placeTypes fields shift layout types events = .ok layout' events') :
    layout'.slots = layout.slots
      ∧ layout'.folded = foldedBy fields layout.folded (types.flatMap statementsOf)
      ∧ layout'.init = layout.init ++ keptInit fields shift types
      ∧ ∀ s ∈ types.flatMap statementsOf, ∃ field, fields.find? s.target.key = some field
        ∧ (field.isReadonly = true → ∃ value, Folding.evaluate s.code field.type = .ok value) := by
  -- on the types, whose offsets are shifted further each time
  induction types generalizing shift layout events with
  | nil =>
    cases h
    exact ⟨rfl, rfl, (List.append_nil _).symm, nofun⟩
  | cons type types ih =>
    unfold placeTypes at h
    obtain ⟨next, t, htype, hrest⟩ := bind_eq_ok h
    obtain ⟨hslots, hfolded, hinit, hknown⟩ := placeType_spec htype
    obtain ⟨hslots', hfolded', hinit', hknown'⟩ := ih hrest
    refine ⟨hslots'.trans hslots, ?_, ?_, ?_⟩
    · rw [hfolded', hfolded, List.flatMap_cons]
      unfold foldedBy
      rw [List.foldl_append]
    · rw [hinit', hinit, List.append_assoc]
      rfl
    · intro s hs
      rw [List.flatMap_cons] at hs
      rcases List.mem_append.mp hs with hs | hs
      · exact hknown s hs
      · exact hknown' s hs

/-! ## Modules -/

/-- The layout of a module: slots for the mutable fields, the kept code, and a value for every readonly
field. -/
theorem ofModule_spec {module : Module} {max : UInt8} {statics : StaticLayout}
    {events events' : Array Event}
    (h : StaticLayout.ofModule module max events = .ok statics events') :
    statics.slots = assignSlots (mutableKeys (staticFields module))
      ∧ (mutableKeys (staticFields module)).length ≤ max.toNat
      ∧ statics.folded
        = foldedBy (staticFields module) {} (module.compiledTypes.flatMap statementsOf)
      ∧ statics.init = keptInit (staticFields module) 0 module.compiledTypes
      ∧ (∀ s ∈ module.compiledTypes.flatMap statementsOf, ∃ field,
        (staticFields module).find? s.target.key = some field
          ∧ (field.isReadonly = true → ∃ value, Folding.evaluate s.code field.type = .ok value))
      ∧ unfoldedKeys (staticFields module) statics = [] := by
  unfold StaticLayout.ofModule at h
  simp only at h
  obtain ⟨_, hlimit, h⟩ := Progress.ofExcept_bind_eq_ok h
  obtain ⟨_, _, -, h⟩ := bind_eq_ok h
  obtain ⟨layout, _, htypes, h⟩ := bind_eq_ok h
  obtain ⟨hslots, hfolded, hinit, hknown⟩ := placeTypes_spec htypes
  cases hhead : (unfoldedKeys (staticFields module) layout).head? with
  | some key =>
    simp only [hhead] at h
    cases h
  | none =>
    simp only [hhead] at h
    cases h
    refine ⟨hslots, (toNat_of_checkLimit hlimit).2, hfolded, ?_, hknown, List.head?_eq_none_iff.mp hhead⟩
    rw [hinit]
    rfl

/-- Slots are numbered below their count. -/
theorem toNat_lt_of_assignSlots {keys : List String} {key : String} {slot : UInt8}
    (h : (assignSlots keys).find? key = some slot) :
    slot.toNat < (assignSlots keys).size := by
  have hmem := Table.mem_of_findIn h
  obtain ⟨⟨other, n⟩, hother, hslot⟩ := List.mem_map.mp hmem
  have hn : n < keys.length := by
    have := (List.mem_zipIdx hother).2.1
    omega
  have hsize : (assignSlots keys).size = keys.length := by
    unfold assignSlots Table.size
    rw [List.length_map, List.length_zipIdx]
  cases hslot
  rw [hsize, UInt8.toNat_ofNat']
  omega

theorem slots_bounded {module : Module} {max : UInt8} {statics : StaticLayout}
    {events events' : Array Event} (h : StaticLayout.ofModule module max events = .ok statics events') :
    statics.slots.size ≤ 255
      ∧ ∀ key slot, statics.slots.find? key = some slot → slot.toNat < statics.slots.size := by
  obtain ⟨hslots, hlength, -⟩ := ofModule_spec h
  have hmax := max.toNat_lt
  rw [hslots]
  refine ⟨?_, fun key slot hfind => toNat_lt_of_assignSlots hfind⟩
  unfold assignSlots Table.size
  rw [List.length_map, List.length_zipIdx]
  omega

end StackContract.Compile
