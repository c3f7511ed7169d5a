import StackContract.Proofs.Relinking
/-!
# Modules with reordered methods

A module is accepted whatever the order of the methods in its types is, as long as its script stays small
(`exists_build_of_reordered`). The static fields and the events do not depend on the methods; a body
depends on what can be looked up by name, which no order changes (`lower_within`); and methods can be
linked in any order.
-/

namespace StackContract.Lowering

open Assembly Compile
open Source (Binding Callee)

/-- Catalogues that tell the same about every name. -/
structure Catalogue.Agrees (catalogue catalogue' : Catalogue) : Prop where
  methods : ∀ name, catalogue'.methods.find? name = catalogue.methods.find? name
  compiled : ∀ name, catalogue'.compiled.contains name = catalogue.compiled.contains name
  events : catalogue'.events = catalogue.events
  statics : catalogue'.statics = catalogue.statics

theorem Catalogue.Agrees.refl (catalogue : Catalogue) : catalogue.Agrees catalogue :=
  ⟨fun _ => rfl, fun _ => rfl, rfl, rfl⟩

/-- The scope within another catalogue. -/
def Scope.within (scope : Scope) (catalogue : Catalogue) : Scope :=
  { scope with catalogue }

section

variable {scope : Scope} {catalogue : Catalogue} (h : scope.catalogue.Agrees catalogue)

theorem callBinding_within (i : Source.Instruction) (name : String) (argCount : Nat)
    (binding : Binding) : callBinding (scope.within catalogue) i name argCount binding
      = callBinding scope i name argCount binding := by
  cases binding with
  | service service => rfl
  | instructions code =>
    have hraw : rawInstruction (scope.within catalogue) i name = rawInstruction scope i name := by
      funext raw
      unfold rawInstruction
      cases Script.Opcode.ofByte? raw.opcode <;> rfl
    simp only [callBinding, hraw]
  | contract hash method => simp only [callBinding, Scope.unsupportedCall, Scope.within]

include h

theorem callMethod_within (i : Source.Instruction) (name : String) :
    callMethod (scope.within catalogue) i name = callMethod scope i name := by
  have hmethods : (scope.within catalogue).catalogue.methods.find? name
      = scope.catalogue.methods.find? name := h.methods name
  have hcompiled : (scope.within catalogue).catalogue.compiled.contains name
      = scope.catalogue.compiled.contains name := h.compiled name
  unfold callMethod
  rw [hmethods, hcompiled]
  cases scope.catalogue.methods.find? name with
  | none => rfl
  | some method =>
    dsimp only
    cases method.binding with
    | none => rfl
    | some binding => exact callBinding_within i name _ binding

theorem lowerFunction_within (position : Nat) (i : Source.Instruction) (name : String) :
    lowerFunction (scope.within catalogue) position i name = lowerFunction scope position i name := by
  have hcompiled : (scope.within catalogue).catalogue.compiled.contains name
      = scope.catalogue.compiled.contains name := h.compiled name
  unfold lowerFunction
  rw [hcompiled]
  rfl

theorem lowerCall_within (position : Nat) (i : Source.Instruction) (callee : Callee) :
    lowerCall (scope.within catalogue) position i callee = lowerCall scope position i callee := by
  cases callee with
  | method name => simp only [lowerCall, callMethod_within h]
  | intrinsic kind => cases kind <;> rfl
  | event => rfl
  | delegate args => rfl

/-- The code for an instruction depends on what the catalogue tells alone. -/
theorem lower_within (position : Nat) (i : Source.Instruction) :
    lower (scope.within catalogue) position i = lower scope position i := by
  obtain ⟨offset, op⟩ := i
  cases op with
  | call callee => exact lowerCall_within h position _ callee
  | loadFunction name => simp only [lower, lowerFunction_within h]
  | loadStatic field =>
    simp only [lower, lowerLoadStatic, Scope.within, h.events, h.statics, Scope.inconsistent]
  | storeStatic field =>
    simp only [lower, lowerStoreStatic, Scope.within, h.statics, Scope.inconsistent]
  | _ => rfl

theorem lowerFrom_within (position : Nat) (done : Array Directive) :
    lowerFrom (scope.within catalogue) position done = lowerFrom scope position done := by
  induction position, done using lowerFrom.induct scope with
  | case1 position done hlt i ih =>
    have hwithin : position < (scope.within catalogue).body.size := hlt
    rw [lowerFrom, lowerFrom, dif_pos hwithin, dif_pos hlt]
    dsimp only
    rw [lower_within h]
    refine bind_congr fun lowered => ih lowered
  | case2 position done hge =>
    have hwithin : ¬ position < (scope.within catalogue).body.size := hge
    rw [lowerFrom, lowerFrom, dif_neg hwithin, dif_neg hge]

theorem lowerBody_within (prologue : List Directive) :
    lowerBody (scope.within catalogue) prologue = lowerBody scope prologue := by
  unfold lowerBody
  rw [lowerFrom_within h]

end

end StackContract.Lowering

namespace StackContract.Contract

open Assembly Compile Script Lowering
open Compile.Progress (Succeeds)
open Source (TypeDecl Module)

/-! ## Reordered modules -/

/-- A type without its methods. -/
def withoutMethods (type : TypeDecl) : TypeDecl :=
  { type with methods := [] }

/-- Types that declare the same, their methods in some order. -/
structure TypesReordered (type type' : TypeDecl) : Prop where
  methods : type.methods.Perm type'.methods
  rest : withoutMethods type' = withoutMethods type

/-- Modules whose types declare the same, their methods in some order. -/
def Reordered (module module' : Module) : Prop :=
  List.Forall₂ TypesReordered module.types module'.types

theorem TypesReordered.role_eq {type type' : TypeDecl} (h : TypesReordered type type') :
    type'.role = type.role := by
  have hrole := congrArg TypeDecl.role h.rest
  exact hrole

theorem Reordered.compiledTypes {module module' : Module} (h : Reordered module module') :
    List.Forall₂ TypesReordered module.compiledTypes module'.compiledTypes := by
  apply List.rel_filter _ h
  intro type type' htypes
  dsimp only
  rw [htypes.role_eq]

theorem Reordered.map_withoutMethods {module module' : Module} (h : Reordered module module') :
    module'.compiledTypes.map withoutMethods = module.compiledTypes.map withoutMethods := by
  have htypes := h.compiledTypes
  generalize module.compiledTypes = types, module'.compiledTypes = types' at htypes
  induction htypes with
  | nil => rfl
  | cons hfirst _ ih => rw [List.map_cons, List.map_cons, ih, hfirst.rest]

/-- What is declared with the methods of each type is declared in some order. -/
theorem Reordered.perm_flatMap {β : Type} {module module' : Module} (h : Reordered module module')
    {f : TypeDecl → List β}
    (hf : ∀ {type type'}, TypesReordered type type' → (f type).Perm (f type')) :
    (module.compiledTypes.flatMap f).Perm (module'.compiledTypes.flatMap f) := by
  have htypes := h.compiledTypes
  generalize module.compiledTypes = types, module'.compiledTypes = types' at htypes
  induction htypes with
  | nil => exact .nil
  | cons hfirst _ ih =>
    rw [List.flatMap_cons, List.flatMap_cons]
    exact (hf hfirst).append ih

theorem Reordered.declaredMethods {module module' : Module} (h : Reordered module module') :
    (declaredMethods module).Perm (declaredMethods module') :=
  h.perm_flatMap (·.methods)

/-- A declared method, and the role of its type. -/
def roleAndMethod (entry : TypeDecl × Source.Method) : Source.TypeRole × Source.Method :=
  (entry.1.role, entry.2)

theorem Reordered.declaredBodies {module module' : Module} (h : Reordered module module') :
    ((declaredBodies module).map roleAndMethod).Perm ((declaredBodies module').map roleAndMethod) := by
  unfold Contract.declaredBodies
  rw [List.map_flatMap, List.map_flatMap]
  apply h.perm_flatMap
  intro type type' htypes
  rw [List.map_map, List.map_map]
  have hsame : roleAndMethod ∘ (fun method => (type', method))
      = roleAndMethod ∘ fun method => (type, method) := by
    funext method
    unfold roleAndMethod
    dsimp only [Function.comp]
    rw [htypes.role_eq]
  rw [hsame]
  exact (htypes.methods.filter hasBody).map _

/-! ## What does not depend on the order -/

section

variable {module module' : Module} (h : Reordered module module')

theorem placeTypes_withoutMethods (fields : Table String Source.Field) (shift : UInt32)
    (layout : StaticLayout) (types : List TypeDecl) :
    placeTypes fields shift layout (types.map withoutMethods)
      = placeTypes fields shift layout types := by
  induction types generalizing shift layout with
  | nil => rfl
  | cons type types ih => exact bind_congr fun layout => ih _ layout

include h

theorem Reordered.staticFields_eq : staticFields module' = staticFields module := by
  have hfields : ∀ module : Module, staticFields module
      = Table.ofList ((module.compiledTypes.map withoutMethods).flatMap fun type =>
        (type.fields.filter (·.isStatic)).map fun field => (type.keyOf field.name, field)) := by
    intro module
    rw [List.flatMap_map]
    rfl
  rw [hfields, hfields, h.map_withoutMethods]

/-- The static fields are laid out in the same way. -/
theorem Reordered.ofModule_eq (max : UInt8) :
    StaticLayout.ofModule module' max = StaticLayout.ofModule module max := by
  unfold StaticLayout.ofModule
  rw [h.staticFields_eq]
  dsimp only
  rw [← placeTypes_withoutMethods, h.map_withoutMethods, placeTypes_withoutMethods]

theorem Reordered.declaredEvents_eq : declaredEvents module' = declaredEvents module := by
  have hevents : ∀ module : Module, declaredEvents module
      = ((module.compiledTypes.map withoutMethods).foldl (fun found (type : TypeDecl) =>
        type.events.foldl (Discovery.addEvent type) found) {}).events := by
    intro module
    rw [List.foldl_map]
    rfl
  rw [hevents, hevents, h.map_withoutMethods]

theorem Reordered.names_nodup (hnodup : ((Contract.declaredMethods module).map (·.name)).Nodup) :
    ((Contract.declaredMethods module').map (·.name)).Nodup :=
  (h.declaredMethods.map _).nodup hnodup

/-- Methods with bodies have the same names. -/
theorem Reordered.mem_names (name : String) :
    name ∈ (Contract.declaredBodies module').map (·.2.name)
      ↔ name ∈ (Contract.declaredBodies module).map (·.2.name) := by
  have hperm := h.declaredBodies.map fun entry => entry.2.name
  rw [List.map_map, List.map_map] at hperm
  exact hperm.mem_iff.symm

/-- Both catalogues tell the same about every name. -/
theorem Reordered.agrees (hnodup : ((Contract.declaredMethods module).map (·.name)).Nodup)
    (statics : StaticLayout) : (catalogueOf module statics).Agrees (catalogueOf module' statics) where
  methods name := by
    have hkeys : (((Contract.declaredMethods module).map fun method =>
        (method.name, method)).map Prod.fst).Nodup := by
      rw [List.map_map]
      exact hnodup
    exact Table.findIn_perm hkeys (h.declaredMethods.map _) name
  compiled name := by
    rw [Bool.eq_iff_iff, List.contains_iff_mem, List.contains_iff_mem]
    exact h.mem_names name
  events := h.declaredEvents_eq
  statics := rfl

end

/-! ## Building -/

section

variable {catalogue catalogue' : Catalogue} (h : catalogue.Agrees catalogue') (limits : Limits)

include h

theorem writeBody_agrees (name : String) (locals params : UInt8)
    (body : Array Source.Instruction) (prologue : List Directive) :
    writeBody ⟨catalogue', name, locals, params, body⟩ prologue
      = writeBody ⟨catalogue, name, locals, params, body⟩ prologue := by
  have hscope : (Scope.mk catalogue name locals params body).catalogue.Agrees catalogue' := h
  have hbody : lowerBody ⟨catalogue', name, locals, params, body⟩ prologue
      = lowerBody ⟨catalogue, name, locals, params, body⟩ prologue := lowerBody_within hscope prologue
  unfold writeBody
  rw [hbody]

/-- What is built of a method depends on what the catalogue tells, and on the role of its type. -/
theorem buildMethod_agrees {type type' : TypeDecl} (hrole : type'.role = type.role)
    (method : Source.Method) : buildMethod catalogue' limits type' method
      = buildMethod catalogue limits type method := by
  unfold buildMethod
  simp only [writeBody_agrees h, hrole]

theorem buildInitializer_agrees :
    buildInitializer catalogue' limits = buildInitializer catalogue limits := by
  unfold buildInitializer
  simp only [h.statics, writeBody_agrees h]

end

/-! ## Sizes -/

theorem lt_of_mem_relocations {r : Relocation} {address : Nat} {code : List Directive}
    (h : r ∈ relocations address code) : r.address < address + extent code := by
  induction code generalizing address with
  | nil => cases h
  | cons d rest ih =>
    have hextent : extent (d :: rest) = d.size + extent rest := rfl
    rw [hextent]
    cases d with
    | mark source =>
      have hrest := ih h
      omega
    | instruction i =>
      have hrest := ih h
      have hsize : (Directive.instruction i).size = i.size := rfl
      omega
    | reference opcode target =>
      have hsize : (Directive.reference opcode target).size = 1 + placeholderWidth := rfl
      rcases List.mem_cons.mp h with rfl | h
      · dsimp only
        omega
      · have hrest := ih h
        omega

/-- The references of a body lie within it. -/
theorem Routine.Writes.inside {routine : Routine} {method : Method} (h : routine.Writes method) :
    ∀ r ∈ method.body.relocations, r.address < method.body.size := by
  obtain ⟨hentries, hpending, -, -⟩ := linkLocal_spec h.2
  have hsize := size_of_entries (length_localFill _) hentries
  intro r hr
  rw [hpending] at hr
  have hlt := lt_of_mem_relocations (List.mem_filter.mp hr).1
  omega

section

variable {limits : Limits} {module : Module} {program : Program}

theorem Stages.written (stages : Stages limits module program) {method : Method}
    (h : method ∈ stages.methods ++ stages.last) : ∃ routine : Routine, routine.Writes method := by
  rcases List.mem_append.mp h with h | h
  · obtain ⟨entry, -, hsucceeds⟩ := exists_left_of_mem stages.methods_built h
    obtain ⟨_, hbuilt⟩ := hsucceeds #[]
    obtain ⟨routine, -, hwrites⟩ := buildMethod_spec hbuilt
    exact ⟨routine, hwrites⟩
  · have hlast := stages.last_built
    split at hlast
    · obtain ⟨last, heq, hsucceeds⟩ := hlast
      rw [heq] at h
      obtain rfl := List.mem_singleton.mp h
      obtain ⟨_, hbuilt⟩ := hsucceeds #[]
      obtain ⟨routine, -, hwrites⟩ := buildInitializer_spec hbuilt
      exact ⟨routine, hwrites⟩
    · rw [hlast] at h
      cases h

/-- Linking keeps the sizes and the signatures of methods. -/
theorem Stages.linked_spec (stages : Stages limits module program) :
    List.Forall₂ (fun (placed linked : PlacedMethod) => linked.signature = placed.signature
      ∧ linked.body.size = placed.body.size) (place 0 (stages.methods ++ stages.last))
      program.methods := by
  have hwritten : ∀ placed ∈ place 0 (stages.methods ++ stages.last),
      ∃ routine : Routine, routine.Writes placed.toMethod :=
    fun placed hplaced => stages.written (mem_place hplaced).1
  refine (List.forall₂_and_left _ _).mpr ⟨hwritten, exceptMapM_eq_ok stages.linked⟩ |>.imp ?_
  intro placed linked ⟨⟨routine, hwrites⟩, hlinked⟩
  obtain ⟨hresult, hsize⟩ := linked_of_writes hwrites hlinked
  exact ⟨(signature_of_linkMethod hlinked).1, hresult.size.trans hsize.symm⟩

theorem map_eq_of_forall₂ {α β γ : Type} {f : α → γ} {g : β → γ} {xs : List α} {ys : List β}
    (h : List.Forall₂ (fun x y => g y = f x) xs ys) : ys.map g = xs.map f := by
  induction h with
  | nil => rfl
  | cons hfirst _ ih => rw [List.map_cons, List.map_cons, hfirst, ih]

theorem Stages.signatures (stages : Stages limits module program) :
    program.methods.map (·.signature) = (stages.methods ++ stages.last).map (·.signature) := by
  have hplaced := map_eq_of_forall₂ (stages.linked_spec.imp fun _ _ h => h.1)
  rw [hplaced, ← map_place 0 (stages.methods ++ stages.last), List.map_map, map_place]
  rfl

theorem Stages.length_script (stages : Stages limits module program) :
    program.script.length = totalSize (stages.methods ++ stages.last) := by
  have hplaced := map_eq_of_forall₂ (stages.linked_spec.imp fun _ _ h => h.2)
  have hscript : program.script.length = (program.methods.map (·.body.size)).sum := by
    unfold Program.script
    rw [List.length_flatMap]
    congr 1
    exact List.map_congr_left fun method _ => Body.length_encode method.body
  unfold totalSize
  rw [hscript, hplaced]
  conv => rhs; rw [← map_place 0 (stages.methods ++ stages.last), List.map_map]
  rfl

end

/-! ## Reordered builds -/

/-- What a method is built to in a type of a role. -/
def Builds (catalogue : Catalogue) (limits : Limits) (entry : Source.TypeRole × Source.Method)
    (method : Method) : Prop :=
  (buildMethod catalogue limits { name := "", role := entry.1 } entry.2).Succeeds method

/-- The stages of a build come to a program with the methods in another order, too. -/
theorem exists_stages_of_reordered {limits : Limits} {module module' : Module} {program : Program}
    (h : Reordered module module') (stages : Stages limits module program)
    (hsmall : program.script.length < 0x8000_0000) :
    ∃ program', Nonempty (Stages limits module' program') ∧ program'.events = program.events
      ∧ (program.methods.map (·.signature)).Perm (program'.methods.map (·.signature)) := by
  have hagrees := h.agrees stages.names_nodup stages.statics
  have hsize := stages.length_script
  -- the methods in the other order
  obtain ⟨methods, hbuilt, hperm⟩ : ∃ methods, List.Forall₂
      (fun (entry : TypeDecl × Source.Method) method =>
        (buildMethod (catalogueOf module' stages.statics) limits entry.1 entry.2).Succeeds method)
      (declaredBodies module') methods ∧ stages.methods.Perm methods := by
    have hrole : ∀ catalogue', (catalogueOf module stages.statics).Agrees catalogue' →
        ∀ (entry : TypeDecl × Source.Method) (method : Method),
        (buildMethod catalogue' limits entry.1 entry.2).Succeeds method
          ↔ Builds (catalogueOf module stages.statics) limits (roleAndMethod entry) method := by
      intro catalogue' hagrees entry method
      have hsame : buildMethod catalogue' limits entry.1 entry.2
          = buildMethod (catalogueOf module stages.statics) limits
            { name := "", role := entry.1.role } entry.2 := buildMethod_agrees hagrees limits rfl entry.2
      unfold Builds roleAndMethod
      rw [hsame]
    have hbuilt := List.forall₂_map_left_iff.mpr
      (stages.methods_built.imp fun entry method => (hrole _ (.refl _) entry method).mp)
    obtain ⟨methods, hmethods, hperm⟩ := List.perm_comp_forall₂ h.declaredBodies.symm hbuilt
    refine ⟨methods, ?_, hperm.symm⟩
    exact (List.forall₂_map_left_iff.mp hmethods).imp fun entry method =>
      (hrole _ hagrees entry method).mpr
  have hall : (stages.methods ++ stages.last).Perm (methods ++ stages.last) := hperm.append_right _
  have htotal : totalSize (methods ++ stages.last) = totalSize (stages.methods ++ stages.last) :=
    (hall.map _).sum_eq.symm
  have hinside : ∀ method ∈ stages.methods ++ stages.last,
      ∀ r ∈ method.body.relocations, r.address < method.body.size := by
    intro method hmethod
    obtain ⟨routine, hwrites⟩ := stages.written hmethod
    exact hwrites.inside
  obtain ⟨linked, hlinked⟩ := exists_link_of_perm stages.linked hall hinside (by omega)
  obtain ⟨stages', hmethods', hlast'⟩ : ∃ stages' : Stages limits module'
      ⟨linked, program.fields, program.events⟩, stages'.methods = methods
        ∧ stages'.last = stages.last := ⟨{
    statics := stages.statics
    methods
    last := stages.last
    statics_eq := by
      rw [h.ofModule_eq]
      exact stages.statics_eq
    names_nodup := h.names_nodup stages.names_nodup
    name_free := fun hneeds hmem => stages.name_free hneeds ((h.mem_names _).mp hmem)
    methods_built := hbuilt
    last_built := by
      rw [buildInitializer_agrees hagrees]
      exact stages.last_built
    small := by
      intro method hmethod
      have hfinish := (mem_place hmethod).2
      unfold checkPlaced
      dsimp only
      rw [if_pos]
      unfold maxScriptSize
      omega
    linked := hlinked
    fields := stages.fields
    events := stages.events.trans h.declaredEvents_eq.symm }, rfl, rfl⟩
  refine ⟨_, ⟨stages'⟩, rfl, ?_⟩
  rw [stages.signatures, stages'.signatures, hmethods', hlast']
  exact hall.map _

/-- An accepted module is accepted with the methods of its types in every other order, if its script is
small. -/
theorem exists_build_of_reordered {limits : Limits} {module module' : Module} {contract : Contract}
    (hbuild : build limits module = .ok contract) (h : Reordered module module')
    (hsmall : contract.program.script.length < 0x8000_0000) :
    ∃ contract', build limits module' = .ok contract'
      ∧ (contract.program.methods.map (·.signature)).Perm
        (contract'.program.methods.map (·.signature)) := by
  obtain ⟨⟨_, hprogram⟩, hinterface⟩ := build_eq_ok_iff.mp hbuild
  obtain ⟨stages⟩ := stages_of_buildProgram hprogram
  obtain ⟨program', ⟨stages'⟩, hevents, hperm⟩ := exists_stages_of_reordered h stages hsmall
  obtain ⟨interface', hinterface'⟩ := exists_ofProgram_of_perm hinterface hevents hperm
  exact ⟨⟨program', interface'⟩, build_eq_ok_iff.mpr ⟨stages'.succeeds #[], hinterface'⟩, hperm⟩

end StackContract.Contract
