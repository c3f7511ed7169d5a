import StackContract.Proofs.Loading
/-!
# Bodies without spliced code

Bindings to machine instructions are spliced into the code of the methods that call them. In a module
that calls none, every method of the image is a prologue and code of the forms that lowering writes
(`Image.code`).
-/

namespace StackContract.Contract

open Assembly Compile Script Lowering
open Source (TypeDecl Module)

/-- Whether an instruction calls a method that stands for machine instructions. -/
def SplicesIn (module : Module) (i : Source.Instruction) : Prop :=
  ∃ method ∈ declaredMethods module, ∃ code, i.op = .call (.method method.name)
    ∧ method.binding = some (.instructions code)

/-- No code of a module calls a method that stands for machine instructions. -/
structure SplicesNothing (module : Module) : Prop where
  bodies : ∀ entry ∈ declaredBodies module, ∀ i ∈ entry.2.body, ¬ SplicesIn module i
  initializers : ∀ type ∈ module.compiledTypes, ∀ i ∈ type.staticInit, ¬ SplicesIn module i

/-- A module without bindings to machine instructions splices none. -/
theorem splicesNothing_of_unbound {module : Module} (h : ∀ method ∈ declaredMethods module, ∀ code,
    method.binding ≠ some (.instructions code)) : SplicesNothing module where
  bodies := by
    intro _ _ _ _ ⟨method, hmethod, code, _, hbinding⟩
    exact h method hmethod code hbinding
  initializers := by
    intro _ _ _ _ ⟨method, hmethod, code, _, hbinding⟩
    exact h method hmethod code hbinding

theorem splicesIn_of_shift {module : Module} {i : Source.Instruction} {delta : UInt32}
    (h : SplicesIn module (i.shift delta)) : SplicesIn module i := by
  obtain ⟨method, hmethod, code, hop, hbinding⟩ := h
  refine ⟨method, hmethod, code, ?_, hbinding⟩
  obtain ⟨offset, op⟩ := i
  cases op <;> cases hop
  rfl

theorem splicesIn_of_splices {module : Module} {statics : StaticLayout} {scope : Scope}
    {i : Source.Instruction} (hscope : scope.catalogue = catalogueOf module statics)
    (h : scope.Splices i) : SplicesIn module i := by
  obtain ⟨name, method, code, hop, hfind, hbinding⟩ := h
  rw [hscope] at hfind
  obtain ⟨other, hother, heq⟩ := List.mem_map.mp (Table.mem_of_findIn hfind)
  cases heq
  exact ⟨method, hother, code, hop, hbinding⟩

/-- Kept code comes from the initializers of the types. -/
theorem exists_of_mem_keptInit {fields : Table String Source.Field} {shift : UInt32}
    {types : List TypeDecl} {i : Source.Instruction} (h : i ∈ keptInit fields shift types) :
    ∃ type ∈ types, ∃ j ∈ type.staticInit, ∃ delta, i = j.shift delta := by
  induction types generalizing shift with
  | nil => cases h
  | cons type types ih =>
    rcases List.mem_append.mp h with h | h
    · obtain ⟨j, hj, rfl⟩ := List.mem_map.mp h
      refine ⟨type, List.mem_cons_self .., j, ?_, shift, rfl⟩
      have hjoin := splitStatements_join [] type.staticInit
      rw [List.reverse_nil, List.nil_append] at hjoin
      rw [← hjoin]
      rcases List.mem_append.mp hj with hj | hj
      · obtain ⟨statement, hstatement, hj⟩ := List.mem_flatMap.mp hj
        exact List.mem_append_left _
          (List.mem_flatMap.mpr ⟨statement, (List.mem_filter.mp hstatement).1, hj⟩)
      · exact List.mem_append_right _ (List.mem_filter.mp hj).1
    · obtain ⟨found, hfound, hj⟩ := ih h
      exact ⟨found, List.mem_cons_of_mem _ hfound, hj⟩

/-- What is written for source instructions that splice nothing. -/
theorem Lowers.code {scope : Scope} {position : Nat} {carry : Carry} {segments : List Segment}
    (hslots : scope.catalogue.SlotsBounded) (hcarry : carry.Bounded scope)
    (hsplices : ∀ i ∈ scope.body, ¬ scope.Splices i) (h : Lowers scope position carry segments) :
    Code scope (segments.flatMap Segment.code) := by
  induction h with
  | finish _ => exact .nil
  | next hposition hlower _ ih =>
    obtain ⟨hcode, hnext⟩ :=
      lower_code hslots hcarry (hsplices _ (Array.getElem_mem hposition)) hlower
    rw [List.flatMap_cons]
    exact .append (.cons (.common (.mark _)) hcode) (ih hnext)

namespace Image

variable {limits : Limits} {module : Module} {program : Program}

/-- The scopes of the routines of an image splice nothing if the module does not. -/
theorem not_splices (image : Image limits module program) (hsplices : SplicesNothing module)
    {routine : Routine} (h : routine ∈ image.all) :
    ∀ i ∈ routine.scope.body, ¬ routine.scope.Splices i := by
  intro i hi hsplice
  rcases image.mem_all h with ⟨entry, hentry, hroutine⟩ | hroutine
  · rw [hroutine.scope] at hi hsplice
    exact hsplices.bodies entry hentry i (List.mem_toArray.mp hi) (splicesIn_of_splices rfl hsplice)
  · rw [hroutine.scope] at hi hsplice
    obtain ⟨events, events', hstatics⟩ := image.statics_eq
    have hinit : i ∈ image.statics.init := List.mem_toArray.mp hi
    rw [(ofModule_spec hstatics).2.2.2.1] at hinit
    obtain ⟨type, htype, j, hj, delta, rfl⟩ := exists_of_mem_keptInit hinit
    exact hsplices.initializers type htype j hj
      (splicesIn_of_shift (splicesIn_of_splices rfl hsplice))

theorem catalogue_eq (image : Image limits module program) {routine : Routine}
    (h : routine ∈ image.all) : routine.scope.catalogue = image.catalogue := by
  rcases image.mem_all h with ⟨entry, -, hroutine⟩ | hroutine <;> rw [hroutine.scope] <;> rfl

theorem lowers (image : Image limits module program) {routine : Routine} (h : routine ∈ image.all) :
    Lowers routine.scope 0 {} routine.segments := by
  rcases image.mem_all h with ⟨entry, -, hroutine⟩ | hroutine <;> exact hroutine.lowers

/-- The methods of an image are prologues and code of the forms that lowering writes. -/
theorem code (image : Image limits module program) (hsplices : SplicesNothing module)
    {routine : Routine} (h : routine ∈ image.all) :
    ∃ body, routine.code = routine.prologue ++ body ∧ Code routine.scope body := by
  have hslots : routine.scope.catalogue.SlotsBounded := by
    rw [image.catalogue_eq h]
    exact image.slotsBounded
  have hcode := Lowers.code hslots (carry_bounded_empty _) (image.not_splices hsplices h) (image.lowers h)
  rcases closing_eq routine.directives with hclosing | hclosing
  · exact ⟨_, hclosing, hcode⟩
  · refine ⟨_, hclosing.trans (List.append_assoc ..), hcode.append (.singleton ?_)⟩
    exact .plain rfl

end Image

end StackContract.Contract
