import StackContract.Proofs.Entries
import StackContract.Proofs.JsonText
import StackContract.Proofs.LinkedImage
import StackContract.Proofs.Readers
import StackContract.Proofs.StaticStorage
/-!
# The surface of a contract

What callers see of a contract: a name has an entry if one method is exported under it, the entry is
where the code of that method starts, and the interface reads back from its JSON text
(`surface_of_build`).
-/

namespace StackContract.Contract

open Assembly Compile Script
open Json (Inverts Exact ofText ofMembers nesting)
open Source (Module)

/-! ## Statement -/

instance (module : Module) : Decidable (NeedsInitializer module) :=
  inferInstanceAs (Decidable (_ ∨ _))

/-- The signatures of the methods of an image, in the order of the script. -/
def imageSignatures (module : Module) : List Signature :=
  (declaredBodies module).map methodSignature
    ++ if NeedsInitializer module then [.initializer] else []

/-- The names that callers would see. -/
def exportedNames (module : Module) : List String :=
  ((imageSignatures module).filter (·.isExported)).map (·.displayName)

/-- The methods that are exported under a name. -/
def Program.exportedAs (program : Program) (name : String) : List PlacedMethod :=
  program.methods.filter fun method =>
    method.signature.isExported && method.signature.displayName = name

/-- The first instruction of a method stands at its base. -/
def StartsAtBase (program : Program) (method : PlacedMethod) : Prop :=
  ∃ first, method.body.instructions.head? = some first
    ∧ decode program.script.toArray method.base = .ok ⟨first, method.base⟩

/-- What callers see of a contract. -/
structure Surface (module : Module) (contract : Contract) : Prop where
  /-- The image has the methods of the module that have a body, and the initializer if it is needed. -/
  signatures : contract.program.methods.map (·.signature) = imageSignatures module
  starts : ∀ method ∈ contract.program.methods, StartsAtBase contract.program method
  /-- A name has an entry if one method is exported under it, and then the entry is its base. -/
  entry_iff : ∀ name entry, contract.entry? name = some entry
    ↔ ∃ method, contract.program.exportedAs name = [method] ∧ method.base = entry
  entries_apart : ∀ name name' entry, contract.entry? name = some entry →
    contract.entry? name' = some entry → name' = name
  /-- The interface is read back from its text, so that it gives every name its entry. -/
  read_back : ∃ interface, Interface.parse? contract.interfaceText = some interface
    ∧ interface = contract.interface ∧ ∀ name, interface.offset? name = contract.entry? name

/-! ## The text of an interface -/

theorem InterfaceType.inverts : Inverts InterfaceType.read fun type => ofText type.tag :=
  Json.inverts_enumeration fun type => by cases type <;> decide

theorem InterfaceParameter.inverts : Inverts InterfaceParameter.read InterfaceParameter.toJson := by
  intro depth p b
  refine Json.record_ofMembers (by rfl) (by decide) ?_ depth b
  intro depth b
  simp only [List.map_cons, List.map_nil, Option.bind_eq_bind, Option.pure_def,
    Json.required_bind Json.inverts_text, Json.required_bind InterfaceType.inverts,
    List.forall_mem_cons, List.not_mem_nil, false_implies, implies_true, Option.some.injEq, and_true,
    and_assoc]

theorem InterfaceMethod.inverts : Inverts InterfaceMethod.read InterfaceMethod.toJson := by
  intro depth method b
  refine Json.record_ofMembers (by rfl) (by decide) ?_ depth b
  intro depth b
  simp only [List.map_cons, List.map_nil, Option.bind_eq_bind, Option.pure_def,
    Json.required_bind Json.inverts_text, Json.required_bind InterfaceType.inverts,
    Json.required_bind (Json.inverts_list InterfaceParameter.inverts), List.forall_mem_cons,
    List.not_mem_nil, false_implies, implies_true, Option.some.injEq, and_true, and_assoc]

theorem InterfaceEvent.inverts : Inverts InterfaceEvent.read InterfaceEvent.toJson := by
  intro depth event b
  refine Json.record_ofMembers (by rfl) (by decide) ?_ depth b
  intro depth b
  simp only [List.map_cons, List.map_nil, Option.bind_eq_bind, Option.pure_def,
    Json.required_bind Json.inverts_text,
    Json.required_bind (Json.inverts_list InterfaceParameter.inverts), List.forall_mem_cons,
    List.not_mem_nil, false_implies, implies_true, Option.some.injEq, and_true, and_assoc]

theorem Interface.inverts : Inverts Interface.read Interface.toJson := by
  intro depth interface b
  refine Json.record_ofMembers (by rfl) (by decide) ?_ depth b
  intro depth b
  simp only [List.map_cons, List.map_nil, Option.bind_eq_bind, Option.pure_def,
    Json.required_bind Json.inverts_text,
    Json.required_bind (Json.inverts_list InterfaceMethod.inverts),
    Json.required_bind (Json.inverts_list InterfaceEvent.inverts), List.forall_mem_cons,
    List.not_mem_nil, false_implies, implies_true, Option.some.injEq, and_true, and_assoc]

theorem InterfaceParameter.exact (p : InterfaceParameter) : Exact p.toJson :=
  .members (by simp [Exact.text])

theorem exact_parameters (params : List InterfaceParameter) :
    Exact (.list (params.map (·.toJson))) :=
  .list (by simp [InterfaceParameter.exact])

theorem Interface.exact (interface : Interface) : Exact interface.toJson := by
  have hmethod (method : InterfaceMethod) : Exact method.toJson :=
    .members (by simp [Exact.text, exact_parameters])
  have hevent (event : InterfaceEvent) : Exact event.toJson :=
    .members (by simp [Exact.text, exact_parameters])
  exact .members (by simp [Exact.text, Exact.list, hmethod, hevent])

/-- An interface is an object of lists of objects with lists of parameters. -/
theorem Interface.nesting_le (interface : Interface) : nesting interface.toJson ≤ 5 := by
  have hparams (params : List InterfaceParameter) :
      nesting (.list (params.map (·.toJson))) ≤ 2 := by
    simp [Json.nesting_list_le, InterfaceParameter.toJson, Json.nesting_ofMembers_le]
  simp [Interface.toJson, InterfaceMethod.toJson, InterfaceEvent.toJson, Json.nesting_ofMembers_le,
    Json.nesting_list_le, hparams]

/-- An interface is read back from its text. -/
theorem Interface.parse?_pretty (interface : Interface) :
    Interface.parse? interface.toJson.pretty = some interface := by
  have hdepth : nesting interface.toJson ≤ 127 :=
    Nat.le_trans interface.nesting_le (by decide)
  unfold Interface.parse?
  rw [Json.parse_pretty interface.exact, Option.bind_some]
  exact (Interface.inverts 127 interface interface).mpr ⟨hdepth, rfl⟩

/-! ## Methods -/

/-- Code with bytes starts with an instruction at its first address. -/
theorem head?_listing {fill : Filling} {code : List Directive} (h : 0 < extent code) :
    ∃ first, (listing fill 0 code).head? = some (0, first) := by
  obtain ⟨marks, d, rest, rfl, hmarks, hsize⟩ := exists_first_of_extent_pos h
  rw [listing_append, listing_of_extent_eq_zero hmarks, hmarks]
  cases d with
  | mark source => exact absurd hsize (Nat.lt_irrefl 0)
  | instruction i => exact ⟨i, rfl⟩
  | reference opcode target => exact ⟨_, rfl⟩

theorem Resident.startsAtBase {program : Program} {routine : Routine} {method : PlacedMethod}
    (h : Resident program.script.toArray (baseOf? program.methods) routine method) :
    StartsAtBase program method := by
  obtain ⟨first, hhead⟩ := head?_listing (extent_closing_pos routine.directives)
  have hentries := h.linked.entries
  refine ⟨first, ?_, h.read (0, first) ?_⟩
  · unfold Body.instructions Table.values
    rw [hentries, List.head?_map]
    exact congrArg (Option.map Prod.snd) hhead
  · rw [hentries]
    exact List.mem_of_head? hhead

variable {limits : Limits} {module : Module} {program : Program} {contract : Contract}

theorem Image.signatures_eq (image : Image limits module program) :
    program.methods.map (·.signature) = imageSignatures module := by
  have hlinked : ∀ {routines : List Routine} {methods : List PlacedMethod},
      List.Forall₂ (Resident program.script.toArray (baseOf? program.methods)) routines methods →
      methods.map (·.signature) = routines.map (·.signature) := by
    intro routines methods h
    induction h with
    | nil => rfl
    | cons hhead _ ih => rw [List.map_cons, List.map_cons, ih, hhead.linked.signature]
  have hdeclared : ∀ {entries : List (Source.TypeDecl × Source.Method)} {routines : List Routine},
      List.Forall₂ (IsMethod limits (catalogueOf module image.statics)) entries routines →
      routines.map (·.signature) = entries.map methodSignature := by
    intro entries routines h
    induction h with
    | nil => rfl
    | cons hhead _ ih => rw [List.map_cons, List.map_cons, ih, hhead.signature]
  have hlast : image.initializer.map (·.signature)
      = if NeedsInitializer module then [.initializer] else [] := by
    have hlast := image.last
    by_cases hneeds : NeedsInitializer module
    · rw [if_pos (image.needsInitializer_iff.mpr hneeds)] at hlast
      obtain ⟨routine, heq, hroutine⟩ := hlast
      rw [heq, if_pos hneeds, List.map_singleton, hroutine.signature]
    · rw [if_neg (mt image.needsInitializer_iff.mp hneeds)] at hlast
      rw [hlast, if_neg hneeds, List.map_nil]
  rw [hlinked image.resident]
  unfold Image.all imageSignatures
  rw [List.map_append, hdeclared image.methods, hlast]

/-- Methods of an image at one base are the same. -/
theorem Image.eq_of_base (image : Image limits module program) {method other : PlacedMethod}
    (hmethod : method ∈ program.methods) (hother : other ∈ program.methods)
    (h : other.base = method.base) : other = method := by
  have hnodup : (program.methods.map (·.base)).Nodup :=
    List.pairwise_map.mpr (image.laid.increasing.2.imp fun h => Nat.ne_of_lt h)
  exact List.inj_on_of_nodup_map hnodup hother hmethod h

/-! ## Names -/

/-- Among values that differ under a function, one of them is found alone. -/
theorem filter_eq_singleton {α β : Type} [DecidableEq β] {f : α → β} {xs : List α}
    (h : (xs.map f).Nodup) {a : α} (ha : a ∈ xs) : (xs.filter fun x => f x = f a) = [a] := by
  induction xs with
  | nil => cases ha
  | cons x xs ih =>
    rw [List.map_cons, List.nodup_cons] at h
    rcases List.mem_cons.mp ha with rfl | ha
    · have hrest : (xs.filter fun x => f x = f a) = [] := by
        rw [List.filter_eq_nil_iff]
        intro y hy heq
        exact h.1 (List.mem_map.mpr ⟨y, hy, of_decide_eq_true heq⟩)
      rw [List.filter_cons, if_pos (decide_eq_true rfl), hrest]
    · have hne : ¬ decide (f x = f a) = true := by
        intro heq
        refine h.1 ?_
        rw [of_decide_eq_true heq]
        exact List.mem_map_of_mem ha
      rw [List.filter_cons, if_neg hne, ih h.2 ha]

theorem mem_exportedAs {name : String} {method : PlacedMethod} :
    method ∈ program.exportedAs name ↔ method ∈ program.methods
      ∧ method.signature.isExported = true ∧ method.signature.displayName = name := by
  unfold Program.exportedAs
  rw [List.mem_filter, Bool.and_eq_true, decide_eq_true_iff]

/-- The names that callers see are all different. -/
theorem nodup_exportedNames (h : build limits module = .ok contract) :
    (exportedNames module).Nodup := by
  obtain ⟨⟨image⟩, hinterface⟩ := image_of_build h
  have hnodup := nodup_exported hinterface
  unfold exportedNames
  rw [← image.signatures_eq, List.filter_map, List.map_map]
  exact hnodup

/-- A name has an entry if it is that of one exported method. -/
theorem entry?_eq_some_iff (h : build limits module = .ok contract) {name : String} {entry : Nat} :
    contract.entry? name = some entry
      ↔ ∃ method, contract.program.exportedAs name = [method] ∧ method.base = entry := by
  obtain ⟨-, hinterface⟩ := image_of_build h
  constructor
  · intro hentry
    obtain ⟨method, hmethod, hexported, hname, hbase⟩ := exported_of_entry? h hentry
    have hsingle := filter_eq_singleton (nodup_exported hinterface)
      (List.mem_filter.mpr ⟨hmethod, hexported⟩)
    refine ⟨method, ?_, hbase⟩
    rw [List.filter_filter, hname] at hsingle
    unfold Program.exportedAs
    rw [← hsingle]
    exact List.filter_congr fun other _ => Bool.and_comm ..
  · rintro ⟨method, hsingle, rfl⟩
    have hmem : method ∈ contract.program.exportedAs name := by
      rw [hsingle]
      exact List.mem_singleton_self method
    obtain ⟨hmethod, hexported, rfl⟩ := mem_exportedAs.mp hmem
    exact entry?_of_exported h hmethod hexported

/-! ## Accepted modules -/

/-- Callers see the exported methods of an accepted module under names of their own, and a module in which
two exported methods have one name is refused. -/
theorem surface_of_build :
    (∀ limits module contract, build limits module = .ok contract → Surface module contract)
    ∧ ∀ limits module, ¬ (exportedNames module).Nodup →
      ∃ failure, build limits module = .error failure := by
  constructor
  · intro limits module contract h
    obtain ⟨⟨image⟩, -⟩ := image_of_build h
    refine ⟨image.signatures_eq, ?_, fun name entry => entry?_eq_some_iff h, ?_, ?_⟩
    · intro method hmethod
      obtain ⟨routine, -, hresident⟩ := exists_left_of_mem image.resident hmethod
      exact hresident.startsAtBase
    · intro name name' entry hentry hentry'
      obtain ⟨method, hmethod, -, rfl, hbase⟩ := exported_of_entry? h hentry
      obtain ⟨other, hother, -, rfl, hbase'⟩ := exported_of_entry? h hentry'
      rw [image.eq_of_base hmethod hother (hbase'.trans hbase.symm)]
    · exact ⟨contract.interface, contract.interface.parse?_pretty, rfl, fun _ => rfl⟩
  · intro limits module hclash
    cases hbuild : build limits module with
    | error failure => exact ⟨failure, rfl⟩
    | ok contract => exact absurd (nodup_exportedNames hbuild) hclash

/-- A module in which two exported methods have the same display name. -/
def clashing : Source.Module where
  types := [{ name := "T", methods := [samplePick, { samplePick with name := "T::other" }] }]

theorem surface_sample :
    (∃ contract, build {} sample = .ok contract ∧ Surface sample contract)
    ∧ ∃ failure, build {} clashing = .error failure := by
  obtain ⟨contract, h⟩ := build_sample
  exact ⟨⟨contract, h, surface_of_build.1 _ _ _ h⟩, surface_of_build.2 _ _ (by decide)⟩

end StackContract.Contract
