import StackContract.Proofs.Bodies
import StackContract.Proofs.Entries
import StackContract.Proofs.Simulation
/-!
# Pairs of images

Methods of an image have names of their own, so a name leads to a routine and its base (`Image.At`).
Two images whose routines of the same names are alike make a `Pairing` of their programs
(`Correspondence.pairing`).
-/

namespace StackContract.Contract

open Assembly Script Lowering Machine
open Source (TypeDecl Module)

/-! ## Names -/

theorem sublist_declaredBodies (module : Module) :
    ((declaredBodies module).map (·.2.name)).Sublist ((declaredMethods module).map (·.name)) := by
  unfold declaredBodies declaredMethods
  induction module.compiledTypes with
  | nil => exact .slnil
  | cons type types ih =>
    rw [List.flatMap_cons, List.flatMap_cons, List.map_append, List.map_append, List.map_map]
    exact List.Sublist.append (List.Sublist.map _ List.filter_sublist) ih

namespace Image

variable {limits : Compile.Limits} {module : Module} {program : Program}

theorem names_eq (image : Image limits module program) :
    image.routines.map (·.signature.name) = (declaredBodies module).map (·.2.name) := by
  have hsame : ∀ {entries : List (TypeDecl × Source.Method)} {routines : List Routine},
      List.Forall₂ (IsMethod limits (catalogueOf module image.statics)) entries routines →
      routines.map (·.signature.name) = entries.map (·.2.name) := by
    intro entries routines h
    induction h with
    | nil => rfl
    | cons hhead _ ih =>
      rw [List.map_cons, List.map_cons, ih, hhead.signature]
      rfl
  exact hsame image.methods

/-- A routine of an image is that of a declared method, or prepares static fields that need it. -/
theorem kind_of_mem (image : Image limits module program) {routine : Routine}
    (h : routine ∈ image.all) :
    (∃ entry ∈ declaredBodies module, IsMethod limits image.catalogue entry routine)
      ∨ (image.statics.needsInitializer = true ∧ IsInitializer limits image.catalogue routine) := by
  rcases List.mem_append.mp h with h | h
  · exact .inl (exists_left_of_mem image.methods h)
  · have hlast := image.last
    split at hlast
    · next hneeds =>
      obtain ⟨initializer, hinitializer, hroutine⟩ := hlast
      rw [hinitializer] at h
      rw [List.mem_singleton.mp h]
      exact .inr ⟨hneeds, hroutine⟩
    · rw [hlast] at h
      cases h

/-- The names of the routines of an image. -/
theorem mem_names (image : Image limits module program) (name : String) :
    name ∈ image.all.map (·.signature.name) ↔ name ∈ (declaredBodies module).map (·.2.name)
      ∨ (image.statics.needsInitializer = true ∧ name = initializerName) := by
  unfold all
  rw [List.map_append, List.mem_append, image.names_eq]
  refine or_congr_right ?_
  have hlast := image.last
  split at hlast
  · next hneeds =>
    obtain ⟨routine, heq, hroutine⟩ := hlast
    have hname : routine.signature.name = initializerName := by
      rw [hroutine.signature]
      rfl
    rw [heq, List.map_singleton, List.mem_singleton, hname]
    exact ⟨fun h => ⟨hneeds, h⟩, fun h => h.2⟩
  · next hneeds =>
    rw [hlast]
    exact ⟨nofun, fun h => absurd h.1 hneeds⟩

/-- Routines of an image have names of their own. -/
theorem nodup (image : Image limits module program) :
    (image.all.map (·.signature.name)).Nodup := by
  unfold all
  have hbodies := image.names_nodup.sublist (sublist_declaredBodies module)
  rw [List.map_append, image.names_eq]
  have hlast := image.last
  split at hlast
  · next hneeds =>
    obtain ⟨routine, heq, hroutine⟩ := hlast
    rw [heq, List.nodup_append]
    refine ⟨hbodies, List.pairwise_singleton _ _, ?_⟩
    rintro name hname other hother rfl
    rw [List.mem_singleton.mp hother] at hname
    refine image.name_free hneeds ?_
    rw [show initializerName = routine.signature.name by rw [hroutine.signature]; rfl]
    exact hname
  · rw [hlast, List.map_nil, List.append_nil]
    exact hbodies

/-- The methods of an image have the names of its routines. -/
theorem nodup_methods (image : Image limits module program) :
    (program.methods.map (·.signature.name)).Nodup := by
  have hsame : ∀ {routines : List Routine} {methods : List PlacedMethod},
      List.Forall₂ (Resident program.script.toArray (baseOf? program.methods)) routines methods →
      methods.map (·.signature.name) = routines.map (·.signature.name) := by
    intro routines methods h
    induction h with
    | nil => rfl
    | cons hhead _ ih => rw [List.map_cons, List.map_cons, ih, hhead.linked.signature]
  rw [hsame image.resident]
  exact image.nodup

theorem baseOf?_eq (image : Image limits module program) {method : PlacedMethod}
    (h : method ∈ program.methods) :
    baseOf? program.methods method.signature.name = some method.base := by
  have hnodup := image.nodup_methods
  unfold baseOf?
  generalize program.methods = methods at h hnodup
  induction methods with
  | nil => cases h
  | cons first methods ih =>
    rw [List.map_cons, List.nodup_cons] at hnodup
    rcases List.mem_cons.mp h with rfl | h
    · rw [List.find?_cons, decide_eq_true rfl]
      rfl
    · have hname : first.signature.name ≠ method.signature.name := by
        intro hname
        rw [hname] at hnodup
        exact hnodup.1 (List.mem_map_of_mem h)
      rw [List.find?_cons, decide_eq_false hname]
      exact ih h hnodup.2

/-- A routine of an image, and its method. -/
structure At (image : Image limits module program) (routine : Routine) (method : PlacedMethod) :
    Prop where
  routine_mem : routine ∈ image.all
  method_mem : method ∈ program.methods
  resident : Resident program.script.toArray (baseOf? program.methods) routine method

theorem exists_at (image : Image limits module program) {routine : Routine}
    (h : routine ∈ image.all) : ∃ method, image.At routine method := by
  obtain ⟨method, hmethod, hresident⟩ := exists_right_of_mem image.resident h
  exact ⟨method, h, hmethod, hresident⟩

theorem exists_at_of_mem (image : Image limits module program) {method : PlacedMethod}
    (h : method ∈ program.methods) : ∃ routine, image.At routine method := by
  obtain ⟨routine, hroutine, hresident⟩ := exists_left_of_mem image.resident h
  exact ⟨routine, hroutine, h, hresident⟩

/-- The base of a routine goes by its name. -/
theorem At.base {image : Image limits module program} {routine : Routine} {method : PlacedMethod}
    (h : image.At routine method) :
    baseOf? program.methods routine.signature.name = some method.base := by
  rw [← h.resident.linked.signature]
  exact image.baseOf?_eq h.method_mem

/-- A program has no initializer if it has no method of that name. -/
theorem initializer?_eq_none_iff (image : Image limits module program) :
    program.initializer? = none ↔ initializerName ∉ image.all.map (·.signature.name) := by
  constructor
  · intro hnone hthere
    obtain ⟨routine, hroutine, hname⟩ := List.mem_map.mp hthere
    obtain ⟨method, hat⟩ := image.exists_at hroutine
    have hbase := hat.base
    rw [hname, show baseOf? program.methods initializerName = none from hnone] at hbase
    cases hbase
  · intro hthere
    cases hbase : program.initializer? with
    | none => rfl
    | some entry =>
      obtain ⟨method, hfind, -⟩ := Option.map_eq_some_iff.mp hbase
      have hfound := List.find?_some hfind
      have hname := of_decide_eq_true hfound
      obtain ⟨routine, hat⟩ := image.exists_at_of_mem (List.mem_of_find?_eq_some hfind)
      rw [hat.resident.linked.signature] at hname
      exact absurd (List.mem_map.mpr ⟨routine, hat.routine_mem, hname⟩) hthere

/-- Methods at one base have one name. -/
theorem At.name_iff {image : Image limits module program} {routine other : Routine}
    {method otherMethod : PlacedMethod} (h : image.At routine method)
    (h' : image.At other otherMethod) :
    method.base = otherMethod.base ↔ routine.signature.name = other.signature.name := by
  constructor
  · intro hbase
    rw [← h.resident.linked.signature, ← h'.resident.linked.signature]
    have hpairs := image.laid.increasing.2
    -- bases increase, so they tell methods apart
    have hsame : ∀ ⦃m⦄, m ∈ program.methods → ∀ ⦃m'⦄, m' ∈ program.methods →
        m.base = m'.base → m = m' := by
      refine List.Pairwise.forall_of_forall_of_flip (fun _ _ _ => rfl) (hpairs.imp ?_)
        (hpairs.imp ?_)
      · intro m m' hlt heq
        exact absurd heq (Nat.ne_of_lt hlt)
      · intro m m' hlt heq
        exact absurd heq.symm (Nat.ne_of_lt hlt)
    rw [hsame h.method_mem h'.method_mem hbase]
  · intro hname
    have hbase := h.base
    rw [hname, h'.base] at hbase
    exact (Option.some.inj hbase).symm

end Image

/-! ## Alike routines -/

section

variable {link : SlotLink} {routine routine' : Routine} {body body' : List Directive}

theorem not_mark_slotPrologue (locals params : UInt8) (source : UInt32) :
    .mark source ∉ slotPrologue locals params := by
  intro hmem
  unfold slotPrologue at hmem
  split at hmem
  · cases hmem
  · cases List.mem_singleton.mp hmem

/-- Methods with the same slots and alike bodies do the same. -/
theorem routinesAlike_of_method (hlocals : routine.scope.locals = routine'.scope.locals)
    (hparams : routine.scope.params = routine'.scope.params)
    (hprologue : routine.prologue = slotPrologue routine.scope.locals routine.scope.params)
    (hprologue' : routine'.prologue = slotPrologue routine'.scope.locals routine'.scope.params)
    (hcode : routine.code = routine.prologue ++ body)
    (hcode' : routine'.code = routine'.prologue ++ body')
    (h : CodeAlike link routine.scope body body') : RoutinesAlike link routine routine' := by
  have hnone := not_mark_slotPrologue routine.scope.locals routine.scope.params
  rw [hprologue] at hcode
  rw [hprologue', ← hlocals, ← hparams] at hcode'
  refine ⟨hlocals, hparams, ?_, _, body, _, body', hcode, hcode', hnone, hnone, h⟩
  intro sized hsized
  rw [hcode, hcode']
  unfold slotPrologue
  split
  · next hzero => exact .body trivial (hsized hzero.1 hzero.2) h
  · exact .slots trivial h

/-- Where an initializer starts. -/
theorem restAlike_of_initializer {slots : Nat} {sized ready : Prop} (htogether : link.together)
    (hbounds : ∀ {s s'}, link.slots s s' → s.toNat < (UInt8.ofNat slots).toNat
      ∧ s'.toNat < (UInt8.ofNat slots).toNat)
    (hparams : routine.scope.params = 0)
    (hprologue : routine.prologue = initializerPrologue slots routine.scope.locals)
    (hcode : routine.code = routine.prologue ++ body) (h : CodeAlike link routine.scope body body)
    (hready : slots = 0 → ready)
    (hsized : routine.scope.locals = 0 → routine.scope.params = 0 → sized) :
    RestAlike link routine.scope sized ready routine.code routine.code := by
  -- what follows the static slots is a method without arguments
  have hbody : ∀ {ready : Prop}, ready → RestAlike link routine.scope sized ready
      ((if routine.scope.locals = 0 then [] else
        [.instruction ⟨.initSlot, [routine.scope.locals, 0]⟩]) ++ body)
      ((if routine.scope.locals = 0 then [] else
        [.instruction ⟨.initSlot, [routine.scope.locals, 0]⟩]) ++ body) := by
    intro ready hready
    split
    · next hlocals => exact .body hready (hsized hlocals hparams) h
    · have hslots : RestAlike link routine.scope sized ready
          (.instruction ⟨.initSlot, [routine.scope.locals, routine.scope.params]⟩ :: body)
          (.instruction ⟨.initSlot, [routine.scope.locals, routine.scope.params]⟩ :: body) :=
        .slots hready h
      rw [hparams] at hslots
      exact hslots
  rw [hcode, hprologue]
  unfold initializerPrologue
  rw [List.append_assoc]
  split
  · next hslots => exact hbody (hready hslots)
  · exact .statics htogether hbounds (hbody trivial)

theorem routinesAlike_of_initializer {slots : Nat} (htogether : link.together)
    (hbounds : ∀ {s s'}, link.slots s s' → s.toNat < (UInt8.ofNat slots).toNat
      ∧ s'.toNat < (UInt8.ofNat slots).toNat)
    (hparams : routine.scope.params = 0)
    (hprologue : routine.prologue = initializerPrologue slots routine.scope.locals)
    (hcode : routine.code = routine.prologue ++ body) (h : CodeAlike link routine.scope body body) :
    RoutinesAlike link routine routine := by
  have hnone : ∀ source : UInt32, .mark source ∉ initializerPrologue slots routine.scope.locals := by
    intro source hmem
    unfold initializerPrologue at hmem
    rcases List.mem_append.mp hmem with hmem | hmem <;> split at hmem <;>
      first | cases List.mem_singleton.mp hmem | cases hmem
  refine ⟨rfl, rfl, fun hsized => restAlike_of_initializer htogether hbounds hparams hprologue hcode h
    (fun _ => trivial) hsized, _, body, _, body, hcode, hcode, ?_, ?_, h⟩ <;>
  · rw [hprologue]
    exact hnone

end

/-! ## Pairings -/

section

variable {limits limits' : Compile.Limits} {module module' : Module} {program program' : Program}
  {image : Image limits module program} {image' : Image limits' module' program'} {slots : SlotLink}

/-- Routines of two images that have the same name, one of those that count. -/
structure Twins (image : Image limits module program) (image' : Image limits' module' program')
    (among : String → Prop) (base : Nat) (routine : Routine) (base' : Nat) (routine' : Routine) :
    Prop where
  left : ∃ method, image.At routine method ∧ method.base = base
  right : ∃ method, image'.At routine' method ∧ method.base = base'
  name : routine.signature.name = routine'.signature.name
  counts : among routine.signature.name

/-- Images in which routines of the same name do the same. -/
structure ImagesAlike (image : Image limits module program) (image' : Image limits' module' program')
    (slots : SlotLink) (among : String → Prop) : Prop where
  routines : ∀ {routine routine'}, routine ∈ image.all → routine' ∈ image'.all →
    routine.signature.name = routine'.signature.name → among routine.signature.name →
    RoutinesAlike slots routine routine'
  /-- Declared methods count, and both images have them. -/
  counts : ∀ name ∈ (declaredBodies module).map (·.2.name), among name
  declared : ∀ name ∈ (declaredBodies module).map (·.2.name),
    name ∈ (declaredBodies module').map (·.2.name)

theorem Image.exists_routine (image : Image limits module program) {name : String}
    (h : name ∈ (declaredBodies module).map (·.2.name)) :
    ∃ routine method, image.At routine method ∧ routine.signature.name = name := by
  rw [← image.names_eq] at h
  obtain ⟨routine, hroutine, rfl⟩ := List.mem_map.mp h
  obtain ⟨method, hat⟩ := image.exists_at (List.mem_append_left _ hroutine)
  exact ⟨routine, method, hat, rfl⟩

/-- The programs of alike images, started with the same limits. -/
def ImagesAlike.pairing {among : String → Prop} (h : ImagesAlike image image' slots among)
    (left right : Settings) (hleft : left.script = program.script.toArray)
    (hright : right.script = program'.script.toArray) (hlimits : left.limits = right.limits) :
    Pairing where
  left
  right
  bases := baseOf? program.methods
  bases' := baseOf? program'.methods
  slots
  twins := Twins image image' among
  limits := hlimits
  loaded := by
    rintro b r b' r' ⟨⟨method, hat, rfl⟩, -, -, -⟩
    rw [hleft]
    exact hat.resident.loaded
  loaded' := by
    rintro b r b' r' ⟨-, ⟨method, hat, rfl⟩, -, -⟩
    rw [hright]
    exact hat.resident.loaded
  alike := by
    rintro b r b' r' ⟨⟨method, hat, -⟩, ⟨method', hat', -⟩, hname, hcounts⟩
    exact h.routines hat.routine_mem hat'.routine_mem hname hcounts
  callees := by
    rintro b r b' r' ⟨⟨method, hat, -⟩, -, -, -⟩ name hname
    rw [image.catalogue_eq hat.routine_mem] at hname
    obtain ⟨callee, target, hcallee, rfl⟩ := image.exists_routine hname
    obtain ⟨callee', target', hcallee', hsame⟩ := image'.exists_routine (h.declared _ hname)
    have hbase' := hcallee'.base
    rw [hsame] at hbase'
    exact ⟨target.base, callee, target'.base, callee', hcallee.base, hbase', ⟨target, hcallee, rfl⟩,
      ⟨target', hcallee', rfl⟩, hsame.symm, h.counts _ hname⟩
  unique := by
    rintro b r b' r' c s c' s' ⟨⟨m, hm, rfl⟩, ⟨m', hm', rfl⟩, hname, -⟩
      ⟨⟨n, hn, rfl⟩, ⟨n', hn', rfl⟩, hname', -⟩
    rw [hm.name_iff hn, hm'.name_iff hn', hname, hname']

end

end StackContract.Contract
