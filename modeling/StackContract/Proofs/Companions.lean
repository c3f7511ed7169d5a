import StackContract.Proofs.Integrity
import StackContract.Proofs.Reordering
import StackContract.Proofs.StaticSlots
/-!
# Images with the same routines

A module and the same module with reordered methods have the same routines, each under its name, at bases
of their own (`companions_of_reordered`). Routines look up nothing but names, so that two such images are
alike, and the items of their machines differ in no more than the addresses of methods
(`Companions.link`).
-/

namespace StackContract.Lowering

/-- A body is lowered in one way. -/
theorem Lowers.unique {scope : Scope} {position : Nat} {carry : Carry} {segments segments' : List Segment}
    (h : Lowers scope position carry segments) (h' : Lowers scope position carry segments') :
    segments = segments' := by
  induction h generalizing segments' with
  | finish hend =>
    cases h' with
    | finish _ => rfl
    | next hlt _ _ => exact absurd hend (Nat.not_le_of_lt hlt)
  | next hlt hlower _ ih =>
    cases h' with
    | finish hend => exact absurd hend (Nat.not_le_of_lt hlt)
    | next _ hlower' hrest' =>
      cases hlower.symm.trans hlower'
      rw [ih hrest']

theorem Lowers.within {scope : Scope} {catalogue : Catalogue} (hagrees : scope.catalogue.Agrees catalogue)
    {position : Nat} {carry : Carry} {segments : List Segment} (h : Lowers scope position carry segments) :
    Lowers (scope.within catalogue) position carry segments := by
  induction h with
  | finish hend => exact .finish hend
  | @next position carry carry' lowered rest hlt hlower _ ih =>
    have hlt' : position < (scope.within catalogue).body.size := hlt
    have hlower' : (lower (scope.within catalogue) position (scope.within catalogue).body[position]).run
        carry = .ok (lowered, carry') := by
      rw [lower_within hagrees]
      exact hlower
    exact .next hlt' hlower' ih

end StackContract.Lowering

namespace StackContract.Contract

open Assembly Script Lowering Machine
open Source (TypeDecl Module)

/-! ## Routines of one module in two orders -/

/-- Routines with the same slots and the same code. -/
structure Routine.Like (routine routine' : Routine) : Prop where
  locals : routine'.scope.locals = routine.scope.locals
  params : routine'.scope.params = routine.scope.params
  code : routine'.code = routine.code

/-- A routine stays alike to itself beside one that is like it. -/
theorem Routine.Like.routinesAlike {slots : SlotLink} {routine routine' : Routine}
    (h : routine.Like routine') (halike : RoutinesAlike slots routine routine) :
    RoutinesAlike slots routine routine' where
  locals := h.locals.symm
  params := h.params.symm
  entry := by
    rw [h.code]
    exact halike.entry
  bodies := by
    rw [h.code]
    exact halike.bodies

/-- In a catalogue that tells the same, a body is written in the same way. -/
theorem Routine.like_of_agrees {catalogue : Catalogue} {routine routine' : Routine}
    (hagrees : routine.scope.catalogue.Agrees catalogue)
    (hscope : routine'.scope = routine.scope.within catalogue)
    (hprologue : routine'.prologue = routine.prologue)
    (h : Lowers routine.scope 0 {} routine.segments)
    (h' : Lowers routine'.scope 0 {} routine'.segments) : routine.Like routine' := by
  rw [hscope] at h'
  have hsegments := h'.unique (h.within hagrees)
  refine ⟨?_, ?_, ?_⟩
  · rw [hscope]
    rfl
  · rw [hscope]
    rfl
  · unfold Routine.code Routine.directives
    rw [hprologue, hsegments]

section

variable {limits : Compile.Limits} {catalogue catalogue' : Catalogue} {routine routine' : Routine}

theorem IsMethod.like (hagrees : catalogue.Agrees catalogue') {entry entry' : TypeDecl × Source.Method}
    (hmethod : entry'.2 = entry.2) (h : IsMethod limits catalogue entry routine)
    (h' : IsMethod limits catalogue' entry' routine') : routine.Like routine' := by
  have hscope : routine'.scope = routine.scope.within catalogue' := by
    rw [h'.scope, h.scope, hmethod]
    rfl
  have hprologue : routine'.prologue = routine.prologue := by
    rw [h'.prologue, h.prologue, hscope]
    rfl
  refine Routine.like_of_agrees ?_ hscope hprologue h.lowers h'.lowers
  rw [h.scope]
  exact hagrees

theorem IsInitializer.like (hagrees : catalogue.Agrees catalogue')
    (h : IsInitializer limits catalogue routine) (h' : IsInitializer limits catalogue' routine') :
    routine.Like routine' := by
  have hscope : routine'.scope = routine.scope.within catalogue' := by
    rw [h'.scope, h.scope]
    unfold initializerScope
    rw [hagrees.statics]
    rfl
  have hprologue : routine'.prologue = routine.prologue := by
    rw [h'.prologue, h.prologue, hscope, hagrees.statics]
    rfl
  refine Routine.like_of_agrees ?_ hscope hprologue h.lowers h'.lowers
  rw [h.scope]
  exact hagrees

end

/-! ## Images of one module in two orders -/

section

variable {limits : Compile.Limits} {module module' : Module} {program program' : Program}

/-- Images with the same routines under the same names. -/
structure Companions (image : Image limits module program) (image' : Image limits module' program') :
    Prop where
  splices : SplicesNothing module
  routines : ∀ {routine routine'}, routine ∈ image.all → routine' ∈ image'.all →
    routine.signature.name = routine'.signature.name → routine.Like routine'
  names : ∀ name, name ∈ image'.all.map (·.signature.name) ↔ name ∈ image.all.map (·.signature.name)
  declared : ∀ name ∈ (declaredBodies module).map (·.2.name),
    name ∈ (declaredBodies module').map (·.2.name)
  slotCount : image'.slotCount = image.slotCount

theorem Image.statics_eq_of_reordered (image : Image limits module program)
    (image' : Image limits module' program') (h : Reordered module module') :
    image'.statics = image.statics := by
  obtain ⟨events, _, hstatics⟩ := image.statics_eq
  obtain ⟨events', _, hstatics'⟩ := image'.statics_eq
  rw [h.ofModule_eq] at hstatics'
  obtain ⟨_, hagain⟩ := Compile.steady_ofModule _ _ hstatics events'
  have hsame := hstatics'.symm.trans hagain
  injection hsame

/-- A method of one name is one method, in every order. -/
theorem Reordered.method_eq (h : Reordered module module')
    (hnodup : ((Contract.declaredMethods module).map (·.name)).Nodup)
    {entry entry' : TypeDecl × Source.Method} (hentry : entry ∈ Contract.declaredBodies module)
    (hentry' : entry' ∈ Contract.declaredBodies module') (hname : entry'.2.name = entry.2.name) :
    entry'.2 = entry.2 := by
  have hmem : roleAndMethod entry' ∈ (Contract.declaredBodies module).map roleAndMethod :=
    h.declaredBodies.mem_iff.mpr (List.mem_map_of_mem hentry')
  obtain ⟨other, hother, heq⟩ := List.mem_map.mp hmem
  have hsecond : other.2 = entry'.2 := by
    have hpair := congrArg Prod.snd heq
    exact hpair
  have hsame : other = entry := List.inj_on_of_nodup_map (hnodup.sublist (sublist_declaredBodies module))
    hother hentry ((congrArg (·.name) hsecond).trans hname)
  rw [← hsecond, hsame]

/-- Images of a module in two orders have the same routines. -/
theorem companions_of_reordered (image : Image limits module program)
    (image' : Image limits module' program') (hsplices : SplicesNothing module)
    (h : Reordered module module') : Companions image image' := by
  have hstatics := image.statics_eq_of_reordered image' h
  have hagrees : image.catalogue.Agrees image'.catalogue := by
    unfold Image.catalogue
    rw [hstatics]
    exact h.agrees image.names_nodup _
  have hneeds : image'.statics.needsInitializer = image.statics.needsInitializer := by
    rw [hstatics]
  refine ⟨hsplices, ?_, ?_, ?_, ?_⟩
  · intro routine routine' hroutine hroutine' hname
    rcases image.kind_of_mem hroutine with ⟨entry, hentry, hmethod⟩ | ⟨hneeded, hinitializer⟩
    · rcases image'.kind_of_mem hroutine' with ⟨entry', hentry', hmethod'⟩ | ⟨hneeded', hinitializer'⟩
      · rw [hmethod.signature, hmethod'.signature] at hname
        exact hmethod.like hagrees (h.method_eq image.names_nodup hentry hentry' hname.symm) hmethod'
      · -- the name of the initializer is taken
        rw [hmethod.signature, hinitializer'.signature] at hname
        have hfree := image.name_free (hneeds.symm.trans hneeded')
        exact absurd (List.mem_map.mpr ⟨entry, hentry, hname⟩) hfree
    · rcases image'.kind_of_mem hroutine' with ⟨entry', hentry', hmethod'⟩ | ⟨hneeded', hinitializer'⟩
      · rw [hmethod'.signature, hinitializer.signature] at hname
        have hfree := image'.name_free (hneeds.trans hneeded)
        exact absurd (List.mem_map.mpr ⟨entry', hentry', hname.symm⟩) hfree
      · exact hinitializer.like hagrees hinitializer'
  · intro name
    rw [image.mem_names, image'.mem_names, h.mem_names, hneeds]
  · intro name hname
    exact (h.mem_names name).mpr hname
  · unfold Image.slotCount Image.catalogue catalogueOf
    rw [hstatics]

/-! ## The link of companions -/

/-- The bases of methods that have the same name. -/
def SameMethod (program program' : Program) (a a' : Nat) : Prop :=
  ∃ method ∈ program.methods, ∃ method' ∈ program'.methods, method.base = a ∧ method'.base = a'
    ∧ method.signature.name = method'.signature.name

/-- What machines for two programs are set to, which is the same but for the scripts and the entries of
their initializers. -/
structure SettingsAlike (program program' : Program) (settings settings' : Settings) : Prop where
  script : settings.script = program.script.toArray
  script' : settings'.script = program'.script.toArray
  initializer : settings.initializer = program.initializer?
  initializer' : settings'.initializer = program'.initializer?
  limits : settings.limits = settings'.limits
  isInitialized : settings.isInitialized = settings'.isInitialized

namespace Companions

variable {image : Image limits module program} {image' : Image limits module' program'}

theorem alike (h : Companions image image') :
    ImagesAlike image image' (sameSlots image.slotCount) fun _ => True where
  routines hroutine hroutine' hname _ := (h.routines hroutine hroutine' hname).routinesAlike
    ((image.alike_self h.splices).routines hroutine hroutine rfl trivial)
  counts _ _ := trivial
  declared := h.declared

theorem sameMethod_iff (_ : Companions image image') {a a' : Nat} : SameMethod program program' a a'
    ↔ ∃ routine routine', Twins image image' (fun _ => True) a routine a' routine' := by
  constructor
  · intro ⟨method, hmethod, method', hmethod', hbase, hbase', hname⟩
    obtain ⟨routine, hat⟩ := image.exists_at_of_mem hmethod
    obtain ⟨routine', hat'⟩ := image'.exists_at_of_mem hmethod'
    rw [hat.resident.linked.signature, hat'.resident.linked.signature] at hname
    exact ⟨routine, routine', ⟨method, hat, hbase⟩, ⟨method', hat', hbase'⟩, hname, trivial⟩
  · intro ⟨routine, routine', ⟨method, hat, hbase⟩, ⟨method', hat', hbase'⟩, hname, _⟩
    rw [← hat.resident.linked.signature, ← hat'.resident.linked.signature] at hname
    exact ⟨method, hat.method_mem, method', hat'.method_mem, hbase, hbase', hname⟩

theorem sameMethod_unique (h : Companions image image') {a a' b b' : Nat}
    (ha : SameMethod program program' a a') (hb : SameMethod program program' b b') :
    a = b ↔ a' = b' := by
  obtain ⟨_, _, ⟨m, hm, rfl⟩, ⟨m', hm', rfl⟩, hname, -⟩ := h.sameMethod_iff.mp ha
  obtain ⟨_, _, ⟨n, hn, rfl⟩, ⟨n', hn', rfl⟩, hname', -⟩ := h.sameMethod_iff.mp hb
  rw [hm.name_iff hn, hm'.name_iff hn', hname, hname']

/-- The addresses of methods of the same name stand for each other, and every reference stands for
itself. -/
def link (h : Companions image image') : Link :=
  { Link.identity fun _ => True with
    addresses := SameMethod program program'
    addresses_unique := h.sameMethod_unique }

theorem direct_link (h : Companions image image') : h.link.Direct :=
  ⟨Iff.rfl, trivial⟩

/-- Companions beside each other. -/
def pairing (h : Companions image image') {settings settings' : Settings}
    (hset : SettingsAlike program program' settings settings') : Pairing :=
  h.alike.pairing settings settings' hset.script hset.script' hset.limits

theorem addresses_link (h : Companions image image') {settings settings' : Settings}
    (hset : SettingsAlike program program' settings settings') :
    h.link.addresses = (h.pairing hset).addresses := by
  funext a a'
  exact propext h.sameMethod_iff

/-- A method has a companion of the same name. -/
theorem exists_at' (h : Companions image image') {routine : Routine} {method : PlacedMethod}
    (hat : image.At routine method) : ∃ routine' method', image'.At routine' method'
      ∧ routine.signature.name = routine'.signature.name := by
  have hname := (h.names routine.signature.name).mpr (List.mem_map_of_mem hat.routine_mem)
  obtain ⟨routine', hroutine', heq⟩ := List.mem_map.mp hname
  obtain ⟨method', hat'⟩ := image'.exists_at hroutine'
  exact ⟨routine', method', hat', heq.symm⟩

/-- Neither program has an initializer, or both have. -/
theorem initializer (h : Companions image image') :
    (program.initializer? = none ∧ program'.initializer? = none)
      ∨ ∃ routine method routine' method', image.At routine method ∧ image'.At routine' method'
        ∧ routine.signature.name = routine'.signature.name
        ∧ routine.signature.name = initializerName ∧ program.initializer? = some method.base
        ∧ program'.initializer? = some method'.base := by
  by_cases hthere : initializerName ∈ image.all.map (·.signature.name)
  · obtain ⟨routine, hroutine, hname⟩ := List.mem_map.mp hthere
    obtain ⟨method, hat⟩ := image.exists_at hroutine
    obtain ⟨routine', method', hat', hname'⟩ := h.exists_at' hat
    have hbase := hat.base
    have hbase' := hat'.base
    rw [hname] at hbase
    rw [← hname', hname] at hbase'
    exact .inr ⟨routine, method, routine', method', hat, hat', hname', hname, hbase, hbase'⟩
  · have hthere' := mt (h.names initializerName).mp hthere
    exact .inl ⟨image.initializer?_eq_none_iff.mpr hthere, image'.initializer?_eq_none_iff.mpr hthere'⟩

/-- Where the methods that prepare the static fields start. -/
theorem restAlike_initializer (h : Companions image image') {routine routine' : Routine}
    (hroutine : routine ∈ image.all) (hroutine' : routine' ∈ image'.all)
    (hsame : routine.signature.name = routine'.signature.name)
    (hname : routine.signature.name = initializerName) {sized : Prop}
    (hsized : routine.scope.locals = 0 → routine.scope.params = 0 → sized) {link : Link}
    {statics statics' : Option (Array Item)} :
    RestAlike (sameSlots image.slotCount) routine.scope sized
      (StaticsReady (sameSlots image.slotCount) link statics statics') routine.code routine'.code := by
  rw [(h.routines hroutine hroutine' hsame).code]
  exact image.restAlike_initializer h.splices hroutine hname hsized

end Companions

end

end StackContract.Contract
