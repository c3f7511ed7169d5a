import StackContract.Proofs.Emission
import StackContract.Proofs.Linking
import StackContract.Proofs.Outcomes
/-!
# Images

What a compilation builds, apart from how it builds it. A routine is a method of the image with the
segments it is written from; an image is routines laid one behind the other with every reference
filled in (`Laid`). `image_of_build` says that every accepted module has one.
-/

namespace StackContract.Contract

open Assembly Compile Script Lowering
open Compile.Progress (Succeeds)
open Source (TypeDecl Module)

/-! ## Routines -/

/-- A method of an image and how its body is written. -/
structure Routine where
  signature : Signature
  scope : Scope
  prologue : List Directive
  segments : List Segment

namespace Routine

/-- What is written for the prologue and the source instructions. -/
def directives (routine : Routine) : List Directive :=
  routine.prologue ++ routine.segments.flatMap Segment.code

/-- The code of the method, a closing return included. -/
def code (routine : Routine) : List Directive :=
  closing routine.directives

/-- The local address at which a source offset starts. -/
def start (routine : Routine) (source : UInt32) : Option Nat :=
  markIn source 0 routine.code

end Routine

/-- The method of the image at `base` that a routine becomes when the methods of the image have the
given bases. -/
structure Linked (bases : String → Option Nat) (base : Nat) (routine : Routine)
    (method : PlacedMethod) : Prop where
  signature : method.signature = routine.signature
  base_eq : method.base = base
  entries : method.body.code.entries
    = listing (linkedFill routine.start bases base) 0 routine.code
  resolved : method.body.relocations = []
  marks : ∀ source, method.body.marks.find? source = routine.start source
  branches : ∀ r ∈ relocations 0 routine.code, ∀ source, r.target = .source source →
    ∃ address, routine.start source = some address ∧ InRange ((address : Int) - r.address)
  callees : ∀ r ∈ relocations 0 routine.code, ∀ name, r.target = .method name →
    ∃ target, bases name = some target ∧ InRange ((target : Int) - (base + r.address : Nat))

/-- Routines linked one behind the other from a base on. -/
inductive Laid (bases : String → Option Nat) : Nat → List Routine → List PlacedMethod → Prop
  | nil {base : Nat} : Laid bases base [] []
  | cons {base : Nat} {routine : Routine} {method : PlacedMethod} {routines : List Routine}
    {methods : List PlacedMethod} (h : Linked bases base routine method)
    (hrest : Laid bases (base + extent routine.code) routines methods) :
    Laid bases base (routine :: routines) (method :: methods)

theorem Linked.size {bases : String → Option Nat} {base : Nat} {routine : Routine}
    {method : PlacedMethod} (h : Linked bases base routine method) :
    method.body.size = extent routine.code := by
  rw [← Body.length_encode]
  unfold Body.encode Body.instructions Table.values
  rw [h.entries]
  exact length_encode_listing _ (length_linkedFill _ _ _) 0 routine.code

/-! ## The routines of a module -/

/-- The declarations of a module whose static fields are laid out. -/
def catalogueOf (module : Module) (statics : StaticLayout) : Catalogue where
  methods := ⟨(declaredMethods module).map fun method => (method.name, method)⟩
  compiled := (declaredBodies module).map (·.2.name)
  events := declaredEvents module
  statics := statics

/-- The surroundings of the body of a method. -/
def methodScope (catalogue : Catalogue) (method : Source.Method) : Scope :=
  ⟨catalogue, method.name, UInt8.ofNat method.locals.length, UInt8.ofNat method.params.length,
    method.body.toArray⟩

/-- What the image shows of a method. -/
def methodSignature (entry : TypeDecl × Source.Method) : Signature :=
  ⟨entry.2.name, entry.2.displayName, entry.2.isPublic, entry.1.role = .contract, entry.2.params,
    entry.2.returnType⟩

/-- The surroundings of the initializer. -/
def initializerScope (catalogue : Catalogue) : Scope :=
  ⟨catalogue, initializerName, UInt8.ofNat (localsUsed catalogue.statics.init), 0,
    catalogue.statics.init.toArray⟩

/-- The routine of a declared method. -/
structure IsMethod (limits : Limits) (catalogue : Catalogue) (entry : TypeDecl × Source.Method)
    (routine : Routine) : Prop where
  signature : routine.signature = methodSignature entry
  scope : routine.scope = methodScope catalogue entry.2
  prologue : routine.prologue = slotPrologue routine.scope.locals routine.scope.params
  params : entry.2.params.length ≤ limits.params.toNat
  locals : entry.2.locals.length ≤ limits.locals.toNat
  lowers : Lowers routine.scope 0 {} routine.segments

/-- The routine that prepares the static fields. -/
structure IsInitializer (limits : Limits) (catalogue : Catalogue) (routine : Routine) : Prop where
  signature : routine.signature = .initializer
  scope : routine.scope = initializerScope catalogue
  prologue : routine.prologue
    = initializerPrologue catalogue.statics.slots.size routine.scope.locals
  locals : localsUsed catalogue.statics.init ≤ limits.locals.toNat
  lowers : Lowers routine.scope 0 {} routine.segments

/-- How a program is made of the routines of a module. -/
structure Image (limits : Limits) (module : Module) (program : Program) where
  statics : StaticLayout
  /-- The routines of the declared methods. -/
  routines : List Routine
  /-- The routine that prepares the static fields, if there is anything to prepare. -/
  initializer : List Routine
  statics_eq : ∃ events events', StaticLayout.ofModule module limits.staticFields events
    = .ok statics events'
  names_nodup : ((declaredMethods module).map (·.name)).Nodup
  name_free : statics.needsInitializer = true →
    initializerName ∉ (declaredBodies module).map (·.2.name)
  methods : List.Forall₂ (IsMethod limits (catalogueOf module statics)) (declaredBodies module)
    routines
  last : if statics.needsInitializer then
      ∃ routine, initializer = [routine] ∧ IsInitializer limits (catalogueOf module statics) routine
    else initializer = []
  laid : Laid (baseOf? program.methods) 0 (routines ++ initializer) program.methods
  small : ∀ method ∈ program.methods, method.base + method.body.size ≤ maxScriptSize
  fields : program.fields = statics.slots
  events : program.events = declaredEvents module

/-! ## Inversion -/

/-- A body before the global pass. -/
def Routine.Writes (routine : Routine) (method : Method) : Prop :=
  method.signature = routine.signature
    ∧ linkLocal routine.scope.method (assemble routine.directives) = .ok method.body

theorem writeBody_spec {scope : Scope} {prologue : List Directive} {body : Body}
    (h : writeBody scope prologue = .ok body) :
    ∃ segments, Lowers scope 0 {} segments
      ∧ linkLocal scope.method (assemble (prologue ++ segments.flatMap Segment.code)) = .ok body := by
  unfold writeBody at h
  obtain ⟨directives, hlower, hlink⟩ := exceptBind_eq_ok h
  obtain ⟨segments, hsegments, rfl⟩ := lowerBody_spec hlower
  exact ⟨segments, hsegments, hlink⟩

theorem checkLimit_eq {scope : String} {resource : Resource} {count : Nat} {max n : UInt8}
    (h : checkLimit scope resource count max = .ok n) :
    n = UInt8.ofNat count ∧ count ≤ max.toNat := by
  unfold checkLimit at h
  split at h
  · next hcount =>
    cases h
    exact ⟨rfl, hcount⟩
  · cases h

theorem buildMethod_spec {catalogue : Catalogue} {limits : Limits} {type : TypeDecl}
    {source : Source.Method} {method : Method} {events events' : Array Compile.Event}
    (h : buildMethod catalogue limits type source events = .ok method events') :
    ∃ routine, IsMethod limits catalogue (type, source) routine ∧ routine.Writes method := by
  unfold buildMethod at h
  obtain ⟨params, hparams, h⟩ := Progress.ofExcept_bind_eq_ok h
  obtain ⟨locals, hlocals, h⟩ := Progress.ofExcept_bind_eq_ok h
  obtain ⟨body, hbody, h⟩ := Progress.ofExcept_bind_eq_ok h
  obtain ⟨_, _, -, h⟩ := bind_eq_ok h
  cases h
  obtain ⟨rfl, hparamCount⟩ := checkLimit_eq hparams
  obtain ⟨rfl, hlocalCount⟩ := checkLimit_eq hlocals
  obtain ⟨segments, hsegments, hlink⟩ := writeBody_spec hbody
  exact ⟨⟨methodSignature (type, source), methodScope catalogue source, _, segments⟩,
    ⟨rfl, rfl, rfl, hparamCount, hlocalCount, hsegments⟩, rfl, hlink⟩

theorem buildInitializer_spec {catalogue : Catalogue} {limits : Limits} {method : Method}
    {events events' : Array Compile.Event}
    (h : buildInitializer catalogue limits events = .ok method events') :
    ∃ routine, IsInitializer limits catalogue routine ∧ routine.Writes method := by
  unfold buildInitializer at h
  obtain ⟨locals, hlocals, h⟩ := Progress.ofExcept_bind_eq_ok h
  obtain ⟨body, hbody, h⟩ := Progress.ofExcept_bind_eq_ok h
  obtain ⟨_, _, -, h⟩ := bind_eq_ok h
  obtain ⟨_, _, -, h⟩ := bind_eq_ok h
  cases h
  obtain ⟨rfl, hlocalCount⟩ := checkLimit_eq hlocals
  obtain ⟨segments, hsegments, hlink⟩ := writeBody_spec hbody
  exact ⟨⟨.initializer, initializerScope catalogue, _, segments⟩,
    ⟨rfl, rfl, rfl, hlocalCount, hsegments⟩, rfl, hlink⟩

/-! ## Laying out -/

theorem baseOf?_eq {methods methods' : List PlacedMethod}
    (h : List.Forall₂ (fun m m' => m'.signature = m.signature ∧ m'.base = m.base) methods methods')
    (name : String) : baseOf? methods' name = baseOf? methods name := by
  unfold baseOf?
  induction h with
  | nil => rfl
  | cons hhead _ ih =>
    rw [List.find?_cons, List.find?_cons, hhead.1]
    split
    · rw [Option.map_some, Option.map_some, hhead.2]
    · exact ih

theorem size_of_entries {body : Body} {fill : Filling} {code : List Directive}
    (hfill : ∀ a t, (fill a t).length = placeholderWidth) (h : body.code.entries = listing fill 0 code) :
    body.size = extent code := by
  rw [← Body.length_encode]
  unfold Body.encode Body.instructions Table.values
  rw [h]
  exact length_encode_listing fill hfill 0 code

theorem signature_of_linkMethod {methods : List PlacedMethod} {method linked : PlacedMethod}
    (h : linkMethod methods method = .ok linked) :
    linked.signature = method.signature ∧ linked.base = method.base := by
  unfold linkMethod at h
  obtain ⟨body, -, hpure⟩ := exceptBind_eq_ok h
  cases hpure
  exact ⟨rfl, rfl⟩

/-- Both passes over a routine at a base. -/
theorem linked_of_writes {placed : List PlacedMethod} {base : Nat} {routine : Routine}
    {method : Method} {linked : PlacedMethod} (hwrites : routine.Writes method)
    (h : linkMethod placed ⟨method, base⟩ = .ok linked) :
    Linked (baseOf? placed) base routine linked ∧ method.body.size = extent routine.code := by
  obtain ⟨hsignature, hlocal⟩ := hwrites
  obtain ⟨hentries, hpending, hmarks, hbranches⟩ := linkLocal_spec hlocal
  obtain ⟨hsame, hbase, hlinked, hresolved, hstarts, hcallees⟩ :=
    linkMethod_spec h hentries hpending
  refine ⟨⟨hsame.trans hsignature, hbase, hlinked, hresolved, ?_, hbranches, hcallees⟩, ?_⟩
  · intro source
    rw [hstarts]
    exact hmarks source
  · exact size_of_entries (length_localFill _) hentries

private theorem laid_of_place (placed : List PlacedMethod) {base : Nat} {routines : List Routine}
    {methods : List Method} {linked : List PlacedMethod}
    (hwrites : List.Forall₂ Routine.Writes routines methods)
    (h : List.Forall₂ (fun m m' => linkMethod placed m = .ok m') (place base methods) linked)
    {finish : Nat} (hsmall : ∀ method ∈ place base methods, method.base + method.body.size ≤ finish) :
    Laid (baseOf? placed) base routines linked
      ∧ ∀ method ∈ linked, method.base + method.body.size ≤ finish := by
  induction hwrites generalizing base linked with
  | nil =>
    cases h
    exact ⟨.nil, nofun⟩
  | cons hhead _ ih =>
    cases h with
    | cons hmethod hrest =>
      obtain ⟨hlinked, hsize⟩ := linked_of_writes hhead hmethod
      have hfirst := hsmall _ (List.mem_cons_self ..)
      rw [hsize] at hrest
      obtain ⟨hlaid, hothers⟩ := ih hrest (by
        intro method hmem
        refine hsmall method (List.mem_cons_of_mem _ ?_)
        rw [hsize]
        exact hmem)
      refine ⟨.cons hlinked hlaid, ?_⟩
      intro method hmem
      rcases List.mem_cons.mp hmem with rfl | hmem
      · rw [hlinked.base_eq, hlinked.size, ← hsize]
        exact hfirst
      · exact hothers method hmem

/-- Linking puts routines one behind the other. -/
theorem laid_of_link {routines : List Routine} {methods : List Method} {linked : List PlacedMethod}
    (hwrites : List.Forall₂ Routine.Writes routines methods) (h : link methods = .ok linked)
    {finish : Nat} (hsmall : ∀ method ∈ place 0 methods, method.base + method.body.size ≤ finish) :
    Laid (baseOf? linked) 0 routines linked
      ∧ ∀ method ∈ linked, method.base + method.body.size ≤ finish := by
  have hmap := exceptMapM_eq_ok h
  have hbases : baseOf? linked = baseOf? (place 0 methods) :=
    funext (baseOf?_eq (hmap.imp fun _ _ hm => signature_of_linkMethod hm))
  rw [hbases]
  exact laid_of_place _ hwrites hmap hsmall

/-! ## Whole programs -/

/-- What the stages of a build have come to. -/
structure Stages (limits : Limits) (module : Module) (program : Program) where
  statics : StaticLayout
  /-- The declared methods, before they are linked. -/
  methods : List Method
  /-- The method that prepares the static fields, if there is anything to prepare. -/
  last : List Method
  statics_eq : (StaticLayout.ofModule module limits.staticFields).Succeeds statics
  names_nodup : ((declaredMethods module).map (·.name)).Nodup
  name_free : statics.needsInitializer = true →
    initializerName ∉ (declaredBodies module).map (·.2.name)
  methods_built : List.Forall₂ (fun (entry : TypeDecl × Source.Method) method =>
    (buildMethod (catalogueOf module statics) limits entry.1 entry.2).Succeeds method)
    (declaredBodies module) methods
  last_built : if statics.needsInitializer then
      ∃ method, last = [method] ∧ (buildInitializer (catalogueOf module statics) limits).Succeeds method
    else last = []
  small : ∀ method ∈ place 0 (methods ++ last), checkPlaced method = .ok ()
  linked : link (methods ++ last) = .ok program.methods
  fields : program.fields = statics.slots
  events : program.events = declaredEvents module

theorem checkPlaced_eq_ok {method : PlacedMethod} (h : checkPlaced method = .ok ()) :
    method.base + method.body.size ≤ maxScriptSize := by
  unfold checkPlaced at h
  dsimp only at h
  split at h
  · assumption
  · cases h

/-- The methods that were placed passed the check. -/
theorem forIn_checkPlaced {methods : List PlacedMethod} {events events' : Array Compile.Event}
    {r : PUnit} (h : (forIn methods PUnit.unit fun (method : PlacedMethod) _ => (do
        Progress.report (.placed method.signature.name method.base)
        Progress.ofExcept (checkPlaced method)
        pure (ForInStep.yield PUnit.unit) : Progress Error (ForInStep PUnit))) events = .ok r events') :
    ∀ method ∈ methods, checkPlaced method = .ok () := by
  induction methods generalizing events with
  | nil => exact nofun
  | cons method methods ih =>
    rw [List.forIn_cons] at h
    obtain ⟨step, t, hstep, hrest⟩ := bind_eq_ok h
    obtain ⟨_, _, -, hstep⟩ := bind_eq_ok hstep
    obtain ⟨_, hcheck, hstep⟩ := Progress.ofExcept_bind_eq_ok hstep
    cases hstep
    intro other hother
    rcases List.mem_cons.mp hother with rfl | hother
    · exact hcheck
    · exact ih hrest other hother

theorem stages_of_buildProgram {limits : Limits} {module : Module} {program : Program}
    {events events' : Array Compile.Event}
    (h : buildProgram limits module events = .ok program events') :
    Nonempty (Stages limits module program) := by
  unfold buildProgram at h
  obtain ⟨found, _, hfound, h⟩ := bind_eq_ok h
  obtain ⟨hmethods, hnodup, hcompiled, hevents⟩ := discovery_spec hfound
  obtain ⟨statics, _, hstatics, h⟩ := bind_eq_ok h
  simp only at h
  split at h
  · obtain ⟨_, _, hthrow, _⟩ := bind_eq_ok h
    cases hthrow
  · next hfree =>
    obtain ⟨hfoundMethods, hfoundCompiled, hfoundEvents⟩ :
        found.methods = (catalogueOf module statics).methods
          ∧ found.compiled.map (·.2.name) = (catalogueOf module statics).compiled
          ∧ found.events = (catalogueOf module statics).events :=
      ⟨congrArg Table.mk hmethods, congrArg _ hcompiled, hevents⟩
    rw [hfoundMethods, hfoundCompiled, hfoundEvents, hcompiled] at h
    rw [hfoundCompiled, Bool.and_eq_true, not_and] at hfree
    obtain ⟨methods, _, hbuilt, h⟩ := bind_eq_ok h
    obtain ⟨last, events, hlast, h⟩ : ∃ last events, (if statics.needsInitializer then
          ∃ method, last = [method]
            ∧ (buildInitializer (catalogueOf module statics) limits).Succeeds method
        else last = []) ∧ (do
          forIn (place 0 (methods ++ last)) PUnit.unit fun (method : PlacedMethod) _ => (do
            Progress.report (.placed method.signature.name method.base)
            Progress.ofExcept (checkPlaced method)
            pure (ForInStep.yield PUnit.unit) : Progress Error (ForInStep PUnit))
          let linked ← Progress.ofExcept (link (methods ++ last))
          pure ⟨linked, statics.slots, declaredEvents module⟩ : Progress Error Program) events
            = .ok program events' := by
      cases hneeds : statics.needsInitializer with
      | true =>
        rw [hneeds, if_pos rfl] at h
        obtain ⟨last, events, hmap, h⟩ := bind_eq_ok h
        rw [map_eq_pure_bind] at hmap
        obtain ⟨method, _, hmethod, hpure⟩ := bind_eq_ok hmap
        cases hpure
        refine ⟨[method], events, ?_, h⟩
        rw [if_pos rfl]
        exact ⟨method, rfl, steady_buildInitializer _ _ hmethod⟩
      | false =>
        rw [hneeds, if_neg Bool.false_ne_true] at h
        obtain ⟨last, events, hpure, h⟩ := bind_eq_ok h
        cases hpure
        refine ⟨[], _, ?_, h⟩
        rw [if_neg Bool.false_ne_true]
    obtain ⟨_, _, hsmall, h⟩ := bind_eq_ok h
    obtain ⟨linked, hlink, h⟩ := Progress.ofExcept_bind_eq_ok h
    cases h
    exact ⟨{
      statics, methods, last
      statics_eq := steady_ofModule _ _ hstatics
      names_nodup := hnodup
      name_free := fun hneeds hmem => hfree hneeds (List.contains_iff_mem.mpr hmem)
      methods_built := (mapM_eq_ok hbuilt).imp fun _ _ ⟨_, _, hmethod⟩ =>
        steady_buildMethod _ _ _ _ hmethod
      last_built := hlast
      small := forIn_checkPlaced hsmall
      linked := hlink
      fields := rfl
      events := rfl }⟩

theorem succeeds_checkPlaced {methods : List PlacedMethod}
    (h : ∀ method ∈ methods, checkPlaced method = .ok ()) :
    Succeeds (forIn methods PUnit.unit fun (method : PlacedMethod) _ => (do
      Progress.report (.placed method.signature.name method.base)
      Progress.ofExcept (checkPlaced method)
      pure (ForInStep.yield PUnit.unit) : Progress Error (ForInStep PUnit))) PUnit.unit := by
  induction methods with
  | nil => exact .pure _
  | cons method methods ih =>
    rw [List.forIn_cons]
    have hrest := ih fun other hother => h other (List.mem_cons_of_mem _ hother)
    exact .bind (.bind (.report _) (.bind (.ofExcept (h method (List.mem_cons_self ..))) (.pure _)))
      hrest

/-- A module whose stages come to a program is compiled to that program. -/
theorem Stages.succeeds {limits : Limits} {module : Module} {program : Program}
    (stages : Stages limits module program) : (buildProgram limits module).Succeeds program := by
  obtain ⟨found, hfound⟩ := discovers_of_nodup stages.names_nodup
  obtain ⟨_, hdiscovered⟩ := hfound #[]
  obtain ⟨hmethods, -, hcompiled, hevents⟩ := discovery_spec hdiscovered
  obtain ⟨hfoundMethods, hfoundCompiled, hfoundEvents⟩ :
      found.methods = (catalogueOf module stages.statics).methods
        ∧ found.compiled.map (·.2.name) = (catalogueOf module stages.statics).compiled
        ∧ found.events = (catalogueOf module stages.statics).events :=
    ⟨congrArg Table.mk hmethods, congrArg _ hcompiled, hevents⟩
  have hfree : ¬ (stages.statics.needsInitializer
      && (found.compiled.map (·.2.name)).contains initializerName) = true := by
    rw [Bool.and_eq_true, List.contains_iff_mem, hcompiled]
    exact fun h => stages.name_free h.1 h.2
  unfold buildProgram
  refine hfound.bind (stages.statics_eq.bind ?_)
  dsimp only
  rw [if_neg hfree, hfoundMethods, hfoundCompiled, hfoundEvents, hcompiled]
  refine (Succeeds.mapM stages.methods_built).bind ?_
  have hprogram : Succeeds (pure ⟨program.methods, stages.statics.slots, declaredEvents module⟩ :
      Progress Error Program) program := by
    rw [← stages.fields, ← stages.events]
    exact .pure program
  have hplaced := succeeds_checkPlaced stages.small
  have hlinked := Succeeds.ofExcept stages.linked
  have hlast := stages.last_built
  split at hlast
  · next hneeds =>
    obtain ⟨method, hmethod, hsucceeds⟩ := hlast
    rw [hmethod] at hplaced hlinked
    rw [if_pos hneeds, map_eq_pure_bind]
    refine Succeeds.bind (a := [method]) ?_ (hplaced.bind (hlinked.bind hprogram))
    exact hsucceeds.bind (.pure _)
  · next hneeds =>
    rw [hlast] at hplaced hlinked
    rw [if_neg hneeds]
    exact (Succeeds.pure _).bind (hplaced.bind (hlinked.bind hprogram))

theorem image_of_stages {limits : Limits} {module : Module} {program : Program}
    (stages : Stages limits module program) : Nonempty (Image limits module program) := by
  obtain ⟨_, hstatics⟩ := stages.statics_eq #[]
  -- every body that was found has its routine
  have hbuilt : List.Forall₂ (fun (entry : TypeDecl × Source.Method) method => ∃ routine : Routine,
      IsMethod limits (catalogueOf module stages.statics) entry routine ∧ routine.Writes method)
      (declaredBodies module) stages.methods := by
    refine stages.methods_built.imp fun _ _ hmethod => ?_
    obtain ⟨_, hmethod⟩ := hmethod #[]
    exact buildMethod_spec hmethod
  obtain ⟨routines, hroutines, hwrites⟩ := exists_between hbuilt
  obtain ⟨initializer, hinitializer, hlast⟩ : ∃ initializer,
      (if stages.statics.needsInitializer then ∃ routine, initializer = [routine]
          ∧ IsInitializer limits (catalogueOf module stages.statics) routine
        else initializer = []) ∧ List.Forall₂ Routine.Writes initializer stages.last := by
    have hlast := stages.last_built
    split at hlast
    · next hneeds =>
      obtain ⟨method, hmethod, hsucceeds⟩ := hlast
      obtain ⟨_, hbuilt⟩ := hsucceeds #[]
      obtain ⟨routine, hroutine, hwrites⟩ := buildInitializer_spec hbuilt
      rw [hmethod]
      refine ⟨[routine], ?_, .cons hwrites .nil⟩
      rw [if_pos hneeds]
      exact ⟨routine, rfl, hroutine⟩
    · next hneeds =>
      rw [hlast]
      refine ⟨[], ?_, .nil⟩
      rw [if_neg hneeds]
  -- the check of the size keeps every method below the largest script
  obtain ⟨hlaid, hbounded⟩ := laid_of_link (List.rel_append hwrites hlast) stages.linked
    fun method hmethod => checkPlaced_eq_ok (stages.small method hmethod)
  exact ⟨{
    statics := stages.statics
    routines, initializer
    statics_eq := ⟨_, _, hstatics⟩
    names_nodup := stages.names_nodup
    name_free := stages.name_free
    methods := hroutines
    last := hinitializer
    laid := hlaid
    small := hbounded
    fields := stages.fields
    events := stages.events }⟩

theorem image_of_buildProgram {limits : Limits} {module : Module} {program : Program}
    {events events' : Array Compile.Event}
    (h : buildProgram limits module events = .ok program events') :
    Nonempty (Image limits module program) :=
  (stages_of_buildProgram h).elim image_of_stages

/-- A module is accepted if it is compiled to a program that has an interface. -/
theorem build_eq_ok_iff {limits : Limits} {module : Module} {contract : Contract} :
    build limits module = .ok contract ↔
      (∃ events, buildProgram limits module #[] = .ok contract.program events)
        ∧ Interface.ofProgram contract.program = .ok contract.interface := by
  obtain ⟨program, interface⟩ := contract
  unfold build buildWithEvents
  cases hprogram : (buildProgram limits module).run #[] with
  | error e events =>
    constructor
    · intro h
      cases h
    · intro ⟨⟨_, h⟩, _⟩
      cases hprogram.symm.trans h
  | ok found events =>
    dsimp only
    constructor
    · intro h
      cases hinterface : Interface.ofProgram found with
      | error e =>
        rw [hinterface] at h
        cases h
      | ok exported =>
        rw [hinterface] at h
        cases h
        exact ⟨⟨events, hprogram⟩, hinterface⟩
    · intro ⟨⟨_, h⟩, hinterface⟩
      cases hprogram.symm.trans h
      rw [hinterface]

end StackContract.Contract
