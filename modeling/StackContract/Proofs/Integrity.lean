import Mathlib.Data.List.Nodup
import StackContract.Proofs.Identity
import StackContract.Proofs.LinkedImage
import StackContract.Proofs.Settings
import StackContract.Proofs.Twins
/-!
# Runs stay in their methods

A machine that runs the entries of a contract is always in front of an instruction of the method that
it has entered last, and faults only over what the program asks for: never because there is no such
instruction, entry or slot (`runsSafely_of_build`).

A program stands for itself, so this is what lockstep says of a machine beside itself.
-/

namespace StackContract.Machine

/-! ## Hosts -/

/-- An item occurs in another one, at some depth. -/
inductive Item.Occurs (heap : Heap) (item : Item) : Item → Prop
  | self : Item.Occurs heap item item
  | array {r : Nat} {inner : Item} (h : inner ∈ (heap.sequence r).toList)
    (hinner : Item.Occurs heap item inner) : Item.Occurs heap item (.array r)
  | struct {r : Nat} {inner : Item} (h : inner ∈ (heap.sequence r).toList)
    (hinner : Item.Occurs heap item inner) : Item.Occurs heap item (.struct r)
  | key {r : Nat} {key value : Item} (h : (key, value) ∈ heap.map r)
    (hinner : Item.Occurs heap item key) : Item.Occurs heap item (.map r)
  | value {r : Nat} {key value : Item} (h : (key, value) ∈ heap.map r)
    (hinner : Item.Occurs heap item value) : Item.Occurs heap item (.map r)

/-- What a host may hand to a machine between runs: objects that it made or changed, and arguments.
Pointers are made by scripts alone. -/
structure Supplied (heap heap' : Heap) (arguments : List Item) : Prop where
  objects : ∀ address, heap'.Holds (.pointer address) → heap.Holds (.pointer address)
  arguments : ∀ item ∈ arguments, ∀ address, ¬ Item.Occurs heap' (.pointer address) item

theorem Supplied.itemsAlike {counts : Nat → Prop} {heap heap' : Heap} {arguments : List Item}
    (h : Supplied heap heap' arguments) : ItemsAlike (Link.identity counts) arguments arguments :=
  itemsAlike_identity fun a ha => (h.arguments _ ha a .self).elim

/-- The machine with other objects. -/
def State.withHeap (s : State) (heap : Heap) : State :=
  { s with memory := { s.memory with heap } }

end StackContract.Machine

namespace StackContract.Contract

open Assembly Script Lowering Machine
open Source (Module)

/-! ## Sessions -/

/-- The machines of a contract between invocations of its entries. -/
inductive Session (contract : Contract) (limits : Limits) : State → Prop
  | fresh : Session contract limits
      { script := contract.program.script.toArray, initializer := contract.initializer?, limits }
  | invoked {s : State} {heap : Heap} {arguments : List Item} {name : String} {entry : Nat}
    (h : Session contract limits s) (hentry : contract.entry? name = some entry)
    (hsupplied : Supplied s.memory.heap heap arguments) :
    Session contract limits (leftBehind (invoke entry arguments (s.withHeap heap)))

/-- The machines in front of an instruction in a session, with the entries of the methods in progress,
the last one first. -/
inductive Running (contract : Contract) (limits : Limits) : List Nat → State → Prop
  | initializer {s : State} {heap : Heap} {entry : Nat} (h : Session contract limits s)
    (hobjects : Supplied s.memory.heap heap []) (hfirst : s.isInitialized = false)
    (hentry : contract.initializer? = some entry) :
    Running contract limits [entry] ((s.withHeap heap).start entry [])
  | entry {s t : State} {heap : Heap} {arguments : List Item} {name : String} {entry : Nat}
    (h : Session contract limits s) (hentry : contract.entry? name = some entry)
    (hsupplied : Supplied s.memory.heap heap arguments)
    (hready : initializeStatics (s.withHeap heap) = .ok () t) :
    Running contract limits [entry] (t.start entry arguments)
  | step {s t u : State} {calls : List Nat} {i : Located} {flow : Flow}
    (h : Running contract limits calls s) (hcurrent : s.current = .ok i)
    (hexecute : execute i s = .ok flow t) (hsettle : settle i flow t = .ok true u) :
    Running contract limits (calledBehind calls flow) u

/-- What makes a program safe to run. -/
structure RunsSafely (contract : Contract) (limits : Limits) : Prop where
  /-- A machine is in front of an instruction of the method that it has entered last. -/
  inside : ∀ calls s, Running contract limits calls s →
    ∃ method ∈ contract.program.methods, calls.head? = some method.base
      ∧ calls.length = s.frames.size ∧ StartsIn contract.program method s.address
  /-- No invocation faults because an instruction, an entry or a slot is missing. -/
  faults : ∀ s, Session contract limits s → ∀ heap arguments name entry,
    contract.entry? name = some entry → Supplied s.memory.heap heap arguments →
    ∀ fault t, invoke entry arguments (s.withHeap heap) = .error fault t →
      fault.kind.isStructural = false

/-- Steps lead from running machines to running machines. -/
theorem Running.next {contract : Contract} {limits : Limits} {calls : List Nat} {s u : State}
    (h : Running contract limits calls s) (hstep : Machine.step s = .ok true u) :
    ∃ calls', Running contract limits calls' u := by
  cases hcurrent : s.current with
  | error fault =>
    have hfault : Machine.step s = .error fault s := by
      show EStateM.bind (Exec.orFault s.current) _ s = _
      rw [hcurrent]
      rfl
    rw [hfault] at hstep
    cases hstep
  | ok i =>
    rw [step_eq hcurrent] at hstep
    cases hexecute : execute i s with
    | error fault t =>
      rw [hexecute] at hstep
      cases hstep
    | ok flow t =>
      rw [hexecute] at hstep
      exact ⟨_, .step h hcurrent hexecute hstep⟩

/-! ## A program beside itself -/

/-- Every slot below a count stands for itself. -/
def sameSlots (n : Nat) : SlotLink where
  slots s s' := s = s' ∧ s.toNat < n
  constants _ _ := False
  together := True
  unique := by
    rintro s _ t _ ⟨rfl, -⟩ ⟨rfl, -⟩
    exact Iff.rfl
  apart _ h := h

namespace Image

variable {limits : Compile.Limits} {module : Module} {program : Program}

/-- The number of static slots of an image. -/
def slotCount (image : Image limits module program) : Nat :=
  image.catalogue.statics.slots.size

theorem slotCount_le (image : Image limits module program) : image.slotCount ≤ 255 := by
  obtain ⟨events, events', hstatics⟩ := image.statics_eq
  exact (Compile.slots_bounded hstatics).1

theorem slotBounds (image : Image limits module program) {s s' : UInt8}
    (h : (sameSlots image.slotCount).slots s s') : s.toNat < (UInt8.ofNat image.slotCount).toNat
      ∧ s'.toNat < (UInt8.ofNat image.slotCount).toNat := by
  obtain ⟨rfl, hlt⟩ := h
  have hle := image.slotCount_le
  rw [UInt8.toNat_ofNat']
  omega

/-- The body of a routine is alike to itself. -/
theorem exists_body (image : Image limits module program) (hsplices : SplicesNothing module)
    {routine : Routine} (h : routine ∈ image.all) : ∃ body, routine.code = routine.prologue ++ body
      ∧ CodeAlike (sameSlots image.slotCount) routine.scope body body := by
  obtain ⟨body, hcode, hbody⟩ := image.code hsplices h
  refine ⟨body, hcode, .refl hbody ?_⟩
  intro slot hslot
  rw [image.catalogue_eq h] at hslot
  exact ⟨rfl, hslot⟩

/-- An image is alike to itself. -/
theorem alike_self (image : Image limits module program) (hsplices : SplicesNothing module) :
    ImagesAlike image image (sameSlots image.slotCount) fun _ => True where
  routines := by
    intro routine routine' hroutine hroutine' hname _
    obtain rfl : routine = routine' :=
      List.inj_on_of_nodup_map image.nodup hroutine hroutine' hname
    obtain ⟨body, hcode, hbody⟩ := image.exists_body hsplices hroutine
    rcases image.mem_all hroutine with ⟨entry, -, hmethod⟩ | hinitializer
    · exact routinesAlike_of_method rfl rfl hmethod.prologue hmethod.prologue hcode hcode hbody
    · refine routinesAlike_of_initializer trivial image.slotBounds ?_ hinitializer.prologue hcode hbody
      rw [hinitializer.scope]
      rfl
  counts _ _ := trivial
  declared _ h := h

/-- With nothing in slots, they are in place. -/
theorem staticsReady_of_zero {image : Image limits module program} (h : image.slotCount = 0)
    {link : Link} {statics statics' : Option (Array Item)} :
    StaticsReady (sameSlots image.slotCount) link statics statics' := by
  rintro s s' ⟨rfl, hlt⟩
  omega

theorem slotCount_eq_zero_of_not_needs (image : Image limits module program)
    (h : image.statics.needsInitializer ≠ true) : image.slotCount = 0 := by
  unfold Compile.StaticLayout.needsInitializer at h
  simp only [ne_eq, Bool.or_eq_true, Bool.not_eq_true', not_or, Bool.not_eq_false,
    List.isEmpty_iff] at h
  show image.statics.slots.entries.length = 0
  rw [h.1]
  rfl

/-- Where the method that prepares the static fields starts. -/
theorem restAlike_initializer (image : Image limits module program)
    (hsplices : SplicesNothing module) {routine : Routine} (h : routine ∈ image.all)
    (hname : routine.signature.name = initializerName) {sized : Prop}
    (hsized : routine.scope.locals = 0 → routine.scope.params = 0 → sized) {link : Link}
    {statics statics' : Option (Array Item)} :
    RestAlike (sameSlots image.slotCount) routine.scope sized
      (StaticsReady (sameSlots image.slotCount) link statics statics') routine.code routine.code := by
  obtain ⟨body, hcode, hbody⟩ := image.exists_body hsplices h
  rcases image.mem_all h with ⟨entry, hentry, hmethod⟩ | hinitializer
  · -- a declared method has this name only if there is nothing to prepare
    have hneeds : image.statics.needsInitializer ≠ true := by
      intro hneeds
      refine image.name_free hneeds (List.mem_map.mpr ⟨entry, hentry, ?_⟩)
      rw [hmethod.signature] at hname
      exact hname
    have hzero := image.slotCount_eq_zero_of_not_needs hneeds
    exact (((image.alike_self hsplices).routines h h rfl trivial).entry hsized).mono
      (fun _ => staticsReady_of_zero hzero) id
  · refine restAlike_of_initializer trivial image.slotBounds ?_ hinitializer.prologue hcode hbody
      (fun hzero => staticsReady_of_zero hzero) hsized
    rw [hinitializer.scope]
    rfl

/-- An image without the method that prepares static fields has none in slots. -/
theorem slotCount_eq_zero (image : Image limits module program) (h : program.initializer? = none) :
    image.slotCount = 0 := by
  have hlast := image.last
  split at hlast
  · obtain ⟨routine, heq, hroutine⟩ := hlast
    have hmem : routine ∈ image.all := by
      refine List.mem_append_right _ ?_
      rw [heq]
      exact List.mem_cons_self ..
    obtain ⟨method, hat⟩ := image.exists_at hmem
    have hbase := hat.base
    rw [hroutine.signature] at hbase
    rw [show program.initializer? = some method.base from hbase] at h
    cases h
  · next hneeds => exact image.slotCount_eq_zero_of_not_needs hneeds

/-- A method starts at an address. -/
def Starts (_ : Image limits module program) (address : Nat) : Prop :=
  ∃ method ∈ program.methods, method.base = address

/-- An image beside itself. -/
def selfPairing (image : Image limits module program) (hsplices : SplicesNothing module)
    (settings : Settings) (hscript : settings.script = program.script.toArray) : Pairing :=
  (image.alike_self hsplices).pairing settings settings hscript hscript rfl

theorem addresses_selfPairing (image : Image limits module program)
    (hsplices : SplicesNothing module) (settings : Settings)
    (hscript : settings.script = program.script.toArray) :
    (Link.identity image.Starts).addresses
      = (image.selfPairing hsplices settings hscript).addresses := by
  funext a a'
  refine propext ⟨?_, ?_⟩
  · rintro ⟨rfl, method, hmethod, rfl⟩
    obtain ⟨routine, hat⟩ := image.exists_at_of_mem hmethod
    exact ⟨routine, routine, ⟨method, hat, rfl⟩, ⟨method, hat, rfl⟩, rfl, trivial⟩
  · rintro ⟨routine, routine', ⟨method, hat, rfl⟩, ⟨method', hat', rfl⟩, hname, -⟩
    exact ⟨(hat.name_iff hat').mpr hname, method, hat.method_mem, rfl⟩

end Image

/-! ## Machines between invocations -/

/-- A machine of a session, which is alike to itself. -/
structure Sound {limits : Compile.Limits} {module : Module} {program : Program}
    (image : Image limits module program) (hsplices : SplicesNothing module) (s : State) : Prop where
  script : s.settings.script = program.script.toArray
  initializer : s.initializer = program.initializer?
  kept : KeptAlike (image.selfPairing hsplices s.settings script) (s.isInitialized = true)
    (Link.identity image.Starts) s s

namespace Sound

variable {limits : Compile.Limits} {module : Module} {program : Program}
  {image : Image limits module program} {hsplices : SplicesNothing module} {s t : State}

theorem of_grown {settings : Settings} {hscript : settings.script = program.script.toArray}
    (hinitializer : settings.initializer = program.initializer?) {grown : Link}
    (hle : Link.identity image.Starts ≤ grown)
    (h : KeptAlike (image.selfPairing hsplices settings hscript) (settings.isInitialized = true) grown
      t t) : Sound image hsplices t ∧ (StaticsReady (sameSlots image.slotCount) grown t.statics
        t.statics → StaticsReady (sameSlots image.slotCount) (Link.identity image.Starts) t.statics
          t.statics) := by
  have hsettings : t.settings = settings := h.settings
  subst hsettings
  have hready : StaticsReady (sameSlots image.slotCount) grown t.statics t.statics →
      StaticsReady (sameSlots image.slotCount) (Link.identity image.Starts) t.statics t.statics := by
    intro hready slot slot' hslots
    obtain ⟨v, v', hv, hv', halike⟩ := hready hslots
    exact ⟨v, v', hv, hv', halike.of_identity_le hle⟩
  refine ⟨⟨hscript, hinitializer, rfl, rfl, image.addresses_selfPairing hsplices _ hscript,
    ⟨ItemsAlike.of_identity_le hle h.memory.stack, h.memory.heap.of_identity_le hle⟩, fun _ => rfl,
    h.statics.imp id hready, fun _ _ _ h => h.elim, ?_, rfl⟩, hready⟩
  exact h.notifications.imp fun _ _ hn => ⟨hn.1, ItemsAlike.of_identity_le hle hn.2⟩

theorem ready (h : Sound image hsplices s) (hdone : s.isInitialized = true) :
    StaticsReady (sameSlots image.slotCount) (Link.identity image.Starts) s.statics s.statics := by
  rcases h.kept.statics with ⟨hnot, -⟩ | hready
  · exact absurd hdone hnot
  · exact hready

theorem withHeap (h : Sound image hsplices s) {heap : Heap} {arguments : List Item}
    (hsupplied : Supplied s.memory.heap heap arguments) :
    Sound image hsplices (s.withHeap heap) := by
  refine ⟨h.script, h.initializer, rfl, rfl, h.kept.addresses, ⟨h.kept.memory.stack, ?_⟩,
    fun _ => rfl, h.kept.statics, h.kept.constants, h.kept.notifications, rfl⟩
  exact heapsAlike_identity fun a ha => h.kept.memory.heap.counts_of_holds (hsupplied.objects a ha)

/-- Once its static slots are in place, a machine is initialized. -/
theorem initialized (h : Sound image hsplices s)
    (hready : StaticsReady (sameSlots image.slotCount) (Link.identity image.Starts) s.statics
      s.statics) : Sound image hsplices { s with isInitialized := true } :=
  ⟨h.script, h.initializer, rfl, rfl, h.kept.addresses, h.kept.memory, fun _ => rfl, .inr hready,
    fun _ _ _ h => h.elim, h.kept.notifications, rfl⟩

/-- What holds of the results of runs. -/
structure Ends (image : Image limits module program) (hsplices : SplicesNothing module)
    (result : EStateM.Result Fault State (List Item)) : Prop where
  sound : Sound image hsplices (leftBehind result)
  ready : ∀ items t, result = .ok items t →
    StaticsReady (sameSlots image.slotCount) (Link.identity image.Starts) t.statics t.statics
  faults : ∀ fault t, result = .error fault t → fault.kind.isStructural = false

theorem ends_of_runsAlike {settings : Settings}
    {hscript : settings.script = program.script.toArray}
    (hinitializer : settings.initializer = program.initializer?)
    {result result' : EStateM.Result Fault State (List Item)}
    (h : RunsAlike (image.selfPairing hsplices settings hscript) (settings.isInitialized = true)
      (Link.identity image.Starts) result result') (hsame : result = result') :
    Ends image hsplices result := by
  cases h with
  | ok hle hitems hkept hready =>
    cases hsame
    obtain ⟨hsound, hback⟩ := Sound.of_grown hinitializer hle hkept
    refine ⟨hsound, ?_, ?_⟩
    · rintro _ _ ⟨⟩
      exact hback hready
    · rintro _ _ ⟨⟩
  | error hle hkind hstructural hkept =>
    cases hsame
    obtain ⟨hsound, -⟩ := Sound.of_grown hinitializer hle hkept
    refine ⟨hsound, ?_, ?_⟩
    · rintro _ _ ⟨⟩
    · rintro _ _ ⟨⟩
      exact hstructural

/-- A run from the start of a method. -/
theorem run (h : Sound image hsplices s) {routine : Routine} {method : PlacedMethod}
    (hat : image.At routine method)
    (hrest : RestAlike (sameSlots image.slotCount) routine.scope
      (Sized routine.scope { returnTo := none }) (StaticsReady (sameSlots image.slotCount)
        (Link.identity image.Starts) s.statics s.statics) routine.code routine.code)
    {arguments : List Item}
    (harguments : ItemsAlike (Link.identity image.Starts) arguments arguments) :
    Ends image hsplices (Machine.run method.base arguments s) := by
  have htwins : (image.selfPairing hsplices s.settings h.script).twins method.base routine method.base
      routine := ⟨⟨method, hat, rfl⟩, ⟨method, hat, rfl⟩, rfl, trivial⟩
  exact ends_of_runsAlike h.initializer (run_alike nofun h.kept htwins hrest harguments) rfl

/-- The method that prepares the static fields can be run. -/
theorem runInitializer (h : Sound image hsplices s) {entry : Nat}
    (hentry : program.initializer? = some entry) :
    Ends image hsplices (Machine.run entry [] s) ∧ ∃ routine method, image.At routine method
      ∧ method.base = entry ∧ routine.signature.name = initializerName := by
  obtain ⟨method, hfind, rfl⟩ := Option.map_eq_some_iff.mp hentry
  have hname := List.find?_some hfind
  have hname := of_decide_eq_true hname
  obtain ⟨routine, hat⟩ := image.exists_at_of_mem (List.mem_of_find?_eq_some hfind)
  rw [hat.resident.linked.signature] at hname
  refine ⟨h.run hat (image.restAlike_initializer hsplices hat.routine_mem hname ?_) .nil, routine,
    method, hat, rfl, hname⟩
  exact sized_of_zero

/-- What holds behind the initializer. -/
theorem initializeStatics (h : Sound image hsplices s) :
    Sound image hsplices (leftBehind (Machine.initializeStatics s))
      ∧ (∀ t, Machine.initializeStatics s = .ok () t → t.isInitialized = true)
      ∧ ∀ fault t, Machine.initializeStatics s = .error fault t →
        fault.kind.isStructural = false := by
  cases hdone : s.isInitialized with
  | true =>
    rw [initializeStatics_done hdone]
    refine ⟨h, ?_, ?_⟩
    · rintro _ ⟨⟩
      exact hdone
    · rintro _ _ ⟨⟩
  | false =>
    cases hentry : program.initializer? with
    | none =>
      -- without an initializer there are no slots to prepare
      rw [initializeStatics_none hdone (h.initializer.trans hentry)]
      refine ⟨h.initialized (image.staticsReady_of_zero (image.slotCount_eq_zero hentry)), ?_, ?_⟩
      · rintro _ ⟨⟩
        rfl
      · rintro _ _ ⟨⟩
    | some entry =>
      obtain ⟨hends, -⟩ := h.runInitializer hentry
      rw [initializeStatics_some hdone (h.initializer.trans hentry)]
      cases hresult : Machine.run entry [] s with
      | ok items t =>
        rw [hresult] at hends
        refine ⟨hends.sound.initialized (hends.ready items t rfl), ?_, ?_⟩
        · rintro _ ⟨⟩
          rfl
        · rintro _ _ ⟨⟩
      | error fault t =>
        rw [hresult] at hends
        refine ⟨hends.sound, ?_, ?_⟩
        · rintro _ ⟨⟩
        · rintro _ _ ⟨⟩
          exact hends.faults fault t rfl

/-- Methods can be entered once the machine is initialized. -/
theorem restAlike (h : Sound image hsplices s) (hdone : s.isInitialized = true) {routine : Routine}
    {method : PlacedMethod} (hat : image.At routine method) :
    RestAlike (sameSlots image.slotCount) routine.scope (Sized routine.scope { returnTo := none })
      (StaticsReady (sameSlots image.slotCount) (Link.identity image.Starts) s.statics s.statics)
      routine.code routine.code := by
  have halike := (image.alike_self hsplices).routines hat.routine_mem hat.routine_mem rfl trivial
  have hsized : routine.scope.locals = 0 → routine.scope.params = 0 →
      Sized routine.scope { returnTo := none } := sized_of_zero
  exact (halike.entry hsized).mono (fun _ => h.ready hdone) id

/-- What holds behind an invocation. -/
theorem invoke (h : Sound image hsplices s) {method : PlacedMethod}
    (hmethod : method ∈ program.methods) {arguments : List Item}
    (harguments : ItemsAlike (Link.identity image.Starts) arguments arguments) :
    Sound image hsplices (leftBehind (Machine.invoke method.base arguments s))
      ∧ ∀ fault t, Machine.invoke method.base arguments s = .error fault t →
        fault.kind.isStructural = false := by
  obtain ⟨routine, hat⟩ := image.exists_at_of_mem hmethod
  obtain ⟨hsound, hready, hfaults⟩ := h.initializeStatics
  rw [invoke_eq]
  cases hresult : Machine.initializeStatics s with
  | error fault t =>
    rw [hresult] at hsound
    refine ⟨hsound, ?_⟩
    rintro _ _ ⟨⟩
    exact hfaults fault t hresult
  | ok _ t =>
    rw [hresult] at hsound
    have hends := hsound.run hat (hsound.restAlike (hready t hresult) hat) harguments
    exact ⟨hends.sound, hends.faults⟩

end Sound

section

variable {limits : Compile.Limits} {module : Module} {contract : Contract} {bounds : Limits}

/-- The machines of a session are sound. -/
theorem Session.sound (hbuild : build limits module = .ok contract)
    (image : Image limits module contract.program) (hsplices : SplicesNothing module) {s : State}
    (h : Session contract bounds s) : Sound image hsplices s := by
  induction h with
  | fresh =>
    -- a fresh machine holds nothing that could be unlike itself
    refine ⟨rfl, rfl, rfl, rfl, image.addresses_selfPairing hsplices _ rfl, ⟨.nil, ?_⟩, fun _ => rfl,
      .inl ⟨nofun, rfl, rfl⟩, fun _ _ _ h => h.elim, .nil, rfl⟩
    refine heapsAlike_identity fun a ha => ?_
    cases ha with
    | sequence hmem => cases hmem
    | key hmem => cases hmem
    | value hmem => cases hmem
  | invoked h hentry hsupplied ih =>
    obtain ⟨method, hmethod, -, -, rfl⟩ := exported_of_entry? hbuild hentry
    exact ((ih.withHeap hsupplied).invoke hmethod hsupplied.itemsAlike).1

/-- The machines in front of an instruction are in corresponding places with themselves. -/
theorem Running.alike (hbuild : build limits module = .ok contract)
    (image : Image limits module contract.program) (hsplices : SplicesNothing module)
    {calls : List Nat} {s : State} (h : Running contract bounds calls s) :
    ∃ settings hscript link, StatesAlike (image.selfPairing hsplices settings hscript)
      (settings.isInitialized = true) link (some s.address) (some s.address) calls calls s s := by
  induction h with
  | @initializer s heap entry hsession hobjects hfirst hentry =>
    have hsound := (hsession.sound hbuild image hsplices).withHeap hobjects
    obtain ⟨-, routine, method, hat, rfl, hname⟩ := hsound.runInitializer hentry
    exact ⟨_, hsound.script, _, start_alike hsound.kept
      ⟨⟨method, hat, rfl⟩, ⟨method, hat, rfl⟩, rfl, trivial⟩
      (image.restAlike_initializer hsplices hat.routine_mem hname sized_of_zero) .nil⟩
  | @entry s t heap arguments name entry hsession hentry hsupplied hready =>
    have hsound := (hsession.sound hbuild image hsplices).withHeap hsupplied
    obtain ⟨method, hmethod, -, -, rfl⟩ := exported_of_entry? hbuild hentry
    obtain ⟨routine, hat⟩ := image.exists_at_of_mem hmethod
    obtain ⟨hbehind, hdone, -⟩ := hsound.initializeStatics
    rw [hready] at hbehind
    exact ⟨_, hbehind.script, _, start_alike hbehind.kept
      ⟨⟨method, hat, rfl⟩, ⟨method, hat, rfl⟩, rfl, trivial⟩
      (hbehind.restAlike (hdone t hready) hat) hsupplied.itemsAlike⟩
  | @step s t u calls i flow h hcurrent hexecute hsettle ih =>
    obtain ⟨settings, hscript, link, hstates⟩ := ih
    obtain ⟨i', i'', hi', hi'', houtcomes⟩ := execute_alike hstates fun _ _ h => h.elim
    -- both sides are the same machine, so they execute the same instruction
    obtain rfl : i = i' := Except.ok.inj (hcurrent.symm.trans hi')
    obtain rfl : i = i'' := Except.ok.inj (hcurrent.symm.trans hi'')
    rw [hexecute] at houtcomes
    obtain ⟨address, hdestination, rfl⟩ := destination_of_settle hsettle
    cases houtcomes with
    | ok hle hstates' =>
      rw [hdestination] at hstates'
      exact ⟨settings, hscript, _, hstates'.kept.withAddress address address, hstates'.control⟩

/-- Control that is in corresponding places is in front of an instruction of the innermost method. -/
theorem startsIn_of_controlAlike {image : Image limits module contract.program}
    {hsplices : SplicesNothing module} {settings : Settings}
    {hscript : settings.script = contract.program.script.toArray} {link : Link} {ready : Prop}
    {a a' : Option Nat} {calls calls' : List Nat} {frames frames' : List Frame}
    (h : ControlAlike (image.selfPairing hsplices settings hscript) link ready a a' calls calls' frames
      frames') {address : Nat} (ha : a = some address) :
    ∃ method ∈ contract.program.methods, calls.head? = some method.base
      ∧ StartsIn contract.program method address := by
  cases h with
  | finished _ => cases ha
  | running hsite _ =>
    obtain ⟨⟨⟨method, hat, rfl⟩, -, -, -⟩, hcode, -, hpos, -, -⟩ := hsite
    cases ha
    exact ⟨method, hat.method_mem, rfl, hat.resident.startsIn hcode hpos⟩

/-- Programs of accepted modules that splice no machine instructions are safe to run. -/
theorem runsSafely_of_build (hbuild : build limits module = .ok contract)
    (hsplices : SplicesNothing module) (bounds : Limits) : RunsSafely contract bounds := by
  obtain ⟨⟨image⟩, -⟩ := image_of_build hbuild
  constructor
  · intro calls s h
    obtain ⟨settings, hscript, link, hstates⟩ := h.alike hbuild image hsplices
    obtain ⟨method, hmethod, hhead, hstarts⟩ := startsIn_of_controlAlike hstates.control rfl
    refine ⟨method, hmethod, hhead, ?_, hstarts⟩
    rw [s.frames.size_eq]
    exact hstates.control.length_calls
  · intro s h heap arguments name entry hentry hsupplied fault t hinvoke
    have hsound := (h.sound hbuild image hsplices).withHeap hsupplied
    obtain ⟨method, hmethod, -, -, rfl⟩ := exported_of_entry? hbuild hentry
    exact (hsound.invoke hmethod hsupplied.itemsAlike).2 fault t hinvoke

theorem runsSafely_sample : ∃ contract, build {} sample = .ok contract ∧ SplicesNothing sample
    ∧ RunsSafely contract {} := by
  obtain ⟨contract, h⟩ := build_sample
  have hnone : ∀ method ∈ declaredMethods sample, method.binding = none := by decide
  have hsplices : SplicesNothing sample := by
    constructor
    · rintro _ _ _ _ ⟨method, hmethod, code, -, hbinding⟩
      rw [hnone method hmethod] at hbinding
      cases hbinding
    · rintro _ _ _ _ ⟨method, hmethod, code, -, hbinding⟩
      rw [hnone method hmethod] at hbinding
      cases hbinding
  exact ⟨contract, h, hsplices, runsSafely_of_build h hsplices {}⟩

end

end StackContract.Contract
