import StackContract.Proofs.Companions
import StackContract.Proofs.Isolation
/-!
# Independence of the layout

The order of the methods in a script is of no consequence to callers: an accepted module is accepted with
its methods in every other order, and along every sequence of invocations both contracts answer alike,
keep alike items and use the same number of instructions (`indistinct_of_reordered`).

What the machines do is followed step by step by `step_alike`. Here the number of the instructions is
counted along, and that of the static slots.
-/

namespace StackContract.Machine

/-- The machine and the counter that a computation leaves behind. -/
def Counted.leftBehind {α : Type} : EStateM.Result Fault Counted α → Counted
  | .ok _ m => m
  | .error _ m => m

/-- The machine with other objects. -/
def Counted.withHeap (m : Counted) (heap : Heap) : Counted :=
  { m with state := m.state.withHeap heap }

end StackContract.Machine

namespace StackContract.Contract

open Assembly Script Lowering Machine
open Source (Module)

/-! ## Statement -/

/-- Machines that keep alike items, with as many instructions left. -/
structure CountedAlike (link : Link) (m m' : Counted) : Prop where
  memory : MemoriesAlike link m.state.memory m'.state.memory
  statics : Option.Rel (fun items items' : Array Item => ItemsAlike link items.toList items'.toList)
    m.state.statics m'.state.statics
  notifications : List.Forall₂ (NotificationsAlike link) m.state.notifications.toList
    m'.state.notifications.toList
  logs : m.state.logs = m'.state.logs
  isInitialized : m.state.isInitialized = m'.state.isInitialized
  left : m.left = m'.left

/-- Invocations that return alike items or fault in the same way, and leave alike machines behind. -/
inductive InvocationsAlike (link : Link) : EStateM.Result Fault Counted (List Item) →
    EStateM.Result Fault Counted (List Item) → Prop
  | ok {items items' : List Item} {m m' : Counted} (hitems : ItemsAlike link items items')
    (h : CountedAlike link m m') : InvocationsAlike link (.ok items m) (.ok items' m')
  | error {fault fault' : Fault} {m m' : Counted} (hkind : fault.kind = fault'.kind)
    (h : CountedAlike link m m') : InvocationsAlike link (.error fault m) (.error fault' m')

/-- The machines of two contracts that callers use in the same way. Before an invocation, they may put
other objects in place of those that are there, the same for both machines. -/
inductive Sessions (link : Link) (bounds : Limits) (contract contract' : Contract) :
    Counted → Counted → Prop
  | fresh (left : Nat) : Sessions link bounds contract contract'
      ⟨{ script := contract.program.script.toArray, initializer := contract.initializer?,
         limits := bounds }, left⟩
      ⟨{ script := contract'.program.script.toArray, initializer := contract'.initializer?,
         limits := bounds }, left⟩
  | invoked {m m' : Counted} {heap heap' : Heap} {arguments : List Item} {name : String}
    {entry entry' : Nat} (h : Sessions link bounds contract contract' m m')
    (hentry : contract.entry? name = some entry) (hentry' : contract'.entry? name = some entry')
    (hheaps : HeapsAlike link heap heap') (hfree : ∀ a, .pointer a ∉ arguments) :
    Sessions link bounds contract contract'
      (Counted.leftBehind (Counted.invoke entry arguments (m.withHeap heap)))
      (Counted.leftBehind (Counted.invoke entry' arguments (m'.withHeap heap')))

/-- Contracts that callers cannot tell apart: they show entries of the same names, and as long as they are
used in the same way they do the same. -/
structure Indistinct (link : Link) (bounds : Limits) (contract contract' : Contract) : Prop where
  entries : ∀ name, Option.Rel link.addresses (contract.entry? name) (contract'.entry? name)
  /-- The part of an invocation that prepares the static fields, if they are not in place yet. -/
  preparations : ∀ m m', Sessions link bounds contract contract' m m' →
    ∀ heap heap', HeapsAlike link heap heap' → CountedAlike link
      (Counted.leftBehind (Counted.initializeStatics (m.withHeap heap)))
      (Counted.leftBehind (Counted.initializeStatics (m'.withHeap heap')))
  invocations : ∀ m m', Sessions link bounds contract contract' m m' →
    ∀ name entry entry', contract.entry? name = some entry → contract'.entry? name = some entry' →
    ∀ heap heap' arguments, HeapsAlike link heap heap' → (∀ a, .pointer a ∉ arguments) →
      InvocationsAlike link (Counted.invoke entry arguments (m.withHeap heap))
        (Counted.invoke entry' arguments (m'.withHeap heap'))

/-! ## Counting along -/

/-- Machines with as many instructions left and, if any, a number of static slots. -/
structure Tallied (n : Nat) (m m' : Counted) : Prop where
  left : m.left = m'.left
  roomy : m.state.Roomy n
  roomy' : m'.state.Roomy n

theorem RestAlike.extent_pos {link : SlotLink} {scope : Scope} {sized ready : Prop}
    {rest rest' : List Directive} (h : RestAlike link scope sized ready rest rest')
    (hpos : 0 < extent rest) : 0 < extent rest' := by
  cases h with
  | body hready hsized halike =>
    obtain ⟨marks, d, after, marks', d', after', -, rfl, -, -, -, hsize, -⟩ := halike.first hpos
    rw [extent_append]
    show 0 < extent marks' + (d'.size + extent after')
    omega
  | @slots _ rest rest' hready halike =>
    have hsize := Instruction.size_pos ⟨.initSlot, [scope.locals, scope.params]⟩
    show 0 < Instruction.size _ + extent rest'
    omega
  | @statics _ n n' rest rest' htogether hbounds hafter =>
    have hsize := Instruction.size_pos ⟨.initSSlot, [n']⟩
    show 0 < Instruction.size _ + extent rest'
    omega

/-- Static slots are made in the number of the fields that are kept in them. -/
theorem Image.operand_of_decode {limits : Compile.Limits} {module : Module} {program : Program}
    (image : Image limits module program) (hsplices : SplicesNothing module) {routine : Routine}
    (h : routine ∈ image.all) {script : Array UInt8} {bases : String → Option Nat} {base : Nat}
    (hloaded : Loaded script bases base routine.code) {before rest : List Directive}
    (hcode : routine.code = before ++ rest) (hpos : 0 < extent rest) {i : Located}
    (hdecode : decode script (base + extent before) = .ok i) (hop : i.opcode = .initSSlot) :
    (i.operand.headD 0).toNat = image.slotCount := by
  have hmem := hloaded.mem_of_initSSlot (image.encodable h) hcode hpos hdecode hop
  have hle := image.slotCount_le
  rw [show i.operand = [UInt8.ofNat image.slotCount] from image.operand_initSSlot hsplices h hmem hop,
    List.headD_cons, UInt8.toNat_ofNat']
  omega

section

variable {limits : Compile.Limits} {module module' : Module} {program program' : Program}
  {image : Image limits module program} {image' : Image limits module' program'}
  {h : Companions image image'}

section

variable {settings settings' : Settings} {hset : SettingsAlike program program' settings settings'}
  {assigned : Prop} {link : Link} {s s' : State} {calls calls' : List Nat}

/-- Steps of both machines keep the number of their static slots. -/
theorem roomy_steps (hstates : StatesAlike (h.pairing hset) assigned link (some s.address)
    (some s'.address) calls calls' s s') (hroomy : s.Roomy image.slotCount)
    (hroomy' : s'.Roomy image.slotCount) : (leftBehind (step s)).Roomy image.slotCount
      ∧ (leftBehind (step s')).Roomy image.slotCount := by
  obtain ⟨hkept, hcontrol⟩ := hstates
  have hcurrent : ∀ i, s.current = .ok i → decode settings.script s.address = .ok i := by
    intro i hi
    have hdecode := decode_of_current hi
    rwa [show s.script = settings.script from congrArg Settings.script hkept.settings] at hdecode
  have hcurrent' : ∀ i, s'.current = .ok i → decode settings'.script s'.address = .ok i := by
    intro i hi
    have hdecode := decode_of_current hi
    rwa [show s'.script = settings'.script from congrArg Settings.script hkept.settings'] at hdecode
  generalize ha : some s.address = a, ha' : some s'.address = a', s.frames.toList = f,
    s'.frames.toList = f' at hcontrol
  cases hcontrol with
  | finished _ => cases ha
  | running hsite _ =>
    obtain ⟨htwins, hcode, hcode', hpos, hrest, -⟩ := hsite
    obtain ⟨⟨method, hat, -⟩, ⟨method', hat', -⟩, hname, -⟩ := id htwins
    have hlike := h.routines hat.routine_mem hat'.routine_mem hname
    have hloaded := (h.pairing hset).loaded htwins
    have hloaded' := (h.pairing hset).loaded' htwins
    rw [Option.some.inj ha] at hcurrent
    rw [Option.some.inj ha'] at hcurrent'
    constructor
    · refine roomy_step hroomy fun i hi hop => ?_
      exact image.operand_of_decode h.splices hat.routine_mem hloaded hcode hpos (hcurrent i hi) hop
    · -- the other routine has the same code
      rw [hlike.code] at hloaded' hcode'
      refine roomy_step hroomy' fun i hi hop => ?_
      exact image.operand_of_decode h.splices hat.routine_mem hloaded' hcode' (hrest.extent_pos hpos)
        (hcurrent' i hi) hop

/-- From corresponding places, runs end with as many instructions left. -/
theorem tallied_loop (fuel : Nat) (hstates : StatesAlike (h.pairing hset) assigned link
    (some s.address) (some s'.address) calls calls' s s') (hroomy : s.Roomy image.slotCount)
    (hroomy' : s'.Roomy image.slotCount) : Tallied image.slotCount
      (Counted.leftBehind (Counted.loop s fuel)) (Counted.leftBehind (Counted.loop s' fuel)) := by
  induction fuel generalizing link s s' calls calls' with
  | zero => exact ⟨rfl, hroomy, hroomy'⟩
  | succ fuel ih =>
    have hstep := step_alike hstates fun _ _ hconstant _ => hconstant.elim
    obtain ⟨hnext, hnext'⟩ := roomy_steps hstates hroomy hroomy'
    unfold Counted.loop
    generalize step s = result, step s' = result' at hstep hnext hnext'
    cases hstep with
    | goesOn _ hthere => exact ih hthere hnext hnext'
    | returned _ _ _ => exact ⟨rfl, hnext, hnext'⟩
    | error _ _ _ _ => exact ⟨rfl, hnext, hnext'⟩

end

/-! ## Machines side by side -/

/-- Machines of companions between invocations. -/
structure Paired (h : Companions image image') (m m' : Counted) : Prop where
  set : SettingsAlike program program' m.state.settings m'.state.settings
  kept : KeptAlike (h.pairing set) (m.state.isInitialized = true) h.link m.state m'.state
  tallied : Tallied image.slotCount m m'

/-- Results that leave machines side by side, with related values or faults of the same kind. -/
inductive EndsAlike (h : Companions image image') {α : Type} (R : α → α → Prop) :
    EStateM.Result Fault Counted α → EStateM.Result Fault Counted α → Prop
  | ok {a b : α} {m m' : Counted} (hvalue : R a b) (hpaired : Paired h m m')
    (hready : StaticsReady (sameSlots image.slotCount) h.link m.state.statics m'.state.statics) :
    EndsAlike h R (.ok a m) (.ok b m')
  | error {fault fault' : Fault} {m m' : Counted} (hkind : fault.kind = fault'.kind)
    (hpaired : Paired h m m') : EndsAlike h R (.error fault m) (.error fault' m')

theorem StaticsReady.of_le {slots : SlotLink} {link grown : Link} (hdirect : link.Direct)
    (hle : link ≤ grown) {statics statics' : Option (Array Item)}
    (h : StaticsReady slots grown statics statics') : StaticsReady slots link statics statics' := by
  intro slot slot' hslots
  obtain ⟨v, v', hv, hv', halike⟩ := h hslots
  exact ⟨v, v', hv, hv', halike.of_le hdirect hle⟩

/-- What has come of machines that were set in the same way. -/
theorem paired_of_grown {settings settings' : Settings}
    {hset : SettingsAlike program program' settings settings'} {grown : Link} (hle : h.link ≤ grown)
    {m m' : Counted} (hkept : KeptAlike (h.pairing hset) (settings.isInitialized = true) grown m.state
      m'.state) (htallied : Tallied image.slotCount m m') : Paired h m m' := by
  have hsettings : m.state.settings = settings := hkept.settings
  have hsettings' : m'.state.settings = settings' := hkept.settings'
  subst hsettings hsettings'
  have hdirect := h.direct_link
  refine ⟨hset, ⟨rfl, rfl, h.addresses_link hset, ?_, hkept.together, ?_,
    fun _ _ _ hconstant => hconstant.elim, ?_, hkept.logs⟩, htallied⟩
  · exact ⟨ItemsAlike.of_le hdirect hle hkept.memory.stack, hkept.memory.heap.of_le hdirect hle⟩
  · exact hkept.statics.imp id (StaticsReady.of_le hdirect hle)
  · exact hkept.notifications.imp fun _ _ hn => ⟨hn.1, ItemsAlike.of_le hdirect hle hn.2⟩

theorem endsAlike_of_runsAlike {settings settings' : Settings}
    {hset : SettingsAlike program program' settings settings'}
    {result result' : EStateM.Result Fault Counted (List Item)}
    (hruns : RunsAlike (h.pairing hset) (settings.isInitialized = true) h.link (uncounted result)
      (uncounted result'))
    (htallied : Tallied image.slotCount (Counted.leftBehind result) (Counted.leftBehind result')) :
    EndsAlike h (ItemsAlike h.link) result result' := by
  have hdirect := h.direct_link
  cases result with
  | ok items m =>
    cases result' with
    | ok items' m' =>
      cases hruns with
      | ok hle hitems hkept hready =>
        exact .ok (ItemsAlike.of_le hdirect hle hitems) (paired_of_grown hle hkept htallied)
          (hready.of_le hdirect hle)
    | error fault' m' => cases hruns
  | error fault m =>
    cases result' with
    | ok items' m' => cases hruns
    | error fault' m' =>
      cases hruns with
      | error hle hkind _ hkept => exact .error hkind (paired_of_grown hle hkept htallied)

/-- Methods start inside the script. -/
theorem Image.At.base_lt {routine : Routine} {method : PlacedMethod} (hat : image.At routine method) :
    method.base < program.script.toArray.size := by
  have hinside := hat.resident.loaded.inside
  have hpos := extent_closing_pos routine.directives
  have hcode : routine.code = closing routine.directives := rfl
  rw [hcode] at hinside
  omega

namespace Paired

variable {m m' : Counted}

theorem ready (hp : Paired h m m') (hdone : m.state.isInitialized = true) :
    StaticsReady (sameSlots image.slotCount) h.link m.state.statics m'.state.statics := by
  rcases hp.kept.statics with ⟨hnot, -⟩ | hready
  · exact absurd hdone hnot
  · exact hready

theorem withHeap (hp : Paired h m m') {heap heap' : Heap} (hheaps : HeapsAlike h.link heap heap') :
    Paired h (m.withHeap heap) (m'.withHeap heap') := by
  refine ⟨hp.set, ⟨rfl, rfl, hp.kept.addresses, ⟨hp.kept.memory.stack, hheaps⟩, hp.kept.together,
    hp.kept.statics, fun _ _ _ hconstant => hconstant.elim, hp.kept.notifications, hp.kept.logs⟩, ?_⟩
  exact ⟨hp.tallied.left, hp.tallied.roomy, hp.tallied.roomy'⟩

/-- Once their static slots are in place, machines are initialized. -/
theorem initialized (hp : Paired h m m')
    (hready : StaticsReady (sameSlots image.slotCount) h.link m.state.statics m'.state.statics) :
    Paired h { m with state := { m.state with isInitialized := true } }
      { m' with state := { m'.state with isInitialized := true } } := by
  refine ⟨⟨hp.set.script, hp.set.script', hp.set.initializer, hp.set.initializer', hp.set.limits, rfl⟩,
    ⟨rfl, rfl, hp.kept.addresses, hp.kept.memory, hp.kept.together, .inr hready,
      fun _ _ _ hconstant => hconstant.elim, hp.kept.notifications, hp.kept.logs⟩, ?_⟩
  exact ⟨hp.tallied.left, hp.tallied.roomy, hp.tallied.roomy'⟩

/-- Runs of methods of the same name end alike. -/
theorem run (hp : Paired h m m') {routine routine' : Routine} {method method' : PlacedMethod}
    (hat : image.At routine method) (hat' : image'.At routine' method')
    (hname : routine.signature.name = routine'.signature.name)
    (hrest : RestAlike (sameSlots image.slotCount) routine.scope
      (Sized routine.scope { returnTo := none }) (StaticsReady (sameSlots image.slotCount) h.link
        m.state.statics m'.state.statics) routine.code routine'.code)
    {arguments arguments' : List Item} (harguments : ItemsAlike h.link arguments arguments') :
    EndsAlike h (ItemsAlike h.link) (Counted.run method.base arguments m)
      (Counted.run method'.base arguments' m') := by
  have htwins : (h.pairing hp.set).twins method.base routine method'.base routine' :=
    ⟨⟨method, hat, rfl⟩, ⟨method', hat', rfl⟩, hname, trivial⟩
  have hnone : ∀ {v slot}, (h.pairing hp.set).slots.constants v slot →
      m.state.isInitialized = true := fun hconstant => hconstant.elim
  have hruns := run_alike hnone hp.kept htwins hrest harguments
  rw [← Counted.uncounted_run, ← Counted.uncounted_run] at hruns
  refine endsAlike_of_runsAlike hruns ?_
  have hbase : ¬ m.state.script.size ≤ method.base := by
    rw [show m.state.script = program.script.toArray from hp.set.script]
    exact Nat.not_le_of_lt hat.base_lt
  have hbase' : ¬ m'.state.script.size ≤ method'.base := by
    rw [show m'.state.script = program'.script.toArray from hp.set.script']
    exact Nat.not_le_of_lt hat'.base_lt
  have hlimits : m.state.limits = m'.state.limits := hp.set.limits
  unfold Counted.run
  rw [if_neg hbase, if_neg hbase', hlimits]
  exact tallied_loop _ (start_alike hp.kept htwins hrest harguments) hp.tallied.roomy
    hp.tallied.roomy'

/-- What holds behind the initializers. -/
theorem initializeStatics (hp : Paired h m m') :
    EndsAlike h (fun _ _ => True) (Counted.initializeStatics m) (Counted.initializeStatics m') := by
  have hsame : m'.state.isInitialized = m.state.isInitialized := hp.set.isInitialized.symm
  have hentry : m.state.initializer = program.initializer? := hp.set.initializer
  have hentry' : m'.state.initializer = program'.initializer? := hp.set.initializer'
  unfold Counted.initializeStatics
  rw [hsame, hentry, hentry']
  cases hdone : m.state.isInitialized with
  | true => exact .ok trivial hp (hp.ready hdone)
  | false =>
    rcases h.initializer with ⟨hnone, hnone'⟩ | ⟨routine, method, routine', method', hat, hat', hname,
      hinitializer, hsome, hsome'⟩
    · -- without an initializer there are no slots to prepare
      rw [hnone, hnone']
      have hready : StaticsReady (sameSlots image.slotCount) h.link m.state.statics m'.state.statics :=
        image.staticsReady_of_zero (image.slotCount_eq_zero hnone)
      exact .ok trivial (hp.initialized hready) hready
    · rw [hsome, hsome']
      have hsized : routine.scope.locals = 0 → routine.scope.params = 0 →
          Sized routine.scope { returnTo := none } := sized_of_zero
      have hends := hp.run hat hat' hname
        (h.restAlike_initializer hat.routine_mem hat'.routine_mem hname hinitializer hsized) .nil
      dsimp only
      generalize Counted.run method.base [] m = result, Counted.run method'.base [] m' = result'
        at hends
      cases hends with
      | ok _ hpaired hready => exact .ok trivial (hpaired.initialized hready) hready
      | error hkind hpaired => exact .error hkind hpaired

/-- Invocations of methods of the same name end alike. -/
theorem invoke (hp : Paired h m m') {entry entry' : Nat} (hentries : h.link.addresses entry entry')
    {arguments arguments' : List Item} (harguments : ItemsAlike h.link arguments arguments') :
    EndsAlike h (ItemsAlike h.link) (Counted.invoke entry arguments m)
      (Counted.invoke entry' arguments' m') := by
  obtain ⟨routine, routine', ⟨method, hat, rfl⟩, ⟨method', hat', rfl⟩, hname, -⟩ :=
    h.sameMethod_iff.mp hentries
  have halike := h.alike.routines hat.routine_mem hat'.routine_mem hname trivial
  have hends := hp.initializeStatics
  unfold Counted.invoke
  generalize Counted.initializeStatics m = result, Counted.initializeStatics m' = result' at hends
  cases hends with
  | error hkind hpaired => exact .error hkind hpaired
  | ok _ hpaired hready =>
    exact hpaired.run hat hat' hname ((halike.entry sized_of_zero).mono (fun _ => hready) id)
      harguments

/-- All of the static slots are alike. -/
theorem statics (hp : Paired h m m') :
    Option.Rel (fun items items' : Array Item => ItemsAlike h.link items.toList items'.toList)
      m.state.statics m'.state.statics := by
  have htogether := hp.kept.together trivial
  have hroomy := hp.tallied.roomy
  have hroomy' := hp.tallied.roomy'
  have hstatics := hp.kept.statics
  unfold State.Roomy at hroomy hroomy'
  generalize m.state.statics = statics, m'.state.statics = statics' at *
  cases statics with
  | none =>
    cases statics' with
    | none => exact .none
    | some items' => cases htogether
  | some items =>
    cases statics' with
    | none => cases htogether
    | some items' =>
      refine .some (List.forall₂_iff_get.mpr ⟨?_, ?_⟩)
      · rw [Array.length_toList, Array.length_toList, hroomy _ rfl, hroomy' _ rfl]
      · intro i hi hi'
        have hlt : i < image.slotCount := by
          rw [← hroomy _ rfl, ← Array.length_toList]
          exact hi
        have hslot : (UInt8.ofNat i).toNat = i := by
          have hle := image.slotCount_le
          rw [UInt8.toNat_ofNat']
          omega
        rcases hstatics with ⟨-, hnone, -⟩ | hready
        · cases hnone
        · obtain ⟨v, v', ⟨_, heq, hv⟩, ⟨_, heq', hv'⟩, halike⟩ :=
            hready (s := UInt8.ofNat i) ⟨rfl, hslot.trans_lt hlt⟩
          cases heq
          cases heq'
          rw [hslot] at hv hv'
          rw [List.get_eq_getElem, List.get_eq_getElem, Array.getElem_toList, Array.getElem_toList]
          obtain ⟨_, rfl⟩ := Array.getElem?_eq_some_iff.mp hv
          obtain ⟨_, rfl⟩ := Array.getElem?_eq_some_iff.mp hv'
          exact halike

theorem countedAlike (hp : Paired h m m') : CountedAlike h.link m m' where
  memory := hp.kept.memory
  statics := hp.statics
  notifications := hp.kept.notifications
  logs := hp.kept.logs
  isInitialized := hp.set.isInitialized
  left := hp.tallied.left

end Paired

/-- Results that are alike leave machines side by side. -/
theorem EndsAlike.paired {α : Type} {R : α → α → Prop} {result result' : EStateM.Result Fault Counted α}
    (hends : EndsAlike h R result result') :
    Paired h (Counted.leftBehind result) (Counted.leftBehind result') := by
  cases hends with
  | ok _ hpaired _ => exact hpaired
  | error _ hpaired => exact hpaired

theorem EndsAlike.invocationsAlike {result result' : EStateM.Result Fault Counted (List Item)}
    (hends : EndsAlike h (ItemsAlike h.link) result result') :
    InvocationsAlike h.link result result' := by
  cases hends with
  | ok hvalue hpaired _ => exact .ok hvalue hpaired.countedAlike
  | error hkind hpaired => exact .error hkind hpaired.countedAlike

end

/-! ## Contracts in two orders -/

section

variable {limits : Compile.Limits} {module module' : Module} {contract contract' : Contract}

/-- Methods with the same signatures are exported under the same names. -/
theorem entries_of_perm (hbuild : build limits module = .ok contract)
    (hbuild' : build limits module' = .ok contract')
    (hperm : (contract.program.methods.map (·.signature)).Perm
      (contract'.program.methods.map (·.signature))) (name : String) :
    Option.Rel (SameMethod contract.program contract'.program) (contract.entry? name)
      (contract'.entry? name) := by
  cases hentry : contract.entry? name with
  | some entry =>
    obtain ⟨method, hmethod, hexported, hname, hbase⟩ := exported_of_entry? hbuild hentry
    obtain ⟨method', hmethod', hsame⟩ := List.mem_map.mp (hperm.mem_iff.mp (List.mem_map_of_mem hmethod))
    have hexported' : method'.signature.isExported = true := by
      rw [hsame]
      exact hexported
    have hentry' := entry?_of_exported hbuild' hmethod' hexported'
    rw [hsame, hname] at hentry'
    rw [hentry']
    exact .some ⟨method, hmethod, method', hmethod', hbase, rfl, congrArg (·.name) hsame.symm⟩
  | none =>
    cases hentry' : contract'.entry? name with
    | none => exact .none
    | some entry' =>
      obtain ⟨method', hmethod', hexported', hname, -⟩ := exported_of_entry? hbuild' hentry'
      obtain ⟨method, hmethod, hsame⟩ :=
        List.mem_map.mp (hperm.mem_iff.mpr (List.mem_map_of_mem hmethod'))
      have hexported : method.signature.isExported = true := by
        rw [hsame]
        exact hexported'
      have hthere := entry?_of_exported hbuild hmethod hexported
      rw [hsame, hname, hentry] at hthere
      cases hthere

/-- Machines that are used in the same way are side by side. -/
theorem Sessions.paired {image : Image limits module contract.program}
    {image' : Image limits module' contract'.program} {h : Companions image image'}
    (hentries : ∀ name, Option.Rel h.link.addresses (contract.entry? name) (contract'.entry? name))
    {bounds : Limits} {m m' : Counted} (hsession : Sessions h.link bounds contract contract' m m') :
    Paired h m m' := by
  induction hsession with
  | fresh left =>
    have hset : SettingsAlike contract.program contract'.program
        (State.settings { script := contract.program.script.toArray,
                          initializer := contract.initializer?, limits := bounds })
        (State.settings { script := contract'.program.script.toArray,
                          initializer := contract'.initializer?, limits := bounds }) :=
      ⟨rfl, rfl, rfl, rfl, rfl, rfl⟩
    -- fresh machines hold nothing that could be unlike
    have hheaps : HeapsAlike h.link {} {} := heapsAlike_self h.direct_link fun a ha => by
      cases ha with
      | sequence hmem => cases hmem
      | key hmem => cases hmem
      | value hmem => cases hmem
    exact ⟨hset, ⟨rfl, rfl, h.addresses_link hset, ⟨.nil, hheaps⟩, fun _ => rfl,
      .inl ⟨nofun, rfl, rfl⟩, fun _ _ _ hconstant => hconstant.elim, .nil, rfl⟩, rfl, nofun, nofun⟩
  | @invoked m m' heap heap' arguments name entry entry' _ hentry hentry' hheaps hfree ih =>
    have hrel := hentries name
    rw [hentry, hentry'] at hrel
    cases hrel with
    | some haddresses =>
      have harguments := itemsAlike_self h.direct_link fun a ha => absurd ha (hfree a)
      exact ((ih.withHeap hheaps).invoke haddresses harguments).paired

/-- The order of methods is of no consequence to callers. -/
theorem indistinct_of_reordered (hbuild : build limits module = .ok contract)
    (hsplices : SplicesNothing module) (h : Reordered module module')
    (hsmall : contract.program.script.length < 0x8000_0000) :
    ∃ contract', build limits module' = .ok contract' ∧ ∃ link : Link, link.Direct
      ∧ link.addresses = SameMethod contract.program contract'.program
      ∧ ∀ bounds, Indistinct link bounds contract contract' := by
  obtain ⟨contract', hbuild', hperm⟩ := exists_build_of_reordered hbuild h hsmall
  obtain ⟨⟨image⟩, -⟩ := image_of_build hbuild
  obtain ⟨⟨image'⟩, -⟩ := image_of_build hbuild'
  have hcompanions := companions_of_reordered image image' hsplices h
  have hentries := entries_of_perm hbuild hbuild' hperm
  refine ⟨contract', hbuild', hcompanions.link, hcompanions.direct_link, rfl, fun bounds => ?_⟩
  refine ⟨hentries, ?_, ?_⟩
  · intro m m' hsession heap heap' hheaps
    exact ((hsession.paired hentries).withHeap hheaps).initializeStatics.paired.countedAlike
  · intro m m' hsession name entry entry' hentry hentry' heap heap' arguments hheaps hfree
    have hrel := hentries name
    rw [hentry, hentry'] at hrel
    cases hrel with
    | some haddresses =>
      have hpaired := (hsession.paired hentries).withHeap hheaps
      have harguments := itemsAlike_self hcompanions.direct_link fun a ha => absurd ha (hfree a)
      exact (hpaired.invoke haddresses harguments).invocationsAlike

/-- The small module with its methods the other way round. -/
def sampleReversed : Module where
  types := [{ name := "T", methods := [sampleTwice, samplePick] }]

example : (build {} sample).toOption.bind (fun contract => contract.entry? "pick")
    ≠ (build {} sampleReversed).toOption.bind (fun contract => contract.entry? "pick") := by
  decide +kernel

theorem indistinct_sample : ∃ contract, build {} sample = .ok contract
    ∧ contract.program.script.length < 0x8000_0000 ∧ Reordered sample sampleReversed
    ∧ ∃ contract', build {} sampleReversed = .ok contract' ∧ ∃ link : Link, link.Direct
      ∧ link.addresses = SameMethod contract.program contract'.program
      ∧ ∀ bounds, Indistinct link bounds contract contract' := by
  obtain ⟨contract, hbuild⟩ := build_sample
  have hsmall : (build {} sample).toOption.map
      (fun contract => decide (contract.program.script.length < 0x8000_0000)) = some true := by
    decide +kernel
  rw [hbuild] at hsmall
  have hlength := of_decide_eq_true (Option.some.inj hsmall)
  have hnone : ∀ method ∈ declaredMethods sample, method.binding = none := by decide
  have hsplices : SplicesNothing sample := splicesNothing_of_unbound fun method hmethod code => by
    rw [hnone method hmethod]
    exact nofun
  have hreordered : Reordered sample sampleReversed := .cons ⟨.swap .., rfl⟩ .nil
  exact ⟨contract, hbuild, hlength, hreordered,
    indistinct_of_reordered hbuild hsplices hreordered hlength⟩

end

end StackContract.Contract
