import StackContract.Proofs.Correspondence
import StackContract.Proofs.Operations
import StackContract.Proofs.Steps
/-!
# Machines in lockstep

Two machines that run corresponding routines in corresponding places on alike memories go on like that:
each step leads both to corresponding places again, or both end, or both fault in the same way
(`step_alike`). On the way no fault is structural: every address is one of an instruction, every slot
is there.
-/

namespace StackContract.Contract

open Assembly Script Lowering Machine

/-! ## Operations of directives -/

theorem operation_of_simple {op : Opcode} {simple : SimpleOp} (h : simpleOp? op = some simple) :
    operation op = .simple simple := by
  unfold operation
  rw [h]

theorem isTerminator_of_simple {op : Opcode} {simple : SimpleOp} (h : simpleOp? op = some simple) :
    op.isTerminator = false := by
  have hexclusive : ∀ op : Opcode, (simpleOp? op).isSome = true → op.isTerminator = false := by
    intro op h
    cases op <;> first | rfl | cases h
  exact hexclusive op (by rw [h]; rfl)

theorem operation_access (access : Access) : operation access.instruction.opcode = .slot := by
  have hexclusive : ∀ op : Opcode, op.slotArea?.isSome = true → operation op = .slot := by
    intro op h
    cases op <;> first | rfl | cases h
  exact hexclusive _ (by rw [access.instruction_spec.2.2]; rfl)

theorem isTerminator_access (access : Access) : access.instruction.opcode.isTerminator = false := by
  have hexclusive : ∀ op : Opcode, op.slotArea?.isSome = true → op.isTerminator = false := by
    intro op h
    cases op <;> first | rfl | cases h
  exact hexclusive _ (by rw [access.instruction_spec.2.2]; rfl)

theorem execute_accessLoad {area : SlotArea} {index : UInt8} (address : Nat) {s : State}
    {slots : Array Item} {item : Item} (hslots : s.slots area index = .ok slots)
    (hitem : slots[index.toNat]? = some item) :
    execute ⟨(Access.mk area true index).instruction, address⟩ s
      = .ok .next { s with memory := { s.memory with stack := s.memory.stack.push item } } := by
  have hspec := (Access.mk area true index).instruction_spec
  have hop := operation_access (Access.mk area true index)
  generalize (Access.mk area true index).instruction = i at hspec hop
  exact execute_load (i := ⟨i, address⟩) hop hspec.2.1 hslots hitem

theorem execute_accessStore {area : SlotArea} {index : UInt8} (address : Nat) {s : State}
    {slots : Array Item} (hslots : s.slots area index = .ok slots) (hlt : index.toNat < slots.size) :
    execute ⟨(Access.mk area false index).instruction, address⟩ s
      = match Eval.pop s.address s.memory with
        | .ok item memory =>
          .ok .next ({ s with memory }.withSlots area (slots.setIfInBounds index.toNat item))
        | .error fault memory => .error fault { s with memory } := by
  have hspec := (Access.mk area false index).instruction_spec
  have hop := operation_access (Access.mk area false index)
  generalize (Access.mk area false index).instruction = i at hspec hop
  exact execute_store (i := ⟨i, address⟩) hop hspec.2.1 hslots hlt

/-- What an opcode without operand does. -/
theorem operation_of_isPlain {op : Opcode} (h : isPlain op = true) :
    (∃ simple, operation op = .simple simple ∧ op.isTerminator = false
      ∧ ∀ i : Instruction, simple.HasOperand i)
      ∨ operation op = .ret ∨ operation op = .raise
      ∨ (operation op = .callPointer ∧ op.isTerminator = false) := by
  cases op <;> first
    | exact absurd h (by decide)
    | exact .inl ⟨_, rfl, rfl, fun _ => trivial⟩
    | exact .inr (.inl rfl)
    | exact .inr (.inr (.inl rfl))
    | exact .inr (.inr (.inr ⟨rfl, rfl⟩))

/-- A directive that pushes an item is an instruction that does so. -/
theorem Pushes.run_eq {d : Directive} {v : Item} (h : Pushes d v) : ∃ i op, d = .instruction i
    ∧ operation i.opcode = .simple op ∧ SimpleOp.run i op = Eval.push v
    ∧ i.opcode.isTerminator = false ∧ op.HasOperand i := by
  cases h with
  | integer v =>
    have hop := simpleOp?_pushInteger v
    refine ⟨_, _, rfl, operation_of_simple hop, ?_, isTerminator_of_simple hop, trivial⟩
    unfold SimpleOp.run
    rw [Instruction.integer?_pushInteger]
    rfl
  | boolean b => cases b <;> exact ⟨_, _, rfl, rfl, rfl, rfl, trivial⟩
  | byteString hlength =>
    have hop := simpleOp?_pushData ‹_›
    refine ⟨_, _, rfl, operation_of_simple hop, ?_, isTerminator_of_simple hop, trivial⟩
    unfold SimpleOp.run
    rw [Instruction.data_pushData hlength]

/-! ## Corresponding states -/

/-- Two programs with corresponding routines. -/
structure Pairing where
  left : Settings
  right : Settings
  bases : String → Option Nat
  bases' : String → Option Nat
  slots : SlotLink
  /-- Routines that stand for each other, each at its base. -/
  twins : Nat → Routine → Nat → Routine → Prop
  limits : left.limits = right.limits
  loaded : ∀ {b r b' r'}, twins b r b' r' → Loaded left.script bases b r.code
  loaded' : ∀ {b r b' r'}, twins b r b' r' → Loaded right.script bases' b' r'.code
  alike : ∀ {b r b' r'}, twins b r b' r' → RoutinesAlike slots r r'
  /-- Methods that are called by name stand for each other. -/
  callees : ∀ {b r b' r'}, twins b r b' r' → ∀ name ∈ r.scope.catalogue.compiled,
    ∃ c s c' s', bases name = some c ∧ bases' name = some c' ∧ twins c s c' s'
  unique : ∀ {b r b' r' c s c' s'}, twins b r b' r' → twins c s c' s' → (b = c ↔ b' = c')

/-- The bases of routines that stand for each other. -/
def Pairing.addresses (pairing : Pairing) (a a' : Nat) : Prop :=
  ∃ r r', pairing.twins a r a' r'

/-- A frame with the slots that the code of a method uses. -/
def Sized (scope : Scope) (frame : Frame) : Prop :=
  frame.locals.size = scope.locals.toNat ∧ frame.arguments.size = scope.params.toNat

theorem sized_of_zero {scope : Scope} {returnTo : Option Nat} (hlocals : scope.locals = 0)
    (hparams : scope.params = 0) : Sized scope { returnTo } := by
  unfold Sized
  rw [hlocals, hparams]
  exact ⟨rfl, rfl⟩

/-- The slots of a place, in the innermost frame. -/
def itemsOf (frame : Frame) : Source.Place → Array Item
  | .locals => frame.locals
  | .arguments => frame.arguments

/-- The frame with other items in a place. -/
def withItems (frame : Frame) (place : Source.Place) (items : Array Item) : Frame :=
  match place with
  | .locals => { frame with locals := items }
  | .arguments => { frame with arguments := items }

theorem slots_areaOf {s : State} {frame : Frame} {frames : List Frame}
    (hframes : s.frames.toList = frame :: frames)
    (place : Source.Place) (index : UInt8) :
    s.slots (areaOf place) index = .ok (itemsOf frame place) := by
  cases place <;>
  · unfold State.slots areaOf
    rw [hframes]
    rfl

theorem withSlots_areaOf {s : State} {frame : Frame} {frames : List Frame}
    (hframes : s.frames.toList = frame :: frames) (place : Source.Place) (items : Array Item) :
    ∃ stack : Stack Frame, stack.toList = withItems frame place items :: frames
      ∧ s.withSlots (areaOf place) items = { s with frames := stack } := by
  obtain ⟨below, hpop, rfl⟩ := Stack.pop?_of_toList hframes
  refine ⟨below.push (withItems frame place items), rfl, ?_⟩
  cases place <;>
  · unfold State.withSlots areaOf withItems
    simp only [hpop]

theorem size_itemsOf {scope : Scope} {frame : Frame} (h : Sized scope frame) (place : Source.Place) :
    (itemsOf frame place).size = (scope.declared place).toNat := by
  cases place
  · exact h.1
  · exact h.2

theorem sized_withItems {scope : Scope} {frame : Frame} (h : Sized scope frame)
    {place : Source.Place} {items : Array Item}
    (hsize : items.size = (scope.declared place).toNat) : Sized scope (withItems frame place items) := by
  cases place
  · exact ⟨hsize, h.2⟩
  · exact ⟨h.1, hsize⟩

theorem returnTo_withItems (frame : Frame) (place : Source.Place) (items : Array Item) :
    (withItems frame place items).returnTo = frame.returnTo := by
  cases place <;> rfl

/-- Frames with alike slots. -/
def FramesAlike (link : Link) (frame frame' : Frame) : Prop :=
  ItemsAlike link frame.locals.toList frame'.locals.toList
    ∧ ItemsAlike link frame.arguments.toList frame'.arguments.toList

/-- Places in routines that stand for each other, with something left to do. -/
inductive SitesAlike (pairing : Pairing) (link : Link) (ready : Prop) :
    Nat → Nat → Frame → Frame → Nat → Nat → Prop
  | mk {b b' : Nat} {routine routine' : Routine} {before rest before' rest' : List Directive}
    {frame frame' : Frame} (htwins : pairing.twins b routine b' routine')
    (hcode : routine.code = before ++ rest) (hcode' : routine'.code = before' ++ rest')
    (hpos : 0 < extent rest)
    (hrest : RestAlike pairing.slots routine.scope (Sized routine.scope frame) ready rest rest')
    (hframes : FramesAlike link frame frame') : SitesAlike pairing link ready b b' frame frame'
      (b + extent before) (b' + extent before')

/-- Where control goes, the methods that are entered, and their frames. A run ends in a method whose
static slots are in place. -/
inductive ControlAlike (pairing : Pairing) (link : Link) : Prop → Option Nat → Option Nat →
    List Nat → List Nat → List Frame → List Frame → Prop
  | finished {ready : Prop} (hready : ready) : ControlAlike pairing link ready none none [] [] [] []
  | running {ready : Prop} {b b' a a' : Nat} {frame frame' : Frame} {calls calls' : List Nat}
    {frames frames' : List Frame} (hsite : SitesAlike pairing link ready b b' frame frame' a a')
    (hbelow : ControlAlike pairing link True frame.returnTo frame'.returnTo calls calls' frames
      frames') :
    ControlAlike pairing link ready (some a) (some a') (b :: calls) (b' :: calls')
      (frame :: frames) (frame' :: frames')

/-- Notifications with alike items. -/
def NotificationsAlike (link : Link) (notification notification' : Notification) : Prop :=
  notification.name = notification'.name
    ∧ ItemsAlike link notification.state notification'.state

/-- The slot of the second program holds the item. -/
def Holds (statics : Option (Array Item)) (slot : UInt8) (v : Item) : Prop :=
  ∃ items, statics = some items ∧ items[slot.toNat]? = some v

/-- Every slot that stands for another one is there, with alike items. -/
def StaticsReady (slots : SlotLink) (link : Link) (statics statics' : Option (Array Item)) : Prop :=
  ∀ ⦃s s'⦄, slots.slots s s' → ∃ v v', Holds statics s v ∧ Holds statics' s' v' ∧ v.Alike link v'

/-- What machines keep between runs is alike. `assigned` says that the static slots are known to be in
place, and the constants that are kept in slots in theirs. -/
structure KeptAlike (pairing : Pairing) (assigned : Prop) (link : Link) (s s' : State) : Prop where
  settings : s.settings = pairing.left
  settings' : s'.settings = pairing.right
  addresses : link.addresses = pairing.addresses
  memory : MemoriesAlike link s.memory s'.memory
  together : pairing.slots.together → s.statics.isSome = s'.statics.isSome
  statics : (¬ assigned ∧ s.statics = none ∧ s'.statics = none)
    ∨ StaticsReady pairing.slots link s.statics s'.statics
  constants : assigned → ∀ {v slot}, pairing.slots.constants v slot → Holds s'.statics slot v
  notifications : List.Forall₂ (NotificationsAlike link) s.notifications.toList
    s'.notifications.toList
  logs : s.logs = s'.logs

/-- Machines in corresponding places. -/
structure StatesAlike (pairing : Pairing) (assigned : Prop) (link : Link) (a a' : Option Nat)
    (calls calls' : List Nat) (s s' : State) : Prop where
  kept : KeptAlike pairing assigned link s s'
  control : ControlAlike pairing link (StaticsReady pairing.slots link s.statics s'.statics) a a'
    calls calls' s.frames.toList s'.frames.toList

/-- The methods in progress behind an instruction. -/
def calledBehind (calls : List Nat) : Flow → List Nat
  | .enter target => target :: calls
  | .leave _ => calls.tail
  | _ => calls

/-- Results of corresponding instructions. -/
inductive OutcomesAlike (pairing : Pairing) (assigned : Prop) (link : Link) (calls calls' : List Nat)
    (i i' : Located) : EStateM.Result Fault State Flow → EStateM.Result Fault State Flow → Prop
  | ok {grown : Link} {flow flow' : Flow} {t t' : State} (hle : link ≤ grown)
    (h : StatesAlike pairing assigned grown (flow.destination i) (flow'.destination i')
      (calledBehind calls flow) (calledBehind calls' flow') t t') :
    OutcomesAlike pairing assigned link calls calls' i i' (.ok flow t) (.ok flow' t')
  | error {grown : Link} {fault fault' : Fault} {t t' : State} (hle : link ≤ grown)
    (hkind : fault.kind = fault'.kind) (hstructural : fault.kind.isStructural = false)
    (h : KeptAlike pairing assigned grown t t') :
    OutcomesAlike pairing assigned link calls calls' i i' (.error fault t) (.error fault' t')

section

variable {pairing : Pairing} {assigned : Prop} {link grown : Link}

theorem FramesAlike.mono (hle : link ≤ grown) {frame frame' : Frame}
    (h : FramesAlike link frame frame') : FramesAlike grown frame frame' :=
  ⟨ItemsAlike.mono hle h.1, ItemsAlike.mono hle h.2⟩

theorem ControlAlike.mono (hle : link ≤ grown) {ready ready' : Prop} (hready : ready → ready')
    {a a' : Option Nat} {calls calls' : List Nat} {frames frames' : List Frame}
    (h : ControlAlike pairing link ready a a' calls calls' frames frames') :
    ControlAlike pairing grown ready' a a' calls calls' frames frames' := by
  induction h generalizing ready' with
  | finished h => exact .finished (hready h)
  | running hsite _ ih =>
    obtain ⟨htwins, hcode, hcode', hpos, hrest, hframes⟩ := hsite
    exact .running (.mk htwins hcode hcode' hpos (hrest.mono hready id) (hframes.mono hle)) (ih id)

/-- Every frame belongs to a method that is entered. -/
theorem ControlAlike.length_calls {ready : Prop} {a a' : Option Nat} {calls calls' : List Nat}
    {frames frames' : List Frame}
    (h : ControlAlike pairing link ready a a' calls calls' frames frames') :
    calls.length = frames.length := by
  induction h with
  | finished _ => rfl
  | running _ _ ih => rw [List.length_cons, List.length_cons, ih]

theorem StaticsReady.mono (hle : link ≤ grown) {slots : SlotLink}
    {statics statics' : Option (Array Item)} (h : StaticsReady slots link statics statics') :
    StaticsReady slots grown statics statics' := by
  intro s s' hs
  obtain ⟨v, v', hv, hv', halike⟩ := h hs
  exact ⟨v, v', hv, hv', halike.mono hle⟩

/-- Machines stay alike when their memories change to alike ones. -/
theorem KeptAlike.withMemory (hle : link ≤ grown) {s s' : State}
    (h : KeptAlike pairing assigned link s s') {m m' : Memory} (hm : MemoriesAlike grown m m') :
    KeptAlike pairing assigned grown { s with memory := m } { s' with memory := m' } where
  settings := h.settings
  settings' := h.settings'
  addresses := hle.addresses.trans h.addresses
  memory := hm
  together := h.together
  statics := h.statics.imp id (StaticsReady.mono hle)
  constants := h.constants
  notifications := h.notifications.imp fun _ _ hn => ⟨hn.1, ItemsAlike.mono hle hn.2⟩
  logs := h.logs

/-- Frames are no part of what is kept. -/
theorem KeptAlike.withFrames {s s' : State} (h : KeptAlike pairing assigned link s s')
    (frames frames' : Stack Frame) :
    KeptAlike pairing assigned link { s with frames } { s' with frames := frames' } :=
  ⟨h.settings, h.settings', h.addresses, h.memory, h.together, h.statics, h.constants,
    h.notifications, h.logs⟩

end

/-! ## In front of an instruction -/

/-- The place of one machine. -/
structure Spot where
  base : Nat
  routine : Routine
  before : List Directive
  frame : Frame
  /-- The frames below, and the methods they belong to. -/
  frames : List Frame
  calls : List Nat

/-- Two machines in front of corresponding directives. -/
structure Standing (pairing : Pairing) (assigned : Prop) (link : Link) (spot spot' : Spot)
    (d d' : Directive) (rest rest' : List Directive) (s s' : State) : Prop where
  kept : KeptAlike pairing assigned link s s'
  twins : pairing.twins spot.base spot.routine spot'.base spot'.routine
  code : spot.routine.code = spot.before ++ d :: rest
  code' : spot'.routine.code = spot'.before ++ d' :: rest'
  address : s.address = spot.base + extent spot.before
  address' : s'.address = spot'.base + extent spot'.before
  frames : s.frames.toList = spot.frame :: spot.frames
  frames' : s'.frames.toList = spot'.frame :: spot'.frames
  alike : FramesAlike link spot.frame spot'.frame
  below : ControlAlike pairing link True spot.frame.returnTo spot'.frame.returnTo spot.calls
    spot'.calls spot.frames spot'.frames

namespace Standing

variable {pairing : Pairing} {assigned : Prop} {link : Link} {spot spot' : Spot} {d d' : Directive}
  {rest rest' : List Directive} {s s' : State}

theorem script_eq (h : Standing pairing assigned link spot spot' d d' rest rest' s s') :
    s.script = pairing.left.script :=
  congrArg Settings.script h.kept.settings

theorem script_eq' (h : Standing pairing assigned link spot spot' d d' rest rest' s s') :
    s'.script = pairing.right.script :=
  congrArg Settings.script h.kept.settings'

theorem limits_eq (h : Standing pairing assigned link spot spot' d d' rest rest' s s') :
    s.limits = s'.limits :=
  (congrArg Settings.limits h.kept.settings).trans
    (pairing.limits.trans (congrArg Settings.limits h.kept.settings').symm)

theorem current {i : Instruction}
    (h : Standing pairing assigned link spot spot' (.instruction i) d' rest rest' s s') :
    s.current = .ok ⟨i, s.address⟩ := by
  rw [h.address]
  exact current_eq h.script_eq h.address ((pairing.loaded h.twins).instruction h.code)

theorem current' {i : Instruction}
    (h : Standing pairing assigned link spot spot' d (.instruction i) rest rest' s s') :
    s'.current = .ok ⟨i, s'.address⟩ := by
  rw [h.address']
  exact current_eq h.script_eq' h.address' ((pairing.loaded' h.twins).instruction h.code')

/-- Behind an instruction that control goes past, the code goes on. -/
theorem next (h : Standing pairing assigned link spot spot' d d' rest rest' s s') {grown : Link}
    (hle : link ≤ grown) {sized : Prop} {ready : Prop} {frame frame' : Frame}
    (hsize : 0 < d.size) (hfalls : d.isTerminator = false)
    (hrest : RestAlike pairing.slots spot.routine.scope sized ready rest rest')
    (hsized : sized → Sized spot.routine.scope frame) (hframes : FramesAlike grown frame frame')
    (hreturn : frame.returnTo = spot.frame.returnTo)
    (hreturn' : frame'.returnTo = spot'.frame.returnTo) :
    ControlAlike pairing grown ready (some (s.address + d.size)) (some (s'.address + d'.size))
      (spot.base :: spot.calls) (spot'.base :: spot'.calls) (frame :: spot.frames)
      (frame' :: spot'.frames) := by
  have hpos : 0 < extent rest := (closed_closing _).falls h.code hsize hfalls
  have hextent : s.address + d.size = spot.base + extent (spot.before ++ [d]) := by
    rw [h.address, extent_append]
    unfold extent
    rw [extent, Nat.add_zero, Nat.add_assoc]
  have hextent' : s'.address + d'.size = spot'.base + extent (spot'.before ++ [d']) := by
    rw [h.address', extent_append]
    unfold extent
    rw [extent, Nat.add_zero, Nat.add_assoc]
  rw [hextent, hextent']
  refine .running (.mk h.twins ?_ ?_ hpos (hrest.mono id hsized) hframes) ?_
  · rw [List.append_assoc]
    exact h.code
  · rw [List.append_assoc]
    exact h.code'
  · rw [hreturn, hreturn']
    exact h.below.mono hle id

end Standing

/-- The instructions of two machines have alike outcomes. -/
def Agree (pairing : Pairing) (assigned : Prop) (link : Link) (calls calls' : List Nat)
    (s s' : State) : Prop :=
  ∃ i i', s.current = .ok i ∧ s'.current = .ok i'
    ∧ OutcomesAlike pairing assigned link calls calls' i i' (execute i s) (execute i' s')

theorem isStructural_of_isOperand {kind : FaultKind} (h : kind.isOperand = true) :
    kind.isStructural = false := by
  cases kind <;> first | rfl | cases h

/-- Two machines in front of corresponding directives of the bodies, the slots being in place. -/
structure Working (pairing : Pairing) (assigned : Prop) (link : Link) (spot spot' : Spot)
    (d d' : Directive) (rest rest' : List Directive) (s s' : State) : Prop extends
    Standing pairing assigned link spot spot' d d' rest rest' s s' where
  ready : StaticsReady pairing.slots link s.statics s'.statics
  sized : Sized spot.routine.scope spot.frame
  goesOn : CodeAlike pairing.slots spot.routine.scope rest rest'

namespace Working

variable {pairing : Pairing} {assigned : Prop} {link : Link} {spot spot' : Spot} {d d' : Directive}
  {rest rest' : List Directive} {s s' : State}

theorem next (h : Working pairing assigned link spot spot' d d' rest rest' s s') {grown : Link}
    (hle : link ≤ grown) (hsize : 0 < d.size) (hfalls : d.isTerminator = false) {t t' : State}
    (hkept : KeptAlike pairing assigned grown t t')
    (hready : StaticsReady pairing.slots grown t.statics t'.statics) {frame frame' : Frame}
    (hframes : t.frames.toList = frame :: spot.frames)
    (hframes' : t'.frames.toList = frame' :: spot'.frames)
    (hsized : Sized spot.routine.scope frame) (halike : FramesAlike grown frame frame')
    (hreturn : frame.returnTo = spot.frame.returnTo)
    (hreturn' : frame'.returnTo = spot'.frame.returnTo) :
    StatesAlike pairing assigned grown (some (s.address + d.size)) (some (s'.address + d'.size))
      (spot.base :: spot.calls) (spot'.base :: spot'.calls) t t' := by
  refine ⟨hkept, ?_⟩
  rw [hframes, hframes']
  exact h.toStanding.next hle hsize hfalls (.body hready trivial h.goesOn) (fun _ => hsized) halike
    hreturn hreturn'

/-- Control goes on behind an instruction that changed the memory alone. -/
theorem onward (h : Working pairing assigned link spot spot' d d' rest rest' s s') {grown : Link}
    (hle : link ≤ grown) (hsize : 0 < d.size) (hfalls : d.isTerminator = false) {m m' : Memory}
    (hkept : KeptAlike pairing assigned grown { s with memory := m } { s' with memory := m' }) :
    StatesAlike pairing assigned grown (some (s.address + d.size)) (some (s'.address + d'.size))
      (spot.base :: spot.calls) (spot'.base :: spot'.calls) { s with memory := m }
      { s' with memory := m' } :=
  h.next hle hsize hfalls hkept (StaticsReady.mono hle h.ready) h.frames h.frames' h.sized
    (h.alike.mono hle) rfl rfl

theorem pushed (h : Working pairing assigned link spot spot' d d' rest rest' s s') {v v' : Item}
    (halike : v.Alike link v') : KeptAlike pairing assigned link
      { s with memory := { s.memory with stack := s.memory.stack.push v } }
      { s' with memory := { s'.memory with stack := s'.memory.stack.push v' } } :=
  h.kept.withMemory link.le_refl ⟨.cons halike h.kept.memory.stack, h.kept.memory.heap⟩

/-- Alike computations on the memory have alike outcomes, if control goes where it should. -/
theorem evaluate (h : Working pairing assigned link spot spot' d d' rest rest' s s') {α β : Type}
    {R : Link → α → β → Prop} {x : Eval α} {y : Eval β} (hx : Eval.Alike link R x y)
    {f : α → Flow} {g : β → Flow} {calls calls' : List Nat} {i i' : Located}
    (hok : ∀ {grown : Link}, link ≤ grown → ∀ {a : α} {b : β} {m m' : Memory}, R grown a b →
      KeptAlike pairing assigned grown { s with memory := m } { s' with memory := m' } →
      StatesAlike pairing assigned grown ((f a).destination i) ((g b).destination i')
        (calledBehind calls (f a)) (calledBehind calls' (g b)) { s with memory := m }
        { s' with memory := m' }) :
    OutcomesAlike pairing assigned link calls calls' i i'
      (s.withMemory f (x s.address s.memory)) (s'.withMemory g (y s'.address s'.memory)) := by
  have hresults : ResultsAlike link R (x s.address s.memory) (y s'.address s'.memory) :=
    hx h.kept.memory
  generalize x s.address s.memory = result, y s'.address s'.memory = result' at hresults
  cases hresults with
  | ok hle hvalue hmemory => exact .ok hle (hok hle hvalue (h.kept.withMemory hle hmemory))
  | error hle hfault hmemory =>
    exact .error hle hfault.1 (isStructural_of_isOperand hfault.2) (h.kept.withMemory hle hmemory)

/-! ## Instructions on the memory -/

theorem simple {i : Instruction} {op : SimpleOp}
    (h : Working pairing assigned link spot spot' (.instruction i) (.instruction i) rest rest' s s')
    (hop : operation i.opcode = .simple op) (hoperand : op.HasOperand i)
    (hfalls : i.opcode.isTerminator = false) : Agree pairing assigned link
      (spot.base :: spot.calls) (spot'.base :: spot'.calls) s s' := by
  refine ⟨_, _, h.current, h.current', ?_⟩
  rw [execute_simple hop, execute_simple hop]
  refine h.evaluate (SimpleOp.run_alike hoperand) fun hle _ _ _ _ _ hkept => ?_
  exact h.onward hle i.size_pos hfalls hkept

theorem raise {i : Instruction}
    (h : Working pairing assigned link spot spot' (.instruction i) (.instruction i) rest rest' s s')
    (hop : operation i.opcode = .raise) : Agree pairing assigned link
      (spot.base :: spot.calls) (spot'.base :: spot'.calls) s s' := by
  refine ⟨_, _, h.current, h.current', ?_⟩
  rw [execute_raise hop, execute_raise hop]
  have hpop : ResultsAlike link SameItem (Eval.pop s.address s.memory)
      (Eval.pop s'.address s'.memory) := Eval.Alike.pop h.kept.memory
  generalize Eval.pop s.address s.memory = result, Eval.pop s'.address s'.memory = result' at hpop
  cases hpop with
  | ok hle _ hmemory => exact .error hle rfl rfl (h.kept.withMemory hle hmemory)
  | error hle hfault hmemory =>
    exact .error hle hfault.1 (isStructural_of_isOperand hfault.2) (h.kept.withMemory hle hmemory)

/-- A constant on one side and the slot that holds it on the other push the same. -/
theorem constant {v : Item} {slot : UInt8} (h : Working pairing assigned link spot spot' d
      (.instruction (Access.mk .static true slot).instruction) rest rest' s s') (hpushes : Pushes d v) (hholds : Holds s'.statics slot v) :
    Agree pairing assigned link (spot.base :: spot.calls) (spot'.base :: spot'.calls) s s' := by
  obtain ⟨i, op, rfl, hop, hrun, hfalls, -⟩ := hpushes.run_eq
  obtain ⟨items, hstatics, hitem⟩ := hholds
  have halike : v.Alike link v := by
    cases hpushes with
    | integer v => exact .integer v
    | boolean b => exact .boolean b
    | byteString _ => exact .byteString _
  refine ⟨_, _, h.current, h.current', ?_⟩
  have hslots : s'.slots .static slot = .ok items := by
    unfold State.slots
    rw [hstatics]
  rw [execute_simple hop, hrun, execute_accessLoad _ hslots hitem]
  exact .ok link.le_refl (h.onward link.le_refl i.size_pos hfalls (h.pushed halike))

/-! ## Slots -/

theorem getElem?_alike {items items' : Array Item} (h : ItemsAlike link items.toList items'.toList)
    {n : Nat} (hn : n < items.size) : ∃ v v', items[n]? = some v ∧ items'[n]? = some v'
      ∧ v.Alike link v' := by
  rcases h.getElem? n with ⟨hnone, -⟩ | ⟨v, v', hv, hv', halike⟩
  · rw [List.getElem?_eq_none_iff, Array.length_toList] at hnone
    omega
  · rw [Array.getElem?_toList] at hv hv'
    exact ⟨v, v', hv, hv', halike⟩

theorem itemsOf_alike {frame frame' : Frame} (h : FramesAlike link frame frame')
    (place : Source.Place) : ItemsAlike link (itemsOf frame place).toList (itemsOf frame' place).toList := by
  cases place
  · exact h.1
  · exact h.2

theorem loadSlot (place : Source.Place) {index : UInt8}
    (h : Working pairing assigned link spot spot'
      (.instruction (Access.mk (areaOf place) true index).instruction)
      (.instruction (Access.mk (areaOf place) true index).instruction) rest rest' s s')
    (hindex : index.toNat < (spot.routine.scope.declared place).toNat) :
    Agree pairing assigned link (spot.base :: spot.calls) (spot'.base :: spot'.calls) s s' := by
  obtain ⟨v, v', hv, hv', halike⟩ := getElem?_alike (itemsOf_alike h.alike place) (n := index.toNat)
    (by rw [size_itemsOf h.sized]; exact hindex)
  refine ⟨_, _, h.current, h.current', ?_⟩
  rw [execute_accessLoad _ (slots_areaOf h.frames place index) hv,
    execute_accessLoad _ (slots_areaOf h.frames' place index) hv']
  exact .ok link.le_refl (h.onward link.le_refl (Instruction.size_pos _) (isTerminator_access _)
    (h.pushed halike))

theorem withItems_alike {frame frame' : Frame} (h : FramesAlike link frame frame')
    (place : Source.Place) {items items' : Array Item}
    (hitems : ItemsAlike link items.toList items'.toList) :
    FramesAlike link (withItems frame place items) (withItems frame' place items') := by
  cases place
  · exact ⟨hitems, h.2⟩
  · exact ⟨h.1, hitems⟩

theorem storeSlot (place : Source.Place) {index : UInt8}
    (h : Working pairing assigned link spot spot'
      (.instruction (Access.mk (areaOf place) false index).instruction)
      (.instruction (Access.mk (areaOf place) false index).instruction) rest rest' s s')
    (hindex : index.toNat < (spot.routine.scope.declared place).toNat) :
    Agree pairing assigned link (spot.base :: spot.calls) (spot'.base :: spot'.calls) s s' := by
  have hitems := itemsOf_alike h.alike place
  have hsize := size_itemsOf h.sized place
  have hlength := hitems.length_eq
  rw [Array.length_toList, Array.length_toList] at hlength
  refine ⟨_, _, h.current, h.current', ?_⟩
  rw [execute_accessStore _ (slots_areaOf h.frames place index) (by rw [hsize]; exact hindex),
    execute_accessStore _ (slots_areaOf h.frames' place index) (by rw [← hlength, hsize]; exact hindex)]
  have hpop : ResultsAlike link SameItem (Eval.pop s.address s.memory)
      (Eval.pop s'.address s'.memory) := Eval.Alike.pop h.kept.memory
  generalize Eval.pop s.address s.memory = result, Eval.pop s'.address s'.memory = result' at hpop
  cases hpop with
  | error hle hfault hmemory =>
    exact .error hle hfault.1 (isStructural_of_isOperand hfault.2) (h.kept.withMemory hle hmemory)
  | @ok grown v v' m m' hle hvalue hmemory =>
    -- the slots of the innermost frame are replaced, with the item in one of them
    obtain ⟨stack, hstack, hstate⟩ := withSlots_areaOf (s := { s with memory := m }) h.frames place
      ((itemsOf spot.frame place).setIfInBounds index.toNat v)
    obtain ⟨stack', hstack', hstate'⟩ := withSlots_areaOf (s := { s' with memory := m' }) h.frames'
      place ((itemsOf spot'.frame place).setIfInBounds index.toNat v')
    dsimp only
    rw [hstate, hstate']
    have hset : ItemsAlike grown ((itemsOf spot.frame place).setIfInBounds index.toNat v).toList
        ((itemsOf spot'.frame place).setIfInBounds index.toNat v').toList := by
      rw [Array.toList_setIfInBounds, Array.toList_setIfInBounds]
      exact Compound.ItemsAlike.set (ItemsAlike.mono hle hitems) _ hvalue
    refine .ok hle (h.next hle (Instruction.size_pos _) (isTerminator_access _)
      ((h.kept.withMemory hle hmemory).withFrames stack stack') (StaticsReady.mono hle h.ready)
      hstack hstack' (sized_withItems h.sized ?_) (withItems_alike (h.alike.mono hle) place hset)
      (returnTo_withItems ..) (returnTo_withItems ..))
    rw [Array.size_setIfInBounds]
    exact hsize

theorem loadStatic {slot slot' : UInt8}
    (h : Working pairing assigned link spot spot'
      (.instruction (Access.mk .static true slot).instruction)
      (.instruction (Access.mk .static true slot').instruction) rest rest' s s')
    (hslots : pairing.slots.slots slot slot') :
    Agree pairing assigned link (spot.base :: spot.calls) (spot'.base :: spot'.calls) s s' := by
  obtain ⟨v, v', ⟨items, hstatics, hv⟩, ⟨items', hstatics', hv'⟩, halike⟩ := h.ready hslots
  have hthere : s.slots .static slot = .ok items := by
    unfold State.slots
    rw [hstatics]
  have hthere' : s'.slots .static slot' = .ok items' := by
    unfold State.slots
    rw [hstatics']
  refine ⟨_, _, h.current, h.current', ?_⟩
  rw [execute_accessLoad _ hthere hv, execute_accessLoad _ hthere' hv']
  exact .ok link.le_refl (h.onward link.le_refl (Instruction.size_pos _) (isTerminator_access _)
    (h.pushed halike))

theorem holds_set {items : Array Item} {slot other : UInt8} {v w : Item} (hne : slot ≠ other)
    (h : Holds (some items) other w) :
    Holds (some (items.setIfInBounds slot.toNat v)) other w := by
  obtain ⟨held, heq, hw⟩ := h
  cases heq
  refine ⟨_, rfl, ?_⟩
  rw [Array.getElem?_setIfInBounds_ne (fun heq => hne (UInt8.toNat_inj.mp heq))]
  exact hw

theorem holds_set_self {items : Array Item} {slot : UInt8} {v : Item}
    (hlt : slot.toNat < items.size) : Holds (some (items.setIfInBounds slot.toNat v)) slot v :=
  ⟨_, rfl, Array.getElem?_setIfInBounds_self_of_lt hlt⟩

theorem storeStatic {slot slot' : UInt8}
    (h : Working pairing assigned link spot spot'
      (.instruction (Access.mk .static false slot).instruction)
      (.instruction (Access.mk .static false slot').instruction) rest rest' s s')
    (hslots : pairing.slots.slots slot slot') :
    Agree pairing assigned link (spot.base :: spot.calls) (spot'.base :: spot'.calls) s s' := by
  obtain ⟨_, _, ⟨items, hstatics, hv⟩, ⟨items', hstatics', hv'⟩, -⟩ := h.ready hslots
  have hlt := (Array.getElem?_eq_some_iff.mp hv).1
  have hlt' := (Array.getElem?_eq_some_iff.mp hv').1
  have hthere : s.slots .static slot = .ok items := by
    unfold State.slots
    rw [hstatics]
  have hthere' : s'.slots .static slot' = .ok items' := by
    unfold State.slots
    rw [hstatics']
  refine ⟨_, _, h.current, h.current', ?_⟩
  rw [execute_accessStore _ hthere hlt, execute_accessStore _ hthere' hlt']
  have hpop : ResultsAlike link SameItem (Eval.pop s.address s.memory)
      (Eval.pop s'.address s'.memory) := Eval.Alike.pop h.kept.memory
  generalize Eval.pop s.address s.memory = result, Eval.pop s'.address s'.memory = result' at hpop
  cases hpop with
  | error hle hfault hmemory =>
    exact .error hle hfault.1 (isStructural_of_isOperand hfault.2) (h.kept.withMemory hle hmemory)
  | @ok grown v v' m m' hle hvalue hmemory =>
    have hready : StaticsReady pairing.slots grown (some (items.setIfInBounds slot.toNat v))
        (some (items'.setIfInBounds slot'.toNat v')) := by
      intro t t' ht
      by_cases heq : slot = t
      · subst heq
        obtain rfl := (pairing.slots.unique hslots ht).mp rfl
        exact ⟨v, v', holds_set_self hlt, holds_set_self hlt', hvalue⟩
      · obtain ⟨w, w', hw, hw', halike⟩ := h.ready ht
        rw [hstatics] at hw
        rw [hstatics'] at hw'
        exact ⟨w, w', holds_set heq hw,
          holds_set (fun heq' => heq ((pairing.slots.unique hslots ht).mpr heq')) hw', halike.mono hle⟩
    have hkept := h.kept.withMemory hle hmemory
    refine .ok hle (h.next hle (Instruction.size_pos _) (isTerminator_access _)
      ⟨hkept.settings, hkept.settings', hkept.addresses, hkept.memory, fun _ => rfl, .inr hready, ?_,
        hkept.notifications, hkept.logs⟩ hready h.frames h.frames' h.sized (h.alike.mono hle) rfl rfl)
    -- a constant is kept in a slot of its own
    intro hassigned w other hconstant
    have hholds := h.kept.constants hassigned hconstant
    rw [hstatics'] at hholds
    exact holds_set (fun heq => pairing.slots.apart hslots (heq ▸ hconstant)) hholds

/-! ## Jumps -/

/-- A source offset of a routine starts at corresponding places of both. -/
theorem sites_at_mark (h : Working pairing assigned link spot spot' d d' rest rest' s s')
    {source : UInt32} {a : Nat} (hstart : markIn source 0 spot.routine.code = some a) :
    ∃ a', markIn source 0 spot'.routine.code = some a'
      ∧ spot.base + a < s.script.size ∧ spot'.base + a' < s'.script.size
      ∧ ∀ {grown : Link}, link ≤ grown → ∀ {ready : Prop}, ready →
        ControlAlike pairing grown ready (some (spot.base + a)) (some (spot'.base + a'))
          (spot.base :: spot.calls) (spot'.base :: spot'.calls) (spot.frame :: spot.frames)
          (spot'.frame :: spot'.frames) := by
  obtain ⟨before, after, before', after', hcode, hfirst, rfl, hcode', hfirst', hstart', halike⟩ :=
    (pairing.alike h.twins).start hstart
  have hafter := (closed_closing _).starts hcode hfirst
  have hafter' := (closed_closing _).starts hcode' hfirst'
  have hinside := (pairing.loaded h.twins).inside
  have hinside' := (pairing.loaded' h.twins).inside
  rw [hcode, extent_append, extent_mark, ← h.script_eq] at hinside
  rw [hcode', extent_append, extent_mark, ← h.script_eq'] at hinside'
  refine ⟨_, hstart', by omega, by omega, ?_⟩
  intro grown hle ready hready
  -- the mark takes no bytes, so control comes to what is behind it
  have hextent : ∀ code : List Directive, extent (code ++ [.mark source]) = extent code := by
    intro code
    rw [extent_append]
    rfl
  rw [← hextent before, ← hextent before']
  refine .running (.mk h.twins ?_ ?_ hafter (.body hready h.sized halike) (h.alike.mono hle))
    (h.below.mono hle id)
  · rw [List.append_assoc]
    exact hcode
  · rw [List.append_assoc]
    exact hcode'

/-- The instructions of a branch, and where it leads. -/
theorem branch {opcode : Opcode} {source : UInt32}
    (h : Working pairing assigned link spot spot' (.reference opcode (.source source))
      (.reference opcode (.source source)) rest rest' s s') : ∃ i i' t t',
    s.current = .ok i ∧ s'.current = .ok i' ∧ i.opcode = opcode ∧ i'.opcode = opcode
      ∧ i.next = s.address + (1 + placeholderWidth) ∧ i'.next = s'.address + (1 + placeholderWidth)
      ∧ targetOf s.script i = .ok t ∧ targetOf s'.script i' = .ok t'
      ∧ ∀ {grown : Link}, link ≤ grown → ∀ {ready : Prop}, ready →
        ControlAlike pairing grown ready (some t) (some t') (spot.base :: spot.calls)
          (spot'.base :: spot'.calls) (spot.frame :: spot.frames) (spot'.frame :: spot'.frames) := by
  obtain ⟨operand, a, hlength, hstart, hdecode, htarget⟩ :=
    (pairing.loaded h.twins).branch h.code
  obtain ⟨operand', a', hlength', hstart', hdecode', htarget'⟩ :=
    (pairing.loaded' h.twins).branch h.code'
  obtain ⟨b', hmark, hlt, hlt', hsites⟩ := h.sites_at_mark hstart
  obtain rfl : a' = b' := Option.some.inj (hstart'.symm.trans hmark)
  refine ⟨_, _, _, _, current_eq h.script_eq h.address hdecode,
    current_eq h.script_eq' h.address' hdecode', rfl, rfl, ?_, ?_, targetOf_eq htarget hlt,
    targetOf_eq htarget' hlt', hsites⟩
  · unfold Located.next Instruction.size
    rw [hlength, h.address]
  · unfold Located.next Instruction.size
    rw [hlength', h.address']

/-- A conditional jump leads to corresponding places, whether it is taken or not. -/
theorem jumpIf_outcomes (h : Working pairing assigned link spot spot' d d' rest rest' s s')
    (hsize : 0 < d.size) (hfalls : d.isTerminator = false) {expected : Bool} {i i' : Located}
    {t t' : Nat} (hop : operation i.opcode = .jumpIf expected)
    (hop' : operation i'.opcode = .jumpIf expected) (hnext : i.next = s.address + d.size)
    (hnext' : i'.next = s'.address + d'.size) (htarget : targetOf s.script i = .ok t)
    (htarget' : targetOf s'.script i' = .ok t')
    (hsites : ∀ {grown : Link}, link ≤ grown → ∀ {ready : Prop}, ready →
      ControlAlike pairing grown ready (some t) (some t') (spot.base :: spot.calls)
        (spot'.base :: spot'.calls) (spot.frame :: spot.frames) (spot'.frame :: spot'.frames)) :
    OutcomesAlike pairing assigned link (spot.base :: spot.calls) (spot'.base :: spot'.calls) i i'
      (execute i s) (execute i' s') := by
  rw [execute_jumpIf hop htarget, execute_jumpIf hop' htarget']
  refine h.evaluate .popBoolean ?_
  rintro grown hle b _ m m' rfl hkept
  by_cases hb : b = expected
  · simp only [if_pos hb]
    refine ⟨hkept, ?_⟩
    show ControlAlike _ _ _ _ _ _ _ s.frames.toList s'.frames.toList
    rw [h.frames, h.frames']
    exact hsites hle (StaticsReady.mono hle h.ready)
  · simp only [if_neg hb]
    show StatesAlike _ _ _ (some i.next) (some i'.next) _ _ _ _
    rw [hnext, hnext']
    exact h.onward hle hsize hfalls hkept

theorem jump {opcode : Opcode} {source : UInt32} (hopcode : opcode ∈ jumpOpcodes)
    (h : Working pairing assigned link spot spot' (.jump opcode source) (.jump opcode source)
      rest rest' s s') :
    Agree pairing assigned link (spot.base :: spot.calls) (spot'.base :: spot'.calls) s s' := by
  obtain ⟨i, i', t, t', hcurrent, hcurrent', hi, hi', hnext, hnext', htarget, htarget', hsites⟩ :=
    h.branch
  refine ⟨i, i', hcurrent, hcurrent', ?_⟩
  have hsize : 0 < (Directive.jump opcode source).size := Nat.succ_pos _
  simp only [jumpOpcodes, List.mem_cons, List.not_mem_nil, or_false] at hopcode
  rcases hopcode with rfl | rfl | rfl
  · rw [execute_jump (by rw [hi]; rfl) htarget, execute_jump (by rw [hi']; rfl) htarget']
    refine .ok link.le_refl ⟨h.kept, ?_⟩
    rw [h.frames, h.frames']
    exact hsites link.le_refl h.ready
  · exact h.jumpIf_outcomes hsize rfl (by rw [hi]; rfl) (by rw [hi']; rfl) hnext hnext' htarget
      htarget' hsites
  · exact h.jumpIf_outcomes hsize rfl (by rw [hi]; rfl) (by rw [hi']; rfl) hnext hnext' htarget
      htarget' hsites

/-- The jump over the rest of a switch case leads to the instruction behind it. -/
theorem skip {target : UInt32} {op : Opcode} {others others' : List Directive}
    (h : Working pairing assigned link spot spot' (.instruction skipCase) (.instruction skipCase)
      (.op .drop :: .jump .jmpL target :: .op op :: others)
      (.op .drop :: .jump .jmpL target :: .op op :: others') s s') :
    Agree pairing assigned link (spot.base :: spot.calls) (spot'.base :: spot'.calls) s s' := by
  -- the jump leads to the opcode behind the three directives that it passes
  have hsplit : ∀ {spot : Spot} {code : List Directive}, spot.routine.code = spot.before
      ++ .instruction skipCase :: .op .drop :: .jump .jmpL target :: .op op :: code →
      spot.routine.code = (spot.before ++ [.instruction skipCase, .op .drop, .jump .jmpL target])
        ++ (.op op :: code) := by
    intro spot code hcode
    rw [hcode, List.append_assoc]
    rfl
  have hextent : ∀ before : List Directive, extent (before ++ [.instruction skipCase, .op .drop,
      .jump .jmpL target]) = extent before + caseSize := by
    intro before
    rw [extent_append]
    rfl
  have hbehind : ∀ code : List Directive, 0 < extent (.op op :: code) := by
    intro code
    show 0 < 1 + extent code
    omega
  have hinside := (pairing.loaded h.twins).inside
  have hinside' := (pairing.loaded' h.twins).inside
  have hpos := hbehind others
  have hpos' := hbehind others'
  rw [hsplit h.code, extent_append, hextent, ← h.script_eq] at hinside
  rw [hsplit h.code', extent_append, hextent, ← h.script_eq'] at hinside'
  refine ⟨_, _, h.current, h.current', ?_⟩
  have htarget : targetOf s.script ⟨skipCase, s.address⟩ = .ok (s.address + caseSize) := by
    refine targetOf_eq (target?_skipCase _) ?_
    rw [h.address]
    omega
  have htarget' : targetOf s'.script ⟨skipCase, s'.address⟩ = .ok (s'.address + caseSize) := by
    refine targetOf_eq (target?_skipCase _) ?_
    rw [h.address']
    omega
  refine h.jumpIf_outcomes (Instruction.size_pos _) rfl rfl rfl rfl rfl htarget htarget' ?_
  intro grown hle ready hready
  rw [h.address, h.address', Nat.add_assoc, Nat.add_assoc, ← hextent, ← hextent]
  exact .running (.mk h.twins (hsplit h.code) (hsplit h.code') hpos
    (.body hready h.sized h.goesOn.tail.tail) (h.alike.mono hle)) (h.below.mono hle id)

/-! ## Calls and returns -/

/-- Routines that stand for each other can be entered, the static slots being in place. -/
theorem entry (h : Working pairing assigned link spot spot' d d' rest rest' s s') {c c' : Nat}
    {routine routine' : Routine} (htwins : pairing.twins c routine c' routine') :
    c < s.script.size ∧ c' < s'.script.size
      ∧ ∀ {grown : Link} {returnTo returnTo' : Option Nat} {ready : Prop}, ready →
        SitesAlike pairing grown ready c c' { returnTo } { returnTo := returnTo' } c c' := by
  have hpos := extent_closing_pos routine.directives
  have hpos' := extent_closing_pos routine'.directives
  have hinside : c + extent (closing routine.directives) ≤ _ := (pairing.loaded htwins).inside
  have hinside' : c' + extent (closing routine'.directives) ≤ _ := (pairing.loaded' htwins).inside
  rw [← h.script_eq] at hinside
  rw [← h.script_eq'] at hinside'
  refine ⟨by omega, by omega, ?_⟩
  intro grown returnTo returnTo' ready hready
  have hunsized : routine.scope.locals = 0 → routine.scope.params = 0 →
      Sized routine.scope { returnTo } := sized_of_zero
  have hrest := (pairing.alike htwins).entry hunsized
  have hstart : ∀ routine : Routine, routine.code = [] ++ routine.code := fun _ => rfl
  exact .mk htwins (hstart routine) (hstart routine') hpos (hrest.mono (fun _ => hready) id)
    ⟨.nil, .nil⟩

theorem length_frames {ready : Prop} {a a' : Option Nat} {calls calls' : List Nat}
    {frames frames' : List Frame}
    (h : ControlAlike pairing link ready a a' calls calls' frames frames') :
    frames.length = frames'.length := by
  induction h with
  | finished _ => rfl
  | running _ _ ih => rw [List.length_cons, List.length_cons, ih]

theorem size_frames (h : Working pairing assigned link spot spot' d d' rest rest' s s') :
    s.frames.size = s'.frames.size := by
  rw [s.frames.size_eq, s'.frames.size_eq, h.frames, h.frames', List.length_cons, List.length_cons,
    length_frames h.below]

/-- Both machines enter routines that stand for each other, or neither does. -/
theorem enter_outcomes (h : Working pairing assigned link spot spot' d d' rest rest' s s')
    (hsize : 0 < d.size) (hfalls : d.isTerminator = false) {i i' : Located}
    (hnext : i.next = s.address + d.size) (hnext' : i'.next = s'.address + d'.size) {c c' : Nat}
    (haddresses : link.addresses c c') {grown : Link} (hle : link ≤ grown) {m m' : Memory}
    (hkept : KeptAlike pairing assigned grown { s with memory := m } { s' with memory := m' }) :
    OutcomesAlike pairing assigned link (spot.base :: spot.calls) (spot'.base :: spot'.calls) i i'
      (enter i c { s with memory := m }) (enter i' c' { s' with memory := m' }) := by
  rw [h.kept.addresses] at haddresses
  obtain ⟨routine, routine', htwins⟩ := haddresses
  obtain ⟨hlt, hlt', hsite⟩ := h.entry htwins
  rw [enter_eq (s := { s with memory := m }) hlt, enter_eq (s := { s' with memory := m' }) hlt']
  -- alike machines are as deep, so both are at the limit or neither is
  have hsame : s.limits.recursion ≤ s.frames.size ↔ s'.limits.recursion ≤ s'.frames.size := by
    rw [h.limits_eq, h.size_frames]
  dsimp only
  by_cases hlimit : s.limits.recursion ≤ s.frames.size
  · rw [if_pos hlimit, if_pos (hsame.mp hlimit)]
    exact .error hle rfl rfl hkept
  · rw [if_neg hlimit, if_neg (mt hsame.mpr hlimit)]
    refine .ok hle ⟨hkept.withFrames _ _, ?_⟩
    show ControlAlike pairing grown _ (some c) (some c') (c :: spot.base :: spot.calls)
      (c' :: spot'.base :: spot'.calls) ({ returnTo := some i.next } :: s.frames.toList)
      ({ returnTo := some i'.next } :: s'.frames.toList)
    rw [h.frames, h.frames', hnext, hnext']
    refine .running (hsite (StaticsReady.mono hle h.ready)) ?_
    exact h.toStanding.next hle hsize hfalls (.body trivial trivial h.goesOn) (fun _ => h.sized)
      (h.alike.mono hle) rfl rfl

/-- The instructions of a reference to a method, and where it leads. -/
theorem callee {opcode : Opcode} {name : String} (hname : name ∈ spot.routine.scope.catalogue.compiled)
    (h : Working pairing assigned link spot spot' (.reference opcode (.method name))
      (.reference opcode (.method name)) rest rest' s s') : ∃ i i' c c',
    s.current = .ok i ∧ s'.current = .ok i' ∧ i.opcode = opcode ∧ i'.opcode = opcode
      ∧ i.next = s.address + (1 + placeholderWidth) ∧ i'.next = s'.address + (1 + placeholderWidth)
      ∧ targetOf s.script i = .ok c ∧ targetOf s'.script i' = .ok c'
      ∧ c < s.script.size ∧ c' < s'.script.size ∧ link.addresses c c' := by
  obtain ⟨operand, a, hlength, hbase, hdecode, htarget⟩ := (pairing.loaded h.twins).callee h.code
  obtain ⟨operand', a', hlength', hbase', hdecode', htarget'⟩ :=
    (pairing.loaded' h.twins).callee h.code'
  obtain ⟨c, routine, c', routine', hc, hc', htwins⟩ := pairing.callees h.twins name hname
  obtain rfl : a = c := Option.some.inj (hbase.symm.trans hc)
  obtain rfl : a' = c' := Option.some.inj (hbase'.symm.trans hc')
  obtain ⟨hlt, hlt', -⟩ := h.entry htwins
  refine ⟨_, _, a, a', current_eq h.script_eq h.address hdecode,
    current_eq h.script_eq' h.address' hdecode', rfl, rfl, ?_, ?_, targetOf_eq htarget hlt,
    targetOf_eq htarget' hlt', hlt, hlt', ?_⟩
  · unfold Located.next Instruction.size
    rw [hlength, h.address]
  · unfold Located.next Instruction.size
    rw [hlength', h.address']
  · rw [h.kept.addresses]
    exact ⟨routine, routine', htwins⟩

theorem call {name : String} (hname : name ∈ spot.routine.scope.catalogue.compiled)
    (h : Working pairing assigned link spot spot' (.call name) (.call name) rest rest' s s') :
    Agree pairing assigned link (spot.base :: spot.calls) (spot'.base :: spot'.calls) s s' := by
  obtain ⟨i, i', c, c', hcurrent, hcurrent', hi, hi', hnext, hnext', htarget, htarget', hlt, hlt',
    haddresses⟩ := callee hname h
  refine ⟨i, i', hcurrent, hcurrent', ?_⟩
  rw [execute_call (by rw [hi]; rfl) htarget hlt, execute_call (by rw [hi']; rfl) htarget' hlt',
    ← enter_eq hlt, ← enter_eq hlt']
  exact h.enter_outcomes (Nat.succ_pos _) rfl hnext hnext' haddresses link.le_refl h.kept

theorem pushAddress {name : String} (hname : name ∈ spot.routine.scope.catalogue.compiled)
    (h : Working pairing assigned link spot spot' (.pushAddress name) (.pushAddress name) rest rest'
      s s') :
    Agree pairing assigned link (spot.base :: spot.calls) (spot'.base :: spot'.calls) s s' := by
  obtain ⟨i, i', c, c', hcurrent, hcurrent', hi, hi', hnext, hnext', htarget, htarget', -, -,
    haddresses⟩ := callee hname h
  refine ⟨i, i', hcurrent, hcurrent', ?_⟩
  rw [execute_pushAddress (by rw [hi]; rfl) htarget, execute_pushAddress (by rw [hi']; rfl) htarget']
  refine .ok link.le_refl ?_
  show StatesAlike _ _ _ (some i.next) (some i'.next) _ _ _ _
  rw [hnext, hnext']
  exact h.onward link.le_refl (Nat.succ_pos _) rfl (h.pushed (.pointer haddresses))

theorem popPointer_alike : Eval.Alike link (fun grown => grown.addresses) popPointer popPointer := by
  refine .bind .pop fun _ _ _ hitem => ?_
  cases hitem with
  | pointer h => exact .pure h
  | null | boolean | integer | byteString | buffer | array | struct | map =>
    exact .throw ⟨rfl, rfl⟩

theorem callPointer {i : Instruction}
    (h : Working pairing assigned link spot spot' (.instruction i) (.instruction i) rest rest' s s')
    (hop : operation i.opcode = .callPointer) (hfalls : i.opcode.isTerminator = false) :
    Agree pairing assigned link (spot.base :: spot.calls) (spot'.base :: spot'.calls) s s' := by
  refine ⟨_, _, h.current, h.current', ?_⟩
  rw [execute_callPointer hop, execute_callPointer hop]
  have hpop : ResultsAlike link (fun grown => grown.addresses) (popPointer s.address s.memory)
      (popPointer s'.address s'.memory) := popPointer_alike h.kept.memory
  generalize popPointer s.address s.memory = result, popPointer s'.address s'.memory = result' at hpop
  cases hpop with
  | error hle hfault hmemory =>
    exact .error hle hfault.1 (isStructural_of_isOperand hfault.2) (h.kept.withMemory hle hmemory)
  | ok hle haddresses hmemory =>
    rw [hle.addresses] at haddresses
    exact h.enter_outcomes i.size_pos hfalls rfl rfl haddresses hle (h.kept.withMemory hle hmemory)

theorem ret {i : Instruction}
    (h : Working pairing assigned link spot spot' (.instruction i) (.instruction i) rest rest' s s')
    (hop : operation i.opcode = .ret) :
    Agree pairing assigned link (spot.base :: spot.calls) (spot'.base :: spot'.calls) s s' := by
  obtain ⟨frames, hframes, hexecute⟩ := execute_ret (i := ⟨i, s.address⟩) hop h.frames
  obtain ⟨frames', hframes', hexecute'⟩ := execute_ret (i := ⟨i, s'.address⟩) hop h.frames'
  refine ⟨_, _, h.current, h.current', ?_⟩
  rw [hexecute, hexecute']
  refine .ok link.le_refl ⟨h.kept.withFrames frames frames', ?_⟩
  show ControlAlike pairing link _ spot.frame.returnTo spot'.frame.returnTo spot.calls spot'.calls
    frames.toList frames'.toList
  rw [hframes, hframes']
  exact h.below.mono link.le_refl fun _ => h.ready

/-! ## Services -/

theorem popNotification_alike :
    Eval.Alike link NotificationsAlike popNotification popNotification := by
  have hsequence : ∀ {grown : Link} {name name' : Item} {heap heap' : Heap} {r r' : Nat},
      name.Alike grown name' → HeapsAlike grown heap heap' → grown.refs .sequences r r' →
      Eval.Alike grown NotificationsAlike
        (do return ⟨← Eval.orFault (name.asText heap), (heap.sequence r).toList⟩)
        (do return ⟨← Eval.orFault (name'.asText heap'), (heap'.sequence r').toList⟩) := by
    intro grown name name' heap heap' r r' hname hheap href
    refine .bind (.orFault (hname.asText_eq hheap) (name'.isOperand_asText heap')) ?_
    rintro _ hle text _ rfl
    exact .pure ⟨rfl, ItemsAlike.mono hle (hheap.sequences href)⟩
  refine .bind .pop fun _ _ _ hname => .bind .pop fun hle _ _ hvalues => ?_
  refine .bind .heap fun hle' _ _ hheap => ?_
  replace hname := (hname.mono hle).mono hle'
  cases hvalues with
  | array h => exact hsequence hname hheap (hle'.refs h)
  | struct h => exact hsequence hname hheap (hle'.refs h)
  | null | boolean | integer | byteString | pointer | buffer | map => exact .throw ⟨rfl, rfl⟩

theorem service {i : Instruction}
    (h : Working pairing assigned link spot spot' (.instruction i) (.instruction i) rest rest' s s')
    (hop : operation i.opcode = .service) (hfalls : i.opcode.isTerminator = false) :
    Agree pairing assigned link (spot.base :: spot.calls) (spot'.base :: spot'.calls) s s' := by
  refine ⟨_, _, h.current, h.current', ?_⟩
  rw [execute_service hop, execute_service hop]
  dsimp only
  cases Service.ofId? (serviceIdOf i) with
  | none => exact .error link.le_refl rfl rfl h.kept
  | some service =>
    cases service with
    | contractCall => exact .error link.le_refl rfl rfl h.kept
    | notify =>
      have hpop : ResultsAlike link NotificationsAlike (popNotification s.address s.memory)
          (popNotification s'.address s'.memory) := popNotification_alike h.kept.memory
      dsimp only
      generalize popNotification s.address s.memory = result,
        popNotification s'.address s'.memory = result' at hpop
      cases hpop with
      | error hle hfault hmemory =>
        exact .error hle hfault.1 (isStructural_of_isOperand hfault.2)
          (h.kept.withMemory hle hmemory)
      | ok hle hnotification hmemory =>
        have hkept := h.kept.withMemory hle hmemory
        refine .ok hle (h.next hle i.size_pos hfalls
          ⟨hkept.settings, hkept.settings', hkept.addresses, hkept.memory, hkept.together,
            hkept.statics, hkept.constants, ?_, hkept.logs⟩ (StaticsReady.mono hle h.ready) h.frames
          h.frames' h.sized (h.alike.mono hle) rfl rfl)
        rw [Array.toList_push, Array.toList_push]
        exact List.rel_append hkept.notifications (.cons hnotification .nil)
    | log =>
      have hpop : ResultsAlike link Same (Eval.popText s.address s.memory)
          (Eval.popText s'.address s'.memory) := Eval.Alike.popText h.kept.memory
      dsimp only
      generalize Eval.popText s.address s.memory = result,
        Eval.popText s'.address s'.memory = result' at hpop
      cases hpop with
      | error hle hfault hmemory =>
        exact .error hle hfault.1 (isStructural_of_isOperand hfault.2)
          (h.kept.withMemory hle hmemory)
      | ok hle htext hmemory =>
        have hkept := h.kept.withMemory hle hmemory
        refine .ok hle (h.next hle i.size_pos hfalls
          ⟨hkept.settings, hkept.settings', hkept.addresses, hkept.memory, hkept.together,
            hkept.statics, hkept.constants, hkept.notifications, ?_⟩
          (StaticsReady.mono hle h.ready) h.frames h.frames' h.sized (h.alike.mono hle) rfl rfl)
        show s.logs.push _ = s'.logs.push _
        rw [h.kept.logs, htext]

end Working

end StackContract.Contract
