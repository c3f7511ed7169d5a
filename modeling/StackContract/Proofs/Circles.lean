import StackContract.Proofs.Founding
import StackContract.Proofs.Identity
import StackContract.Proofs.Settings
/-!
# Structs never nest in a circle

Whatever scripts a machine runs, on arguments that its host has built for them, no struct comes to be
inside itself, so that copying and comparing come to an end on every item that there is
(`untangled_of_reachable`).

Slots hold items as the stack does, so instructions keep machines founded as operations keep memory.
-/

namespace StackContract.Machine

open Script

/-! ## Machines -/

/-- A frame whose items are in hand. -/
structure Frame.Founded (n : Nat) (frame : Frame) : Prop where
  locals : AllInhand n frame.locals.toList
  arguments : AllInhand n frame.arguments.toList

theorem Frame.founded_new {n : Nat} (returnTo : Option Nat) : Frame.Founded n { returnTo } :=
  ⟨allInhand_nil, allInhand_nil⟩

theorem Frame.Founded.mono {n n' : Nat} {frame : Frame} (h : frame.Founded n) (hle : n ≤ n') :
    frame.Founded n' :=
  ⟨h.locals.mono hle, h.arguments.mono hle⟩

/-- A machine all of whose items refer to its heap, which is founded, beyond a bound on its
sequences. -/
structure State.Founded (n : Nat) (s : State) : Prop where
  memory : s.memory.Founded n
  statics : ∀ items, s.statics = some items → AllInhand s.memory.heap.sequences.size items.toList
  frames : ∀ frame ∈ s.frames.toList, frame.Founded s.memory.heap.sequences.size

namespace State.Founded

variable {n : Nat} {s : State}

theorem full (h : s.Founded n) : s.Founded s.memory.heap.sequences.size :=
  ⟨h.memory.full, h.statics, h.frames⟩

theorem mono {n' : Nat} (h : s.Founded n') (hle : n ≤ n') : s.Founded n :=
  ⟨h.memory.mono hle, h.statics, h.frames⟩

/-- The memory may be another one whose heap has not shrunk. -/
theorem withMemory {n' : Nat} (h : s.Founded n) {m : Memory} (hm : m.Founded n')
    (hle : s.memory.heap.sequences.size ≤ m.heap.sequences.size) :
    State.Founded n' { s with memory := m } :=
  ⟨hm, fun items hitems => (h.statics items hitems).mono hle, fun frame hframe =>
    (h.frames frame hframe).mono hle⟩

/-- There may be other frames. -/
theorem withFrames (h : s.Founded n) {frames : Stack Frame}
    (hframes : ∀ frame ∈ frames.toList, frame.Founded s.memory.heap.sequences.size) :
    State.Founded n { s with frames } :=
  ⟨h.memory, h.statics, hframes⟩

theorem pop? (h : s.Founded n) {frame : Frame} {rest : Stack Frame}
    (hpop : s.frames.pop? = some (frame, rest)) : frame.Founded s.memory.heap.sequences.size
      ∧ ∀ frame ∈ rest.toList, frame.Founded s.memory.heap.sequences.size := by
  have hframes := h.frames
  rw [Stack.pop?_eq_some_iff.mp hpop] at hframes
  exact List.forall_mem_cons.mp hframes

/-- The frames below the innermost one, with one in its place. -/
theorem withFrame (h : s.Founded n) {frame frame' : Frame} {rest : Stack Frame}
    (hpop : s.frames.pop? = some (frame, rest)) (hframe : frame'.Founded s.memory.heap.sequences.size) :
    State.Founded n { s with frames := rest.push frame' } :=
  h.withFrames (List.forall_mem_cons.mpr ⟨hframe, (h.pop? hpop).2⟩)

theorem slots (h : s.Founded n) {area : SlotArea} {index : UInt8} {slots : Array Item}
    (hslots : s.slots area index = .ok slots) :
    AllInhand s.memory.heap.sequences.size slots.toList := by
  have hframes := h.frames
  unfold State.slots at hslots
  cases area with
  | static =>
    cases hstatics : s.statics with
    | none =>
      rw [hstatics] at hslots
      cases hslots
    | some items =>
      rw [hstatics] at hslots
      cases hslots
      exact h.statics _ hstatics
  | locals =>
    generalize s.frames.toList = frames at hframes hslots
    cases frames with
    | nil => cases hslots
    | cons frame frames =>
      cases hslots
      exact (hframes frame List.mem_cons_self).locals
  | arguments =>
    generalize s.frames.toList = frames at hframes hslots
    cases frames with
    | nil => cases hslots
    | cons frame frames =>
      cases hslots
      exact (hframes frame List.mem_cons_self).arguments

theorem withSlots (h : s.Founded n) (area : SlotArea) {slots : Array Item}
    (hslots : AllInhand s.memory.heap.sequences.size slots.toList) :
    (s.withSlots area slots).Founded n := by
  unfold State.withSlots
  split
  · refine ⟨h.memory, fun items hitems => ?_, h.frames⟩
    cases hitems
    exact hslots
  · next hpop => exact h.withFrame hpop ⟨hslots, (h.pop? hpop).1.arguments⟩
  · next hpop => exact h.withFrame hpop ⟨(h.pop? hpop).1.locals, hslots⟩
  · exact h

end State.Founded

/-- A computation keeps machines founded, and has a value of some kind. -/
def Exec.Founds {α : Type} (n : Nat) (R : Nat → α → Prop) (x : Exec α) : Prop :=
  ∀ ⦃s⦄, s.Founded n → Kept State.Founded n R (x s)

namespace Exec.Founds

variable {α β : Type} {n : Nat} {R : Nat → α → Prop} {S : Nat → β → Prop}

theorem pure {a : α} (h : R n a) : Founds n R (Pure.pure a) :=
  fun _ hs => .ok (Nat.le_refl n) hs h

theorem throw (fault : Fault) : Founds n R (MonadExcept.throw fault : Exec α) :=
  fun _ hs => .error (Nat.le_refl n) hs

theorem bind {x : Exec α} {f : α → Exec β} (hx : Founds n R x)
    (hf : ∀ {n'}, n ≤ n' → ∀ {a}, R n' a → Founds n' S (f a)) : Founds n S (x >>= f) :=
  fun _ hs => Kept.bind (hx hs) fun hle _ _ hvalue hstate => hf hle hvalue hstate

theorem ite {c : Prop} [Decidable c] {x y : Exec α} (hx : Founds n R x) (hy : Founds n R y) :
    Founds n R (if c then x else y) := by
  split
  · exact hx
  · exact hy

/-- The machine as it is, whose sequences are all there are. -/
theorem get : Founds n (fun n' s => s.Founded n' ∧ s.memory.heap.sequences.size ≤ n')
    (MonadState.get : Exec State) :=
  fun _ hs => .ok hs.memory.le hs.full ⟨hs.full, Nat.le_refl _⟩

theorem modify {f : State → State} (h : ∀ s, s.Founded n → (f s).Founded n) :
    Founds n Anything (modify f : Exec Unit) :=
  fun s hs => .ok (Nat.le_refl n) (h s hs) trivial

theorem orFault {x : Except Fault α} (h : ∀ a, x = .ok a → R n a) : Founds n R (Exec.orFault x) := by
  cases x with
  | ok a => exact .pure (h a rfl)
  | error fault => exact .throw fault

theorem evaluate {x : Eval α} (h : ∀ {n'}, n ≤ n' → x.Founds n' R) :
    Founds n R (Exec.evaluate x) := by
  intro s hs
  have hkept := @h _ hs.memory.le s.address s.memory hs.memory.full
  rw [evaluate_eq]
  generalize x s.address s.memory = result at hkept
  cases hkept with
  | ok hle hmemory hvalue =>
    have hgrown := hs.withMemory hmemory (Nat.le_trans hle hmemory.le)
    exact .ok (Nat.le_trans hs.memory.le hle) hgrown hvalue
  | error hle hmemory =>
    have hgrown := hs.withMemory hmemory (Nat.le_trans hle hmemory.le)
    exact .error (Nat.le_trans hs.memory.le hle) hgrown

theorem andNext {T : Nat → Unit → Prop} {x : Exec Unit} (h : Founds n T x) :
    Founds n Anything (andNext x) :=
  .bind h fun _ _ _ => .pure trivial

end Exec.Founds

/-! ## Instructions -/

section

variable {n : Nat}

theorem founds_popMessage (hasMessage : Bool) : (popMessage hasMessage).Founds n Anything := by
  cases hasMessage with
  | false => exact .pure trivial
  | true => exact .bind .popText fun _ _ _ => .pure trivial

theorem founds_assertTop (hasMessage : Bool) : (assertTop hasMessage).Founds n Anything :=
  .bind (founds_popMessage hasMessage) fun _ _ _ => .bind .popBoolean fun _ _ _ =>
    .ite (.pure trivial) (.throw _)

theorem founds_popPointer : popPointer.Founds n Anything := by
  refine .bind .pop fun _ item _ => ?_
  cases item with
  | pointer address => exact .pure trivial
  | null | boolean | integer | byteString | buffer | array | struct | map => exact .throw _

theorem founds_popNotification :
    popNotification.Founds n fun n notification => AllInhand n notification.state := by
  refine .bind .pop fun _ name _ => .bind .pop fun _ values _ => .bind .heap fun _ heap hheap => ?_
  cases values with
  | array r | struct r =>
    exact .bind (.orFault _) fun hle _ _ => .pure ((hheap.sequence r).mono hle)
  | null | boolean | integer | byteString | pointer | buffer | map => exact .throw _

theorem founds_jumpTo (i : Located) : (jumpTo i).Founds n Anything :=
  .bind .get fun _ _ _ => .bind (.orFault (R := Anything) fun _ _ => trivial) fun _ _ _ => .pure trivial

theorem founds_enter (i : Located) (target : Nat) : (enter i target).Founds n Anything := by
  have hpush : ∀ {n}, Exec.Founds n Anything (do
      modify fun state => { state with frames := state.frames.push { returnTo := some i.next } }
      return .enter target : Exec Flow) := fun {n} =>
    .bind (.modify fun s hs => hs.withFrames
      (List.forall_mem_cons.mpr ⟨Frame.founded_new _, hs.frames⟩)) fun _ _ _ => .pure trivial
  have hinside : ∀ {n} (s : State), Exec.Founds n Anything (do
      if s.script.size ≤ target then throw (.invalidEntry target)
      modify fun state => { state with frames := state.frames.push { returnTo := some i.next } }
      return .enter target : Exec Flow) :=
    fun _ => .ite (.bind (R := Anything) (.throw _) fun _ _ _ => hpush) hpush
  exact .bind .get fun _ s _ =>
    .ite (.bind (R := Anything) (.throw _) fun _ _ _ => hinside s) (hinside s)

theorem founds_leave : leave.Founds n Anything := by
  intro s hs
  rw [leave_eq]
  cases hpop : s.frames.pop? with
  | none => exact .error (Nat.le_refl n) hs
  | some top =>
    exact .ok (Nat.le_refl n) (hs.withFrames (hs.pop? hpop).2) trivial

theorem founds_allocateStatics (count : Nat) : (allocateStatics count).Founds n Anything := by
  have hallocate : ∀ {n}, Exec.Founds n Anything (modify fun state =>
      { state with statics := some (Array.replicate count .null) } : Exec Unit) := fun {n} =>
    .modify fun s hs => ⟨hs.memory, fun items hitems => by
      cases hitems
      exact allInhand_replicate .null count, hs.frames⟩
  exact .bind .get fun _ _ _ => .ite (.bind (R := Anything) (.throw _) fun _ _ _ => hallocate) hallocate

theorem founds_allocateSlots (locals params : Nat) :
    (allocateSlots locals params).Founds n Anything := by
  intro s hs
  have hkept : Kept Memory.Founded _ AllInhand (Eval.popMany params s.address s.memory) :=
    Eval.Founds.popMany params hs.memory.full
  rw [allocateSlots_eq]
  generalize Eval.popMany params s.address s.memory = result at hkept
  cases hkept with
  | error hle hmemory =>
    exact .error (Nat.le_trans hs.memory.le hle) (hs.withMemory hmemory (Nat.le_trans hle hmemory.le))
  | ok hle hmemory harguments =>
    have hpopped := hs.withMemory hmemory (Nat.le_trans hle hmemory.le)
    cases hpop : s.frames.pop? with
    | none => exact .error (Nat.le_trans hs.memory.le hle) hpopped
    | some top =>
      exact .ok (Nat.le_trans hs.memory.le hle) (hpopped.withFrame hpop
        ⟨allInhand_replicate .null locals, harguments.mono hmemory.le⟩) trivial

theorem founds_loadSlot (area : SlotArea) (index : UInt8) :
    (loadSlot area index).Founds n Anything := by
  refine .bind .get fun _ s hs => .bind (.orFault (R := fun n slots => AllInhand n slots.toList)
    fun slots hslots => (hs.1.slots hslots).mono hs.2) fun _ slots hslots => ?_
  split
  · next item hitem =>
    have hinside := hslots item (Array.mem_toList_iff.mpr (Array.mem_of_getElem? hitem))
    exact .evaluate fun hle => .push (hinside.mono hle)
  · exact .throw _

theorem founds_storeSlot (area : SlotArea) (index : UInt8) :
    (storeSlot area index).Founds n Anything := by
  refine .bind (.evaluate fun _ => .pop) fun _ item hitem => .bind .get fun hle s hs =>
    .bind (.orFault (R := fun n slots => AllInhand n slots.toList)
      fun slots hslots => (hs.1.slots hslots).mono hs.2) fun hle' slots hslots => .ite ?_ (.throw _)
  refine .modify fun t ht => ht.withSlots area fun other hother => ?_
  rw [Array.toList_setIfInBounds] at hother
  rcases List.mem_or_eq_of_mem_set hother with hother | rfl
  · exact (hslots other hother).mono ht.memory.le
  · exact hitem.mono (Nat.le_trans hle (Nat.le_trans hle' ht.memory.le))

theorem founds_accessSlot (i : Instruction) : (accessSlot i).Founds n Anything := by
  unfold accessSlot
  split
  · exact founds_loadSlot _ _
  · exact founds_storeSlot _ _
  · exact .throw _

theorem founds_callService (id : UInt32) : (callService id).Founds n Anything := by
  unfold callService
  split
  · exact .throw _
  · exact .bind (.evaluate fun _ => founds_popNotification) fun _ _ _ =>
      .modify fun s hs => ⟨hs.memory, hs.statics, hs.frames⟩
  · exact .bind (.evaluate (R := Anything) fun _ => .popText) fun _ _ _ =>
      .modify fun s hs => ⟨hs.memory, hs.statics, hs.frames⟩
  · exact .throw _

/-- Instructions keep machines founded. -/
theorem founds_execute (i : Located) : (execute i).Founds n Anything := by
  unfold execute
  cases operation i.opcode with
  | simple op => exact .andNext (.evaluate fun _ => op.founds _ _)
  | pushAddress =>
    have hpush : ∀ {n} target, (Eval.push (.pointer target)).Founds n Anything := fun _ => .push trivial
    exact .andNext (.bind .get fun _ _ _ => .bind (.orFault (R := Anything) fun _ _ => trivial)
      fun _ target _ => .evaluate fun _ => hpush target)
  | jump => exact founds_jumpTo i
  | jumpIf expected =>
    exact .bind (.evaluate (R := Anything) fun _ => .popBoolean) fun _ _ _ =>
      .ite (founds_jumpTo i) (.pure trivial)
  | jumpCompare relation =>
    exact .bind (.evaluate (R := Anything) fun _ => relation.founds_test) fun _ _ _ =>
      .ite (founds_jumpTo i) (.pure trivial)
  | call =>
    exact .bind .get fun _ _ _ => .bind (.orFault (R := Anything) fun _ _ => trivial)
      fun _ target _ => founds_enter i target
  | callPointer =>
    exact .bind (.evaluate fun _ => founds_popPointer) fun _ target _ => founds_enter i target
  | ret => exact founds_leave
  | abort hasMessage =>
    exact .bind (.evaluate fun _ => founds_popMessage hasMessage) fun _ _ _ => .throw _
  | assert hasMessage => exact .andNext (.evaluate fun _ => founds_assertTop hasMessage)
  | raise => exact .bind (.evaluate fun _ => .pop) fun _ _ _ => .bind .get fun _ _ _ => .throw _
  | service => exact .andNext (founds_callService _)
  | initStatics => exact .andNext (founds_allocateStatics _)
  | initSlots => exact .andNext (founds_allocateSlots _ _)
  | slot => exact .andNext (founds_accessSlot _)
  | unsupported => exact .throw _

/-! ## Runs -/

theorem founds_settle (i : Located) (flow : Flow) : (settle i flow).Founds n Anything := by
  intro s hs
  rw [settle_eq]
  split
  · exact .error (Nat.le_refl n) hs
  · split
    · exact .ok (Nat.le_refl n) ⟨hs.memory, hs.statics, hs.frames⟩ trivial
    · exact .ok (Nat.le_refl n) hs trivial

theorem founds_step : step.Founds n Anything :=
  .bind .get fun _ _ _ => .bind (.orFault (R := Anything) fun _ _ => trivial) fun _ i _ =>
    .bind (founds_execute i) fun _ _ _ => founds_settle i _

theorem founds_loop (fuel : Nat) : (loop fuel).Founds n Anything := by
  induction fuel generalizing n with
  | zero => exact .bind .get fun _ _ _ => .throw _
  | succ fuel ih =>
    refine .bind founds_step fun _ _ _ => .ite ih (.bind .get fun _ _ _ => .bind (.modify fun s hs => ?_)
      fun _ _ _ => .pure trivial)
    exact hs.withMemory (hs.memory.withStack allInhand_nil) (Nat.le_refl _)

theorem State.Founded.start {s : State} (h : s.Founded n) (entry : Nat) {arguments : List Item}
    (harguments : AllInhand s.memory.heap.sequences.size arguments) :
    (s.start entry arguments).Founded n where
  memory := h.memory.withStack harguments
  statics := h.statics
  frames := List.forall_mem_singleton.mpr (Frame.founded_new none)

theorem kept_run {s : State} (h : s.Founded n) (entry : Nat) {arguments : List Item}
    (harguments : AllInhand n arguments) : Kept State.Founded n Anything (run entry arguments s) := by
  rw [run_eq]
  split
  · exact .error (Nat.le_refl n) h
  · exact founds_loop _ (h.start entry (harguments.mono h.memory.le))

theorem kept_initializeStatics {s : State} (h : s.Founded n) :
    Kept State.Founded n Anything (initializeStatics s) := by
  by_cases hdone : s.isInitialized = true
  · rw [initializeStatics_done hdone]
    exact .ok (Nat.le_refl n) h trivial
  · rw [Bool.not_eq_true] at hdone
    cases hentry : s.initializer with
    | none =>
      rw [initializeStatics_none hdone hentry]
      exact .ok (Nat.le_refl n) ⟨h.memory, h.statics, h.frames⟩ trivial
    | some entry =>
      have hkept := kept_run h entry allInhand_nil
      rw [initializeStatics_some hdone hentry]
      generalize run entry [] s = result at hkept
      cases hkept with
      | ok hle hstate _ => exact .ok hle ⟨hstate.memory, hstate.statics, hstate.frames⟩ trivial
      | error hle hstate => exact .error hle hstate

theorem kept_invoke {s : State} (h : s.Founded n) (entry : Nat) {arguments : List Item}
    (harguments : AllInhand n arguments) : Kept State.Founded n Anything (invoke entry arguments s) := by
  have hkept := kept_initializeStatics h
  rw [invoke_eq]
  generalize initializeStatics s = result at hkept
  cases hkept with
  | ok hle hstate _ => exact (kept_run hstate entry (harguments.mono hle)).mono hle
  | error hle hstate => exact .error hle hstate

theorem Kept.leftBehind {α : Type} {R : Nat → α → Prop} {result : EStateM.Result Fault State α}
    (h : Kept State.Founded n R result) : (leftBehind result).Founded n := by
  cases h with
  | ok hle hstate _ => exact hstate.mono hle
  | error hle hstate => exact hstate.mono hle

end

/-! ## Hosts -/

/-- Building trees of fresh objects, one after the other, and the parts of an object before it. -/
inductive Builds : Heap → List Item → Heap → Prop
  | nil {heap : Heap} : Builds heap [] heap
  | plain {heap heap' : Heap} {item : Item} {items : List Item}
    (h : ∀ r, item ≠ .buffer r ∧ item ≠ .array r ∧ item ≠ .struct r ∧ item ≠ .map r)
    (hrest : Builds heap items heap') : Builds heap (item :: items) heap'
  | buffer {heap heap' : Heap} {bytes : Array UInt8} {items : List Item}
    (hrest : Builds (heap.newBuffer bytes).2 items heap') :
    Builds heap (.buffer heap.buffers.size :: items) heap'
  | array {heap heap' heap'' : Heap} {fields items : List Item} (h : Builds heap fields heap')
    (hrest : Builds (heap'.newSequence fields.toArray).2 items heap'') :
    Builds heap (.array heap'.sequences.size :: items) heap''
  | struct {heap heap' heap'' : Heap} {fields items : List Item} (h : Builds heap fields heap')
    (hrest : Builds (heap'.newSequence fields.toArray).2 items heap'') :
    Builds heap (.struct heap'.sequences.size :: items) heap''
  | map {heap heap' heap'' : Heap} {entries : List (Item × Item)} {items : List Item}
    (h : Builds heap (entries.flatMap fun entry => [entry.1, entry.2]) heap')
    (hrest : Builds (heap'.newMap entries).2 items heap'') :
    Builds heap (.map heap'.maps.size :: items) heap''

theorem Builds.ofNat {heap heap' : Heap} {items : List Item} (h : Builds heap items heap') (n : Nat) :
    Builds heap (.ofNat n :: items) heap' :=
  .plain (fun _ => ⟨nofun, nofun, nofun, nofun⟩) h

theorem Builds.founded {heap heap' : Heap} {items : List Item} (h : Builds heap items heap')
    (hheap : heap.Founded) : heap'.Founded ∧ heap.sequences.size ≤ heap'.sequences.size
      ∧ AllInhand heap'.sequences.size items := by
  induction h with
  | nil => exact ⟨hheap, Nat.le_refl _, allInhand_nil⟩
  | @plain heap heap' item items hplain _ ih =>
    obtain ⟨hfounded, hle, hitems⟩ := ih hheap
    refine ⟨hfounded, hle, List.forall_mem_cons.mpr ⟨?_, hitems⟩⟩
    cases item with
    | array r => exact absurd rfl (hplain r).2.1
    | struct r => exact absurd rfl (hplain r).2.2.1
    | null | boolean | integer | byteString | pointer | buffer | map => trivial
  | buffer _ ih =>
    obtain ⟨hfounded, hle, hitems⟩ := ih (hheap.of_sequences rfl hheap.maps)
    exact ⟨hfounded, hle, List.forall_mem_cons.mpr ⟨trivial, hitems⟩⟩
  | array _ _ ih ih' | struct _ _ ih ih' =>
    obtain ⟨hfounded, hle, hfields⟩ := ih hheap
    obtain ⟨hfounded', hle', hitems⟩ := ih' (hfounded.newSequence hfields)
    rw [Heap.size_newSequence] at hle'
    exact ⟨hfounded', by omega, List.forall_mem_cons.mpr ⟨hle', hitems⟩⟩
  | @map heap heap' heap'' entries items _ _ ih ih' =>
    obtain ⟨hfounded, hle, hparts⟩ := ih hheap
    have hentries : EntriesInhand heap'.sequences.size entries := fun entry hentry =>
      ⟨hparts _ (List.mem_flatMap.mpr ⟨entry, hentry, .head _⟩),
        hparts _ (List.mem_flatMap.mpr ⟨entry, hentry, .tail _ (.head _)⟩)⟩
    have hgrown : (heap'.newMap entries).2.Founded := by
      refine hfounded.of_sequences rfl fun r entry hentry => ?_
      rw [Heap.map_newMap] at hentry
      split at hentry
      · exact hentries entry hentry
      · exact hfounded.maps r entry hentry
    obtain ⟨hfounded', hle', hitems⟩ := ih' hgrown
    exact ⟨hfounded', Nat.le_trans hle hle', List.forall_mem_cons.mpr ⟨trivial, hitems⟩⟩

section

variable {script : Array UInt8} {initializer : Option Nat} {limits : Limits} {s : State}

/-- The machines of a host between its invocations, whose arguments it builds each time. -/
inductive Hosted (script : Array UInt8) (initializer : Option Nat) (limits : Limits) : State → Prop
  | fresh : Hosted script initializer limits { script, initializer, limits }
  | invoked {s : State} {heap : Heap} {arguments : List Item} (entry : Nat)
    (h : Hosted script initializer limits s) (hbuilds : Builds s.memory.heap arguments heap) :
    Hosted script initializer limits
      (leftBehind (invoke entry arguments { s with memory := { s.memory with heap } }))

/-- The machines that a host comes to, in front of instructions and behind them, too. -/
inductive Reachable (script : Array UInt8) (initializer : Option Nat) (limits : Limits) : State → Prop
  | between {s : State} (h : Hosted script initializer limits s) : Reachable script initializer limits s
  | built {s : State} {heap : Heap} {arguments : List Item} (h : Hosted script initializer limits s)
    (hbuilds : Builds s.memory.heap arguments heap) :
    Reachable script initializer limits { s with memory := { s.memory with heap } }
  | initializer {s : State} {heap : Heap} {arguments : List Item} {entry : Nat}
    (h : Hosted script initializer limits s) (hbuilds : Builds s.memory.heap arguments heap)
    (hfirst : s.isInitialized = false) (hentry : s.initializer = some entry) :
    Reachable script initializer limits
      (State.start { s with memory := { s.memory with heap } } entry [])
  | entry {s t : State} {heap : Heap} {arguments : List Item} (entry : Nat)
    (h : Hosted script initializer limits s) (hbuilds : Builds s.memory.heap arguments heap)
    (hready : initializeStatics { s with memory := { s.memory with heap } } = .ok () t) :
    Reachable script initializer limits (t.start entry arguments)
  | step {s t : State} {b : Bool} (h : Reachable script initializer limits s)
    (hstep : step s = .ok b t) : Reachable script initializer limits t
  | fault {s t : State} {fault : Fault} (h : Reachable script initializer limits s)
    (hstep : Machine.step s = .error fault t) : Reachable script initializer limits t

theorem Builds.state {n : Nat} {heap : Heap} {arguments : List Item}
    (h : Builds s.memory.heap arguments heap) (hs : s.Founded n) :
    State.Founded heap.sequences.size { s with memory := { s.memory with heap } }
      ∧ AllInhand heap.sequences.size arguments := by
  obtain ⟨hheap, hle, harguments⟩ := h.founded hs.memory.heap
  exact ⟨(hs.withMemory (hs.memory.withHeap hheap hle) hle).full, harguments⟩

theorem Hosted.founded (h : Hosted script initializer limits s) : s.Founded 0 := by
  induction h with
  | fresh =>
    exact ⟨⟨Nat.le_refl 0, Heap.founded_empty, allInhand_nil⟩, nofun,
      fun frame hframe => absurd hframe List.not_mem_nil⟩
  | invoked entry _ hbuilds ih =>
    -- the arguments of an invocation are new, and lead to new objects alone
    obtain ⟨hs, harguments⟩ := hbuilds.state ih
    exact (kept_invoke hs entry harguments).leftBehind.mono (Nat.zero_le _)

theorem Reachable.founded (h : Reachable script initializer limits s) : ∃ n, s.Founded n := by
  induction h with
  | between h => exact ⟨0, h.founded⟩
  | built h hbuilds => exact ⟨_, (hbuilds.state h.founded).1⟩
  | initializer h hbuilds _ _ =>
    exact ⟨_, (hbuilds.state h.founded).1.start _ allInhand_nil⟩
  | entry entry h hbuilds hready =>
    obtain ⟨hs, harguments⟩ := hbuilds.state h.founded
    have hkept := kept_initializeStatics hs
    rw [hready] at hkept
    cases hkept with
    | ok hle hstate _ =>
      exact ⟨_, hstate.start entry (harguments.mono (Nat.le_trans hle hstate.memory.le))⟩
  | step _ hstep ih =>
    obtain ⟨n, hs⟩ := ih
    have hkept := founds_step hs
    rw [hstep] at hkept
    cases hkept with
    | ok _ hstate _ => exact ⟨_, hstate⟩
  | fault _ hstep ih =>
    obtain ⟨n, hs⟩ := ih
    have hkept := founds_step hs
    rw [hstep] at hkept
    cases hkept with
    | error _ hstate => exact ⟨_, hstate⟩

theorem Reachable.founded_memory (h : Reachable script initializer limits s) : s.memory.Founded 0 := by
  obtain ⟨n, hs⟩ := h.founded
  exact hs.memory.mono (Nat.zero_le n)

/-- A machine after so many steps, of which one that faults counts too. -/
def State.stepped : Nat → State → State
  | 0, s => s
  | n + 1, s => stepped n (leftBehind (step s))

theorem Reachable.stepped (h : Reachable script initializer limits s) (n : Nat) :
    Reachable script initializer limits (s.stepped n) := by
  induction n generalizing s with
  | zero => exact h
  | succ n ih =>
    refine ih ?_
    cases hresult : Machine.step s with
    | ok b t => exact .step h hresult
    | error fault t => exact .fault h hresult

/-- A machine whose host has built the arguments of a script, and starts it. -/
def State.launched (script : Array UInt8) (heap : Heap) (arguments : List Item) : State :=
  State.start { script, isInitialized := true, memory := { heap } } 0 arguments

theorem reachable_launched {heap : Heap} {arguments : List Item} (h : Builds {} arguments heap) :
    Reachable script none {} (.launched script heap arguments) :=
  .entry 0 .fresh h rfl

/-- The items of a machine. -/
inductive State.Has (s : State) (item : Item) : Prop
  | stack (h : item ∈ s.memory.stack.toList)
  | heap (h : s.memory.heap.Holds item)
  | staticSlot {items : Array Item} (h : s.statics = some items) (hitem : item ∈ items.toList)
  | localSlot {frame : Frame} (h : frame ∈ s.frames.toList) (hitem : item ∈ frame.locals.toList)
  | argumentSlot {frame : Frame} (h : frame ∈ s.frames.toList) (hitem : item ∈ frame.arguments.toList)

theorem State.Founded.inside {n : Nat} (h : s.Founded n) {item : Item} (hitem : s.Has item) :
    item.Inside s.memory.heap.sequences.size := by
  cases hitem with
  | stack hitem => exact h.memory.stack item hitem
  | heap hitem =>
    cases hitem with
    | sequence hitem => exact h.memory.heap.sequences _ item hitem
    | key hentry => exact (h.memory.heap.maps _ _ hentry).1
    | value hentry => exact (h.memory.heap.maps _ _ hentry).2
  | staticSlot hstatics hitem => exact h.statics _ hstatics item hitem
  | localSlot hframe hitem => exact (h.frames _ hframe).1 item hitem
  | argumentSlot hframe hitem => exact (h.frames _ hframe).2 item hitem

/-- A machine on whose items copying and comparing come to an end. -/
structure Untangled (s : State) : Prop where
  /-- No struct is inside itself, through structs alone. -/
  acyclic : ∀ r, ¬ Relation.TransGen s.memory.heap.Nests r r
  copies : ∀ item, s.Has item → ∃ copy heap, Copies s.memory.heap [item] [copy] heap
    ∧ ∀ address, Eval.copyStruct item address s.memory = .ok copy { s.memory with heap }
  compares : ∀ a, s.Has a → ∀ b, Compares s.memory.heap [a] [b] (a.equals s.memory.heap b)

theorem untangled_of_reachable (h : Reachable script initializer limits s) : Untangled s := by
  obtain ⟨n, hs⟩ := h.founded
  exact ⟨hs.memory.heap.acyclic, fun item hitem => exists_copy hs.memory.heap (hs.inside hitem),
    fun a ha b => compares_equals hs.memory.heap (hs.inside ha) b⟩

end

/-- A script that appends its argument to itself. -/
def nesting : Array UInt8 :=
  #[0x4a, 0x4a, 0xcf, 0x40]

/-- The machine that this script leaves behind, after a run on a struct of one integer. -/
def nested : State :=
  leftBehind (invoke 0 [.struct 0]
    { script := nesting, initializer := none, memory := { heap := { sequences := #[#[.ofNat 1]] } } })

theorem untangled_nested : Reachable nesting none {} nested ∧ nested.memory.heap.Nests 0 1
    ∧ Untangled nested := by
  have hone : ∀ r, Item.ofNat 1 ≠ .buffer r ∧ Item.ofNat 1 ≠ .array r ∧ Item.ofNat 1 ≠ .struct r
      ∧ Item.ofNat 1 ≠ .map r := fun r => ⟨nofun, nofun, nofun, nofun⟩
  have hbuilds : Builds {} [.struct 0] { sequences := #[#[.ofNat 1]] } :=
    .struct (.plain hone .nil) .nil
  have hfresh : Hosted nesting none {} { script := nesting, initializer := none } := .fresh
  have hreachable : Reachable nesting none {} nested := .between (hfresh.invoked 0 hbuilds)
  -- the copy of the struct was put into it
  have hnests : Item.struct 1 ∈ (nested.memory.heap.sequence 0).toList := by decide +kernel
  exact ⟨hreachable, hnests, untangled_of_reachable hreachable⟩

end StackContract.Machine
