import StackContract.Proofs.Steps
/-!
# What instructions are made of

Apart from the memory, instructions change a machine in a few ways (`Change`), and they do not look at
what was told to the outside. A property of computations that those changes have, and that computations
in sequence inherit from their parts, is one of all instructions and of the loop that carries them out
(`closed_execute`, `closed_loop`). What a computation leaves of a machine is such a property
(`closed_leftBehind`).
-/

namespace StackContract.Machine

open Script

/-- What instructions see of a machine: all but what was told to the outside. -/
def State.visible (s : State) : State :=
  { s with notifications := #[], logs := #[] }

/-- The ways in which instructions and runs change a machine, evaluations on the memory apart. -/
inductive Change : (State → State) → Prop
  /-- A frame is taken off, or the innermost one gets its slots. -/
  | frames (frames : Stack Frame) : Change fun s => { s with frames }
  | push (frame : Frame) : Change fun s => { s with frames := s.frames.push frame }
  | statics (slots : Array Item) : Change fun s => { s with statics := some slots }
  | slots (area : SlotArea) (slots : Array Item) : Change fun s => s.withSlots area slots
  | notify (notification : Notification) :
    Change fun s => { s with notifications := s.notifications.push notification }
  | log (text : String) : Change fun s => { s with logs := s.logs.push text }
  | address (address : Nat) : Change fun s => { s with address }
  /-- The items of a run are handed out. -/
  | handOut : Change fun s => { s with memory := { s.memory with stack := .empty } }

/-- The machine that a computation leaves behind. -/
def leftBehind {α : Type} : EStateM.Result Fault State α → State
  | .ok _ s => s
  | .error _ s => s

/-- A property of computations that what instructions are made of has. -/
structure Exec.Closed (P : ∀ {α : Type}, Exec α → Prop) : Prop where
  pure : ∀ {α : Type} (a : α), P (Pure.pure a : Exec α)
  throw : ∀ {α : Type} (fault : Fault), P (MonadExcept.throw fault : Exec α)
  bind : ∀ {α β : Type} {x : Exec α} {f : α → Exec β}, P x → (∀ a, P (f a)) → P (x >>= f)
  get : ∀ {α : Type} {f : State → Exec α}, (∀ s, f s.visible = f s) → (∀ s, P (f s)) →
    P (MonadState.get >>= f)
  evaluate : ∀ {α : Type} (x : Eval α), P (Exec.evaluate x)
  modify : ∀ {f : State → State}, Change f → P (modify f : Exec Unit)

section Closed

variable {P : ∀ {α : Type}, Exec α → Prop}

theorem closed_ite {α : Type} {c : Prop} [Decidable c] {x y : Exec α} (hx : P x) (hy : P y) :
    P (if c then x else y) := by
  split
  · exact hx
  · exact hy

variable (h : Exec.Closed P)

include h

theorem closed_orFault {α : Type} (x : Except Fault α) : P (Exec.orFault x) := by
  cases x with
  | ok a => exact h.pure a
  | error fault => exact h.throw fault

theorem closed_andNext {x : Exec Unit} (hx : P x) : P (andNext x) :=
  h.bind hx fun _ => h.pure _

/-! ## Instructions -/

theorem closed_jumpTo (i : Located) : P (jumpTo i) :=
  h.get (fun _ => rfl) fun _ => h.bind (closed_orFault h _) fun _ => h.pure _

theorem closed_enter (i : Located) (target : Nat) : P (enter i target) := by
  have hpush : P (do
      modify fun state => { state with frames := state.frames.push { returnTo := some i.next } }
      return .enter target : Exec Flow) := h.bind (h.modify (.push _)) fun _ => h.pure _
  have hinside : ∀ s : State, P (do
      if s.script.size ≤ target then throw (.invalidEntry target)
      modify fun state => { state with frames := state.frames.push { returnTo := some i.next } }
      return .enter target : Exec Flow) := fun _ => closed_ite (h.bind (h.throw _) fun _ => hpush) hpush
  exact h.get (fun _ => rfl) fun s => closed_ite (h.bind (h.throw _) fun _ => hinside s) (hinside s)

theorem closed_leave : P leave := by
  refine h.get (fun _ => rfl) fun s => ?_
  cases s.frames.pop? with
  | none => exact h.get (fun _ => rfl) fun _ => h.throw _
  | some top => exact h.bind (h.modify (.frames _)) fun _ => h.pure _

theorem closed_allocateStatics (count : Nat) : P (allocateStatics count) :=
  h.get (fun _ => rfl) fun _ =>
    closed_ite (h.bind (h.throw _) fun _ => h.modify (.statics _)) (h.modify (.statics _))

theorem closed_allocateSlots (locals params : Nat) : P (allocateSlots locals params) := by
  refine h.bind (h.evaluate _) fun _ => h.get (fun _ => rfl) fun s => ?_
  cases s.frames.pop? with
  | none => exact h.get (fun _ => rfl) fun _ => h.throw _
  | some top => exact h.modify (.frames _)

theorem closed_loadSlot (area : SlotArea) (index : UInt8) : P (loadSlot area index) := by
  refine h.get (fun _ => by cases area <;> rfl) fun s => h.bind (closed_orFault h _) fun slots => ?_
  cases slots[index.toNat]? with
  | none => exact h.throw _
  | some item => exact h.evaluate _

theorem closed_storeSlot (area : SlotArea) (index : UInt8) : P (storeSlot area index) :=
  h.bind (h.evaluate _) fun _ => h.get (fun _ => by cases area <;> rfl) fun _ =>
    h.bind (closed_orFault h _) fun _ => closed_ite (h.modify (.slots _ _)) (h.throw _)

theorem closed_accessSlot (i : Instruction) : P (accessSlot i) := by
  unfold accessSlot
  split
  · exact closed_loadSlot h _ _
  · exact closed_storeSlot h _ _
  · exact h.throw _

theorem closed_callService (id : UInt32) : P (callService id) := by
  unfold callService
  split
  · exact h.throw _
  · exact h.bind (h.evaluate _) fun _ => h.modify (.notify _)
  · exact h.bind (h.evaluate _) fun _ => h.modify (.log _)
  · exact h.throw _

theorem closed_execute (i : Located) : P (execute i) := by
  unfold execute
  cases operation i.opcode with
  | simple op => exact closed_andNext h (h.evaluate _)
  | pushAddress =>
    exact closed_andNext h
      (h.get (fun _ => rfl) fun _ => h.bind (closed_orFault h _) fun _ => h.evaluate _)
  | jump => exact closed_jumpTo h i
  | jumpIf expected =>
    exact h.bind (h.evaluate _) fun _ => closed_ite (closed_jumpTo h i) (h.pure _)
  | jumpCompare relation =>
    exact h.bind (h.evaluate _) fun _ => closed_ite (closed_jumpTo h i) (h.pure _)
  | call =>
    exact h.get (fun _ => rfl) fun _ => h.bind (closed_orFault h _) fun target => closed_enter h i target
  | callPointer => exact h.bind (h.evaluate _) fun target => closed_enter h i target
  | ret => exact closed_leave h
  | abort hasMessage => exact h.bind (h.evaluate _) fun _ => h.throw _
  | assert hasMessage => exact closed_andNext h (h.evaluate _)
  | raise => exact h.bind (h.evaluate _) fun _ => h.get (fun _ => rfl) fun _ => h.throw _
  | service => exact closed_andNext h (closed_callService h _)
  | initStatics => exact closed_andNext h (closed_allocateStatics h _)
  | initSlots => exact closed_andNext h (closed_allocateSlots h _ _)
  | slot => exact closed_andNext h (closed_accessSlot h _)
  | unsupported => exact h.throw _

/-! ## Runs -/

theorem closed_settle (i : Located) (flow : Flow) : P (settle i flow) := by
  have hgo : ∀ address : Nat, P (do
      modify fun state => { state with address }
      return true : Exec Bool) := fun address => h.bind (h.modify (.address address)) fun _ => h.pure _
  refine h.get (fun _ => rfl) fun s => ?_
  cases flow with
  | next => exact closed_ite (h.bind (h.throw _) fun _ => hgo i.next) (hgo i.next)
  | jump address | enter address => exact closed_ite (h.bind (h.throw _) fun _ => hgo address) (hgo address)
  | leave returnTo =>
    cases returnTo with
    | none => exact closed_ite (h.bind (h.throw _) fun _ => h.pure _) (h.pure _)
    | some address => exact closed_ite (h.bind (h.throw _) fun _ => hgo address) (hgo address)

theorem closed_step : P step :=
  h.get (fun _ => rfl) fun _ => h.bind (closed_orFault h _) fun i => h.bind (closed_execute h i) fun _ =>
    closed_settle h i _

theorem closed_loop (fuel : Nat) : P (loop fuel) := by
  induction fuel with
  | zero => exact h.get (fun _ => rfl) fun _ => h.throw _
  | succ fuel ih =>
    exact h.bind (closed_step h) fun _ => closed_ite ih
      (h.get (fun _ => rfl) fun _ => h.bind (h.modify .handOut) fun _ => h.pure _)

end Closed

/-! ## Relations between machines -/

/-- Where changes lead from a machine to a related one, and so do changes of the memory, instructions and
runs do, whether they fault or not. -/
theorem closed_leftBehind {R : State → State → Prop}
    (hmemory : ∀ s memory, R s { s with memory }) (hchange : ∀ {f}, Change f → ∀ s, R s (f s))
    (htrans : ∀ {s t u}, R s t → R t u → R s u) : Exec.Closed fun x => ∀ s, R s (leftBehind (x s)) where
  pure _ s := hmemory s s.memory
  throw _ s := hmemory s s.memory
  bind := by
    intro α β x f hx hf s
    have hfirst := hx s
    rw [bind_apply]
    cases hresult : x s with
    | error fault t =>
      rw [hresult] at hfirst
      exact hfirst
    | ok a t =>
      rw [hresult] at hfirst
      exact htrans hfirst (hf a t)
  get _ hf s := hf s s
  evaluate x s := by
    rw [evaluate_eq]
    cases x s.address s.memory <;> exact hmemory s _
  modify := hchange

/-! ## Properties that last -/

/-- A property of machines that steps keep, and what an invocation does in front of them and behind
them. -/
structure RunInvariant (arguments : List Item) (J : State → Prop) : Prop where
  step : ∀ s, J s → J (leftBehind (step s))
  handOut : ∀ s, J s → J { s with memory := { s.memory with stack := .empty } }
  ready : ∀ s, J s → J { s with isInitialized := true }
  initializer : ∀ s entry, J s → J (s.start entry [])
  start : ∀ s entry, J s → J (s.start entry arguments)

namespace RunInvariant

variable {arguments : List Item} {J : State → Prop} {s : State}

theorem loop (h : RunInvariant arguments J) (fuel : Nat) (hs : J s) :
    J (leftBehind (Machine.loop fuel s)) := by
  induction fuel generalizing s with
  | zero => exact hs
  | succ fuel ih =>
    have hnext := h.step s hs
    rw [loop_succ]
    cases hresult : Machine.step s with
    | error fault t =>
      rw [hresult] at hnext
      exact hnext
    | ok b t =>
      rw [hresult] at hnext
      cases b with
      | true => exact ih hnext
      | false => exact h.handOut t hnext

theorem run (h : RunInvariant arguments J) {given : List Item} (hgiven : ∀ s entry, J s → J (s.start entry given))
    (entry : Nat) (hs : J s) : J (leftBehind (Machine.run entry given s)) := by
  rw [run_eq]
  split
  · exact hs
  · exact h.loop _ (hgiven s entry hs)

theorem initializeStatics (h : RunInvariant arguments J) (hs : J s) :
    J (leftBehind (Machine.initializeStatics s)) := by
  by_cases hdone : s.isInitialized = true
  · rw [initializeStatics_done hdone]
    exact hs
  · rw [Bool.not_eq_true] at hdone
    cases hentry : s.initializer with
    | none =>
      rw [initializeStatics_none hdone hentry]
      exact h.ready s hs
    | some entry =>
      have hrun := h.run h.initializer entry hs
      rw [initializeStatics_some hdone hentry]
      cases hresult : Machine.run entry [] s with
      | ok items t =>
        rw [hresult] at hrun
        exact h.ready t hrun
      | error fault t =>
        rw [hresult] at hrun
        exact hrun

theorem invoke (h : RunInvariant arguments J) (entry : Nat) (hs : J s) :
    J (leftBehind (Machine.invoke entry arguments s)) := by
  have hready := h.initializeStatics hs
  rw [invoke_eq]
  cases hresult : Machine.initializeStatics s with
  | ok _ t =>
    rw [hresult] at hready
    exact h.run h.start entry hready
  | error fault t =>
    rw [hresult] at hready
    exact hready

end RunInvariant

end StackContract.Machine
