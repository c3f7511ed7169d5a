import StackContract.Proofs.Chains
import StackContract.Proofs.Computations
import StackContract.Proofs.Settings
/-!
# Runs within their limits

Whatever the script, a run ends after at most as many instructions as it may execute, with one frame at
least and no more frames than it may have in front of each of them, and with no more items than it may
have on the stack behind each of them (`runsWithin_limits`).

An instruction leaves the frames below the innermost one alone, and the address to which the innermost
one returns, unless it enters a method or leaves one (`turns_of_execute`). Only the frame of the entry
returns to nowhere, so the run ends when there is no frame left, and not before (`Framed`).
-/

namespace StackContract.Machine

open Script

/-! ## Calls in progress -/

/-- All of the calls in progress but the slots of the innermost one. -/
structure Calls where
  innermost : Option (Option Nat)
  below : List Frame
  limits : Limits

def State.calls (s : State) : Calls :=
  ⟨s.frames.toList.head?.map (·.returnTo), s.frames.toList.tail, s.limits⟩

/-- How the calls in progress change with where an instruction leads. -/
def Flow.Turns (i : Located) (s t : State) : Flow → Prop
  | .next | .jump _ => t.calls = s.calls
  | .enter _ => s.frames.size < s.limits.recursion
      ∧ t.frames.toList = { returnTo := some i.next } :: s.frames.toList
  | .leave returnTo => ∃ frame, s.frames.toList = frame :: t.frames.toList ∧ frame.returnTo = returnTo

namespace Exec

variable {α β : Type} {i : Located}

/-- A computation that leaves all but the memory as it is, if it succeeds. -/
def Still (x : Exec α) : Prop :=
  ∀ ⦃s a t⦄, x s = .ok a t → t = { s with memory := t.memory }

/-- A computation that leaves the calls in progress as they are, if it succeeds. -/
def Stays (x : Exec α) : Prop :=
  ∀ ⦃s a t⦄, x s = .ok a t → t.calls = s.calls

/-- A computation that tells how it changes the calls in progress, if it succeeds. -/
def Turns (i : Located) (x : Exec Flow) : Prop :=
  ∀ ⦃s flow t⦄, x s = .ok flow t → flow.Turns i s t

theorem still_get : Still (get : Exec State) := by
  rintro s _ _ ⟨⟩
  rfl

theorem still_orFault (x : Except Fault α) : Still (orFault x) := by
  intro s a t h
  cases x with
  | ok b =>
    cases h
    rfl
  | error fault => cases h

theorem still_evaluate (x : Eval α) : Still (evaluate x) := by
  intro s a t h
  rw [evaluate_eq] at h
  cases hresult : x s.address s.memory with
  | error fault m =>
    rw [hresult] at h
    cases h
  | ok a m =>
    rw [hresult] at h
    cases h
    rfl

namespace Stays

theorem throw (fault : Fault) : Stays (MonadExcept.throw fault : Exec α) := by
  rintro s a t ⟨⟩

theorem still {x : Exec α} (h : Still x) : Stays x := by
  intro s a t hresult
  rw [h hresult]
  rfl

theorem modify {f : State → State} (h : ∀ s, (f s).calls = s.calls) : Stays (modify f : Exec Unit) := by
  rintro s _ _ ⟨⟩
  exact h s

theorem bind {x : Exec α} {f : α → Exec β} (hx : Still x) (hf : ∀ a, Stays (f a)) :
    Stays (x >>= f) := by
  intro s b t h
  obtain ⟨a, u, hfirst, hrest⟩ := bind_eq_ok h
  rw [hf a hrest, hx hfirst]
  rfl

theorem ite {c : Prop} [Decidable c] {x y : Exec α} (hx : Stays x) (hy : Stays y) :
    Stays (if c then x else y) := by
  split
  · exact hx
  · exact hy

end Stays

namespace Turns

theorem throw (fault : Fault) : Turns i (MonadExcept.throw fault) := by
  rintro s flow t ⟨⟩

theorem next : Turns i (pure .next) := by
  rintro s _ _ ⟨⟩
  rfl

theorem bind {x : Exec α} {f : α → Exec Flow} (hx : Still x) (hf : ∀ a, Turns i (f a)) :
    Turns i (x >>= f) := by
  intro s flow t h
  obtain ⟨a, u, hfirst, hrest⟩ := bind_eq_ok h
  have hturns := hf a hrest
  rw [hx hfirst] at hturns
  exact hturns

theorem ite {c : Prop} [Decidable c] {x y : Exec Flow} (hx : Turns i x) (hy : Turns i y) :
    Turns i (if c then x else y) := by
  split
  · exact hx
  · exact hy

theorem andNext {x : Exec Unit} (h : Stays x) : Turns i (andNext x) := by
  intro s flow t hresult
  obtain ⟨_, u, hfirst, hrest⟩ := bind_eq_ok hresult
  cases hrest
  exact h hfirst

end Turns

end Exec

/-! ## Instructions -/

open Exec

theorem turns_jumpTo (i : Located) : Turns i (jumpTo i) := by
  refine .bind still_get fun _ => .bind (still_orFault _) fun target => ?_
  rintro s _ _ ⟨⟩
  rfl

theorem turns_enter (i : Located) (target : Nat) : Turns i (enter i target) := by
  intro s flow t h
  obtain ⟨_, _, hget, h⟩ := bind_eq_ok h
  cases hget
  by_cases hlimit : s.limits.recursion ≤ s.frames.size
  · rw [if_pos hlimit] at h
    cases h
  · rw [if_neg hlimit] at h
    by_cases houtside : s.script.size ≤ target
    · rw [if_pos houtside] at h
      cases h
    · rw [if_neg houtside] at h
      cases h
      exact ⟨Nat.lt_of_not_le hlimit, rfl⟩

theorem turns_leave (i : Located) : Turns i leave := by
  intro s flow t h
  rw [leave_eq] at h
  cases hpop : s.frames.pop? with
  | none =>
    rw [hpop] at h
    cases h
  | some top =>
    rw [hpop] at h
    cases h
    exact ⟨top.1, congrArg Stack.toList (Stack.pop?_eq_some_iff.mp hpop), rfl⟩

theorem calls_withFrame {s : State} {frame frame' : Frame} {rest : Stack Frame}
    (hpop : s.frames.pop? = some (frame, rest)) (hreturn : frame'.returnTo = frame.returnTo) :
    State.calls { s with frames := rest.push frame' } = s.calls := by
  have hframes : s.frames.toList = frame :: rest.toList :=
    congrArg Stack.toList (Stack.pop?_eq_some_iff.mp hpop)
  unfold State.calls
  rw [hframes]
  show Calls.mk (some frame'.returnTo) _ _ = Calls.mk (some frame.returnTo) _ _
  rw [hreturn]
  rfl

theorem calls_withSlots (s : State) (area : SlotArea) (slots : Array Item) :
    (s.withSlots area slots).calls = s.calls := by
  unfold State.withSlots
  split
  · rfl
  · next hpop => exact calls_withFrame hpop rfl
  · next hpop => exact calls_withFrame hpop rfl
  · rfl

theorem stays_allocateStatics (count : Nat) : Stays (allocateStatics count) := by
  intro s a t h
  obtain ⟨_, _, hget, h⟩ := bind_eq_ok h
  cases hget
  by_cases hsome : s.statics.isSome = true
  · rw [if_pos hsome] at h
    cases h
  · rw [if_neg hsome] at h
    cases h
    rfl

theorem stays_allocateSlots (locals params : Nat) : Stays (allocateSlots locals params) := by
  refine .bind (still_evaluate _) fun arguments => ?_
  intro s a t h
  obtain ⟨_, _, hget, h⟩ := bind_eq_ok h
  cases hget
  cases hpop : s.frames.pop? with
  | none =>
    rw [hpop] at h
    cases h
  | some top =>
    rw [hpop] at h
    cases h
    exact calls_withFrame hpop rfl

theorem stays_accessSlot (i : Instruction) : Stays (accessSlot i) := by
  unfold accessSlot
  split
  · refine .bind still_get fun _ => .bind (still_orFault _) fun slots => ?_
    split
    · exact .still (still_evaluate _)
    · exact .throw _
  · exact .bind (still_evaluate _) fun _ => .bind still_get fun _ => .bind (still_orFault _) fun _ =>
      .ite (.modify fun s => calls_withSlots s _ _) (.throw _)
  · exact .throw _

theorem stays_callService (id : UInt32) : Stays (callService id) := by
  unfold callService
  split
  · exact .throw _
  · exact .bind (still_evaluate _) fun _ => .modify fun _ => rfl
  · exact .bind (still_evaluate _) fun _ => .modify fun _ => rfl
  · exact .throw _

theorem turns_execute (i : Located) : Turns i (execute i) := by
  unfold execute
  cases operation i.opcode with
  | simple op => exact .andNext (.still (still_evaluate _))
  | pushAddress =>
    exact .andNext (.bind still_get fun _ => .bind (still_orFault _) fun _ => .still (still_evaluate _))
  | jump => exact turns_jumpTo i
  | jumpIf expected => exact .bind (still_evaluate _) fun _ => .ite (turns_jumpTo i) .next
  | jumpCompare relation => exact .bind (still_evaluate _) fun _ => .ite (turns_jumpTo i) .next
  | call => exact .bind still_get fun _ => .bind (still_orFault _) fun target => turns_enter i target
  | callPointer => exact .bind (still_evaluate _) fun target => turns_enter i target
  | ret => exact turns_leave i
  | abort hasMessage => exact .bind (still_evaluate _) fun _ => .throw _
  | assert hasMessage => exact .andNext (.still (still_evaluate _))
  | raise => exact .bind (still_evaluate _) fun _ => .bind still_get fun _ => .throw _
  | service => exact .andNext (stays_callService _)
  | initStatics => exact .andNext (stays_allocateStatics _)
  | initSlots => exact .andNext (stays_allocateSlots _ _)
  | slot => exact .andNext (stays_accessSlot _)
  | unsupported => exact .throw _

/-! ## Steps -/

/-- A step that succeeds carries out an instruction and settles where it leads. -/
theorem exists_of_step {s u : State} {b : Bool} (h : step s = .ok b u) : ∃ i flow t,
    s.current = .ok i ∧ execute i s = .ok flow t ∧ settle i flow t = .ok b u := by
  obtain ⟨_, _, hget, h⟩ := bind_eq_ok h
  cases hget
  obtain ⟨i, v, hcurrent, h⟩ := bind_eq_ok h
  obtain ⟨flow, t, hexecute, hsettle⟩ := bind_eq_ok h
  cases hthere : s.current with
  | error fault =>
    rw [hthere] at hcurrent
    cases hcurrent
  | ok j =>
    rw [hthere] at hcurrent
    cases hcurrent
    exact ⟨i, flow, t, rfl, hexecute, hsettle⟩

theorem settle_eq_ok {i : Located} {flow : Flow} {s t : State} {b : Bool}
    (h : settle i flow s = .ok b t) : s.memory.stack.size ≤ s.limits.stack
      ∧ t = { s with address := t.address } ∧ b = (flow.destination i).isSome := by
  rw [settle_eq] at h
  by_cases hlimit : s.limits.stack < s.memory.stack.size
  · rw [if_pos hlimit] at h
    cases h
  · rw [if_neg hlimit] at h
    cases hdestination : flow.destination i with
    | none | some address =>
      rw [hdestination] at h
      cases h
      exact ⟨Nat.le_of_not_lt hlimit, rfl, rfl⟩

theorem limits_of_execute {i : Located} {flow : Flow} {s t : State} (h : execute i s = .ok flow t) :
    t.limits = s.limits := by
  have hkeeps := execute_keeps i s
  rw [h] at hkeeps
  exact congrArg Settings.limits hkeeps

theorem limits_of_step {s t : State} {b : Bool} (h : step s = .ok b t) : t.limits = s.limits := by
  have hkeeps := step_keeps s
  rw [h] at hkeeps
  exact congrArg Settings.limits hkeeps

/-- Behind an instruction, the stack is within its limit. -/
theorem size_le_of_step {s t : State} {b : Bool} (h : step s = .ok b t) :
    t.memory.stack.size ≤ t.limits.stack := by
  obtain ⟨i, flow, u, -, -, hsettle⟩ := exists_of_step h
  obtain ⟨hsize, hthere, -⟩ := settle_eq_ok hsettle
  rw [hthere]
  exact hsize

/-! ## Frames -/

/-- Where the calls in progress return to, the innermost first. -/
def State.returns (s : State) : List (Option Nat) :=
  s.frames.toList.map (·.returnTo)

/-- Only the outermost frame returns to nowhere, and there are no more frames than there may be. -/
structure Framed (s : State) : Prop where
  returns : ∃ inner : List Nat, s.returns = inner.map some ++ [none]
  size_le : s.frames.size ≤ max 1 s.limits.recursion

theorem size_frames (s : State) : s.frames.size = s.returns.length := by
  unfold State.returns
  rw [List.length_map, s.frames.size_eq]

theorem returns_of_calls {s t : State} (h : t.calls = s.calls) : t.returns = s.returns := by
  have hsplit : ∀ s : State, s.returns
      = s.calls.innermost.toList ++ s.calls.below.map (·.returnTo) := by
    intro s
    unfold State.returns State.calls
    cases s.frames.toList <;> rfl
  rw [hsplit, hsplit, h]

theorem framed_start (s : State) (entry : Nat) (arguments : List Item) :
    Framed (s.start entry arguments) :=
  ⟨⟨[], rfl⟩, Nat.le_max_left _ _⟩

namespace Framed

variable {s t : State}

theorem size_pos (h : Framed s) : 1 ≤ s.frames.size := by
  obtain ⟨inner, hinner⟩ := h.returns
  rw [size_frames, hinner, List.length_append]
  exact Nat.le_add_left _ _

theorem of_returns (h : Framed s) (hreturns : t.returns = s.returns) (hlimits : t.limits = s.limits) :
    Framed t := by
  refine ⟨hreturns ▸ h.returns, ?_⟩
  rw [size_frames, hreturns, ← size_frames, hlimits]
  exact h.size_le

/-- Behind an instruction, there is a frame unless the run is at its end. -/
theorem execute (h : Framed s) {i : Located} {flow : Flow} (hexecute : execute i s = .ok flow t) :
    if (flow.destination i).isSome then Framed t else t.frames.size = 0 := by
  have hturns : flow.Turns i s t := turns_execute i hexecute
  have hlimits := limits_of_execute hexecute
  obtain ⟨inner, hinner⟩ := h.returns
  cases flow with
  | next => exact h.of_returns (returns_of_calls hturns) hlimits
  | jump address => exact h.of_returns (returns_of_calls hturns) hlimits
  | enter address =>
    obtain ⟨hlimit, hframes⟩ := hturns
    refine ⟨⟨i.next :: inner, ?_⟩, ?_⟩
    · unfold State.returns at hinner ⊢
      rw [hframes, List.map_cons, hinner]
      rfl
    · rw [t.frames.size_eq, hframes, List.length_cons, ← s.frames.size_eq, hlimits]
      exact Nat.le_trans hlimit (Nat.le_max_right _ _)
  | leave returnTo =>
    obtain ⟨frame, hframes, rfl⟩ := hturns
    unfold State.returns at hinner
    rw [hframes, List.map_cons] at hinner
    cases inner with
    | nil =>
      -- the outermost frame is the one that is left
      obtain ⟨hnone, hrest⟩ := List.cons.inj hinner
      rw [hnone]
      show t.frames.size = 0
      rw [t.frames.size_eq, List.map_eq_nil_iff.mp hrest]
      rfl
    | cons a inner =>
      obtain ⟨hsome, hrest⟩ := List.cons.inj hinner
      rw [hsome]
      have hsize := h.size_le
      rw [s.frames.size_eq, hframes, List.length_cons, ← t.frames.size_eq] at hsize
      exact ⟨⟨inner, hrest⟩, hlimits ▸ Nat.le_of_succ_le hsize⟩

theorem step (h : Framed s) {b : Bool} (hstep : step s = .ok b t) :
    if b then Framed t else t.frames.size = 0 := by
  obtain ⟨i, flow, u, -, hexecute, hsettle⟩ := exists_of_step hstep
  obtain ⟨-, hthere, rfl⟩ := settle_eq_ok hsettle
  have hframed := h.execute hexecute
  rw [hthere]
  cases hdestination : flow.destination i with
  | none =>
    rw [hdestination] at hframed
    exact hframed
  | some address =>
    rw [hdestination] at hframed
    exact hframed.of_returns rfl rfl

end Framed

/-- A machine in which no instruction faults for want of a frame. -/
structure InCall (s : State) : Prop where
  leave : ∃ flow t, leave s = .ok flow t
  /-- Slots can be allocated, unless there are too few arguments. -/
  allocate : ∀ locals params fault t, allocateSlots locals params s = .error fault t →
    s.memory.stack.size < params
  /-- Only an item to store can be missing. -/
  access : ∀ i address t, accessSlot i s = .error (.stackUnderflow address) t →
    s.memory.stack.size = 0

theorem size_zero_of_pop_error {address : Nat} {m m' : Memory} {fault : Fault}
    (h : Eval.pop address m = .error fault m') : m.stack.size = 0 := by
  rw [Eval.pop_eq] at h
  cases hpop : m.stack.pop? with
  | none => rw [m.stack.size_eq, Stack.pop?_eq_none_iff.mp hpop, List.length_nil]
  | some top =>
    rw [hpop] at h
    cases h

theorem size_lt_of_popMany_error {n address : Nat} {m m' : Memory} {fault : Fault}
    (h : Eval.popMany n address m = .error fault m') : m.stack.size < n := by
  rw [Eval.popMany_eq] at h
  unfold Stack.popList? at h
  by_cases hn : n ≤ m.stack.size
  · rw [if_pos hn] at h
    cases h
  · exact Nat.lt_of_not_le hn

theorem eval_of_evaluate_error {α : Type} {x : Eval α} {s t : State} {fault : Fault}
    (h : evaluate x s = .error fault t) : ∃ m, x s.address s.memory = .error fault m := by
  rw [evaluate_eq] at h
  cases hresult : x s.address s.memory with
  | ok a m =>
    rw [hresult] at h
    cases h
  | error fault' m =>
    rw [hresult] at h
    cases h
    exact ⟨m, rfl⟩

/-- Where there is a frame, there are slots. -/
theorem slots_ne_underflow {s : State} {frame : Frame} {rest : List Frame}
    (hframes : s.frames.toList = frame :: rest) (area : SlotArea) (index : UInt8) (address : Nat) :
    s.slots area index ≠ .error (.stackUnderflow address) := by
  unfold State.slots
  cases area with
  | static => cases s.statics <;> nofun
  | locals | arguments =>
    rw [hframes]
    nofun

theorem loadSlot_ne_underflow {s : State} {frame : Frame} {rest : List Frame}
    (hframes : s.frames.toList = frame :: rest) (area : SlotArea) (index : UInt8) (address : Nat)
    (t : State) : loadSlot area index s ≠ .error (.stackUnderflow address) t := by
  intro herror
  obtain ⟨_, _, hget, herror⟩ := (bind_eq_error herror).resolve_left nofun
  cases hget
  have hslots := slots_ne_underflow hframes area index address
  -- the slots are there, and what is not in them is no matter of the stack
  cases hthere : s.slots area index with
  | error fault =>
    rw [hthere] at herror hslots
    cases herror
    exact hslots rfl
  | ok slots =>
    rw [hthere] at herror
    obtain ⟨_, _, hget, herror⟩ := (bind_eq_error herror).resolve_left nofun
    cases hget
    cases hitem : slots[index.toNat]? with
    | none | some item =>
      simp only [hitem] at herror
      cases herror

/-- Where there is a frame, a slot is only short of an item to store. -/
theorem storeSlot_underflow {s : State} {frame : Frame} {rest : List Frame}
    (hframes : s.frames.toList = frame :: rest) {area : SlotArea} {index : UInt8} {address : Nat}
    {t : State} (herror : storeSlot area index s = .error (.stackUnderflow address) t) :
    s.memory.stack.size = 0 := by
  rcases bind_eq_error herror with hpopped | ⟨item, u, hpopped, herror⟩
  · obtain ⟨m, hm⟩ := eval_of_evaluate_error hpopped
    exact size_zero_of_pop_error hm
  · have hthere : u.frames.toList = frame :: rest := by rw [still_evaluate _ hpopped, hframes]
    obtain ⟨_, _, hget, herror⟩ := (bind_eq_error herror).resolve_left nofun
    cases hget
    have hslots := slots_ne_underflow hthere area index address
    cases hresult : u.slots area index with
    | error fault =>
      rw [hresult] at herror hslots
      cases herror
      exact absurd rfl hslots
    | ok slots =>
      rw [hresult] at herror
      obtain ⟨_, _, hget, herror⟩ := (bind_eq_error herror).resolve_left nofun
      cases hget
      split at herror <;> cases herror

/-- Where there is a frame, no instruction faults for want of one. -/
theorem inCall_of_pos {s : State} (h : 1 ≤ s.frames.size) : InCall s := by
  obtain ⟨frame, rest, hframes⟩ : ∃ frame rest, s.frames.toList = frame :: rest := by
    rw [s.frames.size_eq] at h
    exact List.exists_cons_of_length_pos h
  obtain ⟨below, hpop, -⟩ := Stack.pop?_of_toList hframes
  refine ⟨?_, ?_, ?_⟩
  · rw [leave_eq, hpop]
    exact ⟨_, _, rfl⟩
  · intro locals params fault t herror
    rw [allocateSlots_eq, hpop] at herror
    cases harguments : Eval.popMany params s.address s.memory with
    | error fault' m => exact size_lt_of_popMany_error harguments
    | ok arguments m =>
      rw [harguments] at herror
      cases herror
  · intro i address t herror
    unfold accessSlot at herror
    generalize i.access? = access at herror
    rcases access with _ | ⟨area, _ | _, index⟩
    · cases herror
    · exact storeSlot_underflow hframes herror
    · exact absurd herror (loadSlot_ne_underflow hframes area index address t)

/-! ## Runs -/

/-- A machine comes to another one by so many instructions. -/
inductive Advances : Nat → State → State → Prop
  | here {s : State} : Advances 0 s s
  | next {n : Nat} {s t u : State} (h : step s = .ok true t) (hrest : Advances n t u) :
    Advances (n + 1) s u

theorem Advances.framed {n : Nat} {s t : State} (h : Advances n s t) (hframed : Framed s) :
    Framed t ∧ t.limits = s.limits := by
  induction h with
  | here => exact ⟨hframed, rfl⟩
  | next hstep _ ih =>
    obtain ⟨hthere, hlimits⟩ := ih (hframed.step hstep)
    exact ⟨hthere, hlimits.trans (limits_of_step hstep)⟩

/-- How a run ends that comes to a machine with so many instructions left to execute. -/
inductive Ends (left : Nat) (s : State) : EStateM.Result Fault State (List Item) → Prop
  | exhausted (h : left = 0) : Ends left s (.error (.executionLimit s.limits.execution) s)
  | returned {t : State} (hleft : 0 < left) (h : step s = .ok false t) :
    Ends left s (.ok t.memory.stack.toList { t with memory := { t.memory with stack := .empty } })
  | faulted {fault : Fault} {t : State} (hleft : 0 < left) (h : step s = .error fault t) :
    Ends left s (.error fault t)

/-- A run executes instructions until it ends, and no more than it may. -/
theorem loop_ends (fuel : Nat) (s : State) :
    ∃ n left t, n + left = fuel ∧ Advances n s t ∧ Ends left t (loop fuel s) := by
  -- on the fuel, one instruction at a time
  induction fuel generalizing s with
  | zero => exact ⟨0, 0, s, rfl, .here, .exhausted rfl⟩
  | succ fuel ih =>
    rw [loop_succ]
    cases hstep : step s with
    | error fault t => exact ⟨0, fuel + 1, s, Nat.zero_add _, .here, .faulted (Nat.succ_pos _) hstep⟩
    | ok b t =>
      cases b with
      | false => exact ⟨0, fuel + 1, s, Nat.zero_add _, .here, .returned (Nat.succ_pos _) hstep⟩
      | true =>
        obtain ⟨n, left, u, hsum, hadvances, hends⟩ := ih t
        exact ⟨n + 1, left, u, by omega, .next hstep hadvances, hends⟩

/-- What the limits of a run promise. -/
structure RunsWithin (s : State) (entry : Nat) (arguments : List Item) : Prop where
  /-- The run ends, after no more instructions than it may execute. -/
  ends : ∃ n left t, n + left = s.limits.execution ∧ Advances n (s.start entry arguments) t
    ∧ Ends left t (run entry arguments s)
  /-- In front of an instruction, there are frames, and no more than there may be. -/
  frames : ∀ n t, Advances n (s.start entry arguments) t →
    1 ≤ t.frames.size ∧ t.frames.size ≤ max 1 s.limits.recursion ∧ InCall t
  /-- Behind an instruction, there are no more items on the stack than there may be. -/
  stack : ∀ n t b u, Advances n (s.start entry arguments) t → step t = .ok b u →
    u.memory.stack.size ≤ s.limits.stack
  /-- A run that returns leaves no frame behind, and no more items than it may. -/
  returned : ∀ items t, run entry arguments s = .ok items t →
    items.length ≤ s.limits.stack ∧ t.frames.size = 0

theorem runsWithin_limits {s : State} {entry : Nat} (h : entry < s.script.size)
    (arguments : List Item) : RunsWithin s entry arguments := by
  have hrun := run_eq entry arguments s
  rw [if_neg (Nat.not_le_of_lt h)] at hrun
  have hends := loop_ends s.limits.execution (s.start entry arguments)
  rw [← hrun] at hends
  -- the frames of a run are those of calls within it
  have hframed : ∀ n t, Advances n (s.start entry arguments) t → Framed t ∧ t.limits = s.limits :=
    fun n t hadvances => hadvances.framed (framed_start s entry arguments)
  have hstack : ∀ n t b u, Advances n (s.start entry arguments) t → step t = .ok b u →
      u.memory.stack.size ≤ s.limits.stack := by
    intro n t b u hadvances hstep
    rw [← (hframed n t hadvances).2, ← limits_of_step hstep]
    exact size_le_of_step hstep
  refine ⟨hends, ?_, hstack, ?_⟩
  · intro n t hadvances
    obtain ⟨hthere, hlimits⟩ := hframed n t hadvances
    exact ⟨hthere.size_pos, hlimits ▸ hthere.size_le, inCall_of_pos hthere.size_pos⟩
  · intro items t hreturned
    obtain ⟨n, left, u, -, hadvances, hends⟩ := hends
    rw [hreturned] at hends
    cases hends with
    | returned _ hstep =>
      refine ⟨?_, (hframed n u hadvances).1.step hstep⟩
      rw [← Stack.size_eq]
      exact hstack n u false _ hadvances hstep

/-- A machine with a method that does nothing but call itself. -/
def calling : State where
  script := #[0x34, 0x00]

theorem runsWithin_calling : 0 < calling.script.size ∧ RunsWithin calling 0 [] :=
  ⟨by decide, runsWithin_limits (by decide) []⟩

end StackContract.Machine
