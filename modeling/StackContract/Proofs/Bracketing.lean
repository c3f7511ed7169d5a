import StackContract.Proofs.Faults
import StackContract.Proofs.RunLimits
/-!
# Calls and their returns

From a call up to the return that takes its frame off again, the frames below it stay as they are, their
slots included, and that return leads behind the call (`bracketed_of_call`). There may be any number of
calls and returns in between: what counts is how many frames there are (`Inside`).
-/

namespace StackContract.Machine

open Script

/-! ## Where operations lead -/

/-- Where control can go from an operation. -/
def Operation.Leads : Operation → Flow → Prop
  | .jump, flow => ∃ address, flow = .jump address
  | .jumpIf _, flow | .jumpCompare _, flow => flow = .next ∨ ∃ address, flow = .jump address
  | .call, flow | .callPointer, flow => ∃ target, flow = .enter target
  | .ret, flow => ∃ returnTo, flow = .leave returnTo
  | _, flow => flow = .next

section

variable {i : Located} {s t : State} {flow : Flow}

theorem next_of_andNext {x : Exec Unit} (h : andNext x s = .ok flow t) : flow = .next := by
  obtain ⟨_, _, -, hnext⟩ := bind_eq_ok h
  cases hnext
  rfl

theorem jump_of_jumpTo (h : jumpTo i s = .ok flow t) : ∃ address, flow = .jump address := by
  obtain ⟨_, _, -, h⟩ := bind_eq_ok h
  obtain ⟨address, _, -, hjump⟩ := bind_eq_ok h
  cases hjump
  exact ⟨address, rfl⟩

theorem jump_of_ite {c : Prop} [Decidable c] (h : (if c then jumpTo i else pure .next) s = .ok flow t) :
    flow = .next ∨ ∃ address, flow = .jump address := by
  split at h
  · exact .inr (jump_of_jumpTo h)
  · cases h
    exact .inl rfl

theorem enter_of_enter {target : Nat} (h : enter i target s = .ok flow t) : flow = .enter target := by
  by_cases hlt : target < s.script.size
  · rw [enter_eq hlt] at h
    split at h
    · cases h
    · cases h
      rfl
  · -- outside the script there is no method
    obtain ⟨_, _, hget, h⟩ := bind_eq_ok h
    cases hget
    rw [if_pos (Nat.le_of_not_lt hlt)] at h
    split at h <;> cases h

theorem leave_of_leave (h : leave s = .ok flow t) : ∃ returnTo, flow = .leave returnTo := by
  rw [leave_eq] at h
  cases hpop : s.frames.pop? with
  | none =>
    rw [hpop] at h
    cases h
  | some top =>
    rw [hpop] at h
    cases h
    exact ⟨_, rfl⟩

theorem leads_of_execute (h : execute i s = .ok flow t) : (operation i.opcode).Leads flow := by
  unfold execute at h
  cases hoperation : operation i.opcode with
  | simple | pushAddress | assert | service | initStatics | initSlots | slot =>
    rw [hoperation] at h
    exact next_of_andNext h
  | jump =>
    rw [hoperation] at h
    exact jump_of_jumpTo h
  | jumpIf | jumpCompare =>
    rw [hoperation] at h
    obtain ⟨_, _, -, h⟩ := bind_eq_ok h
    exact jump_of_ite h
  | call =>
    rw [hoperation] at h
    obtain ⟨_, _, -, h⟩ := bind_eq_ok h
    obtain ⟨target, _, -, h⟩ := bind_eq_ok h
    exact ⟨target, enter_of_enter h⟩
  | callPointer =>
    rw [hoperation] at h
    obtain ⟨target, _, -, h⟩ := bind_eq_ok h
    exact ⟨target, enter_of_enter h⟩
  | ret =>
    rw [hoperation] at h
    exact leave_of_leave h
  | abort =>
    rw [hoperation] at h
    obtain ⟨_, _, -, h⟩ := bind_eq_ok h
    cases h
  | raise =>
    rw [hoperation] at h
    obtain ⟨_, _, -, h⟩ := bind_eq_ok h
    obtain ⟨_, _, -, h⟩ := bind_eq_ok h
    cases h
  | unsupported =>
    rw [hoperation] at h
    cases h

/-- Calls enter methods. -/
theorem enters_of_call (hcall : i.opcode ∈ [.call, .callL, .callA]) (h : execute i s = .ok flow t) :
    ∃ target, flow = .enter target := by
  have hleads := leads_of_execute h
  simp only [List.mem_cons, List.not_mem_nil, or_false] at hcall
  rcases hcall with hop | hop | hop <;> (rw [hop] at hleads; exact hleads)

theorem operation_eq_ret {op : Opcode} (h : operation op = .ret) : op = .ret := by
  cases op <;> first | rfl | cases h

/-- Only a return leaves a method. -/
theorem opcode_of_leave {returnTo : Option Nat} (h : execute i s = .ok (.leave returnTo) t) :
    i.opcode = .ret := by
  have hleads := leads_of_execute h
  cases hoperation : operation i.opcode with
  | ret => exact operation_eq_ret hoperation
  | _ =>
    rw [hoperation] at hleads
    simp [Operation.Leads] at hleads

end

/-! ## Frames -/

/-- There is a frame on those of the callers, which returns to an address, and maybe others on top. -/
def State.Above (u : State) (callers : List Frame) (returnTo : Nat) : Prop :=
  ∃ inner callee, u.frames.toList = inner ++ callee :: callers ∧ callee.returnTo = some returnTo

section

variable {s t u v : State} {callers : List Frame} {returnTo : Nat} {i : Located} {flow : Flow}

/-- Only the slots of the innermost frame can have changed. -/
theorem frames_of_calls (h : t.calls = s.calls) {frame : Frame} {rest : List Frame}
    (hframes : s.frames.toList = frame :: rest) :
    ∃ frame', t.frames.toList = frame' :: rest ∧ frame'.returnTo = frame.returnTo := by
  have hhead := congrArg Calls.innermost h
  have htail := congrArg Calls.below h
  unfold State.calls at hhead htail
  rw [hframes] at hhead htail
  cases hthere : t.frames.toList with
  | nil =>
    rw [hthere] at hhead
    cases hhead
  | cons frame' rest' =>
    rw [hthere] at hhead htail
    exact ⟨frame', congrArg _ htail, Option.some.inj hhead⟩

theorem State.Above.suffix (h : u.Above callers returnTo) : callers <:+ u.frames.toList := by
  obtain ⟨inner, callee, hframes, -⟩ := h
  exact ⟨inner ++ [callee], by rw [hframes, List.append_assoc, List.singleton_append]⟩

theorem State.Above.of_frames (h : u.Above callers returnTo) (hframes : v.frames = u.frames) :
    v.Above callers returnTo := by
  unfold State.Above
  rw [hframes]
  exact h

theorem State.Above.of_calls (h : u.Above callers returnTo) (hcalls : v.calls = u.calls) :
    v.Above callers returnTo := by
  obtain ⟨inner, callee, hframes, hreturn⟩ := h
  cases inner with
  | nil =>
    obtain ⟨callee', hframes', hreturn'⟩ := frames_of_calls hcalls hframes
    exact ⟨[], callee', hframes', hreturn'.trans hreturn⟩
  | cons frame inner =>
    obtain ⟨frame', hframes', -⟩ := frames_of_calls hcalls hframes
    exact ⟨frame' :: inner, callee, hframes', hreturn⟩

/-- An instruction leaves the frame above the callers where it is, or takes it off and goes where it
returns to. -/
theorem State.Above.execute (h : u.Above callers returnTo) (hexecute : execute i u = .ok flow v) :
    v.Above callers returnTo ∨ (flow = .leave (some returnTo) ∧ v.frames.toList = callers) := by
  have hturns : flow.Turns i u v := turns_execute i hexecute
  cases flow with
  | next => exact .inl (h.of_calls hturns)
  | jump address => exact .inl (h.of_calls hturns)
  | enter target =>
    obtain ⟨inner, callee, hframes, hreturn⟩ := h
    obtain ⟨-, hpushed⟩ := hturns
    rw [hframes] at hpushed
    exact .inl ⟨_ :: inner, callee, hpushed, hreturn⟩
  | leave address =>
    obtain ⟨inner, callee, hframes, hreturn⟩ := h
    obtain ⟨frame, hpopped, haddress⟩ := hturns
    rw [hframes] at hpopped
    cases inner with
    | nil =>
      obtain ⟨rfl, hrest⟩ := List.cons.inj hpopped
      exact .inr ⟨by rw [← haddress, hreturn], hrest.symm⟩
    | cons _ inner =>
      obtain ⟨-, hrest⟩ := List.cons.inj hpopped
      exact .inl ⟨inner, callee, hrest.symm, hreturn⟩

theorem frames_settle (i : Located) (flow : Flow) (u : State) :
    (leftBehind (settle i flow u)).frames = u.frames := by
  rw [settle_eq]
  split
  · rfl
  · split <;> rfl

theorem frames_step (h : u.current = .ok i) :
    (leftBehind (step u)).frames = (leftBehind (Machine.execute i u)).frames := by
  rw [step_eq h]
  cases Machine.execute i u with
  | error fault v => rfl
  | ok flow v => exact frames_settle i flow v

/-- Whatever the next instruction does, the frames of the callers are there behind it. -/
theorem State.Above.suffix_step (h : u.Above callers returnTo) :
    callers <:+ (leftBehind (step u)).frames.toList := by
  cases hcurrent : u.current with
  | error fault =>
    rw [step_of_current_error hcurrent]
    exact h.suffix
  | ok i =>
    rw [frames_step hcurrent]
    cases hexecute : Machine.execute i u with
    | error fault v =>
      show callers <:+ v.frames.toList
      rw [(harmless_execute i hexecute).unharmed.frames]
      exact h.suffix
    | ok flow v =>
      show callers <:+ v.frames.toList
      rcases h.execute hexecute with habove | ⟨-, hframes⟩
      · exact habove.suffix
      · exact hframes ▸ List.suffix_refl _

/-- What a return to the callers is like. -/
structure ReturnsTo (callers : List Frame) (returnTo : Nat) (u : State) (b : Bool) (v : State) : Prop where
  instruction : ∃ i, u.current = .ok i ∧ i.opcode = .ret
  goesOn : b = true
  address : v.address = returnTo
  frames : v.frames.toList = callers

/-- A step stays above the callers, or returns to them. -/
theorem State.Above.step (h : u.Above callers returnTo) {b : Bool} (hstep : step u = .ok b v) :
    v.Above callers returnTo ∨ ReturnsTo callers returnTo u b v := by
  obtain ⟨i, flow, w, hcurrent, hexecute, hsettle⟩ := exists_of_step hstep
  obtain ⟨-, hthere, hb⟩ := settle_eq_ok hsettle
  have hframes : v.frames = w.frames := by rw [hthere]
  rcases h.execute hexecute with habove | ⟨rfl, hcallers⟩
  · exact .inl (habove.of_frames hframes)
  · refine .inr ⟨⟨i, hcurrent, opcode_of_leave hexecute⟩, hb, ?_, by rw [hframes, hcallers]⟩
    rw [hb] at hsettle
    obtain ⟨address, hdestination, rfl⟩ := destination_of_settle hsettle
    exact (Option.some.inj hdestination).symm

theorem State.Above.length_lt (h : u.Above callers returnTo) : callers.length < u.frames.size := by
  obtain ⟨inner, callee, hframes, -⟩ := h
  rw [u.frames.size_eq, hframes, List.length_append, List.length_cons]
  omega

end

/-! ## Calls -/

/-- A machine comes to another one by so many instructions, with more frames than `depth` all the way. -/
inductive Inside (depth : Nat) : Nat → State → State → Prop
  | here {s : State} (h : depth < s.frames.size) : Inside depth 0 s s
  | next {n : Nat} {s t u : State} (h : depth < s.frames.size) (hstep : step s = .ok true t)
    (hrest : Inside depth n t u) : Inside depth (n + 1) s u

theorem Inside.lt {depth n : Nat} {s t : State} (h : Inside depth n s t) : depth < s.frames.size := by
  cases h with
  | here h | next h => exact h

theorem Inside.above {n returnTo : Nat} {callers : List Frame} {s t : State}
    (h : Inside callers.length n s t) (hs : s.Above callers returnTo) : t.Above callers returnTo := by
  induction h with
  | here => exact hs
  | next _ hstep hrest ih =>
    rcases hs.step hstep with habove | hreturns
    · exact ih habove
    · -- there would be no more frames than those of the callers
      have hlt := hrest.lt
      rw [Stack.size_eq, hreturns.frames] at hlt
      exact absurd hlt (Nat.lt_irrefl _)

/-- A run goes on above the callers, unless it comes to a step that goes down to them. -/
theorem Advances.inside_or {n depth : Nat} {s t : State} (h : Advances n s t)
    (hs : depth < s.frames.size) : Inside depth n s t ∨ ∃ k rest u v, k + 1 + rest = n
      ∧ Inside depth k s u ∧ step u = .ok true v ∧ v.frames.size ≤ depth ∧ Advances rest v t := by
  induction h with
  | here => exact .inl (.here hs)
  | @next n s t u hstep hrest ih =>
    by_cases ht : depth < t.frames.size
    · rcases ih ht with hinside | ⟨k, rest, v, w, hsum, hinside, hdown, hsize, hbehind⟩
      · exact .inl (.next hs hstep hinside)
      · exact .inr ⟨k + 1, rest, v, w, by omega, .next hs hstep hinside, hdown, hsize, hbehind⟩
    · exact .inr ⟨0, n, s, t, by omega, .here hs, hstep, Nat.le_of_not_lt ht, hrest⟩

/-- What the callers of a method can rely on, from the call in `s` that leads to `t` on. -/
structure Bracketed (s : State) (i : Located) (t : State) : Prop where
  /-- A frame is put on those of the callers, which returns behind the call. -/
  entered : t.frames.toList = { returnTo := some i.next } :: s.frames.toList
  /-- Until that frame is taken off, it returns there, and the frames below it are as they were. -/
  kept : ∀ n u, Inside s.frames.size n t u → u.Above s.frames.toList i.next
  /-- So are they behind the next instruction, whether it succeeds or faults. -/
  suffix : ∀ n u, Inside s.frames.size n t u →
    s.frames.toList <:+ (leftBehind (step u)).frames.toList
  /-- It takes a return to take that frame off, and that goes on behind the call. -/
  returns : ∀ n u b v, Inside s.frames.size n t u → step u = .ok b v →
    v.frames.size ≤ s.frames.size → ReturnsTo s.frames.toList i.next u b v
  /-- All that comes later in the run comes before that return or behind it. -/
  matched : ∀ n u, Advances n t u → Inside s.frames.size n t u ∨ ∃ k rest v w, k + 1 + rest = n
    ∧ Inside s.frames.size k t v ∧ step v = .ok true w ∧ w.frames.size ≤ s.frames.size
    ∧ Advances rest w u

/-- A call puts a frame on those of the callers. -/
theorem frames_of_call {s t : State} {i : Located} {flow : Flow}
    (hcall : i.opcode ∈ [.call, .callL, .callA]) (h : execute i s = .ok flow t) :
    t.frames.toList = { returnTo := some i.next } :: s.frames.toList := by
  obtain ⟨target, rfl⟩ := enters_of_call hcall h
  have hturns : (Flow.enter target).Turns i s t := turns_execute i h
  exact hturns.2

theorem bracketed_of_entered {s t : State} {i : Located}
    (hentered : t.frames.toList = { returnTo := some i.next } :: s.frames.toList) : Bracketed s i t := by
  have habove : t.Above s.frames.toList i.next := ⟨[], _, hentered, rfl⟩
  have hsize : s.frames.size = s.frames.toList.length := s.frames.size_eq
  have hkept : ∀ n u, Inside s.frames.size n t u → u.Above s.frames.toList i.next := by
    intro n u hinside
    rw [hsize] at hinside
    exact hinside.above habove
  refine ⟨hentered, hkept, fun n u hinside => (hkept n u hinside).suffix_step, ?_, ?_⟩
  · intro n u b v hinside hout hle
    refine ((hkept n u hinside).step hout).resolve_left fun hthere => ?_
    have hlt := hthere.length_lt
    omega
  · intro n u hadvances
    exact hadvances.inside_or (hsize ▸ habove.length_lt)

/-- A call that faults leaves the frames of the callers as they are, and one that succeeds is bracketed. -/
theorem bracketed_of_call {s : State} {i : Located} (hcurrent : s.current = .ok i)
    (hcall : i.opcode ∈ [.call, .callL, .callA]) :
    (∀ fault t, step s = .error fault t → s.frames.toList <:+ t.frames.toList)
    ∧ ∀ b t, step s = .ok b t → b = true ∧ Bracketed s i t := by
  constructor
  · intro fault t hstep
    have hframes : t.frames = (leftBehind (execute i s)).frames := by
      rw [← frames_step hcurrent, hstep]
      rfl
    rw [hframes]
    cases hexecute : execute i s with
    | error fault' u =>
      have hkept : u.frames = s.frames := (harmless_execute i hexecute).unharmed.frames
      exact hkept ▸ List.suffix_refl s.frames.toList
    | ok flow u =>
      -- the frame is there, but there are too many items on the stack
      show s.frames.toList <:+ u.frames.toList
      rw [frames_of_call hcall hexecute]
      exact List.suffix_cons _ _
  · intro b t hstep
    obtain ⟨j, flow, u, hthere, hexecute, hsettle⟩ := exists_of_step hstep
    cases hcurrent.symm.trans hthere
    obtain ⟨-, hthere, hb⟩ := settle_eq_ok hsettle
    have hframes : t.frames = u.frames := by rw [hthere]
    obtain ⟨target, rfl⟩ := enters_of_call hcall hexecute
    exact ⟨hb, bracketed_of_entered (by rw [hframes, frames_of_call hcall hexecute])⟩

/-- A machine in front of a call of a method that returns at once, with a slot in use. -/
def visiting : State where
  script := #[0x34, 0x03, 0x40, 0x40]
  frames := .ofList [{ returnTo := none, locals := #[.boolean true] }]

theorem bracketed_visiting : visiting.current = .ok ⟨⟨.call, [3]⟩, 0⟩
    ∧ ∃ t, step visiting = .ok true t ∧ Bracketed visiting ⟨⟨.call, [3]⟩, 0⟩ t := by
  have hcurrent : visiting.current = .ok ⟨⟨.call, [3]⟩, 0⟩ := by decide +kernel
  have htarget : targetOf visiting.script ⟨⟨.call, [3]⟩, 0⟩ = .ok 3 := rfl
  have hexecute := execute_call rfl htarget (by decide)
  obtain ⟨t, hstep⟩ : ∃ t, step visiting = .ok true t := by
    rw [step_eq hcurrent, hexecute]
    exact ⟨_, rfl⟩
  exact ⟨hcurrent, t, hstep, ((bracketed_of_call hcurrent (by decide)).2 true t hstep).2⟩

end StackContract.Machine
