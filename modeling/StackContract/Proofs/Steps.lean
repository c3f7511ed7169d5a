import StackContract.Machine.Run
import StackContract.Proofs.Computations
/-!
# What instructions do

The outcome of an instruction as a function of the machine in front of it, one equation for each
operation that compiled code uses. What runs on them is left to `evaluate_eq`: a computation on the
memory changes the memory alone.
-/

namespace StackContract.Machine

open Script

/-- Where control goes behind an instruction; nowhere once the entry returns. -/
def Flow.destination (i : Located) : Flow → Option Nat
  | .next => some i.next
  | .jump address => some address
  | .enter address => some address
  | .leave returnTo => returnTo

/-- The results of a computation on the memory are those of the machine with that memory. -/
def State.withMemory {α β : Type} (state : State) (f : α → β) :
    EStateM.Result Fault Memory α → EStateM.Result Fault State β
  | .ok a memory => .ok (f a) { state with memory }
  | .error fault memory => .error fault { state with memory }

/-- What a run does not change. -/
structure Settings where
  script : Array UInt8
  initializer : Option Nat
  limits : Limits
  isInitialized : Bool

def State.settings (state : State) : Settings :=
  ⟨state.script, state.initializer, state.limits, state.isInitialized⟩

variable {i : Located} {s : State}

theorem Eval.bind_apply {α β : Type} (x : Eval α) (f : α → Eval β) (address : Nat) (m : Memory) :
    (x >>= f) address m = match x address m with
      | .ok a m' => f a address m'
      | .error fault m' => .error fault m' := by
  show (x address >>= fun a => f a address) m = _
  rewrite [StackContract.bind_apply]
  cases x address m <;> rfl

/-- An array is gone through as its list is. -/
theorem Eval.arrayMapM_eq_ok {α β : Type} {f : α → Eval β} {xs : Array α} {ys : List β} {address : Nat}
    {m m' : Memory} (h : xs.toList.mapM f address m = .ok ys m') :
    xs.mapM f address m = .ok ys.toArray m' := by
  rw [Array.mapM_eq_mapM_toList]
  show EStateM.map _ _ m = _
  unfold EStateM.map
  rw [h]

theorem get_bind_eq {α : Type} (f : State → Exec α) (s : State) : (get >>= f) s = f s s :=
  rfl

theorem orFault_bind_eq {α β : Type} (a : α) (f : α → Exec β) (s : State) :
    (Exec.orFault (.ok a) >>= f) s = f a s :=
  rfl

theorem evaluate_eq {α : Type} (x : Eval α) (s : State) :
    Exec.evaluate x s = s.withMemory id (x s.address s.memory) := by
  unfold Exec.evaluate State.withMemory
  dsimp only
  cases x s.address s.memory <;> rfl

theorem evaluate_bind_eq {α β : Type} (x : Eval α) (f : α → Exec β) (s : State) :
    (Exec.evaluate x >>= f) s = match x s.address s.memory with
      | .ok a memory => f a { s with memory }
      | .error fault memory => .error fault { s with memory } := by
  rw [bind_apply, evaluate_eq]
  cases x s.address s.memory <;> rfl

theorem andNext_evaluate_eq (x : Eval Unit) (s : State) :
    andNext (Exec.evaluate x) s = s.withMemory (fun _ => .next) (x s.address s.memory) := by
  unfold andNext
  rw [evaluate_bind_eq]
  cases x s.address s.memory <;> rfl

theorem Eval.pop_eq (address : Nat) (m : Memory) : Eval.pop address m = match m.stack.pop? with
    | none => .error (.stackUnderflow address) m
    | some (item, stack) => .ok item { m with stack } := by
  show (match m.stack.pop? with | none => _ | some (item, rest) => _ : Eval Item) address m = _
  cases m.stack.pop? <;> rfl

theorem popInteger_push (address : Nat) (stack : Stack Item) (item : Item) (heap : Heap) :
    Eval.popInteger address ⟨stack.push item, heap⟩ = match item.asInteger heap with
      | .ok v => .ok v ⟨stack, heap⟩
      | .error fault => .error fault ⟨stack, heap⟩ := by
  show (Eval.orFault (item.asInteger heap) : Eval _) address ⟨stack, heap⟩ = _
  cases item.asInteger heap <;> rfl

theorem popCount_eq {n : Nat} {v : Number.Int128} {item : Item} {heap : Heap}
    (hitem : item.asInteger heap = .ok v) (hv : v.val = n) (hn : n < 0x1_0000_0000_0000_0000)
    (address : Nat) (stack : Stack Item) :
    Eval.popCount address ⟨stack.push item, heap⟩ = .ok n ⟨stack, heap⟩ := by
  show (Eval.popInteger >>= _ : Eval Nat) address ⟨stack.push item, heap⟩ = _
  rw [Eval.bind_apply, popInteger_push, hitem]
  show (if 0 ≤ v.val ∧ v.val < 0x1_0000_0000_0000_0000 then pure v.val.toNat else _ : Eval Nat) address
    ⟨stack, heap⟩ = _
  rw [if_pos (by omega), hv]
  rfl

theorem Eval.popMany_eq (n address : Nat) (m : Memory) :
    Eval.popMany n address m = match m.stack.popList? n with
      | none => .error (.stackUnderflow address) { m with stack := .empty }
      | some (items, stack) => .ok items { m with stack } := by
  show (match m.stack.popList? n with | none => _ | some (items, rest) => _ : Eval _) address m = _
  cases m.stack.popList? n <;> rfl

theorem rearrange_eq (f : Stack Item → Option (Stack Item)) (address : Nat) (m : Memory) :
    rearrange f address m = match f m.stack with
      | none => .error (.stackUnderflow address) m
      | some stack => .ok () { m with stack } := by
  show (match f m.stack with | none => _ | some stack => _ : Eval Unit) address m = _
  cases f m.stack <;> rfl

/-- The items that are taken off are those that were on top. -/
theorem Eval.popMany_eq_ok {n address : Nat} {m m' : Memory} {items : List Item}
    (h : Eval.popMany n address m = .ok items m') :
    items.length = n ∧ m.stack = m'.stack.pushList items ∧ m'.heap = m.heap := by
  rw [Eval.popMany_eq] at h
  unfold Stack.popList? at h
  by_cases hn : n ≤ m.stack.size
  · rw [if_pos hn] at h
    cases h
    refine ⟨?_, Stack.ext (List.take_append_drop n m.stack.toList).symm, rfl⟩
    rw [List.length_take, ← m.stack.size_eq]
    exact Nat.min_eq_left hn
  · rw [if_neg hn] at h
    cases h

/-! ## Steps -/

theorem settle_eq (flow : Flow) (s : State) : settle i flow s =
    if s.limits.stack < s.memory.stack.size then .error (.stackLimit s.limits.stack) s
    else match flow.destination i with
      | some address => .ok true { s with address }
      | none => .ok false s := by
  unfold settle
  by_cases h : s.limits.stack < s.memory.stack.size
  · rw [if_pos h]
    rw [get_bind_eq, if_pos h]
    rfl
  · rw [if_neg h]
    rw [get_bind_eq, if_neg h]
    cases flow with
    | next => rfl
    | jump address => rfl
    | enter address => rfl
    | leave returnTo => cases returnTo <;> rfl

/-- Where control goes on behind an instruction. -/
theorem destination_of_settle {flow : Flow} {t : State} (h : settle i flow s = .ok true t) :
    ∃ address, flow.destination i = some address ∧ t = { s with address } := by
  rw [settle_eq] at h
  split at h
  · cases h
  · cases hdestination : flow.destination i with
    | none =>
      rw [hdestination] at h
      cases h
    | some address =>
      rw [hdestination] at h
      cases h
      exact ⟨address, rfl, rfl⟩

theorem step_eq (hcurrent : s.current = .ok i) : step s =
    match execute i s with
    | .ok flow t => settle i flow t
    | .error fault t => .error fault t := by
  show EStateM.bind (Exec.orFault s.current) (fun i => execute i >>= settle i) s = _
  rw [hcurrent]
  show (execute i >>= settle i) s = _
  rewrite [bind_apply]
  cases execute i s <;> rfl

theorem step_of_current_error {fault : Fault} (h : s.current = .error fault) :
    step s = .error fault s := by
  show EStateM.bind (Exec.orFault s.current) _ s = _
  rw [h]
  rfl

theorem current_eq {script : Array UInt8} {address : Nat} (hscript : s.script = script)
    (haddress : s.address = address) (h : decode script address = .ok i) : s.current = .ok i := by
  unfold State.current
  rw [hscript, haddress, h]

/-! ## Operations on the memory -/

theorem execute_simple {op : SimpleOp} (h : operation i.opcode = .simple op) (s : State) :
    execute i s
      = s.withMemory (fun _ => .next) (op.run i.toInstruction s.address s.memory) := by
  unfold execute
  rw [h]
  exact andNext_evaluate_eq _ s

theorem targetOf_eq {script : Array UInt8} {target : Nat} (h : i.target? = some target)
    (hlt : target < script.size) : targetOf script i = .ok target := by
  unfold targetOf
  rw [h]
  exact if_pos hlt

theorem execute_pushAddress {target : Nat} (h : operation i.opcode = .pushAddress)
    (htarget : targetOf s.script i = .ok target) : execute i s
      = .ok .next { s with memory := { s.memory with stack := s.memory.stack.push (.pointer target) } } := by
  unfold execute
  rw [h]
  show EStateM.bind (EStateM.bind (Exec.orFault (targetOf s.script i)) _) _ s = _
  rw [htarget]
  rfl

theorem execute_raise (h : operation i.opcode = .raise) (s : State) : execute i s
    = match Eval.pop s.address s.memory with
      | .ok item memory => .error (.thrown (item.text memory.heap)) { s with memory }
      | .error fault memory => .error fault { s with memory } := by
  unfold execute
  rw [h]
  show (Exec.evaluate Eval.pop >>= _) s = _
  rw [evaluate_bind_eq]
  cases Eval.pop s.address s.memory <;> rfl

/-! ## Jumps, calls and returns -/

theorem execute_jump {target : Nat} (h : operation i.opcode = .jump)
    (htarget : targetOf s.script i = .ok target) : execute i s = .ok (.jump target) s := by
  unfold execute
  rw [h]
  show EStateM.bind (Exec.orFault (targetOf s.script i)) _ s = _
  rw [htarget]
  rfl

theorem execute_jumpIf_eq {expected : Bool} (h : operation i.opcode = .jumpIf expected) (s : State) :
    execute i s = match Eval.popBoolean s.address s.memory with
      | .error fault memory => .error fault { s with memory }
      | .ok b memory =>
        if b = expected then jumpTo i { s with memory } else .ok .next { s with memory } := by
  unfold execute
  rw [h]
  show (Exec.evaluate Eval.popBoolean >>= _) s = _
  rw [evaluate_bind_eq]
  cases Eval.popBoolean s.address s.memory with
  | error fault memory => rfl
  | ok b memory =>
    show (if b = expected then jumpTo i else pure Flow.next) { s with memory } = _
    split
    · next hb => exact (if_pos hb).symm
    · next hb => exact (if_neg hb).symm

theorem execute_jumpIf {expected : Bool} {target : Nat} (h : operation i.opcode = .jumpIf expected)
    (htarget : targetOf s.script i = .ok target) : execute i s
      = s.withMemory (fun b => if b = expected then .jump target else .next)
          (Eval.popBoolean s.address s.memory) := by
  rw [execute_jumpIf_eq h]
  cases Eval.popBoolean s.address s.memory with
  | error fault memory => rfl
  | ok b memory =>
    have hjump : jumpTo i { s with memory } = .ok (.jump target) { s with memory } := by
      show EStateM.bind (Exec.orFault (targetOf s.script i)) _ _ = _
      rw [htarget]
      rfl
    show (if b = expected then jumpTo i { s with memory } else _)
      = EStateM.Result.ok (if b = expected then _ else _) _
    rw [hjump]
    split <;> rfl

/-- What entering a method does, within the limit on the frames. -/
theorem enter_eq {target : Nat} (hlt : target < s.script.size) : enter i target s
    = if s.limits.recursion ≤ s.frames.size then .error (.recursionLimit s.limits.recursion) s
      else .ok (.enter target)
        { s with frames := s.frames.push { returnTo := some i.next } } := by
  unfold enter
  by_cases h : s.limits.recursion ≤ s.frames.size
  · rw [if_pos h]
    rw [get_bind_eq, if_pos h]
    rfl
  · rw [if_neg h]
    rw [get_bind_eq, if_neg h, if_neg (Nat.not_le_of_lt hlt)]
    rfl

theorem execute_call {target : Nat} (h : operation i.opcode = .call)
    (htarget : targetOf s.script i = .ok target) (hlt : target < s.script.size) : execute i s
      = if s.limits.recursion ≤ s.frames.size then .error (.recursionLimit s.limits.recursion) s
        else .ok (.enter target)
          { s with frames := s.frames.push { returnTo := some i.next } } := by
  unfold execute
  rw [h]
  show EStateM.bind (Exec.orFault (targetOf s.script i)) (fun target => enter i target) s = _
  rw [htarget]
  exact enter_eq hlt

theorem execute_callPointer (h : operation i.opcode = .callPointer) (s : State) : execute i s
    = match popPointer s.address s.memory with
      | .ok target memory => enter i target { s with memory }
      | .error fault memory => .error fault { s with memory } := by
  unfold execute
  rw [h]
  show (Exec.evaluate popPointer >>= fun target => enter i target) s = _
  rw [evaluate_bind_eq]
  cases popPointer s.address s.memory <;> rfl

theorem leave_eq (s : State) : leave s = match s.frames.pop? with
    | none => .error (.stackUnderflow s.address) s
    | some (frame, frames) => .ok (.leave frame.returnTo) { s with frames } := by
  unfold leave
  rw [get_bind_eq]
  cases s.frames.pop? <;> rfl

theorem execute_ret {frame : Frame} {rest : List Frame} (h : operation i.opcode = .ret)
    (hframes : s.frames.toList = frame :: rest) : ∃ frames : Stack Frame, frames.toList = rest
      ∧ execute i s = .ok (.leave frame.returnTo) { s with frames } := by
  obtain ⟨frames, hpop, hrest⟩ := Stack.pop?_of_toList hframes
  refine ⟨frames, hrest, ?_⟩
  unfold execute
  rw [h]
  show leave s = _
  rw [leave_eq, hpop]

/-! ## Slots -/

theorem execute_initStatics (h : operation i.opcode = .initStatics) (s : State) : execute i s
    = if s.statics.isSome then .error .staticsAlreadyAllocated s
      else .ok .next
        { s with statics := some (Array.replicate (i.operand.headD 0).toNat .null) } := by
  unfold execute
  rw [h]
  show (allocateStatics (i.operand.headD 0).toNat >>= fun _ => pure Flow.next) s = _
  unfold allocateStatics
  rw [bind_apply, get_bind_eq]
  by_cases hsome : s.statics.isSome = true
  · rw [if_pos hsome, if_pos hsome]
    rfl
  · rw [if_neg hsome, if_neg hsome]
    rfl

theorem allocateSlots_eq (locals params : Nat) (s : State) : allocateSlots locals params s
    = match Eval.popMany params s.address s.memory with
      | .error fault memory => .error fault { s with memory }
      | .ok arguments memory =>
        match s.frames.pop? with
        | none => .error (.stackUnderflow s.address) { s with memory }
        | some (frame, rest) => .ok () { s with
            memory
            frames := rest.push { frame with
              locals := Array.replicate locals .null
              arguments := arguments.toArray } } := by
  unfold allocateSlots
  rw [evaluate_bind_eq]
  cases Eval.popMany params s.address s.memory with
  | error fault memory => rfl
  | ok arguments memory =>
    dsimp only
    rw [get_bind_eq]
    cases s.frames.pop? <;> rfl

theorem execute_initSlots {frame : Frame} {rest : List Frame} (h : operation i.opcode = .initSlots)
    (hframes : s.frames.toList = frame :: rest) :
    (∀ {fault memory},
      Eval.popMany (i.operand.getD 1 0).toNat s.address s.memory = .error fault memory →
      execute i s = .error fault { s with memory })
    ∧ (∀ {arguments memory},
      Eval.popMany (i.operand.getD 1 0).toNat s.address s.memory = .ok arguments memory →
      ∃ frames : Stack Frame, frames.toList = { frame with
          locals := Array.replicate (i.operand.headD 0).toNat .null
          arguments := arguments.toArray } :: rest
        ∧ execute i s = .ok .next { s with memory, frames }) := by
  obtain ⟨below, hpop, hbelow⟩ := Stack.pop?_of_toList hframes
  have hexecute : execute i s
      = (allocateSlots (i.operand.headD 0).toNat (i.operand.getD 1 0).toNat >>= fun _ => pure Flow.next) s := by
    unfold execute
    rw [h]
    rfl
  rw [bind_apply, allocateSlots_eq, hpop] at hexecute
  constructor
  · intro fault memory hfault
    rw [hexecute, hfault]
  · intro arguments memory harguments
    refine ⟨below.push { frame with
      locals := Array.replicate (i.operand.headD 0).toNat .null
      arguments := arguments.toArray }, ?_, ?_⟩
    · rw [Stack.toList_push, hbelow]
    · rw [hexecute, harguments]
      rfl

theorem execute_load {area : SlotArea} {index : UInt8} {slots : Array Item} {item : Item}
    (h : operation i.opcode = .slot) (haccess : i.access? = some ⟨area, true, index⟩)
    (hslots : s.slots area index = .ok slots) (hitem : slots[index.toNat]? = some item) : execute i s
      = .ok .next { s with memory := { s.memory with stack := s.memory.stack.push item } } := by
  unfold execute
  rw [h]
  show EStateM.bind (accessSlot i.toInstruction) (fun _ => pure Flow.next) s = _
  unfold accessSlot
  rw [haccess]
  show (loadSlot area index >>= fun _ => pure Flow.next) s = _
  unfold loadSlot
  rw [bind_apply, get_bind_eq, hslots, orFault_bind_eq, hitem]
  rfl

theorem execute_store {area : SlotArea} {index : UInt8} {slots : Array Item}
    (h : operation i.opcode = .slot) (haccess : i.access? = some ⟨area, false, index⟩)
    (hslots : s.slots area index = .ok slots) (hlt : index.toNat < slots.size) : execute i s
      = match Eval.pop s.address s.memory with
        | .ok item memory =>
          .ok .next ({ s with memory }.withSlots area (slots.setIfInBounds index.toNat item))
        | .error fault memory => .error fault { s with memory } := by
  unfold execute
  rw [h]
  show EStateM.bind (accessSlot i.toInstruction) (fun _ => pure Flow.next) s = _
  unfold accessSlot
  rw [haccess]
  show (storeSlot area index >>= fun _ => pure Flow.next) s = _
  unfold storeSlot
  rw [bind_apply, evaluate_bind_eq]
  cases Eval.pop s.address s.memory with
  | error fault memory => rfl
  | ok item memory =>
    have hthere : { s with memory := memory }.slots area index = .ok slots := by
      cases area <;> exact hslots
    dsimp only
    rw [get_bind_eq, hthere, orFault_bind_eq, if_pos hlt]
    rfl

/-! ## Services -/

theorem execute_service (h : operation i.opcode = .service) (s : State) : execute i s
    = match Service.ofId? (serviceIdOf i.toInstruction) with
      | none => .error (.unknownService (serviceIdOf i.toInstruction)) s
      | some .contractCall => .error (.unavailableService .contractCall) s
      | some .notify =>
        match popNotification s.address s.memory with
        | .ok notification memory =>
          .ok .next { s with memory, notifications := s.notifications.push notification }
        | .error fault memory => .error fault { s with memory }
      | some .log =>
        match Eval.popText s.address s.memory with
        | .ok text memory => .ok .next { s with memory, logs := s.logs.push text }
        | .error fault memory => .error fault { s with memory } := by
  unfold execute
  rw [h]
  show EStateM.bind (callService (serviceIdOf i.toInstruction)) (fun _ => pure Flow.next) s = _
  unfold callService
  cases Service.ofId? (serviceIdOf i.toInstruction) with
  | none => rfl
  | some service =>
    cases service with
    | contractCall => rfl
    | log =>
      show (log >>= fun _ => pure Flow.next) s = _
      unfold log
      rw [bind_apply, evaluate_bind_eq]
      cases Eval.popText s.address s.memory <;> rfl
    | notify =>
      show (notify >>= fun _ => pure Flow.next) s = _
      unfold notify
      rw [bind_apply, evaluate_bind_eq]
      cases popNotification s.address s.memory <;> rfl

/-! ## Runs -/

theorem loop_succ (fuel : Nat) (s : State) : loop (fuel + 1) s = match step s with
    | .ok true t => loop fuel t
    | .ok false t => .ok t.memory.stack.toList
        { t with memory := { t.memory with stack := .empty } }
    | .error fault t => .error fault t := by
  show (step >>= _) s = _
  rw [bind_apply]
  rcases step s with ⟨_ | _, t⟩ | ⟨fault, t⟩ <;> rfl

theorem run_eq (entry : Nat) (arguments : List Item) (s : State) : run entry arguments s
    = if s.script.size ≤ entry then .error (.invalidEntry entry) s
      else loop s.limits.execution (s.start entry arguments) := by
  unfold run
  by_cases h : s.script.size ≤ entry
  · rw [if_pos h]
    rw [get_bind_eq, if_pos h]
    rfl
  · rw [if_neg h]
    rw [get_bind_eq, if_neg h]
    rfl

theorem initializeStatics_done (hdone : s.isInitialized = true) :
    initializeStatics s = .ok () s := by
  unfold initializeStatics
  rw [get_bind_eq, if_pos hdone]
  rfl

theorem initializeStatics_none (hdone : s.isInitialized = false) (h : s.initializer = none) :
    initializeStatics s = .ok () { s with isInitialized := true } := by
  obtain ⟨script, initializer, limits, isInitialized, statics, memory, frames, address, notifications,
    logs⟩ := s
  dsimp only at hdone h
  subst hdone h
  rfl

theorem initializeStatics_some {entry : Nat} (hdone : s.isInitialized = false)
    (h : s.initializer = some entry) : initializeStatics s
      = match run entry [] s with
        | .ok _ t => .ok () { t with isInitialized := true }
        | .error fault t => .error fault t := by
  have hrun : initializeStatics s
      = (run entry [] >>= fun _ => modify fun t => { t with isInitialized := true }) s := by
    unfold initializeStatics
    rw [get_bind_eq, if_neg (Bool.eq_false_iff.mp hdone), h]
  rw [hrun, bind_apply]
  cases run entry [] s <;> rfl

theorem invoke_eq (entry : Nat) (arguments : List Item) (s : State) : invoke entry arguments s
    = match initializeStatics s with
      | .ok _ t => run entry arguments t
      | .error fault t => .error fault t := by
  show (initializeStatics >>= fun _ => run entry arguments) s = _
  rewrite [bind_apply]
  cases initializeStatics s <;> rfl

end StackContract.Machine
