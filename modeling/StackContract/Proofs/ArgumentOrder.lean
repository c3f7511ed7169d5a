import StackContract.Proofs.CoreRuns
import StackContract.Proofs.LinkedImage
import StackContract.Proofs.StraightCode
/-!
# The order of arguments

Whether a method is entered from outside, called by its name or through a pointer, its first slot holds
the argument that came first; and the first argument of an event is the first item of its notification
(`argumentsInOrder_of_build`).

The source pushes the first argument first, the machine takes it from the top. What is written for a call
turns the arguments around before the prologue of the method does so again.
-/

namespace StackContract.Contract

open Assembly Script Lowering Machine Number
open Compile (StaticLayout)
open Source (TypeDecl Module)

/-! ## Statement -/

/-- A method of the source and what it is compiled to. -/
structure Compiles (module : Module) (program : Program) (source : Source.Method)
    (callee : PlacedMethod) : Prop where
  source_mem : source ∈ (declaredBodies module).map Prod.snd
  callee_mem : callee ∈ program.methods
  name : callee.signature.name = source.name

/-- From one machine to another one, a method has taken over its arguments: its first slot holds the
first argument, and so on, and only the rest is on the stack still. -/
structure TakesOver (source : Source.Method) (callee : PlacedMethod) (arguments rest : List Item)
    (returnTo : Option Nat) (callers : List Frame) (s t : State) : Prop where
  keeps : s.Keeps t
  /-- The body of the method is next. -/
  address : t.address = callee.base
    + extent (slotPrologue (UInt8.ofNat source.locals.length) (UInt8.ofNat source.params.length))
  stack : t.memory.stack.toList = rest
  heap : t.memory.heap = s.memory.heap
  frames : t.frames.toList
    = ⟨returnTo, Array.replicate source.locals.length .null, arguments.toArray⟩ :: callers

/-- A running machine in front of the code of a source instruction, behind the code of others. -/
structure InFrontOf (program : Program) (method : PlacedMethod) (routine : Routine)
    (before : List Segment) (segment : Segment) (s : State) : Prop where
  script : s.script = program.script.toArray
  address : s.address = method.base + routine.addressOf before segment []
  running : s.frames.toList ≠ []

/-- The event that waits for its call behind an instruction. -/
def waitingBehind (events : Table String Source.Event) (waiting : Option Source.Event)
    (i : Source.Instruction) : Option Source.Event :=
  match i.op with
  | .loadStatic field => (events.find? field.key).or waiting
  | .call .event => none
  | _ => waiting

/-- How many items a reversal of `n` items puts on top of them. -/
def reversalRoom (n : Nat) : Nat :=
  if n ≤ 4 then 0 else 1

/-- A method that is entered from outside finds its arguments in order. -/
def EnteredInOrder (program : Program) (source : Source.Method) (callee : PlacedMethod) : Prop :=
  ∀ ⦃s t : State⦄ ⦃arguments rest : List Item⦄, s.script = program.script.toArray →
    initializeStatics s = .ok () t → arguments.length = source.params.length →
    rest.length ≤ s.limits.stack →
    ∃ n u, n ≤ 1 ∧ Advances n (t.start callee.base (arguments ++ rest)) u
      ∧ TakesOver source callee arguments rest none [] t u
      ∧ ∀ fuel, s.limits.execution = n + fuel →
        invoke callee.base (arguments ++ rest) s = loop fuel u

/-- What is written for a source instruction passes arguments on in order, whatever it calls. -/
structure PassesInOrder (module : Module) (program : Program) (method : PlacedMethod)
    (routine : Routine) (before : List Segment) (segment : Segment) : Prop where
  /-- A call of a method, whose arguments were pushed one after the other. -/
  call : ∀ ⦃source callee⦄, Compiles module program source callee →
    segment.source.op = .call (.method source.name) →
    ∀ ⦃s : State⦄ ⦃arguments rest : List Item⦄, InFrontOf program method routine before segment s →
    s.memory.stack.toList = arguments.reverse ++ rest → arguments.length = source.params.length →
    arguments.length + rest.length + reversalRoom arguments.length ≤ s.limits.stack →
    s.frames.size < s.limits.recursion →
    ∃ n t, n ≤ 4 ∧ Advances n s t ∧ TakesOver source callee arguments rest
      (some (method.base + routine.addressOf before segment segment.lowered.directives))
      s.frames.toList s t
  /-- A call of a function pointer, which was pushed before the arguments. -/
  delegate : ∀ ⦃source callee args⦄, Compiles module program source callee →
    segment.source.op = .call (.delegate args) → args.toNat = source.params.length →
    ∀ ⦃s : State⦄ ⦃arguments rest : List Item⦄, InFrontOf program method routine before segment s →
    s.memory.stack.toList = arguments.reverse ++ .pointer callee.base :: rest →
    arguments.length = args.toNat →
    arguments.length + 1 + rest.length + reversalRoom (arguments.length + 1) ≤ s.limits.stack →
    s.frames.size < s.limits.recursion →
    ∃ n t, n ≤ 4 ∧ Advances n s t ∧ TakesOver source callee arguments rest
      (some (method.base + routine.addressOf before segment segment.lowered.directives))
      s.frames.toList s t
  /-- A call of the event that was loaded last. The limit on the stack is a number of 32 bits. -/
  event : segment.source.op = .call .event → ∃ event,
    (before.map (·.source)).foldl (waitingBehind (declaredEvents module)) none = some event
    ∧ ∀ ⦃s : State⦄ ⦃arguments rest : List Item⦄, InFrontOf program method routine before segment s →
      s.memory.stack.toList = arguments.reverse ++ rest → arguments.length = event.params.length →
      max (arguments.length + 1) 2 + rest.length ≤ s.limits.stack → s.limits.stack < 2 ^ 32 →
      ∃ n, n ≤ 6 ∧ Advances n s { s with
        memory := ⟨.ofList rest, (s.memory.heap.newSequence arguments.toArray).2⟩
        address := method.base + routine.addressOf before segment segment.lowered.directives
        notifications := s.notifications.push ⟨event.displayName, arguments⟩ }

/-- Arguments come in one order, whatever they are for. -/
structure ArgumentsInOrder (limits : Compile.Limits) (module : Module) (program : Program) : Prop where
  /-- Every method with a body is in the image, and can be entered. -/
  entered : ∀ source ∈ (declaredBodies module).map Prod.snd, ∃ callee,
    Compiles module program source callee ∧ EnteredInOrder program source callee
  /-- Wherever code is written for an instruction of the source, it passes arguments on in order. -/
  passed : ∃ statics, (∃ events events', StaticLayout.ofModule module limits.staticFields events
      = .ok statics events')
    ∧ ∀ method ∈ program.methods, ∃ routine : Routine, routine.BelongsTo limits module statics
      ∧ Linked (baseOf? program.methods) method.base routine method
      ∧ ∀ before segment after, routine.segments = before ++ segment :: after →
        PassesInOrder module program method routine before segment

/-! ## Turning items around -/

theorem reverseTop_pushList (stack : Stack Item) (items : List Item) :
    reverseTop items.length (stack.pushList items) = some (stack.pushList items.reverse) := by
  unfold reverseTop
  rw [Stack.popList?_pushList]
  rfl

theorem size_pushList (stack : Stack Item) (items : List Item) :
    (stack.pushList items).size = items.length + stack.size :=
  rfl

theorem length_directiveReverse_le (n : Nat) : (Directive.reverse n).length ≤ 2 := by
  unfold Directive.reverse
  split <;> simp

/-- The reversal of items, whatever instruction there is for their number. -/
theorem carries_reverse {items : Nat} (stack : Stack Item) (heap : Heap) (arguments : List Item)
    (hcount : arguments.length < 2 ^ 64)
    (hitems : arguments.length + stack.size + reversalRoom arguments.length ≤ items) :
    Carries items (Directive.reverse arguments.length) ⟨stack.pushList arguments, heap⟩
      ⟨stack.pushList arguments.reverse, heap⟩ := by
  have hsize : (stack.pushList arguments.reverse).size ≤ items := by
    rw [size_pushList, List.length_reverse]
    omega
  have hrun : ∀ address, rearrange (reverseTop arguments.length) address
      ⟨stack.pushList arguments, heap⟩ = .ok () ⟨stack.pushList arguments.reverse, heap⟩ := by
    intro address
    rw [rearrange_eq, reverseTop_pushList]
  -- up to four items are reversed by an instruction of their own
  have hone : ∀ (op : Opcode) {shuffle : Shuffle}, operation op = .simple (.shuffle shuffle) →
      shuffle.run = rearrange (reverseTop arguments.length) →
      Directive.reverse arguments.length = [.op op] →
      Carries items (Directive.reverse arguments.length) ⟨stack.pushList arguments, heap⟩
        ⟨stack.pushList arguments.reverse, heap⟩ := by
    intro op shuffle hop hshuffle hreverse
    rw [hreverse]
    exact .simple _ hop (fun address => (congrArg (fun x : Eval Unit => x address _) hshuffle).trans
      (hrun address)) hsize
  rcases hlength : arguments.length with _ | _ | _ | _ | _ | n
  · rw [reverse_of_lt_two (by omega)]
    exact .nil
  · rw [reverse_of_lt_two (by omega)]
    exact .nil
  all_goals rw [← hlength]
  · exact hone .swap rfl (by rw [hlength]; rfl) (by rw [hlength]; rfl)
  · exact hone .reverse3 rfl (by rw [hlength]; rfl) (by rw [hlength]; rfl)
  · exact hone .reverse4 rfl (by rw [hlength]; rfl) (by rw [hlength]; rfl)
  · -- there is an instruction for any number, which takes it off the stack
    have hroom : reversalRoom arguments.length = 1 := if_neg (by omega)
    have hreverse : Directive.reverse arguments.length
        = [.pushNat arguments.length, .op .reverseN] := by
      rw [hlength]
      rfl
    obtain ⟨w, hw, hpush⟩ := Carries.pushNat hcount (stack.pushList arguments) heap
      (by rw [size_pushList]; omega : (stack.pushList arguments).size < items)
    rw [hreverse]
    refine hpush.cons (.simple (.shuffle .reverseCount) rfl (fun address => ?_) hsize)
    show (Eval.popCount >>= fun n => rearrange (reverseTop n)) address _ = _
    rw [Eval.bind_apply, popCount_push hw hcount]
    exact hrun address

/-- The reversal of items that came one after the other brings the first one to the top. -/
theorem carries_reverse_back {items : Nat} (stack : Stack Item) (heap : Heap) (arguments : List Item)
    (hcount : arguments.length < 2 ^ 64)
    (hitems : arguments.length + stack.size + reversalRoom arguments.length ≤ items) :
    Carries items (Directive.reverse arguments.length) ⟨stack.pushList arguments.reverse, heap⟩
      ⟨stack.pushList arguments, heap⟩ := by
  have hlength : arguments.reverse.length = arguments.length := List.length_reverse
  have hback := carries_reverse stack heap arguments.reverse (hlength ▸ hcount) (hlength ▸ hitems)
  rw [hlength, List.reverse_reverse] at hback
  exact hback

theorem carries_swap {items : Nat} (stack : Stack Item) (heap : Heap) (a b : Item)
    (hitems : stack.size + 2 ≤ items) :
    Carries items [.op .swap] ⟨(stack.push a).push b, heap⟩ ⟨(stack.push b).push a, heap⟩ := by
  have hpush : ∀ x y, (stack.push x).push y = stack.pushList [y, x] := fun _ _ => Stack.ext rfl
  have hroom : [b, a].length + stack.size + reversalRoom [b, a].length ≤ items := by
    show 2 + stack.size + 0 ≤ items
    omega
  rw [hpush, hpush]
  exact carries_reverse stack heap [b, a] (show 2 < 2 ^ 64 by decide) hroom

theorem length_packArguments_le (n : Nat) : (packArguments n).length ≤ 4 := by
  have := length_directiveReverse_le n
  unfold packArguments
  split
  · simp
  · rw [List.length_append]
    show (Directive.reverse n).length + 2 ≤ 4
    omega

/-- The packing of arguments into a new array. -/
theorem carries_packArguments {items : Nat} (stack : Stack Item) (heap : Heap)
    (arguments : List Item) (hcount : arguments.length < 2 ^ 64)
    (hitems : arguments.length + stack.size < items) :
    Carries items (packArguments arguments.length) ⟨stack.pushList arguments.reverse, heap⟩
      ⟨stack.push (.array heap.sequences.size), (heap.newSequence arguments.toArray).2⟩ := by
  unfold packArguments
  by_cases hnone : arguments.length = 0
  · rw [if_pos hnone]
    obtain rfl := List.length_eq_zero_iff.mp hnone
    have hempty : stack.pushList [].reverse = stack := Stack.ext rfl
    rw [hempty]
    refine .simple (.compound (.newEmpty false)) rfl (fun address => rfl) ?_
    show stack.size + 1 ≤ items
    omega
  · rw [if_neg hnone]
    have hroom : arguments.length + stack.size + reversalRoom arguments.length ≤ items := by
      unfold reversalRoom
      split <;> omega
    have hreverse := carries_reverse_back stack heap arguments hcount hroom
    exact hreverse.append (.pack arguments hcount stack heap hitems)

theorem ofUtf8?_utf8 (text : String) : Text.ofUtf8? (Text.utf8 text) = some text := by
  exact dif_pos text.isValidUTF8

theorem ofId?_notify :
    Service.ofId? (serviceIdOf ⟨.syscall, serviceIdBytes Service.notify.name⟩) = some .notify := by
  decide +kernel

theorem execute_notify {i : Located} {s : State} {notification : Notification} {memory : Memory}
    (h : operation i.opcode = .service)
    (hid : Service.ofId? (serviceIdOf i.toInstruction) = some .notify)
    (hpop : popNotification s.address s.memory = .ok notification memory) : execute i s
      = .ok .next { s with memory, notifications := s.notifications.push notification } := by
  rw [execute_service h, hid]
  dsimp only
  rw [hpop]

section

variable {here : Surroundings} {before rest : List Directive} {frame : Frame} {s : State}
  {stack : Stack Item} {heap : Heap}

/-- The notification service records the name on top with the items of the array below. -/
theorem Facing.notify {name : String} {r : Nat} {values : List Item}
    (h : Facing here before (.service Service.notify.name :: rest)
      ⟨(stack.push (.array r)).push (.byteString (Text.utf8 name)), heap⟩ frame s)
    (hvalues : (heap.sequence r).toList = values) (hitems : stack.size ≤ s.limits.stack) :
    step s = .ok true { s with
      memory := ⟨stack, heap⟩
      address := here.base + extent (before ++ [.service Service.notify.name])
      notifications := s.notifications.push ⟨name, values⟩ } := by
  have hpop : popNotification s.address
      ⟨(stack.push (.array r)).push (.byteString (Text.utf8 name)), heap⟩
      = .ok ⟨name, values⟩ ⟨stack, heap⟩ := by
    have htext : (Item.byteString (Text.utf8 name)).asText heap = .ok name := by
      simp only [Item.asText, Item.asBytes, bind, Except.bind, ofUtf8?_utf8]
      rfl
    show (Eval.orFault ((Item.byteString (Text.utf8 name)).asText heap) >>= fun text =>
      (pure ⟨text, (heap.sequence r).toList⟩ : Eval Notification)) s.address ⟨stack, heap⟩ = _
    rw [htext, hvalues]
    rfl
  rw [← h.memory] at hpop
  have hexecute := execute_notify (i := ⟨⟨.syscall, serviceIdBytes Service.notify.name⟩, s.address⟩)
    rfl ofId?_notify hpop
  rw [step_of_execute h.current hexecute rfl hitems, extent_append, ← Nat.add_assoc, ← h.address]
  rfl

/-- A call of a function pointer enters the method at its address. -/
theorem Facing.callPointer {c : Nat}
    (h : Facing here before (.op .callA :: rest) ⟨stack.push (.pointer c), heap⟩ frame s)
    (hinside : c < s.script.size) (hitems : stack.size ≤ s.limits.stack)
    (hframes : s.frames.size < s.limits.recursion) :
    ∃ t, step s = .ok true t ∧ s.Keeps t ∧ t.memory = ⟨stack, heap⟩ ∧ t.address = c
      ∧ t.frames.toList
        = { returnTo := some (here.base + extent (before ++ [.op .callA])) } :: frame :: here.below := by
  have hexecute := execute_callPointer (i := ⟨⟨.callA, []⟩, s.address⟩) rfl s
  rw [h.memory] at hexecute
  have hpop : popPointer s.address ⟨stack.push (.pointer c), heap⟩ = .ok c ⟨stack, heap⟩ := rfl
  rw [hpop] at hexecute
  have henter := enter_eq (i := ⟨⟨.callA, []⟩, s.address⟩) (s := { s with memory := ⟨stack, heap⟩ })
    hinside
  rw [if_neg (Nat.not_le_of_lt hframes)] at henter
  refine ⟨_, step_of_execute h.current (hexecute.trans henter) rfl hitems, rfl, rfl, rfl, ?_⟩
  rw [Stack.toList_push, h.frames, extent_append, ← Nat.add_assoc, ← h.address]
  rfl

/-- The prologue of a method takes its arguments off the stack, the first one from the top. -/
theorem Facing.prologue {locals params : UInt8} {body : List Directive} {returnTo : Option Nat}
    {arguments : List Item} (hparams : arguments.length = params.toNat)
    (h : Facing here [] (slotPrologue locals params ++ body) ⟨stack.pushList arguments, heap⟩
      { returnTo } s) (hitems : stack.size ≤ s.limits.stack) :
    ∃ n t, n ≤ 1 ∧ Advances n s t ∧ s.Keeps t ∧ t.memory = ⟨stack, heap⟩
      ∧ t.address = here.base + extent (slotPrologue locals params)
      ∧ t.frames.toList = ⟨returnTo, Array.replicate locals.toNat .null, arguments.toArray⟩
        :: here.below := by
  unfold slotPrologue at h ⊢
  by_cases hnone : locals = 0 ∧ params = 0
  · obtain ⟨rfl, rfl⟩ := hnone
    obtain rfl := List.length_eq_zero_iff.mp hparams
    rw [if_pos ⟨rfl, rfl⟩] at h ⊢
    have hstack : stack.pushList [] = stack := Stack.ext rfl
    rw [hstack] at h
    exact ⟨0, s, Nat.zero_le 1, .here, rfl, h.memory, h.address, h.frames⟩
  · rw [if_neg hnone] at h ⊢
    have hpop : Eval.popMany params.toNat s.address s.memory = .ok arguments ⟨stack, heap⟩ := by
      rw [h.memory, Eval.popMany_eq, ← hparams, Stack.popList?_pushList]
    obtain ⟨frames, hframes, hexecute⟩ :=
      (execute_initSlots (i := ⟨⟨.initSlot, [locals, params]⟩, s.address⟩) rfl h.frames).2 hpop
    have hstep := step_of_execute h.current hexecute rfl hitems
    refine ⟨1, _, Nat.le_refl 1, .single hstep, rfl, rfl, ?_, hframes⟩
    show s.address + _ = _
    rw [h.address]
    rfl

end

/-! ## What is written for calls -/

section

variable {scope : Scope} {position : Nat} {i : Source.Instruction} {carry carry' : Carry}
  {lowered : Lowered}

theorem directives_of_call {module : Module} {statics : StaticLayout} {source : Source.Method}
    (hcatalogue : scope.catalogue = catalogueOf module statics)
    (hnodup : ((declaredMethods module).map (·.name)).Nodup)
    (hsource : source ∈ (declaredBodies module).map Prod.snd)
    (hop : i.op = .call (.method source.name))
    (h : (lower scope position i).run carry = .ok (lowered, carry')) :
    lowered.directives = Directive.reverse source.params.length ++ [.call source.name] := by
  obtain ⟨offset, op⟩ := i
  cases hop
  obtain ⟨directives, next, hcall, hrest⟩ := run_bind_eq_ok h
  obtain ⟨hresult, rfl⟩ := run_liftM_eq_ok hcall
  cases hrest
  obtain ⟨entry, hentry, rfl⟩ := List.mem_map.mp hsource
  have hcompiled : entry.2.name ∈ scope.catalogue.compiled := by
    rw [hcatalogue]
    exact List.mem_map.mpr ⟨entry, hentry, rfl⟩
  have hfind : scope.catalogue.methods.find? entry.2.name = some entry.2 := by
    rw [hcatalogue, find?_catalogueOf]
    exact find?_of_mem_declaredBodies hnodup hentry
  unfold callMethod at hresult
  simp only [hfind, binding_of_mem_declaredBodies hentry, List.contains_iff_mem.mpr hcompiled,
    if_pos] at hresult
  cases hresult
  rfl

theorem directives_of_delegate {args : UInt16} (hop : i.op = .call (.delegate args))
    (h : (lower scope position i).run carry = .ok (lowered, carry')) :
    lowered.directives = Directive.reverse (args.toNat + 1) ++ [.op .callA] := by
  obtain ⟨offset, op⟩ := i
  cases hop
  cases h
  rfl

theorem directives_of_event (hop : i.op = .call .event)
    (h : (lower scope position i).run carry = .ok (lowered, carry')) :
    ∃ event, carry.pendingEvent = some event ∧ lowered.directives
      = packArguments event.params.length
        ++ [.pushData (Text.utf8 event.displayName), .service Service.notify.name] := by
  obtain ⟨offset, op⟩ := i
  cases hop
  obtain ⟨addressOf, waiting⟩ := carry
  cases waiting with
  | none => cases h
  | some event =>
    cases h
    exact ⟨event, rfl, rfl⟩

/-- An operation behind which another address was taken last, or another event waits for its call. -/
def changesCarry : Source.Op → Bool
  | .address _ _ | .initObject _ | .loadStatic _ | .call .event => true
  | _ => false

theorem carry_eq_of_lower (h : (lower scope position i).run carry = .ok (lowered, carry'))
    (hkeeps : changesCarry i.op = false) : carry' = carry := by
  obtain ⟨offset, op⟩ := i
  cases op
  case nop | convert | isInstance | castClass | pop | dup | ret | throw | loadNull | literal32
    | literal64 | loadString | loadField | storeField | length | loadElement | storeElement | branch
    | switch | arithmetic | compare =>
    cases h
    rfl
  case load | store =>
    obtain ⟨_, _, hslot, hrest⟩ := run_bind_eq_ok h
    obtain ⟨-, rfl⟩ := run_liftM_eq_ok hslot
    cases hrest
    rfl
  case storeStatic | newArray | newObject | loadFunction =>
    obtain ⟨-, rfl⟩ := run_liftM_eq_ok h
    rfl
  case call callee =>
    cases callee with
    | method name =>
      obtain ⟨_, _, hcall, hrest⟩ := run_bind_eq_ok h
      obtain ⟨-, rfl⟩ := run_liftM_eq_ok hcall
      cases hrest
      rfl
    | intrinsic intrinsic =>
      cases intrinsic
      case stringHash =>
        obtain ⟨-, rfl⟩ := run_liftM_eq_ok h
        rfl
      all_goals
        cases h
        rfl
    | event => cases hkeeps
    | delegate args =>
      cases h
      rfl
  case box | unbox | unboxAny =>
    unfold lower at h
    dsimp only at h
    split at h <;> cases h
    rfl
  case address | initObject | loadStatic => cases hkeeps
  case initArray | newDelegate | pointerOp => cases h

theorem waitingBehind_of_keeps (events : Table String Source.Event) (waiting : Option Source.Event)
    (hkeeps : changesCarry i.op = false) : waitingBehind events waiting i = waiting := by
  obtain ⟨offset, op⟩ := i
  cases op
  case call callee => cases callee <;> first | rfl | cases hkeeps
  all_goals first | rfl | cases hkeeps

/-- Only loads and calls of events change which event waits. -/
theorem pendingEvent_of_lower (h : (lower scope position i).run carry = .ok (lowered, carry')) :
    carry'.pendingEvent = waitingBehind scope.catalogue.events carry.pendingEvent i := by
  cases hchanges : changesCarry i.op with
  | false => rw [carry_eq_of_lower h hchanges, waitingBehind_of_keeps _ _ hchanges]
  | true =>
    obtain ⟨offset, op⟩ := i
    cases op
    case address =>
      obtain ⟨_, _, hslot, hrest⟩ := run_bind_eq_ok h
      obtain ⟨-, rfl⟩ := run_liftM_eq_ok hslot
      cases hrest
      rfl
    case initObject fields =>
      obtain ⟨addressOf, waiting⟩ := carry
      cases addressOf <;> cases h
      rfl
    case loadStatic field =>
      have hload : (lowerLoadStatic scope field).run carry = .ok (lowered, carry') := h
      unfold lowerLoadStatic at hload
      unfold waitingBehind
      dsimp only
      cases hevent : scope.catalogue.events.find? field.key with
      | some event =>
        simp only [hevent] at hload
        cases hload
        rfl
      | none =>
        simp only [hevent] at hload
        split at hload
        · cases hload
          rfl
        · split at hload <;> cases hload
          rfl
    case call callee =>
      cases callee with
      | event =>
        obtain ⟨addressOf, waiting⟩ := carry
        cases waiting <;> cases h
        rfl
      | method | intrinsic | delegate => cases hchanges
    all_goals cases hchanges

/-- The lowering of an instruction behind others, with the event that waits for its call. -/
theorem exists_lower_of_lowers {before after : List Segment} {segment : Segment}
    (h : Lowers scope position carry (before ++ segment :: after)) :
    ∃ next carry', (lower scope segment.position segment.source).run next = .ok (segment.lowered, carry')
      ∧ next.pendingEvent = (before.map (·.source)).foldl (waitingBehind scope.catalogue.events)
        carry.pendingEvent := by
  induction before generalizing position carry with
  | nil =>
    cases h with
    | next hposition hlower _ => exact ⟨carry, _, hlower, rfl⟩
  | cons first before ih =>
    cases h with
    | next hposition hlower hrest =>
      obtain ⟨next, carry', hthere, hwaiting⟩ := ih hrest
      refine ⟨next, carry', hthere, hwaiting.trans ?_⟩
      rw [pendingEvent_of_lower hlower]
      rfl

end

/-! ## Machines in an image -/

section

variable {limits : Compile.Limits} {module : Module} {program : Program}
  {image : Image limits module program} {routine : Routine} {method callee : PlacedMethod}
  {source : Source.Method} {before after : List Segment} {segment : Segment} {s : State}

/-- A machine in front of the code of an instruction of an image. -/
theorem InFrontOf.facing (h : InFrontOf program method routine before segment s)
    (hat : image.At routine method) (hsegments : routine.segments = before ++ segment :: after) :
    ∃ (frame : Frame) (below : List Frame) (front : List Directive), frame :: below = s.frames.toList
      ∧ Facing ⟨program.script.toArray, baseOf? program.methods, method.base, routine.code, below⟩ front
        (segment.lowered.directives ++ (after.flatMap Segment.code ++ routine.close)) s.memory frame s
      ∧ ∀ written, extent (front ++ written) = routine.addressOf before segment written := by
  obtain ⟨frame, below, hframes⟩ := List.exists_cons_of_ne_nil h.running
  refine ⟨frame, below, routine.prologue ++ before.flatMap Segment.code ++ [.mark segment.source.offset],
    hframes.symm, ⟨h.script, hat.resident.loaded, ?_, ?_, rfl, hframes⟩, fun written => ?_⟩
  · rw [Routine.code_eq, hsegments, List.flatMap_append, List.flatMap_cons]
    unfold Segment.code
    simp only [List.append_assoc, List.cons_append, List.nil_append]
  · exact h.address
  · unfold Routine.addressOf
    simp only [List.append_assoc, List.cons_append, List.nil_append]

/-- A method of an image, with the code that it is compiled to. -/
theorem Compiles.exists_methodAt (image : Image limits module program)
    (h : Compiles module program source callee) :
    ∃ method : MethodAt image, method.entry.2 = source ∧ method.placed = callee := by
  obtain ⟨entry, hentry, rfl⟩ := List.mem_map.mp h.source_mem
  obtain ⟨method, rfl⟩ := image.exists_methodAt hentry
  refine ⟨method, rfl, ?_⟩
  have hname : method.placed.signature.name = callee.signature.name := by
    rw [h.name, method.isAt.resident.linked.signature, method.isMethod.signature]
    rfl
  exact List.inj_on_of_nodup_map image.nodup_methods method.isAt.method_mem h.callee_mem hname

/-- Behind its call, a method takes over the arguments that are on the stack, the first one on top. -/
theorem MethodAt.takesOver (method : MethodAt image) {s t : State} {arguments : List Item}
    {stack : Stack Item} {returnTo : Option Nat} {callers : List Frame}
    (hkeeps : s.Keeps t) (hscript : t.script = program.script.toArray)
    (haddress : t.address = method.placed.base)
    (hmemory : t.memory = ⟨stack.pushList arguments, s.memory.heap⟩)
    (hframes : t.frames.toList = { returnTo } :: callers)
    (hlength : arguments.length = method.entry.2.params.length)
    (hstack : stack.size ≤ s.limits.stack) :
    ∃ n u, n ≤ 1 ∧ Advances n t u
      ∧ TakesOver method.entry.2 method.placed arguments stack.toList returnTo callers s u := by
  have hfacing : Facing (method.surroundings callers) [] (slotPrologue method.routine.scope.locals
      method.routine.scope.params ++ method.ahead method.routine.segments)
      ⟨stack.pushList arguments, s.memory.heap⟩ { returnTo } t :=
    ⟨hscript, method.isAt.resident.loaded, method.code_eq, haddress, hmemory, hframes⟩
  obtain ⟨n, u, hn, hadvances, hkeeps', hmemory', haddress', hframes'⟩ :=
    hfacing.prologue (hlength.trans method.toNat_params.symm) (hkeeps.limits_eq ▸ hstack)
  rw [method.toNat_locals] at hframes'
  refine ⟨n, u, hn, hadvances, hkeeps.trans hkeeps', ?_, ?_, ?_, hframes'⟩
  · rw [haddress', method.isMethod.scope]
    rfl
  · rw [hmemory']
  · rw [hmemory']

/-- A method that is entered finds its arguments in order. -/
theorem Compiles.entered (image : Image limits module program)
    (h : Compiles module program source callee) : EnteredInOrder program source callee := by
  obtain ⟨method, rfl, rfl⟩ := h.exists_methodAt image
  intro s t arguments rest hscript hready hlength hrest
  have hsettings := settings_of_initializeStatics hready
  have hscript' : t.script = program.script.toArray :=
    (congrArg Settings.script hsettings).trans hscript
  have hlimits : t.limits = s.limits := congrArg Settings.limits hsettings
  have hmemory : (t.start method.placed.base (arguments ++ rest)).memory
      = ⟨(Stack.ofList rest).pushList arguments, t.memory.heap⟩ :=
    memory_eq rfl
  have hkeeps : t.Keeps (t.start method.placed.base (arguments ++ rest)) := rfl
  obtain ⟨n, u, hn, hadvances, htakes⟩ :=
    method.takesOver hkeeps hscript' rfl hmemory rfl hlength (hlimits ▸ hrest)
  refine ⟨n, u, hn, hadvances, htakes, fun fuel hfuel => ?_⟩
  rw [invoke_eq, hready]
  dsimp only
  rw [method.run_eq hscript', hlimits, hfuel, hadvances.loop]

/-- The code of a method that is compiled lies in the script. -/
theorem MethodAt.base_lt (method : MethodAt image) :
    method.placed.base < program.script.toArray.size := by
  have hinside := method.isAt.resident.loaded.inside
  have hpos : 0 < extent method.routine.code := extent_closing_pos _
  omega

theorem MethodAt.baseOf?_eq (method : MethodAt image) :
    baseOf? program.methods method.entry.2.name = some method.placed.base := by
  have hbase := method.isAt.base
  rw [method.isMethod.signature] at hbase
  exact hbase

/-- A method takes over its arguments behind a call in front of which items are turned around. -/
theorem MethodAt.takesOver_turned (method : MethodAt image) {here : Surroundings}
    {front last : List Directive} {d : Directive} {frame : Frame} {items arguments rest : List Item}
    (hscript : here.script = program.script.toArray) (hframes : frame :: here.below = s.frames.toList)
    (hfacing : Facing here front ((Directive.reverse items.length ++ [d]) ++ last) s.memory frame s)
    (hstack : s.memory.stack.toList = items.reverse ++ rest)
    (hlength : arguments.length = method.entry.2.params.length) (hsmall : items.length < 2 ^ 64)
    (hitems : items.length + rest.length + reversalRoom items.length ≤ s.limits.stack)
    (hcall : ∀ ⦃t : State⦄, Facing here (front ++ Directive.reverse items.length) (d :: last)
        ⟨(Stack.ofList rest).pushList items, s.memory.heap⟩ frame t →
      t.limits = s.limits → t.frames = s.frames →
      ∃ u, step t = .ok true u ∧ t.Keeps u
        ∧ u.memory = ⟨(Stack.ofList rest).pushList arguments, s.memory.heap⟩
        ∧ u.address = method.placed.base ∧ u.frames.toList
          = { returnTo := some (here.base + extent ((front ++ Directive.reverse items.length) ++ [d])) }
            :: frame :: here.below) :
    ∃ n t, n ≤ 4 ∧ Advances n s t ∧ TakesOver method.entry.2 method.placed arguments rest
      (some (here.base + extent (front ++ (Directive.reverse items.length ++ [d])))) s.frames.toList
      s t := by
  have hmemory : s.memory = ⟨(Stack.ofList rest).pushList items.reverse, s.memory.heap⟩ :=
    memory_eq hstack
  rw [List.append_assoc, hmemory] at hfacing
  obtain ⟨n, t, hn, hadvances, rfl⟩ :=
    carries_reverse_back (Stack.ofList rest) s.memory.heap items hsmall hitems hfacing (Nat.le_refl _)
  obtain ⟨u, hstep, hkeeps, hmemory', haddress, hframes'⟩ := hcall (hfacing.behind _) rfl rfl
  rw [hframes, List.append_assoc] at hframes'
  have hthere : s.Keeps u := hkeeps
  have hroom : rest.length ≤ s.limits.stack := by omega
  obtain ⟨k, v, hk, hadvances', htakes⟩ := method.takesOver hthere
    (hthere.script_eq.trans (hfacing.script.trans hscript)) haddress hmemory' hframes' hlength hroom
  refine ⟨n + (k + 1), v, ?_, hadvances.append (.next hstep hadvances'), htakes⟩
  have hcount := Nat.le_trans hn (instructionCount_le_length _)
  have := length_directiveReverse_le items.length
  omega

/-- A method that is called by its name takes over its arguments. -/
theorem Compiles.called (image : Image limits module program)
    (h : Compiles module program source callee) {here : Surroundings} {front last : List Directive}
    {frame : Frame} {arguments rest : List Item} (hscript : here.script = program.script.toArray)
    (hbases : here.bases = baseOf? program.methods) (hframes : frame :: here.below = s.frames.toList)
    (hfacing : Facing here front ((Directive.reverse source.params.length ++ [.call source.name])
      ++ last) s.memory frame s)
    (hstack : s.memory.stack.toList = arguments.reverse ++ rest)
    (hlength : arguments.length = source.params.length)
    (hitems : arguments.length + rest.length + reversalRoom arguments.length ≤ s.limits.stack)
    (hrecursion : s.frames.size < s.limits.recursion) :
    ∃ n t, n ≤ 4 ∧ Advances n s t ∧ TakesOver source callee arguments rest
      (some (here.base + extent (front
        ++ (Directive.reverse source.params.length ++ [.call source.name])))) s.frames.toList s t := by
  obtain ⟨method, rfl, rfl⟩ := h.exists_methodAt image
  have hsmall : arguments.length < 256 :=
    hlength ▸ method.toNat_params ▸ method.routine.scope.params.toNat_lt
  rw [← hlength] at hfacing ⊢
  refine method.takesOver_turned hscript hframes hfacing hstack hlength (by omega) hitems
    fun t hthere hlimits hsame => ?_
  have hinside : method.placed.base < t.script.size := by
    rw [hthere.script, hscript]
    exact method.base_lt
  obtain ⟨u, hmoves, hmemory, haddress, hframes'⟩ :=
    hthere.call (hbases ▸ method.baseOf?_eq) hinside
  have hroom : u.memory.stack.size ≤ t.limits.stack := by
    rw [hmemory, hlimits]
    show arguments.length + rest.length ≤ s.limits.stack
    omega
  have hdepth : u.frames.size ≤ t.limits.recursion := by
    rw [Stack.size_eq, hframes', hframes, List.length_cons, ← Stack.size_eq, hlimits]
    exact hrecursion
  exact ⟨u, step_of_moves hmoves hroom hdepth, hmoves.keeps, hmemory, haddress, hframes'⟩

/-- A method that is called through a pointer takes over its arguments. -/
theorem Compiles.delegated (image : Image limits module program)
    (h : Compiles module program source callee) {here : Surroundings} {front last : List Directive}
    {frame : Frame} {arguments rest : List Item} (hscript : here.script = program.script.toArray)
    (hframes : frame :: here.below = s.frames.toList)
    (hfacing : Facing here front ((Directive.reverse (arguments.length + 1) ++ [.op .callA]) ++ last)
      s.memory frame s)
    (hstack : s.memory.stack.toList = arguments.reverse ++ .pointer callee.base :: rest)
    (hlength : arguments.length = source.params.length)
    (hitems : arguments.length + 1 + rest.length + reversalRoom (arguments.length + 1)
      ≤ s.limits.stack) (hrecursion : s.frames.size < s.limits.recursion) :
    ∃ n t, n ≤ 4 ∧ Advances n s t ∧ TakesOver source callee arguments rest
      (some (here.base + extent (front ++ (Directive.reverse (arguments.length + 1) ++ [.op .callA]))))
      s.frames.toList s t := by
  obtain ⟨method, rfl, rfl⟩ := h.exists_methodAt image
  -- the pointer counts as the argument in front of the others
  have hitself : s.memory.stack.toList
      = (.pointer method.placed.base :: arguments : List Item).reverse ++ rest := by
    rw [hstack, List.reverse_cons, List.append_assoc]
    rfl
  have hsmall : arguments.length < 256 :=
    hlength ▸ method.toNat_params ▸ method.routine.scope.params.toNat_lt
  have hcount : (.pointer method.placed.base :: arguments : List Item).length < 2 ^ 64 := by
    rw [List.length_cons]
    omega
  refine method.takesOver_turned hscript hframes hfacing hitself hlength hcount hitems
    fun t hthere hlimits hsame => ?_
  have hinside : method.placed.base < t.script.size := by
    rw [hthere.script, hscript]
    exact method.base_lt
  have htop : (Stack.ofList rest).pushList (.pointer method.placed.base :: arguments)
      = ((Stack.ofList rest).pushList arguments).push (.pointer method.placed.base) :=
    Stack.ext rfl
  rw [htop] at hthere
  have hroom : ((Stack.ofList rest).pushList arguments).size ≤ t.limits.stack := by
    rw [hlimits]
    show arguments.length + rest.length ≤ s.limits.stack
    omega
  exact hthere.callPointer hinside hroom (by rw [hsame, hlimits]; exact hrecursion)

/-- The call of an event records its arguments, and leaves the rest of the machine as it is. -/
theorem notifies {here : Surroundings} {front last : List Directive} {frame : Frame}
    {arguments rest : List Item} {name : String} (hname : (Text.utf8 name).length < 256 ^ 4)
    (hfacing : Facing here front ((packArguments arguments.length
      ++ [.pushData (Text.utf8 name), .service Service.notify.name]) ++ last) s.memory frame s)
    (hstack : s.memory.stack.toList = arguments.reverse ++ rest)
    (hitems : max (arguments.length + 1) 2 + rest.length ≤ s.limits.stack)
    (hlimit : s.limits.stack < 2 ^ 32) :
    ∃ n, n ≤ 6 ∧ Advances n s { s with
      memory := ⟨.ofList rest, (s.memory.heap.newSequence arguments.toArray).2⟩
      address := here.base + extent (front ++ (packArguments arguments.length
        ++ [.pushData (Text.utf8 name), .service Service.notify.name]))
      notifications := s.notifications.push ⟨name, arguments⟩ } := by
  have hmemory : s.memory = ⟨(Stack.ofList rest).pushList arguments.reverse, s.memory.heap⟩ :=
    memory_eq hstack
  have hpack := carries_packArguments (Stack.ofList rest) s.memory.heap
    arguments (by omega) (by
      show arguments.length + rest.length < s.limits.stack
      omega)
  have hpush := Carries.pushes (.byteString hname)
    ((Stack.ofList rest).push (.array s.memory.heap.sequences.size))
    (s.memory.heap.newSequence arguments.toArray).2 (by
      show rest.length + 1 < s.limits.stack
      omega)
  have hsplit : (packArguments arguments.length
      ++ [.pushData (Text.utf8 name), .service Service.notify.name]) ++ last
      = (packArguments arguments.length ++ [.pushData (Text.utf8 name)])
        ++ .service Service.notify.name :: last := by
    simp only [List.append_assoc, List.cons_append, List.nil_append]
  rw [hsplit, hmemory] at hfacing
  obtain ⟨n, t, hn, hadvances, rfl⟩ := hpack.append hpush hfacing (Nat.le_refl _)
  have hvalues : ((s.memory.heap.newSequence arguments.toArray).2.sequence
      s.memory.heap.sequences.size).toList = arguments :=
    congrArg Array.toList ((Heap.sequence_newSequence ..).trans (if_pos rfl))
  have hstep := (hfacing.behind ⟨((Stack.ofList rest).push (.array s.memory.heap.sequences.size)).push
    (.byteString (Text.utf8 name)), (s.memory.heap.newSequence arguments.toArray).2⟩).notify hvalues (by
      show rest.length ≤ s.limits.stack
      omega)
  have hwhole : (front ++ (packArguments arguments.length ++ [.pushData (Text.utf8 name)]))
      ++ [.service Service.notify.name] = front ++ (packArguments arguments.length
        ++ [.pushData (Text.utf8 name), .service Service.notify.name]) := by
    simp only [List.append_assoc, List.cons_append, List.nil_append]
  rw [hwhole] at hstep
  refine ⟨n + 1, ?_, hadvances.append (.single hstep)⟩
  have hcount := Nat.le_trans hn (instructionCount_le_length _)
  rw [List.length_append, List.length_singleton] at hcount
  have := length_packArguments_le arguments.length
  omega

/-! ## Accepted modules -/

/-- The code of an instruction is not longer than a script. -/
theorem Image.At.extent_lowered_le {routine : Routine} (hat : image.At routine method)
    (hsegments : routine.segments = before ++ segment :: after) :
    extent segment.lowered.directives ≤ maxScriptSize := by
  have hextent := image.extent_le hat.routine_mem
  rw [Routine.code_eq, hsegments, List.flatMap_append, List.flatMap_cons] at hextent
  unfold Segment.code at hextent
  simp only [extent_append, List.cons_append, extent_mark] at hextent
  omega

/-- What is written for an instruction in an image passes arguments on in order. -/
theorem Image.At.passes {routine : Routine} (hat : image.At routine method)
    (hsegments : routine.segments = before ++ segment :: after) :
    PassesInOrder module program method routine before segment := by
  have hcatalogue := image.catalogue_eq hat.routine_mem
  have hlowers := image.lowers hat.routine_mem
  rw [hsegments] at hlowers
  obtain ⟨carry, carry', hlower, hwaiting⟩ := exists_lower_of_lowers hlowers
  constructor
  · intro source callee hcallee hop s arguments rest hfront hstack hlength hitems hrecursion
    obtain ⟨frame, below, front, hframes, hfacing, hreturn⟩ := hfront.facing hat hsegments
    rw [directives_of_call hcatalogue image.names_nodup hcallee.source_mem hop hlower] at hfacing ⊢
    rw [← hreturn]
    exact hcallee.called image rfl rfl hframes hfacing hstack hlength hitems hrecursion
  · intro source callee args hcallee hop hargs s arguments rest hfront hstack hlength hitems hrecursion
    obtain ⟨frame, below, front, hframes, hfacing, hreturn⟩ := hfront.facing hat hsegments
    rw [directives_of_delegate hop hlower, ← hlength] at hfacing ⊢
    rw [← hreturn]
    exact hcallee.delegated image rfl hframes hfacing hstack (hlength.trans hargs) hitems hrecursion
  · intro hop
    obtain ⟨event, hpending, hdirectives⟩ := directives_of_event hop hlower
    have hevents : routine.scope.catalogue.events = declaredEvents module := by
      rw [hcatalogue]
      rfl
    rw [hpending, hevents] at hwaiting
    refine ⟨event, hwaiting.symm, ?_⟩
    -- the name of an event is in the script
    have hname : (Text.utf8 event.displayName).length < 256 ^ 4 := by
      have hmem : .pushData (Text.utf8 event.displayName) ∈ segment.lowered.directives := by
        rw [hdirectives]
        simp
      have hsmall := Nat.le_trans (size_le_extent hmem) (hat.extent_lowered_le hsegments)
      exact Nat.lt_of_lt_of_le (Instruction.size_pushData _) (Nat.le_trans hsmall (by decide))
    intro s arguments rest hfront hstack hlength hitems hlimit
    obtain ⟨frame, below, front, -, hfacing, hreturn⟩ := hfront.facing hat hsegments
    rw [hdirectives, ← hlength] at hfacing ⊢
    rw [← hreturn]
    exact notifies hname hfacing hstack hitems hlimit

end

/-- In every accepted module arguments come in one order, whatever they are for. -/
theorem argumentsInOrder_of_build {limits : Compile.Limits} {module : Module} {contract : Contract}
    (h : build limits module = .ok contract) : ArgumentsInOrder limits module contract.program := by
  obtain ⟨⟨image⟩, -⟩ := image_of_build h
  constructor
  · intro source hsource
    obtain ⟨entry, hentry, rfl⟩ := List.mem_map.mp hsource
    obtain ⟨method, rfl⟩ := image.exists_methodAt hentry
    have hcompiles : Compiles module contract.program method.entry.2 method.placed := by
      refine ⟨hsource, method.isAt.method_mem, ?_⟩
      rw [method.isAt.resident.linked.signature, method.isMethod.signature]
      rfl
    exact ⟨method.placed, hcompiles, hcompiles.entered image⟩
  · refine ⟨image.statics, image.statics_eq, fun method hmethod => ?_⟩
    obtain ⟨routine, hat⟩ := image.exists_at_of_mem hmethod
    have hlinked := hat.resident.linked
    rw [← hlinked.base_eq] at hlinked
    exact ⟨routine, image.mem_all hat.routine_mem, hlinked,
      fun before segment after hsegments => hat.passes hsegments⟩

/-- Subtracts its second argument from the first one. -/
def sampleMinus : Source.Method where
  name := "T::minus"
  displayName := "minus"
  params := [⟨"x", .int32⟩, ⟨"y", .int32⟩]
  returnType := .int32
  body := [⟨0, .load .arguments 0⟩, ⟨1, .load .arguments 1⟩, ⟨2, .arithmetic .sub⟩, ⟨3, .ret⟩]

/-- Raises an event with two arguments, and calls a method with two through a pointer and by name. -/
def sampleCalls : Module where
  types := [{
    name := "T"
    events := [⟨"Sent", "sent", [⟨"from", .int32⟩, ⟨"to", .int32⟩]⟩]
    methods := [sampleMinus, {
      name := "T::main"
      displayName := "main"
      isPublic := true
      returnType := .int32
      body := [⟨0, .loadStatic ⟨"T", "Sent"⟩⟩, ⟨1, .literal32 1⟩, ⟨2, .literal32 2⟩, ⟨3, .call .event⟩,
        ⟨4, .loadNull⟩, ⟨5, .loadFunction "T::minus"⟩, ⟨6, .newDelegate⟩, ⟨7, .literal32 9⟩,
        ⟨8, .literal32 4⟩, ⟨9, .call (.delegate 2)⟩, ⟨10, .literal32 3⟩,
        ⟨11, .call (.method "T::minus")⟩, ⟨12, .ret⟩] }] }]

theorem argumentsInOrder_sampleCalls : ∃ contract, build {} sampleCalls = .ok contract
    ∧ ArgumentsInOrder {} sampleCalls contract.program := by
  have hbuilds : (build {} sampleCalls).toOption.isSome = true := by decide +kernel
  obtain ⟨contract, h⟩ := exists_contract hbuilds
  exact ⟨contract, h, argumentsInOrder_of_build h⟩

end StackContract.Contract
