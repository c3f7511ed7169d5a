import StackContract.Proofs.BranchTargets
import StackContract.Proofs.Negations
/-!
# What comes last in the listing

Two instructions work on what another one left for them: the initialization of an object on the slot
whose address was taken last, the call of an event on the event that was loaded last. Last is last in
the listing of the body, whichever way control comes (`listingOrder_of_build`). The items on the stack
that stand for the address and the event in the source play no part: an address counts as any item, and
an event is not there at all.
-/

namespace StackContract.Contract

open Assembly Script Lowering Machine Number
open Source (Place ValueType Module)

/-! ## Statement -/

/-- The slot whose address was taken last, behind an instruction. An object that is put there takes it
out. -/
def takenBehind (taken : Option (Place × Nat)) (i : Source.Instruction) : Option (Place × Nat) :=
  match i.op with
  | .address place index => some (place, index.toNat)
  | .initObject _ => none
  | _ => taken

/-- The slot whose address was taken last in front of a position of a body. -/
def lastTaken (body : Array Source.Instruction) (position : Nat) : Option (Place × Nat) :=
  (body.toList.take position).foldl takenBehind none

/-- The event that waits for its call at a position of a body. -/
def lastLoaded (events : Table String Source.Event) (body : Array Source.Instruction)
    (position : Nat) : Option Source.Event :=
  (body.toList.take position).foldl (waitingBehind events) none

/-- The default of a type. -/
def defaultItem (type : ValueType) : Item :=
  if type.isBoolean then .boolean false
  else if type.isInteger then .ofNat 0
  else .null

/-- A machine in which an object of defaults is in a slot of the top frame, where the item on top of the
stack is gone. -/
structure Initialized (fields : List ValueType) (place : Place) (index : Nat) (below : List Item)
    (address : Nat) (s t : State) : Prop where
  stays : t = { s with memory := t.memory, frames := t.frames, address }
  stack : t.memory.stack = .ofList below
  heap : t.memory.heap = (s.memory.heap.newSequence (fields.map defaultItem).toArray).2
  slot : ∃ frame callers, s.frames.toList = frame :: callers
    ∧ t.frames.toList = withItems frame place ((itemsOf frame place).setIfInBounds index
      (.struct s.memory.heap.sequences.size)) :: callers

/-- What an instruction works on is what comes last in the listing. -/
structure ListingOrder (module : Module) (program : Program) (method : PlacedMethod)
    (routine : Routine) : Prop where
  /-- The initialization of an object takes the item on top of the stack, whatever it is, and puts the
  object into the slot whose address was taken last. -/
  initObject : ∀ ⦃position i fields⦄, routine.scope.body[position]? = some i → i.op = .initObject fields →
    ∃ before segment after place index, routine.segments = before ++ segment :: after
      ∧ segment.position = position ∧ segment.source = i
      ∧ lastTaken routine.scope.body position = some (place, index)
      ∧ ∀ ⦃s : State⦄ ⦃frame : Frame⦄ ⦃callers : List Frame⦄ ⦃item : Item⦄ ⦃below : List Item⦄,
        InFrontOf program method routine before segment s → s.frames.toList = frame :: callers →
        index < (itemsOf frame place).size → s.memory.stack.toList = item :: below →
        below.length + fields.length < s.limits.stack →
        ∃ n t, n ≤ instructionCount segment.lowered.directives ∧ Advances n s t
          ∧ Initialized fields place index below
            (method.base + routine.addressOf before segment segment.lowered.directives) s t
  /-- The load of an event leaves a machine as it is. -/
  loadEvent : ∀ ⦃position i field event⦄, routine.scope.body[position]? = some i →
    i.op = .loadStatic field → (declaredEvents module).find? field.key = some event →
    ∃ before segment after, routine.segments = before ++ segment :: after
      ∧ segment.position = position ∧ segment.source = i ∧ segment.lowered = .code []
      ∧ ∀ ⦃s : State⦄ ⦃next : Segment⦄ ⦃rest : List Segment⦄, after = next :: rest →
        InFrontOf program method routine before segment s →
        InFrontOf program method routine (before ++ [segment]) next s
  /-- The call of an event notifies the one that was loaded last. -/
  callEvent : ∀ ⦃position i⦄, routine.scope.body[position]? = some i → i.op = .call .event →
    ∃ before segment after event, routine.segments = before ++ segment :: after
      ∧ segment.position = position ∧ segment.source = i
      ∧ lastLoaded (declaredEvents module) routine.scope.body position = some event
      ∧ segment.lowered.directives = packArguments event.params.length
        ++ [.pushData (Text.utf8 event.displayName), .service Service.notify.name]

/-! ## What lowering carries -/

section

variable {scope : Scope} {position : Nat} {i : Source.Instruction} {carry carry' : Carry}
  {lowered : Lowered}

/-- The slot whose address was taken last, by its number. -/
def taken (carry : Carry) : Option (Place × Nat) :=
  carry.addressOf.map fun (place, slot) => (place, slot.toNat)

theorem takenBehind_of_keeps (taken : Option (Place × Nat)) (hkeeps : changesCarry i.op = false) :
    takenBehind taken i = taken := by
  obtain ⟨offset, op⟩ := i
  cases op <;> first | rfl | cases hkeeps

/-- Only addresses and initializations change which address was taken last. -/
theorem taken_of_lower (h : (lower scope position i).run carry = .ok (lowered, carry')) :
    taken carry' = takenBehind (taken carry) i := by
  cases hchanges : changesCarry i.op with
  | false => rw [carry_eq_of_lower h hchanges, takenBehind_of_keeps _ hchanges]
  | true =>
    obtain ⟨offset, op⟩ := i
    cases op
    case address place index =>
      obtain ⟨slot, _, hslot, hrest⟩ := run_bind_eq_ok h
      obtain ⟨hresult, rfl⟩ := run_liftM_eq_ok hslot
      cases hrest
      exact congrArg (fun n => some (place, n)) (slot_bounded hresult).1
    case initObject fields =>
      obtain ⟨addressOf, waiting⟩ := carry
      cases addressOf <;> cases h
      rfl
    case loadStatic field =>
      have hload : (lowerLoadStatic scope field).run carry = .ok (lowered, carry') := h
      unfold lowerLoadStatic at hload
      split at hload
      · cases hload
        rfl
      · split at hload
        · cases hload
          rfl
        · split at hload <;> cases hload
          rfl
    case call callee =>
      cases callee with
      | event =>
        obtain ⟨addressOf, waiting⟩ := carry
        cases waiting <;> cases h
        rfl
      | method | intrinsic | delegate => cases hchanges
    all_goals cases hchanges

/-- What is covered by code for another instruction changes nothing. -/
theorem changesCarry_of_isCovered {op : Source.Op} (h : isCovered op = true) :
    changesCarry op = false := by
  cases op
  case call callee => cases callee <;> first | rfl | cases h
  all_goals first | rfl | cases h

/-- What each instruction changes one by one, all those up to a position change in sequence. -/
theorem exists_lower_view {α : Type} {view : Carry → α} {step : α → Source.Instruction → α}
    (hlower : ∀ {position i carry lowered carry'},
      (lower scope position i).run carry = .ok (lowered, carry') → view carry' = step (view carry) i)
    (hkeeps : ∀ {i : Source.Instruction} (a : α), changesCarry i.op = false → step a i = a) {start : α}
    {before after : List Segment} {segment : Segment}
    (h : Lowers scope position carry (before ++ segment :: after))
    (hview : view carry = (scope.body.toList.take position).foldl step start) :
    ∃ carry carry', (lower scope segment.position segment.source).run carry
        = .ok (segment.lowered, carry')
      ∧ view carry = (scope.body.toList.take segment.position).foldl step start := by
  induction before generalizing position carry with
  | nil =>
    obtain ⟨rfl, -, carry', hlower', -⟩ := h.uncons
    exact ⟨carry, carry', hlower', hview⟩
  | cons first before ih =>
    obtain ⟨rfl, hsource, carry', hlower', hrest⟩ := h.uncons
    refine ih hrest ?_
    -- behind the instruction itself, and then behind each that its code covers
    have hcovers := covers_of_lower hlower'
    have hstep : ∀ k ≤ first.lowered.consumed, view carry'
        = (scope.body.toList.take (first.position + 1 + k)).foldl step start := by
      intro k
      induction k with
      | zero =>
        intro _
        rw [Nat.add_zero, List.take_add_one, List.foldl_append, ← hview, Array.getElem?_toList, hsource]
        exact hlower hlower'
      | succ k ihk =>
        intro hk
        obtain ⟨j, hj, hcovered⟩ := hcovers (first.position + 1 + k) (by omega) (by omega)
        rw [← Nat.add_assoc, List.take_add_one, List.foldl_append, ← ihk (by omega),
          Array.getElem?_toList, hj]
        exact (hkeeps _ (changesCarry_of_isCovered hcovered)).symm
    exact hstep _ (Nat.le_refl _)

end

/-! ## Objects of defaults -/

section

variable {items : Nat} {stack : Stack Item} {heap : Heap}

/-- The default of a type is pushed. -/
theorem carries_pushDefault (type : ValueType) (stack : Stack Item) (heap : Heap)
    (hitems : stack.size < items) :
    Carries items [pushDefault type] ⟨stack, heap⟩ ⟨stack.push (defaultItem type), heap⟩ := by
  unfold pushDefault defaultItem
  split
  · exact .pushes (.boolean false) stack heap hitems
  · split
    · exact .pushes (pushes_pushNat rfl) stack heap hitems
    · exact .simple .pushNull rfl (fun _ => rfl) hitems

theorem length_le_extent_pushDefaults (fields : List ValueType) :
    fields.length ≤ extent (pushDefaults fields) := by
  unfold pushDefaults
  cases fields with
  | nil => exact Nat.zero_le _
  | cons type fields =>
    have hstraight : Straight ((type :: fields).map pushDefault).reverse :=
      (Straight.map isStraight_pushDefault _).reversed
    have hlength := hstraight.length_le_extent
    rw [List.length_reverse, List.length_map] at hlength
    rw [if_neg (by simp), extent_append]
    omega

/-- Items are pushed one after the other, the first one last. -/
theorem carries_pushed {α : Type} {push : α → Directive} {item : α → Item} (xs : List α)
    (hpush : ∀ x ∈ xs, ∀ stack : Stack Item, stack.size < items →
      Carries items [push x] ⟨stack, heap⟩ ⟨stack.push (item x), heap⟩)
    (hitems : xs.length + stack.size < items) :
    Carries items (xs.map push).reverse ⟨stack, heap⟩ ⟨stack.pushList (xs.map item), heap⟩ := by
  induction xs with
  | nil =>
    have hnone : stack.pushList ([].map item) = stack := Stack.ext rfl
    rw [hnone]
    exact .nil
  | cons x xs ih =>
    rw [List.length_cons] at hitems
    have hfirst : (stack.pushList (xs.map item)).push (item x) = stack.pushList ((x :: xs).map item) :=
      Stack.ext rfl
    have hroom : (stack.pushList (xs.map item)).size < items := by
      rw [size_pushList, List.length_map]
      omega
    rw [List.map_cons, List.reverse_cons, ← hfirst]
    exact (ih (fun y hy => hpush y (List.mem_cons_of_mem _ hy)) (by omega)).append
      (hpush x (List.mem_cons_self ..) _ hroom)

/-- Items that are pushed one after the other are packed in their order. -/
theorem carries_packed {α : Type} {push : α → Directive} {item : α → Item} (isStruct : Bool)
    {opcode : Opcode} (hop : operation opcode = .simple (.compound (.pack isStruct))) (xs : List α)
    (hpush : ∀ x ∈ xs, ∀ stack : Stack Item, stack.size < items →
      Carries items [push x] ⟨stack, heap⟩ ⟨stack.push (item x), heap⟩)
    (hcount : xs.length < 2 ^ 64) (hitems : xs.length + stack.size < items) :
    Carries items ((xs.map push).reverse ++ [.pushNat xs.length, .op opcode]) ⟨stack, heap⟩
      ⟨stack.push (if isStruct then .struct heap.sequences.size else .array heap.sequences.size),
        (heap.newSequence (xs.map item).toArray).2⟩ := by
  have hlength : (xs.map item).length = xs.length := List.length_map ..
  have hpack := Carries.packSequence isStruct hop (xs.map item) (hlength ▸ hcount) stack heap
    (hlength ▸ hitems)
  rw [hlength] at hpack
  exact (carries_pushed xs hpush hitems).append hpack

/-- A new object of defaults is pushed. -/
theorem carries_pushDefaults {fields : List ValueType} (hcount : fields.length < 2 ^ 64)
    (hitems : fields.length + stack.size < items) :
    Carries items (pushDefaults fields) ⟨stack, heap⟩
      ⟨stack.push (.struct heap.sequences.size),
        (heap.newSequence (fields.map defaultItem).toArray).2⟩ := by
  cases fields with
  | nil =>
    refine .simple (.compound (.newEmpty true)) rfl (fun _ => rfl) ?_
    show stack.size + 1 ≤ items
    omega
  | cons type fields =>
    exact carries_packed true rfl (type :: fields)
      (fun type _ stack hroom => carries_pushDefault type stack heap hroom) hcount hitems

end

/-! ## Initializations -/

theorem directives_of_initObject {scope : Scope} {position : Nat} {i : Source.Instruction}
    {carry carry' : Carry} {lowered : Lowered} {fields : List ValueType} (hop : i.op = .initObject fields)
    (h : (lower scope position i).run carry = .ok (lowered, carry')) :
    ∃ place slot, carry.addressOf = some (place, slot) ∧ lowered.directives
      = ([.op .drop] ++ pushDefaults fields) ++ [.store (areaOf place) slot] := by
  obtain ⟨offset, op⟩ := i
  cases hop
  obtain ⟨addressOf, waiting⟩ := carry
  cases addressOf with
  | none => cases h
  | some address =>
    cases h
    exact ⟨address.1, address.2, rfl, rfl⟩

theorem lowered_of_event {scope : Scope} {position : Nat} {i : Source.Instruction} {carry carry' : Carry}
    {lowered : Lowered} {field : Source.FieldRef} {event : Source.Event} (hop : i.op = .loadStatic field)
    (hevent : scope.catalogue.events.find? field.key = some event)
    (h : (lower scope position i).run carry = .ok (lowered, carry')) : lowered = .code [] := by
  obtain ⟨offset, op⟩ := i
  cases hop
  have hload : (lowerLoadStatic scope field).run carry = .ok (lowered, carry') := h
  unfold lowerLoadStatic at hload
  simp only [hevent] at hload
  cases hload
  rfl

/-- The object takes the place of what is in the slot. -/
theorem Facing.initializes {here : Surroundings} {before rest : List Directive} {frame : Frame}
    {s : State} {item : Item} {below : List Item} {fields : List ValueType} {place : Place} {slot : UInt8}
    (h : Facing here before
      ((([.op .drop] ++ pushDefaults fields) ++ [.store (areaOf place) slot]) ++ rest) s.memory frame s)
    (hslot : slot.toNat < (itemsOf frame place).size) (hstack : s.memory.stack.toList = item :: below)
    (hcount : fields.length < 2 ^ 64) (hitems : below.length + fields.length < s.limits.stack) :
    ∃ n t, n ≤ instructionCount (([.op .drop] ++ pushDefaults fields) ++ [.store (areaOf place) slot])
      ∧ Advances n s t ∧ Initialized fields place slot.toNat below (here.base + extent (before
        ++ (([.op .drop] ++ pushDefaults fields) ++ [.store (areaOf place) slot]))) s t := by
  have hmemory : s.memory = ⟨(Stack.ofList below).push item, s.memory.heap⟩ :=
    memory_eq hstack
  have hsize : (Stack.ofList below).size = below.length := rfl
  have hdrop : Carries s.limits.stack [.op .drop] ⟨(Stack.ofList below).push item, s.memory.heap⟩ _ :=
    .drop (.ofList below) item s.memory.heap (by omega)
  have hcarries := hdrop.append (carries_pushDefaults hcount (by omega))
  rw [← hmemory] at hcarries
  rw [List.append_assoc] at h
  obtain ⟨n, t, hn, hadvances, rfl⟩ := hcarries h (Nat.le_refl _)
  -- only the store is left
  have hstore := h.behind ⟨(Stack.ofList below).push (.struct s.memory.heap.sequences.size),
    (s.memory.heap.newSequence (fields.map defaultItem).toArray).2⟩
  have hroom : (Stack.ofList below).size ≤ s.limits.stack := by omega
  obtain ⟨frames, hframes, hexecute⟩ := hstore.stores place hslot rfl
  have hstep := step_of_execute hstore.current hexecute (congrArg some hstore.address_behind) hroom
  refine ⟨n + 1, _, ?_, hadvances.append (.single hstep), ⟨?_, rfl, rfl, frame, here.below, h.frames,
    hframes⟩⟩
  · rw [instructionCount_append]
    exact Nat.add_le_add hn (Nat.le_of_eq (instructionCount_instruction _).symm)
  · simp only [List.append_assoc]

/-! ## Accepted modules -/

section

variable {limits : Compile.Limits} {module : Module} {program : Program}
  {image : Image limits module program} {routine : Routine} {method : PlacedMethod}
  {before after : List Segment} {segment : Segment}

/-- An instruction for which no code is written is passed at once. -/
theorem InFrontOf.pass {s : State} {next : Segment} (h : InFrontOf program method routine before segment s)
    (hlowered : segment.lowered = .code []) :
    InFrontOf program method routine (before ++ [segment]) next s := by
  have hthere := h.goesOn next s.memory
  rw [hlowered] at hthere
  rw [show s = { s with address := _ } from congrArg ({ s with address := · }) h.address]
  exact hthere

/-- In front of what is written for it, an object takes its place in a slot. -/
theorem Image.At.replacesSlot (hat : image.At routine method) {place : Place} {slot : UInt8}
    {fields : List ValueType} {s : State} {frame : Frame} {callers : List Frame} {item : Item}
    {below : List Item} (hsegments : routine.segments = before ++ segment :: after)
    (hdirectives : segment.lowered.directives
      = ([.op .drop] ++ pushDefaults fields) ++ [.store (areaOf place) slot])
    (hfront : InFrontOf program method routine before segment s)
    (hframes : s.frames.toList = frame :: callers) (hslot : slot.toNat < (itemsOf frame place).size)
    (hstack : s.memory.stack.toList = item :: below)
    (hitems : below.length + fields.length < s.limits.stack) :
    ∃ n t, n ≤ instructionCount segment.lowered.directives ∧ Advances n s t
      ∧ Initialized fields place slot.toNat below
        (method.base + routine.addressOf before segment segment.lowered.directives) s t := by
  obtain ⟨frame', below', front, hframes', hfacing, hbehind⟩ := hfront.facing hat hsegments
  rw [hframes] at hframes'
  cases hframes'
  have hlength := length_le_extent_pushDefaults fields
  have hextent := hat.extent_lowered_le hsegments
  rw [hdirectives] at hfacing hextent ⊢
  rw [extent_append, extent_append] at hextent
  rw [← hbehind]
  have hcount : fields.length ≤ maxScriptSize := by omega
  exact hfacing.initializes hslot hstack (Nat.lt_of_le_of_lt hcount (by decide)) hitems

theorem Image.At.listingOrder (hat : image.At routine method) :
    ListingOrder module program method routine := by
  have hlowers := image.lowers hat.routine_mem
  have hevents : routine.scope.catalogue.events = declaredEvents module := by
    rw [image.catalogue_eq hat.routine_mem]
    rfl
  constructor
  · intro position i fields hi hop
    obtain ⟨before, segment, after, hsegments, rfl, rfl, -⟩ := hat.exists_segment hi (by rw [hop]; rfl)
    obtain ⟨carry, _, hlower, htaken⟩ : ∃ carry carry', (lower routine.scope segment.position
        segment.source).run carry = .ok (segment.lowered, carry') ∧ taken carry = lastTaken .. :=
      exists_lower_view taken_of_lower takenBehind_of_keeps (hsegments ▸ hlowers) rfl
    obtain ⟨place, slot, hcarry, hdirectives⟩ := directives_of_initObject hop hlower
    refine ⟨before, segment, after, place, slot.toNat, hsegments, rfl, rfl, ?_, ?_⟩
    · rw [← htaken, taken, hcarry]
      rfl
    intro s frame callers item below hfront hframes hslot hstack hitems
    exact hat.replacesSlot hsegments hdirectives hfront hframes hslot hstack hitems
  · intro position i field event hi hop hevent
    obtain ⟨before, segment, after, hsegments, rfl, rfl, carry, carry', hlower⟩ :=
      hat.exists_segment hi (by rw [hop]; rfl)
    have hlowered := lowered_of_event hop (hevents ▸ hevent) hlower
    exact ⟨before, segment, after, hsegments, rfl, rfl, hlowered, fun s next rest _ hfront =>
      hfront.pass hlowered⟩
  · intro position i hi hop
    obtain ⟨before, segment, after, hsegments, rfl, rfl, -⟩ := hat.exists_segment hi (by rw [hop]; rfl)
    obtain ⟨carry, _, hlower, hwaiting⟩ : ∃ carry carry', (lower routine.scope segment.position
        segment.source).run carry = .ok (segment.lowered, carry')
          ∧ carry.pendingEvent = lastLoaded routine.scope.catalogue.events .. :=
      exists_lower_view pendingEvent_of_lower (waitingBehind_of_keeps _) (hsegments ▸ hlowers) rfl
    obtain ⟨event, hpending, hdirectives⟩ := directives_of_event hop hlower
    refine ⟨before, segment, after, event, hsegments, rfl, rfl, ?_, hdirectives⟩
    rw [← hevents, ← hwaiting, hpending]

end

/-- In every accepted module, objects go where the address that comes last in the listing leads, and the
event that comes last in the listing is notified. -/
theorem listingOrder_of_build {limits : Compile.Limits} {module : Module} {contract : Contract}
    (h : build limits module = .ok contract) :
    EveryMethod limits module contract.program (ListingOrder module contract.program) :=
  everyMethod_of_build (P := ListingOrder module) h fun _ _ _ hat => hat.listingOrder

/-- Methods in which an address or an event is dropped that comes last in the listing. -/
def sampleDrops : Module where
  types := [{
    name := "T"
    events := [⟨"First", "first", []⟩, ⟨"Last", "last", []⟩]
    methods := [{
      name := "T::slot"
      displayName := "slot"
      isPublic := true
      returnType := .int32
      locals := [.int32, .int32]
      body := [⟨0, .address .locals 0⟩, ⟨1, .address .locals 1⟩, ⟨2, .pop⟩, ⟨3, .initObject [.int32]⟩,
        ⟨4, .load .locals 0⟩, ⟨5, .ret⟩] }, {
      name := "T::item"
      displayName := "item"
      isPublic := true
      returnType := .int32
      locals := [.int32]
      body := [⟨0, .address .locals 0⟩, ⟨1, .pop⟩, ⟨2, .literal32 5⟩, ⟨3, .initObject [.int32]⟩,
        ⟨4, .load .locals 0⟩, ⟨5, .ret⟩] }, {
      name := "T::value"
      displayName := "value"
      isPublic := true
      returnType := .int32
      body := [⟨0, .literal32 1⟩, ⟨1, .loadStatic ⟨"T", "First"⟩⟩, ⟨2, .pop⟩, ⟨3, .ret⟩] }, {
      name := "T::event"
      displayName := "event"
      isPublic := true
      body := [⟨0, .literal32 1⟩, ⟨1, .loadStatic ⟨"T", "First"⟩⟩, ⟨2, .loadStatic ⟨"T", "Last"⟩⟩,
        ⟨3, .pop⟩, ⟨4, .call .event⟩, ⟨5, .ret⟩] }] }]

theorem listingOrder_sampleDrops : ∃ contract, build {} sampleDrops = .ok contract
    ∧ EveryMethod {} sampleDrops contract.program (ListingOrder sampleDrops contract.program) := by
  have hbuilds : (build {} sampleDrops).toOption.isSome = true := by decide +kernel
  obtain ⟨contract, h⟩ := exists_contract hbuilds
  exact ⟨contract, h, listingOrder_of_build h⟩

/-- The slot whose address is left on the stack stays as it was, a number counts as an address, and the
item that is dropped with an event is not the event. -/
theorem returned_sampleDrops : (build {} sampleDrops).toOption.map (fun contract =>
      ["slot", "item", "value"].map (returned contract))
    = some [some [.null], some [.struct 0], some []] := by
  decide +kernel

end StackContract.Contract
