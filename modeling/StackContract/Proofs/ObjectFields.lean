import StackContract.Proofs.Circles
import StackContract.Proofs.FoldingSteps
import StackContract.Proofs.ListingOrder
/-!
# Objects and their fields

A new object is a fresh struct with one item for each field: the arguments of its constructor in their
order, and behind them the defaults of the other types (`objectItems`). A store changes one item of a
struct, a load reads one (`objectFields_of_build`).

Objects are written in two ways. With arguments these are packed, and the defaults are appended to the
struct one by one (`carries_appends`). Without, the defaults are pushed, that of the last field first,
and packed (`carries_pushDefaults`).
-/

namespace StackContract.Contract

open Assembly Script Lowering Machine Number
open Source (Place ValueType Module)

/-! ## Statement -/

/-- The items of a new object whose first fields are arguments: one for each field
(`length_objectItems`), and the default of its type for a field behind them (`getElem?_objectItems`). -/
def objectItems (fields : List ValueType) (arguments : List Item) : List Item :=
  arguments ++ (fields.drop arguments.length).map defaultItem

/-- The most items that are on the stack, above those below the arguments, while an object with `count`
fields is made of `args` arguments. -/
def objectRoom (count args : Nat) : Nat :=
  if args = 0 then count + 1 else if args < count then max (args + 1) 3 else args + 1

/-- The code of a new object. -/
def newObjectCode (fields : List ValueType) (args : Nat) : List Directive :=
  if args = 0 then pushDefaults fields
  else Directive.reverse args ++ [.pushNat args, .op .packStruct]
    ++ (fields.drop args).flatMap fun type => [.op .dup, pushDefault type, .op .append]

/-- From one heap to another one, a field of a struct was assigned. Only a struct is copied, into structs
that were not there before. -/
structure Assigns (r field : Nat) (value stored : Item) (old new : Heap) : Prop where
  copied : ∃ heap, Copies old [value] [stored] heap
    ∧ new = heap.modifySequence r (·.setIfInBounds field stored)
  fields : ∀ j, (new.sequence r)[j]? = if j = field then some stored else (old.sequence r)[j]?
  others : ∀ r' < old.sequences.size, r' ≠ r → new.sequence r' = old.sequence r'
  buffers : new.buffers = old.buffers
  maps : new.maps = old.maps

/-- What objects and their fields are compiled to. -/
structure ObjectFields (program : Program) (method : PlacedMethod) (routine : Routine) : Prop where
  /-- A new object replaces its arguments, of which it has no more than fields. -/
  newObject : ∀ ⦃position i fields args⦄, routine.scope.body[position]? = some i →
    i.op = .newObject fields args →
    args.toNat ≤ fields.length ∧ ∃ before segment after, routine.segments = before ++ segment :: after
      ∧ segment.position = position ∧ segment.source = i
      ∧ ∀ ⦃s : State⦄ ⦃arguments rest : List Item⦄, InFrontOf program method routine before segment s →
        s.memory.stack.toList = arguments.reverse ++ rest → arguments.length = args.toNat →
        rest.length + objectRoom fields.length args.toNat ≤ s.limits.stack →
        ComesBehind method routine before segment s
          ⟨(Stack.ofList rest).push (.struct s.memory.heap.sequences.size),
            (s.memory.heap.newSequence (objectItems fields arguments).toArray).2⟩
  /-- An object that is initialized on the slot just addressed has the defaults of its fields, and the
  stack is as it was in front of the address. -/
  initObject : ∀ ⦃position i j place index fields⦄, routine.scope.body[position]? = some i →
    i.op = .address place index → routine.scope.body[position + 1]? = some j →
    j.op = .initObject fields →
    index.toNat < (routine.scope.declared place).toNat
      ∧ ∃ before first second after, routine.segments = before ++ first :: second :: after
      ∧ first.position = position ∧ first.source = i ∧ second.position = position + 1 ∧ second.source = j
      ∧ ∀ ⦃s : State⦄ ⦃frame : Frame⦄ ⦃callers : List Frame⦄,
        InFrontOf program method routine before first s → s.frames.toList = frame :: callers →
        index.toNat < (itemsOf frame place).size →
        s.memory.stack.size + fields.length < s.limits.stack →
        ∃ n t, n ≤ instructionCount (first.lowered.directives ++ second.lowered.directives)
          ∧ Advances n s t ∧ Initialized fields place index.toNat s.memory.stack.toList
            (method.base + routine.addressOf (before ++ [first]) second second.lowered.directives) s t
  /-- A store assigns a field of the struct below the value. No machine that a host comes to has a memory
  in which the value cannot be copied (`Reachable.founded_memory`). -/
  storeField : ∀ ⦃position i index⦄, routine.scope.body[position]? = some i → i.op = .storeField index →
    ∃ before segment after, routine.segments = before ++ segment :: after
      ∧ segment.position = position ∧ segment.source = i
      ∧ ∀ ⦃s : State⦄ ⦃value : Item⦄ ⦃r : Nat⦄ ⦃rest : List Item⦄,
        InFrontOf program method routine before segment s → s.memory.Founded 0 →
        s.memory.stack.toList = value :: .struct r :: rest →
        index.toNat < (s.memory.heap.sequence r).size → rest.length + 3 ≤ s.limits.stack →
        ∃ stored heap, Assigns r index.toNat value stored s.memory.heap heap
          ∧ ComesBehind method routine before segment s ⟨.ofList rest, heap⟩
  /-- A load puts a field in the place of its struct, and changes no object. -/
  loadField : ∀ ⦃position i index⦄, routine.scope.body[position]? = some i → i.op = .loadField index →
    ∃ before segment after, routine.segments = before ++ segment :: after
      ∧ segment.position = position ∧ segment.source = i
      ∧ ∀ ⦃s : State⦄ ⦃r : Nat⦄ ⦃item : Item⦄ ⦃rest : List Item⦄,
        InFrontOf program method routine before segment s → s.memory.stack.toList = .struct r :: rest →
        (s.memory.heap.sequence r)[index.toNat]? = some item → rest.length + 2 ≤ s.limits.stack →
        ComesBehind method routine before segment s ⟨(Stack.ofList rest).push item, s.memory.heap⟩
  /-- As long as a struct stays as an assignment has left it, a load of the field that was assigned gives
  what was stored, and a load of another field what it held before. -/
  loadAssigned : ∀ ⦃position i index⦄, routine.scope.body[position]? = some i → i.op = .loadField index →
    ∃ before segment after, routine.segments = before ++ segment :: after
      ∧ segment.position = position ∧ segment.source = i
      ∧ ∀ ⦃s : State⦄ ⦃r field : Nat⦄ ⦃value stored item : Item⦄ ⦃old new : Heap⦄ ⦃rest : List Item⦄,
        Assigns r field value stored old new → s.memory.heap.sequence r = new.sequence r →
        InFrontOf program method routine before segment s → s.memory.stack.toList = .struct r :: rest →
        (if index.toNat = field then some stored else (old.sequence r)[index.toNat]?) = some item →
        rest.length + 2 ≤ s.limits.stack →
        ComesBehind method routine before segment s ⟨(Stack.ofList rest).push item, s.memory.heap⟩

/-! ## Items of new objects -/

/-- An object has as many items as fields. -/
theorem length_objectItems {fields : List ValueType} {arguments : List Item}
    (h : arguments.length ≤ fields.length) : (objectItems fields arguments).length = fields.length := by
  unfold objectItems
  rw [List.length_append, List.length_map, List.length_drop]
  omega

/-- The first fields of an object are its arguments, the others have the defaults of their types. -/
theorem getElem?_objectItems (fields : List ValueType) (arguments : List Item) (j : Nat) :
    (objectItems fields arguments)[j]?
      = if j < arguments.length then arguments[j]? else (fields[j]?).map defaultItem := by
  unfold objectItems
  split
  · next hlt => exact List.getElem?_append_left hlt
  · next hge =>
    have hle := Nat.le_of_not_lt hge
    rw [List.getElem?_append_right hle, List.getElem?_map, List.getElem?_drop, Nat.add_sub_of_le hle]

theorem defaultItem_ne_struct (type : ValueType) (r : Nat) : defaultItem type ≠ .struct r := by
  unfold defaultItem
  split
  · exact nofun
  · split <;> exact nofun

theorem modifySequence_newSequence (heap : Heap) (items : Array Item) (f : Array Item → Array Item) :
    (heap.newSequence items).2.modifySequence heap.sequences.size f = (heap.newSequence (f items)).2 := by
  unfold Heap.modifySequence Heap.newSequence
  have hmodify : (heap.sequences.push items).modify heap.sequences.size f
      = heap.sequences.push (f items) := by
    apply Array.ext_getElem?
    intro j
    rw [Array.getElem?_modify, Array.getElem?_push, Array.getElem?_push]
    split <;> split <;> simp_all
  exact congrArg (fun sequences => { heap with sequences }) hmodify

section

variable {items : Nat} {stack : Stack Item} {heap : Heap}

/-- The default of a field comes behind the items that the object has. -/
theorem carries_append (type : ValueType) (done : List Item) (hitems : stack.size + 3 ≤ items) :
    Carries items [.op .dup, pushDefault type, .op .append]
      ⟨stack.push (.struct heap.sequences.size), (heap.newSequence done.toArray).2⟩
      ⟨stack.push (.struct heap.sequences.size),
        (heap.newSequence (done ++ [defaultItem type]).toArray).2⟩ := by
  have hdup : Carries items [.op .dup]
      ⟨stack.push (.struct heap.sequences.size), (heap.newSequence done.toArray).2⟩
      ⟨(stack.push (.struct heap.sequences.size)).push (.struct heap.sequences.size),
        (heap.newSequence done.toArray).2⟩ := by
    refine .simple (.shuffle .dup) rfl (fun _ => rfl) ?_
    show stack.size + 2 ≤ items
    omega
  refine hdup.cons ((carries_pushDefault type _ _ ?_).cons ?_)
  · show stack.size + 2 < items
    omega
  · refine .simple (.compound .append) rfl (fun address => ?_) ?_
    · have hcopy := copyStruct_plain (defaultItem_ne_struct type) address
        ⟨(stack.push (.struct heap.sequences.size)).push (.struct heap.sequences.size),
          (heap.newSequence done.toArray).2⟩
      show (Eval.copyStruct (defaultItem type) >>= fun item => _ : Eval Unit) address
        ⟨(stack.push (.struct heap.sequences.size)).push (.struct heap.sequences.size),
          (heap.newSequence done.toArray).2⟩ = _
      rw [Eval.bind_apply, hcopy]
      have hpush := modifySequence_newSequence heap done.toArray (·.push (defaultItem type))
      rw [List.push_toArray] at hpush
      exact congrArg (fun heap => EStateM.Result.ok () (Memory.mk _ heap)) hpush
    · show stack.size + 1 ≤ items
      omega

/-- The defaults of the other fields come behind the arguments. -/
theorem carries_appends (types : List ValueType) (done : List Item)
    (hitems : types ≠ [] → stack.size + 3 ≤ items) :
    Carries items (types.flatMap fun type => [.op .dup, pushDefault type, .op .append])
      ⟨stack.push (.struct heap.sequences.size), (heap.newSequence done.toArray).2⟩
      ⟨stack.push (.struct heap.sequences.size),
        (heap.newSequence (done ++ types.map defaultItem).toArray).2⟩ := by
  -- on the types, `done` being what the object has in front of them
  induction types generalizing done with
  | nil =>
    rw [List.map_nil, List.append_nil]
    exact .nil
  | cons type types ih =>
    have hroom := hitems (List.cons_ne_nil type types)
    have hrest := ih (done ++ [defaultItem type]) fun _ => hroom
    rw [List.append_assoc] at hrest
    exact (carries_append type done hroom).append hrest

/-- The arguments of an object come first, whichever way it is made. -/
theorem carries_newObject {fields : List ValueType} {arguments : List Item}
    (hcount : arguments.length < 2 ^ 64) (hnone : arguments.length = 0 → fields.length < 2 ^ 64)
    (hle : arguments.length ≤ fields.length)
    (hitems : stack.size + objectRoom fields.length arguments.length ≤ items) :
    Carries items (newObjectCode fields arguments.length) ⟨stack.pushList arguments.reverse, heap⟩
      ⟨stack.push (.struct heap.sequences.size),
        (heap.newSequence (objectItems fields arguments).toArray).2⟩ := by
  unfold newObjectCode objectRoom at *
  by_cases hzero : arguments.length = 0
  · rw [if_pos hzero] at hitems ⊢
    have hdefaults := hnone hzero
    obtain rfl := List.length_eq_zero_iff.mp hzero
    have hempty : stack.pushList [].reverse = stack := Stack.ext rfl
    rw [hempty]
    exact carries_pushDefaults hdefaults (by omega)
  · rw [if_neg hzero] at hitems ⊢
    have hpacked : arguments.length + stack.size < items := by
      split at hitems <;> omega
    have hroom : arguments.length + stack.size + reversalRoom arguments.length ≤ items := by
      unfold reversalRoom
      split <;> omega
    have happends : fields.drop arguments.length ≠ [] → stack.size + 3 ≤ items := by
      intro hrest
      have hlt : arguments.length < fields.length := by
        rw [Ne, List.drop_eq_nil_iff] at hrest
        omega
      rw [if_pos hlt] at hitems
      omega
    have hreverse := carries_reverse_back stack heap arguments hcount hroom
    have hpack : Carries items [.pushNat arguments.length, .op .packStruct] _ _ :=
      .packSequence true rfl arguments hcount stack heap hpacked
    exact (hreverse.append hpack).append (carries_appends _ arguments happends)

end

/-! ## Assignments -/

/-- What is stored is a copy, made before the field changes. -/
theorem assigns_of_copies {heap heap' : Heap} {r field : Nat} {value stored : Item}
    (h : Copies heap [value] [stored] heap') (hfield : field < (heap.sequence r).size) :
    Assigns r field value stored heap (heap'.modifySequence r (·.setIfInBounds field stored)) := by
  have hr := Heap.lt_of_lt_size_sequence hfield
  have hkeeps : ∀ r' < heap.sequences.size, heap'.sequence r' = heap.sequence r' :=
    fun r' hr' => h.grows.sequence_eq hr'
  have hsequence : (heap'.modifySequence r (·.setIfInBounds field stored)).sequence r
      = (heap.sequence r).setIfInBounds field stored := by
    rw [Heap.sequence_modifySequence, if_pos ⟨rfl, Nat.lt_of_lt_of_le hr h.size_le⟩, hkeeps r hr]
  obtain ⟨hbuffers, hmaps⟩ := h.sameOthers
  refine ⟨⟨heap', h, rfl⟩, ?_, ?_, hbuffers, hmaps⟩
  · intro j
    rw [hsequence]
    by_cases hj : j = field
    · rw [if_pos hj, hj, Array.getElem?_setIfInBounds_self_of_lt hfield]
    · rw [if_neg hj, Array.getElem?_setIfInBounds_ne (Ne.symm hj)]
  · intro r' hr' hother
    rw [Heap.sequence_modifySequence, if_neg fun heq => hother heq.1.symm, hkeeps r' hr']

section

variable {items : Nat} {stack : Stack Item} {heap : Heap} {r index : Nat}

/-- A store to a field puts a copy of the value into the struct. -/
theorem carries_storeField {value : Item} (hcount : index < 2 ^ 64)
    (hfounded : Memory.Founded 0 ⟨(stack.push (.struct r)).push value, heap⟩)
    (hindex : index < (heap.sequence r).size) (hitems : stack.size + 3 ≤ items) :
    ∃ stored heap', Assigns r index value stored heap heap'
      ∧ Carries items [.pushNat index, .op .swap, .op .setItem]
        ⟨(stack.push (.struct r)).push value, heap⟩ ⟨stack, heap'⟩ := by
  have hinside : value.Inside heap.sequences.size := hfounded.stack value (List.mem_cons_self ..)
  obtain ⟨w, hw, hpush⟩ := Carries.pushNat hcount ((stack.push (.struct r)).push value) heap
    (by show stack.size + 2 < items; omega)
  obtain ⟨stored, heap', hcopies, hcopy⟩ := exists_copy
    (m := ⟨(stack.push (.struct r)).push (.integer w), heap⟩) hfounded.heap hinside
  refine ⟨stored, _, assigns_of_copies hcopies hindex, hpush.cons ?_⟩
  refine (carries_swap (stack.push (.struct r)) heap value (.integer w) hitems).cons
    (.simple (.compound .setItem) rfl (fun address => ?_) (by
    show stack.size ≤ items
    omega))
  have hthere : index < (heap'.sequence r).size := by
    rw [hcopies.grows.sequence_eq (Heap.lt_of_lt_size_sequence hindex)]
    exact hindex
  show (Eval.copyStruct value >>= fun value => _ : Eval Unit) address
    ⟨(stack.push (.struct r)).push (.integer w), heap⟩ = _
  rw [Eval.bind_apply, hcopy]
  show (Eval.orFault ((Item.integer w).asIndex heap' (heap'.sequence r).size) >>= fun i => _ :
    Eval Unit) address ⟨stack, heap'⟩ = _
  rw [asIndex_of_lt heap' hw hthere]
  rfl

/-- A load of a field reads the struct. -/
theorem carries_loadField {item : Item} (hcount : index < 2 ^ 64)
    (hitem : (heap.sequence r)[index]? = some item) (hitems : stack.size + 2 ≤ items) :
    Carries items [.pushNat index, .op .pickItem] ⟨stack.push (.struct r), heap⟩
      ⟨stack.push item, heap⟩ := by
  obtain ⟨w, hw, hpush⟩ := Carries.pushNat hcount (stack.push (.struct r)) heap hitems
  refine hpush.cons (.simple (.compound .pickItem) rfl (fun address => ?_) (by
    show stack.size + 1 ≤ items
    omega))
  obtain ⟨hindex, hvalue⟩ := Array.getElem?_eq_some_iff.mp hitem
  show (Eval.orFault ((Item.integer w).asIndex heap (heap.sequence r).size) >>= fun i =>
    Eval.push ((heap.sequence r).getD i .null) : Eval Unit) address ⟨stack, heap⟩ = _
  rw [asIndex_of_lt heap hw hindex, ← hvalue]
  show EStateM.Result.ok () (Memory.mk (stack.push ((heap.sequence r).getD index .null)) heap) = _
  rw [Array.getD_eq_getD_getElem?, Array.getElem?_eq_getElem hindex]
  rfl

end

/-! ## What is written -/

section

variable {scope : Scope} {position : Nat} {i : Source.Instruction} {carry carry' : Carry}
  {lowered : Lowered}

/-- An object is made of no more arguments than it has fields. -/
theorem lower_newObject {fields : List ValueType} {args : UInt16} (hop : i.op = .newObject fields args)
    (carry : Carry) : (lower scope position i).run carry = if fields.length < args.toNat
      then .error (scope.unsupported i) else .ok (.code (newObjectCode fields args.toNat), carry) := by
  obtain ⟨offset, op⟩ := i
  cases hop
  show (liftM (lowerNewObject scope _ fields args) : Lower Lowered).run carry = _
  unfold lowerNewObject newObjectCode
  dsimp only
  split
  · rfl
  · split <;> rfl

theorem directives_of_newObject {fields : List ValueType} {args : UInt16}
    (hop : i.op = .newObject fields args)
    (h : (lower scope position i).run carry = .ok (lowered, carry')) :
    args.toNat ≤ fields.length ∧ lowered.directives = newObjectCode fields args.toNat := by
  rw [lower_newObject hop] at h
  split at h
  · cases h
  · next hle =>
    cases h
    exact ⟨Nat.le_of_not_lt hle, rfl⟩

theorem directives_of_address {place : Place} {index : UInt16} (hop : i.op = .address place index)
    (h : (lower scope position i).run carry = .ok (lowered, carry')) :
    ∃ slot, scope.slot i.offset place index = .ok slot ∧ carry'.addressOf = some (place, slot)
      ∧ lowered = .code [.load (areaOf place) slot] := by
  obtain ⟨offset, op⟩ := i
  cases hop
  obtain ⟨slot, _, hslot, hrest⟩ := run_bind_eq_ok h
  obtain ⟨hresult, rfl⟩ := run_liftM_eq_ok hslot
  cases hrest
  exact ⟨slot, hresult, rfl, rfl⟩

theorem directives_of_storeField {index : UInt16} (hop : i.op = .storeField index)
    (h : (lower scope position i).run carry = .ok (lowered, carry')) :
    lowered.directives = [.pushNat index.toNat, .op .swap, .op .setItem] := by
  obtain ⟨offset, op⟩ := i
  cases hop
  cases h
  rfl

theorem directives_of_loadField {index : UInt16} (hop : i.op = .loadField index)
    (h : (lower scope position i).run carry = .ok (lowered, carry')) :
    lowered.directives = [.pushNat index.toNat, .op .pickItem] := by
  obtain ⟨offset, op⟩ := i
  cases hop
  cases h
  rfl

/-- A body is rejected if some object in it has more arguments than fields. -/
theorem exists_error_of_newObject (hi : scope.body[position]? = some i) {fields : List ValueType}
    {args : UInt16} (hop : i.op = .newObject fields args) (hargs : fields.length < args.toNat)
    (prologue : List Directive) : ∃ e, lowerBody scope prologue = .error e := by
  refine exists_error_of_lower hi (by rw [hop]; rfl) (fun carry lowered carry' h => ?_) prologue
  exact Nat.not_le_of_lt hargs (directives_of_newObject hop h).1

/-- What is written for an address and the object that is initialized on it. -/
theorem exists_initialization {j : Source.Instruction} {segments : List Segment} {place : Place}
    {index : UInt16} {fields : List ValueType} (h : Lowers scope 0 carry segments)
    (hi : scope.body[position]? = some i) (hop : i.op = .address place index)
    (hj : scope.body[position + 1]? = some j) (hop' : j.op = .initObject fields) :
    ∃ before first second after slot, segments = before ++ first :: second :: after
      ∧ first.position = position ∧ first.source = i ∧ second.position = position + 1 ∧ second.source = j
      ∧ slot.toNat = index.toNat ∧ slot.toNat < (scope.declared place).toNat
      ∧ first.lowered.directives = [.load (areaOf place) slot]
      ∧ second.lowered.directives
        = ([.op .drop] ++ pushDefaults fields) ++ [.store (areaOf place) slot] := by
  obtain ⟨before, first, rest, rfl, rfl, rfl, -⟩ :=
    h.exists_segment (Nat.zero_le _) hi (by rw [hop]; rfl)
  -- the address is covered by no other code, so the object comes next
  obtain ⟨position, carry, hrest⟩ := h.behind
  obtain ⟨rfl, -, next, hlower, hbehind⟩ := hrest.uncons
  obtain ⟨slot, hslot, haddress, hlowered⟩ := directives_of_address hop hlower
  rw [hlowered] at hbehind
  obtain ⟨second, after, rfl, rfl⟩ := hbehind.exists_cons hj
  obtain ⟨hposition, -, _, hlower', -⟩ := hbehind.uncons
  obtain ⟨place', slot', hcarry, hdirectives⟩ := directives_of_initObject hop' hlower'
  rw [haddress] at hcarry
  cases hcarry
  exact ⟨before, first, second, after, slot, rfl, rfl, rfl, hposition, rfl, (slot_bounded hslot).1,
    (slot_bounded hslot).2, congrArg Lowered.directives hlowered, hdirectives⟩

end

/-! ## Accepted modules -/

section

variable {limits : Compile.Limits} {module : Module} {program : Program}
  {image : Image limits module program} {routine : Routine} {method : PlacedMethod}
  {before after : List Segment} {segment : Segment} {s : State}

/-- The object takes its place in the slot whose address is taken in front of it. -/
theorem Image.At.initializes (hat : image.At routine method) {first second : Segment} {place : Place}
    {slot : UInt8} {fields : List ValueType} {frame : Frame} {callers : List Frame}
    (hsegments : routine.segments = before ++ first :: second :: after)
    (hfirst : first.lowered.directives = [.load (areaOf place) slot])
    (hsecond : second.lowered.directives
      = ([.op .drop] ++ pushDefaults fields) ++ [.store (areaOf place) slot])
    (hfront : InFrontOf program method routine before first s)
    (hframes : s.frames.toList = frame :: callers) (hslot : slot.toNat < (itemsOf frame place).size)
    (hitems : s.memory.stack.size + fields.length < s.limits.stack) :
    ∃ n t, n ≤ instructionCount (first.lowered.directives ++ second.lowered.directives)
      ∧ Advances n s t ∧ Initialized fields place slot.toNat s.memory.stack.toList
        (method.base + routine.addressOf (before ++ [first]) second second.lowered.directives) s t := by
  have hsegments' : routine.segments = (before ++ [first]) ++ second :: after := by
    rw [hsegments, List.append_assoc]
    rfl
  obtain ⟨frame', below, front, hframes', hfacing, hbehind⟩ := hfront.facing hat hsegments
  rw [hframes] at hframes'
  cases hframes'
  rw [hfirst] at hfacing
  have hload : Exits s.limits.stack frame [.load (areaOf place) slot] s.memory _ none :=
    .load place (Array.getElem?_eq_getElem hslot) (Nat.lt_of_le_of_lt (Nat.le_add_right ..) hitems)
  obtain ⟨n, address, hn, hexit, hadvances⟩ :=
    hload hfacing (closed_closing routine.directives) (Nat.le_refl _)
  cases hexit
  rw [hbehind, ← hfirst] at hadvances
  have hthere := hfront.goesOn second
    ⟨s.memory.stack.push (itemsOf frame place)[slot.toNat], s.memory.heap⟩
  obtain ⟨k, t, hk, hadvances', hstays, hstack, hheap, callers, hslots⟩ :=
    hat.replacesSlot hsegments' hsecond hthere hframes hslot rfl (by rw [← Stack.size_eq]; exact hitems)
  refine ⟨n + k, t, ?_, hadvances.append hadvances', hstays, hstack, hheap, callers, hslots⟩
  rw [instructionCount_append, hfirst]
  exact Nat.add_le_add hn hk

/-- A load of a field gives what the struct holds. -/
theorem Image.At.loadsField (hat : image.At routine method) {position : Nat} {i : Source.Instruction}
    {index : UInt16} (hi : routine.scope.body[position]? = some i) (hop : i.op = .loadField index) :
    ∃ before segment after, routine.segments = before ++ segment :: after
      ∧ segment.position = position ∧ segment.source = i
      ∧ ∀ ⦃s : State⦄ ⦃r : Nat⦄ ⦃item : Item⦄ ⦃rest : List Item⦄,
        InFrontOf program method routine before segment s → s.memory.stack.toList = .struct r :: rest →
        (s.memory.heap.sequence r)[index.toNat]? = some item → rest.length + 2 ≤ s.limits.stack →
        ComesBehind method routine before segment s ⟨(Stack.ofList rest).push item, s.memory.heap⟩ := by
  obtain ⟨before, segment, after, hsegments, rfl, rfl, _, _, hlower⟩ :=
    hat.exists_segment hi (by rw [hop]; rfl)
  refine ⟨before, segment, after, hsegments, rfl, rfl, ?_⟩
  intro s r item rest hfront hitems hitem hroom
  have hmemory : s.memory = ⟨(Stack.ofList rest).push (.struct r), s.memory.heap⟩ := memory_eq hitems
  refine hat.comesBehind hsegments hfront hroom ?_
  rw [directives_of_loadField hop hlower, hmemory]
  exact carries_loadField (Nat.lt_trans index.toNat_lt (by decide)) hitem (Nat.le_refl _)

theorem Image.At.objectFields (hat : image.At routine method) : ObjectFields program method routine := by
  refine ⟨?_, ?_, ?_, fun position i index => hat.loadsField, ?_⟩
  · intro position i fields args hi hop
    obtain ⟨before, segment, after, hsegments, rfl, rfl, _, _, hlower⟩ :=
      hat.exists_segment hi (by rw [hop]; rfl)
    obtain ⟨hle, hdirectives⟩ := directives_of_newObject hop hlower
    refine ⟨hle, before, segment, after, hsegments, rfl, rfl, ?_⟩
    intro s arguments rest hfront hitems hlength hroom
    rw [← hlength] at hle hdirectives hroom
    have hmemory : s.memory = ⟨(Stack.ofList rest).pushList arguments.reverse, s.memory.heap⟩ :=
      memory_eq hitems
    have hnone : arguments.length = 0 → fields.length < 2 ^ 64 := by
      intro hzero
      have hextent := hat.extent_lowered_le hsegments
      rw [hdirectives, newObjectCode, if_pos hzero] at hextent
      exact Nat.lt_of_le_of_lt (Nat.le_trans (length_le_extent_pushDefaults fields) hextent) (by decide)
    have hcount := args.toNat_lt
    refine hat.comesBehind hsegments hfront hroom ?_
    rw [hdirectives, hmemory]
    exact carries_newObject (by omega) hnone hle (Nat.le_refl _)
  · intro position i j place index fields hi hop hj hop'
    obtain ⟨before, first, second, after, slot, hsegments, hposition, hsource, hposition', hsource', hslot,
      hdeclared, hfirst, hsecond⟩ := exists_initialization (image.lowers hat.routine_mem) hi hop hj hop'
    rw [← hslot]
    refine ⟨hdeclared, before, first, second, after, hsegments, hposition, hsource, hposition', hsource',
      ?_⟩
    intro s frame callers hfront hframes hindex hroom
    exact hat.initializes hsegments hfirst hsecond hfront hframes hindex hroom
  · intro position i index hi hop
    obtain ⟨before, segment, after, hsegments, rfl, rfl, _, _, hlower⟩ :=
      hat.exists_segment hi (by rw [hop]; rfl)
    refine ⟨before, segment, after, hsegments, rfl, rfl, ?_⟩
    intro s value r rest hfront hfounded hitems hindex hroom
    have hmemory : s.memory = ⟨((Stack.ofList rest).push (.struct r)).push value, s.memory.heap⟩ :=
      memory_eq hitems
    rw [hmemory] at hfounded
    obtain ⟨stored, heap, hassigns, hcarries⟩ :=
      carries_storeField (Nat.lt_trans index.toNat_lt (by decide)) hfounded hindex hroom
    refine ⟨stored, heap, hassigns, hat.comesBehind hsegments hfront (Nat.le_refl _) ?_⟩
    rw [directives_of_storeField hop hlower, hmemory]
    exact hcarries
  · intro position i index hi hop
    obtain ⟨before, segment, after, hsegments, hposition, hsource, hloads⟩ := hat.loadsField hi hop
    refine ⟨before, segment, after, hsegments, hposition, hsource, ?_⟩
    intro s r field value stored item old new rest hassigns hsame hfront hitems hitem hroom
    refine hloads hfront hitems ?_ hroom
    rw [hsame, hassigns.fields]
    exact hitem

end

/-- An object of no more arguments than fields is lowered, and the body of another one is rejected. In
every accepted module, an object has its arguments and defaults for fields, and a field that is assigned
is loaded as it was stored, by every machine that a host comes to. -/
theorem objectFields_of_build {limits : Compile.Limits} {module : Module} {contract : Contract}
    (h : build limits module = .ok contract) :
    (∀ (scope : Scope) (position : Nat) (i : Source.Instruction) (fields : List ValueType)
        (args : UInt16), scope.body[position]? = some i → i.op = .newObject fields args →
        (args.toNat ≤ fields.length → ∃ code, ∀ carry,
          (lower scope position i).run carry = .ok (.code code, carry))
        ∧ (fields.length < args.toNat → ∀ prologue, ∃ e, lowerBody scope prologue = .error e))
      ∧ EveryMethod limits module contract.program (ObjectFields contract.program)
      ∧ ∀ (script : Array UInt8) (initializer : Option Nat) (limits : Machine.Limits) (s : State),
        Reachable script initializer limits s → s.memory.Founded 0 := by
  refine ⟨fun scope position i fields args hi hop => ⟨fun hle => ?_, exists_error_of_newObject hi hop⟩,
    everyMethod_of_build (P := ObjectFields) h fun _ _ _ hat => hat.objectFields,
    fun _ _ _ _ hreachable => hreachable.founded_memory⟩
  exact ⟨_, fun carry => (lower_newObject hop carry).trans (if_neg (Nat.not_lt_of_le hle))⟩

/-- Makes objects with arguments and without, and stores one into another. -/
def sampleObjects : Module where
  types := [{
    name := "T"
    methods := [{
      name := "T::made"
      displayName := "made"
      isPublic := true
      returnType := .object
      locals := [.object]
      body := [⟨0, .literal32 1⟩, ⟨1, .literal32 2⟩, ⟨2, .newObject [.int32, .int32, .boolean, .string] 2⟩,
        ⟨3, .store .locals 0⟩, ⟨4, .load .locals 0⟩, ⟨5, .newObject [.int32] 0⟩, ⟨6, .storeField 3⟩,
        ⟨7, .load .locals 0⟩, ⟨8, .loadField 3⟩, ⟨9, .address .locals 0⟩, ⟨10, .initObject [.boolean]⟩,
        ⟨11, .ret⟩] }] }]

theorem objectFields_sampleObjects : ∃ contract, build {} sampleObjects = .ok contract
    ∧ EveryMethod {} sampleObjects contract.program (ObjectFields contract.program) := by
  have hbuilds : (build {} sampleObjects).toOption.isSome = true := by decide +kernel
  obtain ⟨contract, h⟩ := exists_contract hbuilds
  exact ⟨contract, h, (objectFields_of_build h).2.1⟩

end StackContract.Contract
