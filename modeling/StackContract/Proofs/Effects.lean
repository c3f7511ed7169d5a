import StackContract.Proofs.MapKeys
/-!
# What instructions change

Of the objects that are there an instruction changes one at most, and that is the compound below its
operands (`State.subject?`). All others keep their contents, whether the instruction faults or not
(`keeps_execute`), and so they do while instructions are carried out none of which is on them
(`Later`).
-/

namespace StackContract.Machine

open Script

/-! ## Objects -/

/-- The object that an item refers to. -/
def Item.object? : Item → Option (Part × Nat)
  | .buffer r => some (.buffers, r)
  | .array r | .struct r => some (.sequences, r)
  | .map r => some (.maps, r)
  | _ => none

/-- Every object has kept its place, and some have kept their contents. -/
structure Heap.Keeps (kept : Part × Nat → Prop) (old new : Heap) : Prop where
  count_le : ∀ part, old.count part ≤ new.count part
  buffers : ∀ r < old.buffers.size, kept (.buffers, r) → new.buffer r = old.buffer r
  sequences : ∀ r < old.sequences.size, kept (.sequences, r) → new.sequence r = old.sequence r
  maps : ∀ r < old.maps.size, kept (.maps, r) → new.map r = old.map r

/-- All objects but one. -/
abbrev AllBut (subject : Option (Part × Nat)) : Part × Nat → Prop :=
  fun object => subject ≠ some object

theorem Heap.Extends.keeps {old new : Heap} (h : old.Extends new) (kept : Part × Nat → Prop) :
    old.Keeps kept new where
  count_le part := by
    cases part with
    | buffers => exact h.buffers.length_le
    | sequences => exact h.sequences.length_le
    | maps => exact h.maps.length_le
  buffers _ hr _ := h.buffer_eq hr
  sequences _ hr _ := h.sequence_eq hr
  maps _ hr _ := h.map_eq hr

namespace Heap.Keeps

variable {kept : Part × Nat → Prop} {first second third heap : Heap}

theorem refl (heap : Heap) : heap.Keeps kept heap :=
  (Extends.refl heap).keeps kept

theorem trans (h : first.Keeps kept second) (h' : second.Keeps kept third) : first.Keeps kept third where
  count_le part := Nat.le_trans (h.count_le part) (h'.count_le part)
  buffers r hr hkept :=
    (h'.buffers r (Nat.lt_of_lt_of_le hr (h.count_le .buffers)) hkept).trans (h.buffers r hr hkept)
  sequences r hr hkept :=
    (h'.sequences r (Nat.lt_of_lt_of_le hr (h.count_le .sequences)) hkept).trans (h.sequences r hr hkept)
  maps r hr hkept :=
    (h'.maps r (Nat.lt_of_lt_of_le hr (h.count_le .maps)) hkept).trans (h.maps r hr hkept)

theorem mono {kept' : Part × Nat → Prop} (h : first.Keeps kept second)
    (hle : ∀ object, kept' object → kept object) : first.Keeps kept' second :=
  ⟨h.count_le, fun r hr hkept => h.buffers r hr (hle _ hkept),
    fun r hr hkept => h.sequences r hr (hle _ hkept), fun r hr hkept => h.maps r hr (hle _ hkept)⟩

theorem modifyBuffer (r : Nat) (f : Array UInt8 → Array UInt8) :
    heap.Keeps (AllBut (some (.buffers, r))) (heap.modifyBuffer r f) where
  count_le part := by
    cases part with
    | buffers => exact Nat.le_of_eq Array.size_modify.symm
    | sequences | maps => exact Nat.le_refl _
  buffers s _ hne := by
    rw [buffer_modifyBuffer, if_neg fun h => hne (by rw [h.1])]
  sequences _ _ _ := rfl
  maps _ _ _ := rfl

theorem modifySequence (r : Nat) (f : Array Item → Array Item) :
    heap.Keeps (AllBut (some (.sequences, r))) (heap.modifySequence r f) where
  count_le part := by
    cases part with
    | sequences => exact Nat.le_of_eq Array.size_modify.symm
    | buffers | maps => exact Nat.le_refl _
  buffers _ _ _ := rfl
  sequences s _ hne := by
    rw [sequence_modifySequence, if_neg fun h => hne (by rw [h.1])]
  maps _ _ _ := rfl

theorem modifyMap (r : Nat) (f : List (Item × Item) → List (Item × Item)) :
    heap.Keeps (AllBut (some (.maps, r))) (heap.modifyMap r f) where
  count_le part := by
    cases part with
    | maps => exact Nat.le_of_eq Array.size_modify.symm
    | buffers | sequences => exact Nat.le_refl _
  buffers _ _ _ := rfl
  sequences _ _ _ := rfl
  maps s _ hne := by
    rw [map_modifyMap, if_neg fun h => hne (by rw [h.1])]

end Heap.Keeps

/-! ## Computations on the memory -/

/-- A computation keeps some objects. -/
def Eval.Keeps {α : Type} (kept : Part × Nat → Prop) (x : Eval α) : Prop :=
  ∀ address (m : Memory), m.heap.Keeps kept (heapBehind (x address m))

/-- A computation keeps every object but the one of the item that has so many others above it on the
stack. -/
def Eval.KeepsBelow {α : Type} (cover : Nat) (x : Eval α) : Prop :=
  ∀ address (m : Memory), m.heap.Keeps (AllBut ((m.stack.toList[cover]?).bind Item.object?))
    (heapBehind (x address m))

namespace Eval

variable {α β : Type}

/-- Copying an item makes objects, and that is all. -/
theorem copyWithin_extends (depth : Nat) (item : Item) (address : Nat) (m : Memory) :
    ∃ copy heap, copyWithin depth item address m = .ok copy { m with heap } ∧ m.heap.Extends heap := by
  induction depth generalizing item m with
  | zero => exact ⟨item, m.heap, rfl, .refl _⟩
  | succ depth ih =>
    have hlist : ∀ (items : List Item) (m : Memory), ∃ copies heap,
        items.mapM (copyWithin depth) address m = .ok copies { m with heap } ∧ m.heap.Extends heap := by
      intro items
      induction items with
      | nil => exact fun m => ⟨[], m.heap, rfl, .refl _⟩
      | cons item items ih' =>
        intro m
        obtain ⟨copy, heap, hcopy, hgrown⟩ := ih item m
        obtain ⟨copies, heap', hcopies, hgrown'⟩ := ih' { m with heap }
        refine ⟨copy :: copies, heap', ?_, hgrown.trans hgrown'⟩
        rw [List.mapM_cons, bind_apply, hcopy]
        dsimp only
        rw [bind_apply, hcopies]
        rfl
    cases item with
    | struct r =>
      obtain ⟨copies, heap, hcopies, hgrown⟩ := hlist (m.heap.sequence r).toList m
      refine ⟨.struct heap.sequences.size, _, ?_, hgrown.trans (.newSequence heap copies.toArray)⟩
      show ((m.heap.sequence r).mapM (copyWithin depth) >>= newStruct) address m = _
      rw [bind_apply, arrayMapM_eq_ok hcopies]
      rfl
    | null | boolean | integer | byteString | pointer | buffer | array | map =>
      exact ⟨_, m.heap, rfl, .refl _⟩

theorem Reads.keeps {x : Eval α} (h : Reads x) (kept : Part × Nat → Prop) : Keeps kept x := by
  intro address m
  have hreads := h address m
  cases hresult : x address m with
  | ok a m' | error fault m' =>
    rw [hresult] at hreads
    exact hreads.heap.keeps kept

theorem afterReading_keeps (kept : Part × Nat → Prop) : AfterReading fun x => Keeps kept x where
  reads h := h.keeps kept
  bind := by
    intro α β x f hx hf address m
    have hfirst := hx.keeps kept address m
    rw [bind_apply]
    cases hresult : x address m with
    | error fault m' =>
      rw [hresult] at hfirst
      exact hfirst
    | ok a m' =>
      rw [hresult] at hfirst
      exact hfirst.trans (hf a address m')
  restack _ _ m := .refl m.heap

namespace Keeps

theorem modifyBuffer (r : Nat) (f : Array UInt8 → Array UInt8) :
    Keeps (AllBut (some (.buffers, r))) (Eval.modifyHeap (·.modifyBuffer r f)) :=
  fun _ _ => .modifyBuffer r f

theorem modifySequence (r : Nat) (f : Array Item → Array Item) :
    Keeps (AllBut (some (.sequences, r))) (Eval.modifyHeap (·.modifySequence r f)) :=
  fun _ _ => .modifySequence r f

theorem modifyMap (r : Nat) (f : List (Item × Item) → List (Item × Item)) :
    Keeps (AllBut (some (.maps, r))) (Eval.modifyHeap (·.modifyMap r f)) :=
  fun _ _ => .modifyMap r f

end Keeps

namespace KeepsBelow

/-- An item that is not changed is taken off. -/
theorem pop {f : Item → Eval α} {cover : Nat} (hf : ∀ item, KeepsBelow cover (f item)) :
    KeepsBelow (cover + 1) (Eval.pop >>= f) := by
  intro address m
  rw [bind_apply, Eval.pop_eq]
  cases hpop : m.stack.pop? with
  | none => exact .refl m.heap
  | some top =>
    have hstack : m.stack.toList = top.1 :: top.2.toList :=
      congrArg Stack.toList (Stack.pop?_eq_some_iff.mp hpop)
    rw [hstack]
    exact hf top.1 address { m with stack := top.2 }

/-- The item that is changed is taken off. -/
theorem popSubject {f : Item → Eval α} (hf : ∀ item, Keeps (AllBut item.object?) (f item)) :
    KeepsBelow 0 (Eval.pop >>= f) := by
  intro address m
  rw [bind_apply, Eval.pop_eq]
  cases hpop : m.stack.pop? with
  | none => exact .refl m.heap
  | some top =>
    have hstack : m.stack.toList = top.1 :: top.2.toList :=
      congrArg Stack.toList (Stack.pop?_eq_some_iff.mp hpop)
    rw [hstack]
    exact hf top.1 address { m with stack := top.2 }

theorem copyStruct {item : Item} {f : Item → Eval α} {cover : Nat}
    (hf : ∀ copy, KeepsBelow cover (f copy)) : KeepsBelow cover (Eval.copyStruct item >>= f) := by
  intro address m
  obtain ⟨copy, heap, hcopy, hgrown⟩ := copyWithin_extends m.heap.sequenceDepth item address m
  have hrun : Eval.copyStruct item address m = .ok copy { m with heap } := hcopy
  rw [bind_apply, hrun]
  exact (hgrown.keeps _).trans (hf copy address { m with heap })

end KeepsBelow

end Eval

/-! ## Operations -/

namespace Compound

open Eval

theorem keepsBelow_append : KeepsBelow 1 append := by
  refine .pop fun item => .copyStruct fun copy => .popSubject fun container => ?_
  cases container with
  | array | struct => exact .modifySequence _ _
  | null | boolean | integer | byteString | pointer | buffer | map => exact (Reads.throw _).keeps _

theorem keepsBelow_setItem : KeepsBelow 2 setItem := by
  refine .pop fun item => .copyStruct fun value => .pop fun key => .popSubject fun container => ?_
  have h := afterReading_keeps (AllBut container.object?)
  refine h.bind .heap fun heap => ?_
  cases container with
  | array | struct => exact h.bind (.orFault _) fun _ => Keeps.modifySequence _ _
  | map => exact Keeps.modifyMap _ _
  | buffer =>
    refine h.bind (.orFault _) fun _ => h.bind (.orFault _) fun index => h.bind (.orFault _) fun _ =>
      h.bind (.orFault _) fun v => ?_
    split
    · exact Keeps.modifyBuffer _ _
    · exact h.throw _
  | null | boolean | integer | byteString | pointer => exact h.throw _

theorem keepsBelow_reverseItems : KeepsBelow 0 reverseItems := by
  refine .popSubject fun container => ?_
  cases container with
  | array | struct => exact .modifySequence _ _
  | buffer => exact .modifyBuffer _ _
  | null | boolean | integer | byteString | pointer | map => exact (Reads.throw _).keeps _

theorem keepsBelow_remove : KeepsBelow 1 remove := by
  refine .pop fun key => .popSubject fun container => ?_
  have h := afterReading_keeps (AllBut container.object?)
  refine h.bind .heap fun heap => ?_
  cases container with
  | array | struct => exact h.bind (.orFault _) fun _ => Keeps.modifySequence _ _
  | map => exact Keeps.modifyMap _ _
  | null | boolean | integer | byteString | pointer | buffer => exact h.throw _

theorem keepsBelow_clearItems : KeepsBelow 0 clearItems := by
  refine .popSubject fun container => ?_
  cases container with
  | array | struct => exact .modifySequence _ _
  | map => exact .modifyMap _ _
  | null | boolean | integer | byteString | pointer | buffer => exact (Reads.throw _).keeps _

theorem keepsBelow_popItem : KeepsBelow 0 popItem := by
  refine .popSubject fun container => ?_
  have h := afterReading_keeps (AllBut container.object?)
  cases container with
  | array r | struct r =>
    refine h.bind .heap fun heap => ?_
    split
    · exact fun _ _ => Heap.Keeps.modifySequence r _
    · exact h.throw _
  | null | boolean | integer | byteString | pointer | buffer | map => exact h.throw _

end Compound

theorem CompoundOp.keepsBelow {op : CompoundOp} {cover : Nat} (h : op.cover? = some cover) :
    op.run.KeepsBelow cover := by
  cases op with
  | append => cases h; exact Compound.keepsBelow_append
  | setItem => cases h; exact Compound.keepsBelow_setItem
  | reverseItems => cases h; exact Compound.keepsBelow_reverseItems
  | remove => cases h; exact Compound.keepsBelow_remove
  | clearItems => cases h; exact Compound.keepsBelow_clearItems
  | popItem => cases h; exact Compound.keepsBelow_popItem
  | packMap | pack | unpack | newEmpty | newNulls | newDefaults | newMap | size | hasKey | keys | values
  | pickItem => cases h

/-! ## Instructions -/

/-- How many items lie on the compound that an instruction changes, if it changes one. -/
def coverOf? (i : Located) : Option Nat :=
  match operation i.opcode with
  | .simple (.compound op) => op.cover?
  | _ => none

/-- The item whose object an instruction changes, if it changes one. -/
def State.subject? (s : State) (i : Located) : Option Item :=
  (coverOf? i).bind (s.memory.stack.toList[·]?)

/-- A computation keeps every object. -/
def Exec.KeepsAll {α : Type} (x : Exec α) : Prop :=
  ∀ s : State, s.memory.heap.Keeps (fun _ => True) (leftBehind (x s)).memory.heap

theorem leftBehind_withMemory {α β : Type} (s : State) (f : α → β)
    (result : EStateM.Result Fault Memory α) :
    (leftBehind (s.withMemory f result)).memory.heap = heapBehind result := by
  cases result <;> rfl

namespace Exec.KeepsAll

theorem evaluate {α : Type} {x : Eval α} (h : x.Keeps fun _ => True) : KeepsAll (evaluate x) := by
  intro s
  rw [evaluate_eq, leftBehind_withMemory]
  exact h s.address s.memory

theorem reads {α : Type} {x : Exec α} (h : Reads x) : KeepsAll x := by
  intro s
  have hreads := h s
  cases hresult : x s with
  | ok a t | error fault t =>
    rw [hresult] at hreads
    exact hreads.memory.heap.keeps _

theorem bind {α β : Type} {x : Exec α} {f : α → Exec β} (hx : KeepsAll x) (hf : ∀ a, KeepsAll (f a)) :
    KeepsAll (x >>= f) := by
  intro s
  have hfirst := hx s
  rw [bind_apply]
  cases hresult : x s with
  | error fault t =>
    rw [hresult] at hfirst
    exact hfirst
  | ok a t =>
    rw [hresult] at hfirst
    exact hfirst.trans (hf a t)

theorem change {f : State → State} (hf : Change f) : KeepsAll (modify f : Exec Unit) := by
  intro s
  have hheap : (f s).memory.heap = s.memory.heap := by
    cases hf with
    | slots area slots => exact heap_withSlots s area slots
    | frames | push | statics | notify | log | address | handOut => rfl
  show s.memory.heap.Keeps _ (f s).memory.heap
  rw [hheap]
  exact .refl _

end Exec.KeepsAll

theorem afterReading_keepsAll : Exec.AfterReading fun x => Exec.KeepsAll x where
  reads := .reads
  bind hx := .bind (.reads hx)
  change hf _ := .change hf
  push item := .evaluate ((Eval.afterReading_keeps _).push item)
  followed hx _ := .bind hx fun _ => .reads fun s => .refl s

theorem keepsAll_callService (id : UInt32) : (callService id).KeepsAll := by
  unfold callService
  split
  · exact .reads (Exec.reads_throw _)
  · exact .bind (.reads (Exec.reads_evaluate reads_popNotification)) fun n => .change (.notify n)
  · exact .bind (.reads (Exec.reads_evaluate .popText)) fun text => .change (.log text)
  · exact .reads (Exec.reads_throw _)

/-- An instruction keeps every object but that of its subject, whether it faults or not. -/
theorem keeps_execute (i : Located) (s : State) :
    s.memory.heap.Keeps (AllBut ((s.subject? i).bind Item.object?))
      (leftBehind (execute i s)).memory.heap := by
  cases hcover : coverOf? i with
  | some cover =>
    obtain ⟨op, hop, hchange⟩ : ∃ op, operation i.opcode = .simple (.compound op)
        ∧ op.cover? = some cover := by
      unfold coverOf? at hcover
      split at hcover
      · next op hop => exact ⟨op, hop, hcover⟩
      · cases hcover
    rw [execute_simple hop, leftBehind_withMemory]
    unfold State.subject?
    rw [hcover]
    exact op.keepsBelow hchange s.address s.memory
  | none =>
    have hall : (execute i).KeepsAll := by
      refine execute_afterReading afterReading_keepsAll i (fun op hop => ?_)
        fun _ => keepsAll_callService _
      refine .evaluate (op.afterReading (Eval.afterReading_keeps _) _ fun change hchange hne => ?_)
      unfold coverOf? at hcover
      rw [hop, hchange] at hcover
      exact absurd hcover hne
    exact (hall s).mono fun _ _ => trivial

/-! ## Instructions after each other -/

theorem leftBehind_settle (i : Located) (flow : Flow) (s : State) :
    ∃ address, leftBehind (settle i flow s) = { s with address } := by
  rw [settle_eq]
  split
  · exact ⟨s.address, rfl⟩
  · split
    · exact ⟨_, rfl⟩
    · exact ⟨s.address, rfl⟩

/-- Machines to which instructions lead whose subjects may be changed. Between two of them the machine
may become another one in which all objects are as they were. -/
inductive Later (allowed : Item → Prop) (s : State) : State → Prop
  | here : Later allowed s s
  | outside {t u : State} (h : Later allowed s t) (hgrown : t.memory.heap.Extends u.memory.heap) :
    Later allowed s u
  | instruction {t : State} (h : Later allowed s t) (i : Located)
    (hsubject : ∀ item, t.subject? i = some item → allowed item) :
    Later allowed s (leftBehind (execute i t))

namespace Later

variable {allowed : Item → Prop} {s t : State}

/-- A step carries out the current instruction. -/
theorem step (h : Later allowed s t)
    (hsubject : ∀ i, t.current = .ok i → ∀ item, t.subject? i = some item → allowed item) :
    Later allowed s (leftBehind (Machine.step t)) := by
  cases hcurrent : t.current with
  | error fault =>
    rw [step_of_current_error hcurrent]
    exact h
  | ok i =>
    have hthere := h.instruction i (hsubject i hcurrent)
    rw [step_eq hcurrent]
    cases hresult : execute i t with
    | error fault u =>
      rw [hresult] at hthere
      exact hthere
    | ok flow u =>
      rw [hresult] at hthere
      obtain ⟨address, hsettled⟩ := leftBehind_settle i flow u
      dsimp only
      rw [hsettled]
      exact hthere.outside (.refl _)

/-- Objects that no instruction was to change are as they were. -/
theorem keeps (h : Later allowed s t) :
    s.memory.heap.Keeps (fun object => ∀ item, allowed item → item.object? ≠ some object)
      t.memory.heap := by
  induction h with
  | here => exact .refl _
  | outside _ hgrown ih => exact ih.trans (hgrown.keeps _)
  | @instruction t _ i hsubject ih =>
    refine ih.trans ((keeps_execute i t).mono fun object hother hsame => ?_)
    obtain ⟨item, hitem, hobject⟩ := Option.bind_eq_some_iff.mp hsame
    exact hother item (hsubject item hitem) hobject

end Later

end StackContract.Machine
