import StackContract.Proofs.Changes
/-!
# What a fault leaves as it was

An instruction that faults has popped operands, and that is all (`unharmed_of_execute_error`).

Computations are put together of those that only read, which pop items and make objects that nothing
refers to yet (`Eval.Reads`), and those that change what there is, which do not fail (`Eval.Total`).
What reads first and changes last does no harm when it fails (`Eval.Harmless`).
-/

namespace StackContract.Machine

open Script

/-! ## Memory -/

/-- Every object has kept its place and its contents. -/
structure Heap.Extends (old new : Heap) : Prop where
  buffers : old.buffers.toList <+: new.buffers.toList
  sequences : old.sequences.toList <+: new.sequences.toList
  maps : old.maps.toList <+: new.maps.toList

namespace Heap.Extends

variable {first second third : Heap} {r : Nat}

theorem refl (heap : Heap) : heap.Extends heap :=
  ⟨List.prefix_refl _, List.prefix_refl _, List.prefix_refl _⟩

theorem trans (h : first.Extends second) (h' : second.Extends third) : first.Extends third :=
  ⟨h.buffers.trans h'.buffers, h.sequences.trans h'.sequences, h.maps.trans h'.maps⟩

theorem getD_eq {α : Type} {xs ys : Array α} {d : α} (h : xs.toList <+: ys.toList) (hr : r < xs.size) :
    ys.getD r d = xs.getD r d := by
  have hthere : r < ys.size := Nat.lt_of_lt_of_le hr h.length_le
  rw [Array.getD_eq_getD_getElem?, Array.getD_eq_getD_getElem?, Array.getElem?_eq_getElem hr,
    Array.getElem?_eq_getElem hthere]
  exact (h.getElem hr).symm

theorem buffer_eq (h : first.Extends second) (hr : r < first.buffers.size) :
    second.buffer r = first.buffer r :=
  getD_eq h.buffers hr

theorem sequence_eq (h : first.Extends second) (hr : r < first.sequences.size) :
    second.sequence r = first.sequence r :=
  getD_eq h.sequences hr

theorem map_eq (h : first.Extends second) (hr : r < first.maps.size) : second.map r = first.map r :=
  getD_eq h.maps hr

theorem newBuffer (heap : Heap) (bytes : Array UInt8) : heap.Extends (heap.newBuffer bytes).2 :=
  ⟨⟨[bytes], Array.toList_push.symm⟩, List.prefix_refl _, List.prefix_refl _⟩

theorem newSequence (heap : Heap) (items : Array Item) : heap.Extends (heap.newSequence items).2 :=
  ⟨List.prefix_refl _, ⟨[items], Array.toList_push.symm⟩, List.prefix_refl _⟩

theorem newMap (heap : Heap) (entries : List (Item × Item)) : heap.Extends (heap.newMap entries).2 :=
  ⟨List.prefix_refl _, List.prefix_refl _, ⟨[entries], Array.toList_push.symm⟩⟩

end Heap.Extends

/-- Items are gone from the top of the stack, and there may be objects that were not there before. -/
structure Memory.Reduces (m m' : Memory) : Prop where
  stack : m'.stack.toList <:+ m.stack.toList
  heap : m.heap.Extends m'.heap

namespace Memory.Reduces

variable {m m' m'' : Memory}

theorem refl (m : Memory) : m.Reduces m :=
  ⟨List.suffix_refl _, .refl _⟩

theorem trans (h : m.Reduces m') (h' : m'.Reduces m'') : m.Reduces m'' :=
  ⟨h'.stack.trans h.stack, h.heap.trans h'.heap⟩

end Memory.Reduces

/-! ## Computations on the memory -/

namespace Eval

variable {α β : Type}

/-- A computation that reduces the memory, whether it fails or not. -/
def Reads (x : Eval α) : Prop :=
  ∀ address m, match x address m with
    | .ok _ m' => m.Reduces m'
    | .error _ m' => m.Reduces m'

/-- A computation that does not fail. -/
def Total (x : Eval α) : Prop :=
  ∀ address m, ∃ a m', x address m = .ok a m'

/-- A computation that has only reduced the memory when it fails. -/
def Harmless (x : Eval α) : Prop :=
  ∀ ⦃address m fault m'⦄, x address m = .error fault m' → m.Reduces m'

namespace Total

theorem modify (f : Memory → Memory) : Total (modify f) := fun _ m => ⟨(), f m, rfl⟩

theorem bind {x : Eval α} {f : α → Eval β} (hx : Total x) (hf : ∀ a, Total (f a)) :
    Total (x >>= f) := by
  intro address m
  obtain ⟨a, m', hresult⟩ := hx address m
  rw [bind_apply, hresult]
  exact hf a address m'

theorem push (item : Item) : Total (Eval.push item) := .modify _

end Total

namespace Reads

theorem pure (a : α) : Reads (Pure.pure a) := fun _ m => .refl m

theorem throw (fault : Fault) : Reads (MonadExcept.throw fault : Eval α) := fun _ m => .refl m

theorem bind {x : Eval α} {f : α → Eval β} (hx : Reads x) (hf : ∀ a, Reads (f a)) :
    Reads (x >>= f) := by
  intro address m
  have hfirst := hx address m
  rw [bind_apply]
  cases hresult : x address m with
  | error fault m' =>
    rw [hresult] at hfirst
    exact hfirst
  | ok a m' =>
    rw [hresult] at hfirst
    have hrest := hf a address m'
    dsimp only at hfirst ⊢
    cases hresult' : f a address m' with
    | error fault m'' | ok b m'' =>
      rw [hresult'] at hrest
      exact hfirst.trans hrest

theorem ite {c : Prop} [Decidable c] {x y : Eval α} (hx : Reads x) (hy : Reads y) :
    Reads (if c then x else y) := by
  split
  · exact hx
  · exact hy

theorem get : Reads (MonadState.get : Eval Memory) := fun _ m => .refl m

theorem heap : Reads Eval.heap := fun _ m => .refl m

theorem underflow : Reads (Eval.underflow : Eval α) := fun _ m => .refl m

theorem orFault (x : Except Fault α) : Reads (Eval.orFault x) := by
  cases x with
  | ok a => exact .pure a
  | error fault => exact .throw fault

/-! ### The stack -/

theorem pop : Reads Eval.pop := by
  intro address m
  rw [Eval.pop_eq]
  cases hpop : m.stack.pop? with
  | none => exact .refl m
  | some top =>
    have hstack : m.stack.toList = _ := congrArg Stack.toList (Stack.pop?_eq_some_iff.mp hpop)
    exact ⟨⟨[top.1], hstack.symm⟩, .refl _⟩

theorem popMany (n : Nat) : Reads (Eval.popMany n) := by
  intro address m
  rw [Eval.popMany_eq]
  unfold Stack.popList?
  by_cases hn : n ≤ m.stack.size
  · rw [if_pos hn]
    exact ⟨List.drop_suffix n _, .refl _⟩
  · rw [if_neg hn]
    exact ⟨List.nil_suffix, .refl _⟩

theorem popInteger : Reads Eval.popInteger :=
  .bind .pop fun _ => .bind .heap fun _ => .orFault _

theorem popBoolean : Reads Eval.popBoolean :=
  .bind .pop fun _ => .orFault _

theorem popBytes : Reads Eval.popBytes :=
  .bind .pop fun _ => .bind .heap fun _ => .orFault _

theorem popText : Reads Eval.popText :=
  .bind .pop fun _ => .bind .heap fun _ => .orFault _

theorem popCount : Reads Eval.popCount :=
  .bind .popInteger fun _ => .ite (.pure _) (.bind .get fun _ => .throw _)

theorem popPlace : Reads Machine.popPlace :=
  .bind .popCount fun _ => .ite (.pure _) (.throw _)

/-! ### New objects -/

theorem newBuffer (bytes : List UInt8) : Reads (Eval.newBuffer bytes) := fun _ m =>
  ⟨List.suffix_refl _, .newBuffer m.heap bytes.toArray⟩

theorem newArray (items : Array Item) : Reads (Eval.newArray items) := fun _ m =>
  ⟨List.suffix_refl _, .newSequence m.heap items⟩

theorem newStruct (items : Array Item) : Reads (Eval.newStruct items) := fun _ m =>
  ⟨List.suffix_refl _, .newSequence m.heap items⟩

theorem newMap (entries : List (Item × Item)) : Reads (Eval.newMap entries) := fun _ m =>
  ⟨List.suffix_refl _, .newMap m.heap entries⟩

theorem listMapM {f : α → Eval β} (hf : ∀ a, Reads (f a)) (xs : List α) : Reads (xs.mapM f) := by
  induction xs with
  | nil => exact .pure []
  | cons x xs ih =>
    rw [List.mapM_cons]
    exact .bind (hf x) fun _ => .bind ih fun _ => .pure _

theorem arrayMapM {f : α → Eval β} (hf : ∀ a, Reads (f a)) (xs : Array α) : Reads (xs.mapM f) := by
  rw [Array.mapM_eq_mapM_toList]
  exact .bind (.listMapM hf xs.toList) fun _ => .pure _

theorem copyWithin (depth : Nat) (item : Item) : Reads (Eval.copyWithin depth item) := by
  induction depth generalizing item with
  | zero => exact .pure item
  | succ depth ih =>
    cases item with
    | struct r => exact .bind .heap fun _ => .bind (.arrayMapM ih _) fun _ => .newStruct _
    | null | boolean | integer | byteString | pointer | buffer | array | map => exact .pure _

theorem copyStruct (item : Item) : Reads (Eval.copyStruct item) :=
  .bind .heap fun _ => .copyWithin _ item

end Reads

namespace Harmless

theorem reads {x : Eval α} (h : Reads x) : Harmless x := by
  intro address m fault m' hresult
  have hreads := h address m
  rw [hresult] at hreads
  exact hreads

theorem total {x : Eval α} (h : Total x) : Harmless x := by
  intro address m fault m' hresult
  obtain ⟨a, m'', hok⟩ := h address m
  rw [hok] at hresult
  cases hresult

theorem bind {x : Eval α} {f : α → Eval β} (hx : Reads x) (hf : ∀ a, Harmless (f a)) :
    Harmless (x >>= f) := by
  intro address m fault m' hresult
  have hfirst := hx address m
  rw [bind_apply] at hresult
  cases hthere : x address m with
  | error fault' m'' =>
    rw [hthere] at hfirst hresult
    cases hresult
    exact hfirst
  | ok a m'' =>
    rw [hthere] at hfirst hresult
    exact hfirst.trans (hf a hresult)

theorem modifyHeap (f : Heap → Heap) : Harmless (Eval.modifyHeap f) := .total (.modify _)

end Harmless

/-- Whether a relation holds is only read. -/
theorem reads_test (relation : Relation) : Reads relation.test :=
  .bind .popInteger fun _ => .bind .popInteger fun _ => .pure _

/-! ### What reads first -/

/-- A property of computations that reading has, and a change of the stack, and what has it once something
was read. -/
structure AfterReading (P : ∀ {α : Type}, Eval α → Prop) : Prop where
  reads : ∀ {α : Type} {x : Eval α}, Reads x → P x
  bind : ∀ {α β : Type} {x : Eval α} {f : α → Eval β}, Reads x → (∀ a, P (f a)) → P (x >>= f)
  restack : ∀ f : Stack Item → Stack Item,
    P (modify fun m => { m with stack := f m.stack } : Eval Unit)

theorem afterReading_harmless : AfterReading fun x => Harmless x where
  reads := .reads
  bind := .bind
  restack _ := .total (.modify _)

namespace AfterReading

variable {P : ∀ {α : Type}, Eval α → Prop}

theorem ite (_ : AfterReading P) {c : Prop} [Decidable c] {x y : Eval α} (hx : P x) (hy : P y) :
    P (if c then x else y) := by
  split
  · exact hx
  · exact hy

variable (h : AfterReading P)

include h

theorem throw (fault : Fault) : P (MonadExcept.throw fault : Eval α) := h.reads (.throw fault)

theorem push (item : Item) : P (Eval.push item) := h.restack (·.push item)

theorem pushBoolean (b : Bool) : P (Eval.pushBoolean b) := h.push _

/-- What is made is pushed last. -/
theorem pushNew {x : Eval Item} (hx : Reads x) : P (x >>= Eval.push) := h.bind hx h.push

theorem pushBuffer (bytes : List UInt8) : P (Eval.pushBuffer bytes) := h.pushNew (.newBuffer bytes)

theorem rearrange (f : Stack Item → Option (Stack Item)) : P (Machine.rearrange f) := by
  refine h.bind .get fun m => ?_
  cases f m.stack with
  | none => exact h.reads .underflow
  | some stack => exact h.restack fun _ => stack

theorem shuffle (op : Shuffle) : P op.run := by
  cases op with
  | depth => exact h.bind .get fun _ => h.push _
  | drop => exact h.bind .pop fun _ => h.reads (.pure _)
  | nip => exact h.bind .pop fun _ => h.bind .pop fun _ => h.push _
  | clear => exact h.restack fun _ => .empty
  | dropAt | pick | roll => exact h.bind .popPlace fun _ => h.rearrange _
  | reverseCount => exact h.bind .popCount fun _ => h.rearrange _
  | dup | «over» | tuck | swap | rotate | reverse => exact h.rearrange _

theorem unary (op : UnaryOp) : P op.run :=
  h.bind .popInteger fun _ => h.bind (.orFault _) fun _ => h.push _

theorem binary (op : BinaryOp) : P op.run :=
  h.bind .popInteger fun _ => h.bind .popInteger fun _ => h.bind (.orFault _) fun _ => h.push _

theorem compare (relation : Relation) : P relation.compare :=
  h.bind .pop fun _ => h.bind .pop fun _ => h.ite (h.pushBoolean _)
    (h.bind .heap fun _ => h.bind (.orFault _) fun _ => h.bind (.orFault _) fun _ => h.pushBoolean _)

theorem bytes (op : ByteOp) : P op.run := by
  cases op with
  | newBuffer => exact h.bind .popCount fun _ => h.pushBuffer _
  | concatenate => exact h.bind .popBytes fun _ => h.bind .popBytes fun _ => h.pushBuffer _
  | slice =>
    exact h.bind .popCount fun _ => h.bind .popCount fun _ => h.bind .popBytes fun _ =>
      h.bind (.orFault _) fun _ => h.pushBuffer _
  | left =>
    exact h.bind .popCount fun _ => h.bind .popBytes fun _ => h.bind (.orFault _) fun _ =>
      h.pushBuffer _
  | right =>
    exact h.bind .popCount fun _ => h.bind .popBytes fun _ =>
      h.ite (h.bind (.throw _) fun _ => h.pushBuffer _) (h.pushBuffer _)

end AfterReading

end Eval

/-! ## Compounds -/

namespace Compound

open Eval

theorem reads_newSequence (isStruct : Bool) (items : Array Item) :
    Reads (newSequence isStruct items) := by
  cases isStruct with
  | false => exact .newArray items
  | true => exact .newStruct items

theorem reads_popEntries (n : Nat) (entries : List (Item × Item)) : Reads (popEntries entries n) := by
  induction n generalizing entries with
  | zero => exact .pure entries
  | succ n ih => exact .bind .pop fun _ => .bind .pop fun _ => .bind .heap fun _ => ih _

theorem reads_convert (kind : ItemKind) (item : Item) : Reads (convert kind item) := by
  unfold convert
  refine .ite ?_ ?_
  · split
    · exact .bind .heap fun _ => .newBuffer _
    · exact .pure _
  · refine .bind .heap fun heap => ?_
    split
    · exact .bind (.orFault _) fun _ => .pure _
    · exact .bind (.orFault _) fun _ => .pure _
    · exact .bind (.orFault _) fun _ => .pure _
    · exact .bind (.orFault _) fun _ => .newBuffer _
    · exact .newArray _
    · exact .newStruct _
    · exact .throw _

section

variable {P : ∀ {α : Type}, Eval α → Prop} (h : AfterReading P)

include h

theorem newFilled_afterReading (isStruct : Bool) (item : Item) : P (newFilled isStruct item) :=
  h.bind .popCount fun _ => h.pushNew (reads_newSequence isStruct _)

theorem unpack_afterReading : P unpack := by
  refine h.bind .pop fun item => ?_
  cases item with
  | array r | struct r =>
    exact h.bind .heap fun heap => h.restack fun stack =>
      (stack.pushList (heap.sequence r).toList).push (.ofNat (heap.sequence r).size)
  | null | boolean | integer | byteString | pointer | buffer | map => exact h.throw _

theorem size_afterReading : P size := by
  refine h.bind .pop fun item => h.bind .heap fun heap => ?_
  cases item with
  | array | struct | map | buffer => exact h.push _
  | null | boolean | integer | byteString | pointer => exact h.bind (.orFault _) fun _ => h.push _

theorem hasKey_afterReading : P hasKey := by
  refine h.bind .pop fun key => h.bind .pop fun container => h.bind .heap fun heap => ?_
  cases container with
  | array | struct => exact h.bind (.orFault _) fun _ => h.pushBoolean _
  | map => exact h.pushBoolean _
  | null | boolean | integer | byteString | pointer | buffer =>
    exact h.bind (.orFault _) fun _ =>
      h.ite (h.pushBoolean _) (h.bind (.orFault _) fun _ => h.pushBoolean _)

theorem keys_afterReading : P keys := by
  refine h.bind .pop fun item => ?_
  cases item with
  | map => exact h.bind .heap fun _ => h.pushNew (.newArray _)
  | null | boolean | integer | byteString | pointer | buffer | array | struct => exact h.throw _

theorem values_afterReading : P values := by
  refine h.bind .pop fun item => ?_
  cases item with
  | array | struct | map =>
    exact h.bind .heap fun _ => h.bind (.arrayMapM .copyStruct _) fun _ => h.pushNew (.newArray _)
  | null | boolean | integer | byteString | pointer | buffer => exact h.throw _

theorem pickItem_afterReading : P pickItem := by
  refine h.bind .pop fun key => h.bind .pop fun container => h.bind .heap fun heap => ?_
  cases container with
  | array | struct => exact h.bind (.orFault _) fun _ => h.push _
  | map =>
    dsimp only
    split
    · exact h.push _
    · exact h.throw _
  | null | boolean | integer | byteString | pointer | buffer =>
    exact h.bind (.orFault _) fun _ => h.bind (.orFault _) fun _ => h.push _

end

/-! ### Changes -/

theorem harmless_append : Harmless append := by
  refine .bind .pop fun item => .bind (.copyStruct item) fun copy => .bind .pop fun container => ?_
  cases container with
  | array | struct => exact .modifyHeap _
  | null | boolean | integer | byteString | pointer | buffer | map => exact .reads (.throw _)

theorem harmless_setItem : Harmless setItem := by
  refine .bind .pop fun item => .bind (.copyStruct item) fun value => .bind .pop fun key =>
    .bind .pop fun container => .bind .heap fun heap => ?_
  cases container with
  | array | struct => exact .bind (.orFault _) fun _ => .modifyHeap _
  | map => exact .modifyHeap _
  | buffer =>
    refine .bind (.orFault _) fun _ => .bind (.orFault _) fun index => .bind (.orFault _) fun _ =>
      .bind (.orFault _) fun v => ?_
    split
    · exact .modifyHeap _
    · exact .reads (.throw _)
  | null | boolean | integer | byteString | pointer => exact .reads (.throw _)

theorem harmless_reverseItems : Harmless reverseItems := by
  refine .bind .pop fun item => ?_
  cases item with
  | array | struct | buffer => exact .modifyHeap _
  | null | boolean | integer | byteString | pointer | map => exact .reads (.throw _)

theorem harmless_remove : Harmless remove := by
  refine .bind .pop fun key => .bind .pop fun container => .bind .heap fun heap => ?_
  cases container with
  | array | struct => exact .bind (.orFault _) fun _ => .modifyHeap _
  | map => exact .modifyHeap _
  | null | boolean | integer | byteString | pointer | buffer => exact .reads (.throw _)

theorem harmless_clearItems : Harmless clearItems := by
  refine .bind .pop fun item => ?_
  cases item with
  | array | struct | map => exact .modifyHeap _
  | null | boolean | integer | byteString | pointer | buffer => exact .reads (.throw _)

theorem harmless_popItem : Harmless popItem := by
  refine .bind .pop fun container => ?_
  cases container with
  | array | struct =>
    refine .bind .heap fun heap => ?_
    split
    · exact .total (.bind (.modify _) fun _ => .push _)
    · exact .reads (.throw _)
  | null | boolean | integer | byteString | pointer | buffer | map => exact .reads (.throw _)

end Compound

/-- How many items lie on the compound that an operation changes, if it changes one. -/
def CompoundOp.cover? : CompoundOp → Option Nat
  | .reverseItems | .clearItems | .popItem => some 0
  | .append | .remove => some 1
  | .setItem => some 2
  | _ => none

section

variable {P : ∀ {α : Type}, Eval α → Prop} (h : Eval.AfterReading P)

include h

theorem CompoundOp.afterReading (op : CompoundOp) (hop : op.cover? ≠ none → P op.run) : P op.run := by
  cases op with
  | append | setItem | reverseItems | remove | clearItems | popItem => exact hop nofun
  | packMap =>
    exact h.bind .popCount fun _ => h.bind (Compound.reads_popEntries _ _) fun _ => h.pushNew (.newMap _)
  | pack isStruct =>
    exact h.bind .popCount fun _ => h.bind (.popMany _) fun _ =>
      h.pushNew (Compound.reads_newSequence isStruct _)
  | unpack => exact Compound.unpack_afterReading h
  | newEmpty isStruct => exact h.pushNew (Compound.reads_newSequence isStruct _)
  | newNulls | newDefaults => exact Compound.newFilled_afterReading h _ _
  | newMap => exact h.pushNew (.newMap _)
  | size => exact Compound.size_afterReading h
  | hasKey => exact Compound.hasKey_afterReading h
  | keys => exact Compound.keys_afterReading h
  | values => exact Compound.values_afterReading h
  | pickItem => exact Compound.pickItem_afterReading h

theorem SimpleOp.afterReading (i : Instruction) (op : SimpleOp)
    (hop : ∀ change : CompoundOp, op = .compound change → change.cover? ≠ none → P change.run) :
    P (op.run i) := by
  cases op with
  | pushInteger =>
    unfold SimpleOp.run
    dsimp only
    split
    · exact h.push _
    · exact h.throw _
  | pushBoolean | pushNull | pushData => exact h.push _
  | nop => exact h.reads (.pure ())
  | shuffle op => exact h.shuffle op
  | unary op => exact h.unary op
  | binary op => exact h.binary op
  | numeric relation => exact h.bind (Eval.reads_test relation) fun _ => h.pushBoolean _
  | ordered relation => exact h.compare relation
  | within =>
    exact h.bind .popInteger fun _ => h.bind .popInteger fun _ => h.bind .popInteger fun _ =>
      h.pushBoolean _
  | equal => exact h.bind .pop fun _ => h.bind .pop fun _ => h.bind .heap fun _ => h.pushBoolean _
  | not => exact h.bind .popBoolean fun _ => h.pushBoolean _
  | join => exact h.bind .popBoolean fun _ => h.bind .popBoolean fun _ => h.pushBoolean _
  | nonzero => exact h.bind .popInteger fun _ => h.pushBoolean _
  | bytes op => exact h.bytes op
  | compound op => exact op.afterReading h (hop op rfl)
  | newDefaults => exact CompoundOp.afterReading h (.newDefaults (i.operand.headD 0)) fun hnone => absurd rfl hnone
  | isNull => exact h.bind .pop fun _ => h.pushBoolean _
  | isType => exact h.bind (.orFault _) fun _ => h.bind .pop fun _ => h.pushBoolean _
  | convert =>
    exact h.bind (.orFault _) fun _ => h.bind .pop fun _ => h.pushNew (Compound.reads_convert _ _)

end

/-- Operations that change a compound do so last. -/
theorem CompoundOp.harmless_of_cover {op : CompoundOp} (h : op.cover? ≠ none) : op.run.Harmless := by
  cases op with
  | append => exact Compound.harmless_append
  | setItem => exact Compound.harmless_setItem
  | reverseItems => exact Compound.harmless_reverseItems
  | remove => exact Compound.harmless_remove
  | clearItems => exact Compound.harmless_clearItems
  | popItem => exact Compound.harmless_popItem
  | packMap | pack | unpack | newEmpty | newNulls | newDefaults | newMap | size | hasKey | keys | values
  | pickItem => exact absurd rfl h

theorem SimpleOp.harmless (i : Instruction) (op : SimpleOp) : (op.run i).Harmless :=
  op.afterReading Eval.afterReading_harmless i fun _ _ h => CompoundOp.harmless_of_cover h

/-! ## Computations on the machine -/

/-- The machine is as it was, but for its memory, which is reduced. -/
structure State.Reduces (s t : State) : Prop where
  rest : t = { s with memory := t.memory }
  memory : s.memory.Reduces t.memory

namespace State.Reduces

variable {s t u : State}

theorem refl (s : State) : s.Reduces s :=
  ⟨rfl, .refl _⟩

theorem trans (h : s.Reduces t) (h' : t.Reduces u) : s.Reduces u :=
  ⟨by rw [h'.rest, h.rest], h.memory.trans h'.memory⟩

end State.Reduces

namespace Exec

variable {α β : Type}

/-- A computation that reduces the machine, whether it fails or not. -/
def Reads (x : Exec α) : Prop :=
  ∀ s, match x s with
    | .ok _ t => s.Reduces t
    | .error _ t => s.Reduces t

/-- A computation that has only reduced the machine when it fails. -/
def Harmless (x : Exec α) : Prop :=
  ∀ ⦃s fault t⦄, x s = .error fault t → s.Reduces t

theorem reads_get : Reads (get : Exec State) := fun s => .refl s

theorem reads_throw (fault : Fault) : Reads (throw fault : Exec α) := fun s => .refl s

theorem reads_orFault (x : Except Fault α) : Reads (orFault x) := by
  intro s
  cases x <;> exact .refl s

theorem reads_evaluate {x : Eval α} (h : x.Reads) : Reads (evaluate x) := by
  intro s
  have hreads := h s.address s.memory
  rw [evaluate_eq]
  cases hresult : x s.address s.memory with
  | ok a m | error fault m =>
    rw [hresult] at hreads
    exact ⟨rfl, hreads⟩

namespace Harmless

theorem reads {x : Exec α} (h : Reads x) : Harmless x := by
  intro s fault t hresult
  have hreads := h s
  rw [hresult] at hreads
  exact hreads

theorem evaluate {x : Eval α} (h : x.Harmless) : Harmless (evaluate x) := by
  intro s fault t hresult
  rw [evaluate_eq] at hresult
  cases hthere : x s.address s.memory with
  | ok a m =>
    rw [hthere] at hresult
    cases hresult
  | error fault m =>
    rw [hthere] at hresult
    cases hresult
    exact ⟨rfl, h hthere⟩

theorem modify (f : State → State) : Harmless (modify f : Exec Unit) := by
  rintro s fault t ⟨⟩

theorem bind {x : Exec α} {f : α → Exec β} (hx : Reads x) (hf : ∀ a, Harmless (f a)) :
    Harmless (x >>= f) := by
  intro s fault t hresult
  have hfirst := hx s
  rw [bind_apply] at hresult
  cases hthere : x s with
  | error fault' u =>
    rw [hthere] at hfirst hresult
    cases hresult
    exact hfirst
  | ok a u =>
    rw [hthere] at hfirst hresult
    exact hfirst.trans (hf a hresult)

/-- Behind the last computation that may fail there is only a value. -/
theorem followed {x : Exec α} (hx : Harmless x) (b : β) : Harmless (x >>= fun _ => pure b) := by
  intro s fault t hresult
  rw [bind_apply] at hresult
  cases hthere : x s with
  | error fault' u =>
    rw [hthere] at hresult
    cases hresult
    exact hx hthere
  | ok a u =>
    rw [hthere] at hresult
    cases hresult

end Harmless

/-- A property of computations that reading has, and a change in silence, and what has it once something
was read. -/
structure AfterReading (P : ∀ {α : Type}, Exec α → Prop) : Prop where
  reads : ∀ {α : Type} {x : Exec α}, Reads x → P x
  bind : ∀ {α β : Type} {x : Exec α} {f : α → Exec β}, Reads x → (∀ a, P (f a)) → P (x >>= f)
  change : ∀ {f : State → State}, Change f → (∀ s, (f s).notifications = s.notifications) →
    P (modify f : Exec Unit)
  push : ∀ item : Item, P (evaluate (Eval.push item))
  followed : ∀ {α β : Type} {x : Exec α}, P x → ∀ b : β, P (x >>= fun _ => pure b)

theorem afterReading_harmless : AfterReading fun x => Harmless x where
  reads := .reads
  bind := .bind
  change _ _ := .modify _
  push item := .evaluate (.total (.push item))
  followed := .followed

end Exec

/-! ## Instructions -/

open Exec

theorem reads_popNotification : popNotification.Reads := by
  refine .bind .pop fun name => .bind .pop fun values => .bind .heap fun heap => ?_
  cases values with
  | array | struct => exact .bind (.orFault _) fun _ => .pure _
  | null | boolean | integer | byteString | pointer | buffer | map => exact .throw _

theorem reads_popMessage (hasMessage : Bool) : (popMessage hasMessage).Reads := by
  cases hasMessage with
  | false => exact .pure none
  | true => exact .bind .popText fun _ => .pure _

theorem reads_assertTop (hasMessage : Bool) : (assertTop hasMessage).Reads :=
  .bind (reads_popMessage hasMessage) fun _ => .bind .popBoolean fun _ => .ite (.pure _) (.throw _)

theorem reads_popPointer : popPointer.Reads := by
  refine .bind .pop fun item => ?_
  cases item with
  | pointer address => exact .pure address
  | null | boolean | integer | byteString | buffer | array | struct | map => exact .throw _

section

variable {P : ∀ {α : Type}, Exec α → Prop}

theorem Exec.AfterReading.ite (_ : AfterReading P) {α : Type} {c : Prop} [Decidable c] {x y : Exec α}
    (hx : P x) (hy : P y) : P (if c then x else y) := by
  split
  · exact hx
  · exact hy

variable (h : AfterReading P)

include h

theorem Exec.AfterReading.throw {α : Type} (fault : Fault) : P (MonadExcept.throw fault : Exec α) :=
  h.reads (reads_throw fault)

theorem Exec.AfterReading.pure {α : Type} (a : α) : P (Pure.pure a : Exec α) :=
  h.reads fun s => .refl s

theorem Exec.AfterReading.andNext {x : Exec Unit} (hx : P x) : P (Machine.andNext x) := by
  unfold Machine.andNext
  exact h.followed hx Flow.next

theorem jumpTo_afterReading (i : Located) : P (jumpTo i) :=
  h.bind reads_get fun _ => h.bind (reads_orFault _) fun _ => h.pure _

theorem enter_afterReading (i : Located) (target : Nat) : P (enter i target) := by
  have hpush : P (do
      modify fun state => { state with frames := state.frames.push { returnTo := some i.next } }
      return .enter target : Exec Flow) := h.followed (h.change (.push _) fun _ => rfl) _
  -- both checks come before the frame
  have hinside : ∀ s : State, P (do
      if s.script.size ≤ target then throw (.invalidEntry target)
      modify fun state => { state with frames := state.frames.push { returnTo := some i.next } }
      return .enter target : Exec Flow) := fun _ => h.ite (h.bind (reads_throw _) fun _ => hpush) hpush
  exact h.bind reads_get fun s => h.ite (h.bind (reads_throw _) fun _ => hinside s) (hinside s)

theorem leave_afterReading : P leave := by
  refine h.bind reads_get fun s => ?_
  cases s.frames.pop? with
  | none => exact h.bind reads_get fun _ => h.throw _
  | some top => exact h.followed (h.change (.frames _) fun _ => rfl) _

theorem allocateStatics_afterReading (count : Nat) : P (allocateStatics count) :=
  h.bind reads_get fun _ => h.ite (h.bind (reads_throw _) fun _ => h.change (.statics _) fun _ => rfl)
    (h.change (.statics _) fun _ => rfl)

theorem allocateSlots_afterReading (locals params : Nat) : P (allocateSlots locals params) := by
  refine h.bind (reads_evaluate (.popMany params)) fun _ => h.bind reads_get fun s => ?_
  cases s.frames.pop? with
  | none => exact h.bind reads_get fun _ => h.throw _
  | some top => exact h.change (.frames _) fun _ => rfl

theorem loadSlot_afterReading (area : SlotArea) (index : UInt8) : P (loadSlot area index) := by
  refine h.bind reads_get fun _ => h.bind (reads_orFault _) fun slots => ?_
  cases slots[index.toNat]? with
  | none => exact h.throw _
  | some item => exact h.push item

theorem storeSlot_afterReading (area : SlotArea) (index : UInt8) : P (storeSlot area index) := by
  have hsilent : ∀ slots s, (State.withSlots s area slots).notifications = s.notifications := by
    intro slots s
    unfold State.withSlots
    split <;> rfl
  exact h.bind (reads_evaluate .pop) fun _ => h.bind reads_get fun _ => h.bind (reads_orFault _) fun _ =>
    h.ite (h.change (.slots _ _) (hsilent _)) (h.throw _)

theorem accessSlot_afterReading (i : Instruction) : P (accessSlot i) := by
  unfold accessSlot
  split
  · exact loadSlot_afterReading h _ _
  · exact storeSlot_afterReading h _ _
  · exact h.throw _

/-- What operations on the memory and services have, all instructions have. -/
theorem execute_afterReading (i : Located)
    (hsimple : ∀ op, operation i.opcode = .simple op → P (evaluate (op.run i.toInstruction)))
    (hservice : operation i.opcode = .service → P (callService (serviceIdOf i.toInstruction))) :
    P (execute i) := by
  unfold execute
  cases hop : operation i.opcode with
  | simple op => exact h.andNext (hsimple op hop)
  | service => exact h.andNext (hservice hop)
  | pushAddress =>
    exact h.andNext (h.bind reads_get fun _ => h.bind (reads_orFault _) fun _ => h.push _)
  | jump => exact jumpTo_afterReading h i
  | jumpIf expected =>
    exact h.bind (reads_evaluate .popBoolean) fun _ => h.ite (jumpTo_afterReading h i) (h.pure _)
  | jumpCompare relation =>
    exact h.bind (reads_evaluate (Eval.reads_test relation)) fun _ =>
      h.ite (jumpTo_afterReading h i) (h.pure _)
  | call =>
    exact h.bind reads_get fun _ => h.bind (reads_orFault _) fun target => enter_afterReading h i target
  | callPointer =>
    exact h.bind (reads_evaluate reads_popPointer) fun target => enter_afterReading h i target
  | ret => exact leave_afterReading h
  | abort hasMessage =>
    exact h.bind (reads_evaluate (reads_popMessage hasMessage)) fun _ => h.throw _
  | assert hasMessage => exact h.andNext (h.reads (reads_evaluate (reads_assertTop hasMessage)))
  | raise => exact h.bind (reads_evaluate .pop) fun _ => h.bind reads_get fun _ => h.throw _
  | initStatics => exact h.andNext (allocateStatics_afterReading h _)
  | initSlots => exact h.andNext (allocateSlots_afterReading h _ _)
  | slot => exact h.andNext (accessSlot_afterReading h _)
  | unsupported => exact h.throw _

end

theorem harmless_callService (id : UInt32) : Harmless (callService id) := by
  unfold callService
  split
  · exact .reads (reads_throw _)
  · exact .bind (reads_evaluate reads_popNotification) fun _ => .modify _
  · exact .bind (reads_evaluate .popText) fun _ => .modify _
  · exact .reads (reads_throw _)

theorem harmless_execute (i : Located) : Harmless (execute i) :=
  execute_afterReading afterReading_harmless i (fun op _ => .evaluate (op.harmless _))
    fun _ => harmless_callService _

/-- What an instruction that faults leaves behind: everything but the stack is as it was, and from the
stack there are only items gone. -/
structure Unharmed (s t : State) : Prop where
  statics : t.statics = s.statics
  frames : t.frames = s.frames
  notifications : t.notifications = s.notifications
  logs : t.logs = s.logs
  buffers : ∀ r < s.memory.heap.buffers.size, t.memory.heap.buffer r = s.memory.heap.buffer r
  sequences : ∀ r < s.memory.heap.sequences.size, t.memory.heap.sequence r = s.memory.heap.sequence r
  maps : ∀ r < s.memory.heap.maps.size, t.memory.heap.map r = s.memory.heap.map r
  stack : t.memory.stack.toList <:+ s.memory.stack.toList
  settings : t.settings = s.settings

theorem State.Reduces.unharmed {s t : State} (h : s.Reduces t) : Unharmed s t where
  statics := by rw [h.rest]
  frames := by rw [h.rest]
  notifications := by rw [h.rest]
  logs := by rw [h.rest]
  buffers _ hr := h.memory.heap.buffer_eq hr
  sequences _ hr := h.memory.heap.sequence_eq hr
  maps _ hr := h.memory.heap.map_eq hr
  stack := h.memory.stack
  settings := by rw [h.rest]; rfl

/-- An instruction that faults changes nothing but the stack. -/
theorem unharmed_of_execute_error {i : Located} {s t : State} {fault : Fault}
    (h : execute i s = .error fault t) : Unharmed s t :=
  (harmless_execute i h).unharmed

/-- A machine about to store a truth value behind the end of an array. -/
def storing : State where
  script := #[0xd0]
  memory :=
    { stack := .ofList [.boolean true, .ofNat 7, .array 0]
      heap := { sequences := #[#[.null]] } }
  frames := .ofList [{ returnTo := none }]

theorem unharmed_storing : ∃ fault t,
    execute ⟨⟨.setItem, []⟩, 0⟩ storing = .error fault t ∧ Unharmed storing t := by
  obtain ⟨fault, t, h⟩ : ∃ fault t, execute ⟨⟨.setItem, []⟩, 0⟩ storing = .error fault t :=
    ⟨_, _, rfl⟩
  exact ⟨fault, t, h, unharmed_of_execute_error h⟩

end StackContract.Machine
