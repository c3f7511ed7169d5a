import StackContract.Proofs.Nesting
/-!
# Computations keep heaps founded

Each operation on the stack and the heap keeps references inside the heap and structs out of circles
(`SimpleOp.founds`). The items that a computation has in hand are known to be below a bound, which only
grows with the heap (`Kept`).

Where an item is stored into a compound that is already there, it has been copied before, so that it
leads only to sequences that nothing else leads to (`Eval.Stores`).
-/

namespace StackContract.Machine

open Script

/-! ## Results -/

/-- The state that a computation comes to has a property at a bound that is at least as large, and so has
its value. -/
inductive Kept {σ α : Type} (I : Nat → σ → Prop) (n : Nat) (R : Nat → α → Prop) :
    EStateM.Result Fault σ α → Prop
  | ok {n' : Nat} {a : α} {s : σ} (hle : n ≤ n') (hstate : I n' s) (hvalue : R n' a) :
    Kept I n R (.ok a s)
  | error {n' : Nat} {fault : Fault} {s : σ} (hle : n ≤ n') (hstate : I n' s) :
    Kept I n R (.error fault s)

section

variable {σ α β : Type} {I : Nat → σ → Prop} {n : Nat} {R : Nat → α → Prop} {S : Nat → β → Prop}

theorem Kept.mono {n' : Nat} {result : EStateM.Result Fault σ α} (h : Kept I n' R result)
    (hle : n ≤ n') : Kept I n R result := by
  cases h with
  | ok hle' hstate hvalue => exact .ok (Nat.le_trans hle hle') hstate hvalue
  | error hle' hstate => exact .error (Nat.le_trans hle hle') hstate

theorem Kept.bind {x : EStateM Fault σ α} {f : α → EStateM Fault σ β} {s : σ}
    (h : Kept I n R (x s))
    (hf : ∀ {n'}, n ≤ n' → ∀ {a t}, R n' a → I n' t → Kept I n' S (f a t)) :
    Kept I n S ((x >>= f) s) := by
  rw [bind_apply]
  generalize x s = result at h
  cases h with
  | ok hle hstate hvalue => exact (hf hle hvalue hstate).mono hle
  | error hle hstate => exact .error hle hstate

end

/-- Any value. -/
abbrev Anything {α : Type} : Nat → α → Prop := fun _ _ => True

/-- An item in hand. -/
abbrev Inhand : Nat → Item → Prop := Item.Inside

/-- A list of items in hand. -/
abbrev AllInhand : Nat → List Item → Prop := fun n items => ∀ item ∈ items, item.Inside n

/-- Entries whose keys and values are in hand. -/
abbrev EntriesInhand : Nat → List (Item × Item) → Prop := fun n entries =>
  ∀ entry ∈ entries, entry.1.Inside n ∧ entry.2.Inside n

theorem allInhand_nil {n : Nat} : AllInhand n [] :=
  fun _ hitem => absurd hitem List.not_mem_nil

theorem AllInhand.mono {n n' : Nat} {items : List Item} (h : AllInhand n items) (hle : n ≤ n') :
    AllInhand n' items :=
  fun item hitem => (h item hitem).mono hle

theorem entriesInhand_nil {n : Nat} : EntriesInhand n [] :=
  fun _ hentry => absurd hentry List.not_mem_nil

theorem EntriesInhand.mono {n n' : Nat} {entries : List (Item × Item)} (h : EntriesInhand n entries)
    (hle : n ≤ n') : EntriesInhand n' entries :=
  fun entry hentry => ⟨(h entry hentry).1.mono hle, (h entry hentry).2.mono hle⟩

theorem allInhand_replicate {n : Nat} {item : Item} (h : item.Inside n) (count : Nat) :
    AllInhand n (Array.replicate count item).toList := by
  rw [Array.toList_replicate]
  intro other hother
  rw [List.eq_of_mem_replicate hother]
  exact h

/-- A heap in hand, whose items are in hand. -/
structure Heap.Inhand (n : Nat) (heap : Heap) : Prop where
  founded : heap.Founded
  le : heap.sequences.size ≤ n

theorem Heap.Inhand.sequence {n : Nat} {heap : Heap} (h : heap.Inhand n) (r : Nat) :
    AllInhand n (heap.sequence r).toList :=
  AllInhand.mono (h.founded.sequences r) h.le

theorem Heap.Inhand.map {n : Nat} {heap : Heap} (h : heap.Inhand n) (r : Nat) :
    EntriesInhand n (heap.map r) :=
  EntriesInhand.mono (h.founded.maps r) h.le

/-- Memory whose heap is founded, beyond a bound on its sequences, and whose stack refers to it. -/
structure Memory.Founded (n : Nat) (m : Memory) : Prop where
  le : n ≤ m.heap.sequences.size
  heap : m.heap.Founded
  stack : AllInhand m.heap.sequences.size m.stack.toList

/-- A computation keeps memory founded, and has a value of some kind. -/
def Eval.Founds {α : Type} (n : Nat) (R : Nat → α → Prop) (x : Eval α) : Prop :=
  ∀ ⦃address m⦄, m.Founded n → Kept Memory.Founded n R (x address m)

namespace Memory.Founded

variable {n : Nat} {m : Memory}

theorem full (h : m.Founded n) : m.Founded m.heap.sequences.size :=
  ⟨Nat.le_refl _, h.heap, h.stack⟩

theorem mono {n' : Nat} (h : m.Founded n') (hle : n ≤ n') : m.Founded n :=
  ⟨Nat.le_trans hle h.le, h.heap, h.stack⟩

/-- Other items may be on the stack. -/
theorem withStack (h : m.Founded n) {stack : Stack Item}
    (hstack : AllInhand m.heap.sequences.size stack.toList) : Memory.Founded n { m with stack } :=
  ⟨h.le, h.heap, hstack⟩

/-- The heap may be another one that has not shrunk. -/
theorem withHeap (h : m.Founded n) {heap : Heap} (hheap : heap.Founded)
    (hle : m.heap.sequences.size ≤ heap.sequences.size) :
    Memory.Founded n { m with heap } :=
  ⟨Nat.le_trans h.le hle, hheap, h.stack.mono hle⟩

/-- There may be one more sequence, which may be in hand then. -/
theorem newSequence (h : m.Founded n) {items : Array Item} (hitems : AllInhand n items.toList) :
    Memory.Founded (m.heap.sequences.size + 1) { m with heap := (m.heap.newSequence items).2 } := by
  have hgrown := h.withHeap (h.heap.newSequence (hitems.mono h.le))
    (Nat.le_of_lt (Nat.lt_of_lt_of_eq (Nat.lt_succ_self _) Heap.size_newSequence.symm))
  exact hgrown.full.mono (Nat.le_of_eq Heap.size_newSequence.symm)

end Memory.Founded

namespace Eval.Founds

variable {α β : Type} {n : Nat} {R : Nat → α → Prop} {S : Nat → β → Prop}

theorem pure {a : α} (h : R n a) : Founds n R (Pure.pure a) :=
  fun _ _ hm => .ok (Nat.le_refl n) hm h

theorem throw (fault : Fault) : Founds n R (MonadExcept.throw fault : Eval α) :=
  fun _ _ hm => .error (Nat.le_refl n) hm

theorem bind {x : Eval α} {f : α → Eval β} (hx : Founds n R x)
    (hf : ∀ {n'}, n ≤ n' → ∀ {a}, R n' a → Founds n' S (f a)) : Founds n S (x >>= f) :=
  fun _ _ hm => Kept.bind (hx hm) fun hle _ _ hvalue hstate => hf hle hvalue hstate

theorem ite {c : Prop} [Decidable c] {x y : Eval α} (hx : Founds n R x) (hy : Founds n R y) :
    Founds n R (if c then x else y) := by
  split
  · exact hx
  · exact hy

theorem orFault (x : Except Fault α) : Founds n Anything (Eval.orFault x) := by
  cases x with
  | ok a => exact .pure trivial
  | error fault => exact .throw fault

theorem get : Founds n Anything (MonadState.get : Eval Memory) :=
  fun _ _ hm => .ok (Nat.le_refl n) hm trivial

theorem heap : Founds n Heap.Inhand Eval.heap :=
  fun _ _ hm => .ok hm.le hm.full ⟨hm.heap, Nat.le_refl _⟩

/-! ### The stack -/

theorem pop : Founds n Inhand Eval.pop := by
  intro address m hm
  rw [Eval.pop_eq]
  cases hpop : m.stack.pop? with
  | none => exact .error (Nat.le_refl n) hm
  | some top =>
    have hstack : m.stack.toList = top.1 :: top.2.toList :=
      congrArg Stack.toList (Stack.pop?_eq_some_iff.mp hpop)
    have hitems := hm.stack
    rw [hstack] at hitems
    obtain ⟨htop, hrest⟩ := List.forall_mem_cons.mp hitems
    exact .ok hm.le (hm.full.withStack hrest) htop

theorem popMany (count : Nat) : Founds n AllInhand (Eval.popMany count) := by
  intro address m hm
  rw [Eval.popMany_eq]
  unfold Stack.popList?
  by_cases hcount : count ≤ m.stack.size
  · rw [if_pos hcount]
    exact .ok hm.le (hm.full.withStack fun item hitem => hm.stack item (List.mem_of_mem_drop hitem))
      fun item hitem => hm.stack item (List.mem_of_mem_take hitem)
  · rw [if_neg hcount]
    exact .error (Nat.le_refl n) (hm.withStack allInhand_nil)

theorem popInteger : Founds n Anything Eval.popInteger :=
  .bind .pop fun _ _ _ => .bind .heap fun _ _ _ => .orFault _

theorem popBoolean : Founds n Anything Eval.popBoolean :=
  .bind .pop fun _ _ _ => .orFault _

theorem popBytes : Founds n Anything Eval.popBytes :=
  .bind .pop fun _ _ _ => .bind .heap fun _ _ _ => .orFault _

theorem popText : Founds n Anything Eval.popText :=
  .bind .pop fun _ _ _ => .bind .heap fun _ _ _ => .orFault _

theorem popCount : Founds n Anything Eval.popCount :=
  .bind .popInteger fun _ _ _ => .ite (.pure trivial) (.bind .get fun _ _ _ => .throw _)

theorem popPlace : Founds n Anything Machine.popPlace :=
  .bind .popCount fun _ _ _ => .ite (.pure trivial) (.throw _)

theorem push {item : Item} (h : item.Inside n) : Founds n Anything (Eval.push item) :=
  fun _ _ hm => .ok (Nat.le_refl n)
    (hm.withStack (List.forall_mem_cons.mpr ⟨h.mono hm.le, hm.stack⟩)) trivial

theorem pushBoolean (b : Bool) : Founds n Anything (Eval.pushBoolean b) := .push trivial

theorem pushInteger (v : Number.Int128) : Founds n Anything (Eval.pushInteger v) := .push trivial

/-- The stack may change to items that were on it. -/
theorem rearrange {f : Stack Item → Option (Stack Item)}
    (hf : ∀ {stack stack'}, f stack = some stack' → stack'.toList ⊆ stack.toList) :
    Founds n Anything (Machine.rearrange f) := by
  intro address m hm
  rw [rearrange_eq]
  cases hresult : f m.stack with
  | none => exact .error (Nat.le_refl n) hm
  | some stack =>
    have hinside : AllInhand _ stack.toList := fun item hitem => hm.stack item (hf hresult hitem)
    exact .ok (Nat.le_refl n) (hm.withStack hinside) trivial

/-! ### New objects -/

theorem newBuffer (bytes : List UInt8) : Founds n Inhand (Eval.newBuffer bytes) :=
  fun _ _ hm => .ok (Nat.le_refl n)
    (hm.withHeap (hm.heap.of_sequences rfl hm.heap.maps) (Nat.le_refl _)) trivial

theorem pushBuffer (bytes : List UInt8) : Founds n Anything (Eval.pushBuffer bytes) :=
  .bind (.newBuffer bytes) fun _ _ h => .push h

theorem newArray {items : Array Item} (h : AllInhand n items.toList) :
    Founds n Inhand (Eval.newArray items) :=
  fun _ _ hm => .ok (Nat.le_succ_of_le hm.le) (hm.newSequence h) (Nat.lt_succ_self _)

theorem newStruct {items : Array Item} (h : AllInhand n items.toList) :
    Founds n Inhand (Eval.newStruct items) :=
  fun _ _ hm => .ok (Nat.le_succ_of_le hm.le) (hm.newSequence h) (Nat.lt_succ_self _)

theorem newMap {entries : List (Item × Item)} (h : EntriesInhand n entries) :
    Founds n Inhand (Eval.newMap entries) := by
  refine fun _ m hm =>
    .ok (Nat.le_refl n) (hm.withHeap (hm.heap.of_sequences rfl ?_) (Nat.le_refl _)) trivial
  intro r entry hentry
  change entry ∈ (m.heap.newMap entries).2.map r at hentry
  rw [Heap.map_newMap] at hentry
  split at hentry
  · exact h.mono hm.le entry hentry
  · exact hm.heap.maps r entry hentry

/-! ### Changes -/

theorem modifyBuffer (r : Nat) (f : Array UInt8 → Array UInt8) :
    Founds n Anything (Eval.modifyHeap (·.modifyBuffer r f)) :=
  fun _ _ hm => .ok (Nat.le_refl n)
    (hm.withHeap (hm.heap.of_sequences rfl hm.heap.maps) (Nat.le_refl _)) trivial

theorem modifyMap (r : Nat) {entries : List (Item × Item)} (h : EntriesInhand n entries) :
    Founds n Anything (Eval.modifyHeap (·.modifyMap r fun _ => entries)) := by
  refine fun _ m hm =>
    .ok (Nat.le_refl n) (hm.withHeap (hm.heap.of_sequences rfl ?_) (Nat.le_refl _)) trivial
  intro s entry hentry
  rw [Heap.map_modifyMap] at hentry
  split at hentry
  · exact h.mono hm.le entry hentry
  · exact hm.heap.maps s entry hentry

/-- A sequence may lose items and change their order. -/
theorem modifySequence {r : Nat} (hr : r < n) {f : Array Item → Array Item}
    (hf : ∀ items, ∀ item ∈ (f items).toList, item ∈ items.toList) :
    Founds n Anything (Eval.modifyHeap (·.modifySequence r f)) := by
  intro address m hm
  have hheap := hm.heap.modifySequence (Nat.lt_of_lt_of_le hr hm.le) (Heap.closedFrom_size _)
    fun item hitem => .inl (hf (m.heap.sequence r) item hitem)
  exact .ok (Nat.le_refl n) (hm.withHeap hheap (Nat.le_of_eq Heap.size_modifySequence.symm)) trivial

end Eval.Founds

/-! ## Storing copies -/

/-- A copy that is stored nowhere yet, together with what is from `k` on. -/
structure Copied (heap : Heap) (k : Nat) (copy : Item) : Prop where
  founded : heap.Founded
  closed : heap.ClosedFrom k
  copy : copy.Fresh k heap.sequences.size
  le : k ≤ heap.sequences.size

theorem Copied.memory {m : Memory} {k : Nat} {copy : Item} (h : Copied m.heap k copy)
    (hstack : AllInhand k m.stack.toList) : m.Founded k :=
  ⟨h.le, h.founded, hstack.mono h.le⟩

/-- A computation keeps memory founded that has this heap, and only older references on its stack. -/
def Eval.Stores (heap : Heap) (k : Nat) (x : Eval Unit) : Prop :=
  ∀ ⦃address m⦄, m.heap = heap → AllInhand k m.stack.toList →
    Kept Memory.Founded k Anything (x address m)

namespace Eval.Stores

variable {heap : Heap} {k : Nat} {copy : Item}

theorem of_founds (h : Copied heap k copy) {x : Eval Unit}
    (hx : Founds heap.sequences.size Anything x) : Stores heap k x := by
  rintro address m rfl hstack
  exact (hx (h.memory hstack).full).mono h.le

theorem popThen (h : Copied heap k copy) {f : Item → Eval Unit}
    (hf : ∀ item, item.Inside k → Stores heap k (f item)) : Stores heap k (Eval.pop >>= f) := by
  rintro address m rfl hstack
  rw [Eval.bind_apply, Eval.pop_eq]
  cases hpop : m.stack.pop? with
  | none => exact .error (Nat.le_refl k) (h.memory hstack)
  | some top =>
    have hitems : m.stack.toList = top.1 :: top.2.toList :=
      congrArg Stack.toList (Stack.pop?_eq_some_iff.mp hpop)
    rw [hitems] at hstack
    obtain ⟨htop, hrest⟩ := List.forall_mem_cons.mp hstack
    exact hf top.1 htop rfl hrest

theorem heapThen {f : Heap → Eval Unit} (hf : Stores heap k (f heap)) :
    Stores heap k (Eval.heap >>= f) := by
  rintro address m rfl hstack
  exact hf rfl hstack

theorem orFaultThen (h : Copied heap k copy) {α : Type} {x : Except Fault α} {f : α → Eval Unit}
    (hf : ∀ a, Stores heap k (f a)) : Stores heap k (Eval.orFault x >>= f) := by
  cases x with
  | ok a => exact hf a
  | error fault => exact .of_founds h (.throw fault)

/-- The copy is stored into an older sequence. -/
theorem modifySequence (h : Copied heap k copy) {c : Nat} (hc : c < k) {f : Array Item → Array Item}
    (hf : ∀ items, ∀ item ∈ (f items).toList, item ∈ items.toList ∨ item = copy) :
    Stores heap k (Eval.modifyHeap (·.modifySequence c f)) := by
  rintro address m rfl hstack
  have hfresh : ∀ item, item = copy → item.Fresh k m.heap.sequences.size := by
    rintro item rfl
    exact h.copy
  have hheap := h.founded.modifySequence hc h.closed fun item hitem =>
    (hf (m.heap.sequence c) item hitem).imp_right (hfresh item)
  exact .ok (Nat.le_refl k)
    ((h.memory hstack).withHeap hheap (Nat.le_of_eq Heap.size_modifySequence.symm)) trivial

end Eval.Stores

namespace Eval.Founds

variable {n : Nat}

theorem copyStruct {item : Item} (h : item.Inside n) : Founds n Inhand (Eval.copyStruct item) := by
  intro address m hm
  obtain ⟨copy, heap', hcopy, hrun⟩ := exists_copy hm.heap (h.mono hm.le)
  obtain ⟨hheap, hfresh, -⟩ := hcopy.founded hm.heap (List.forall_mem_singleton.mpr (h.mono hm.le))
  rw [hrun]
  exact .ok (Nat.le_trans hm.le hcopy.size_le) (hm.withHeap hheap hcopy.size_le).full
    (hfresh copy (List.mem_singleton_self copy)).inside

/-- A copy is made to be stored. -/
theorem copyThen {item : Item} (h : item.Inside n) {f : Item → Eval Unit}
    (hf : ∀ heap k copy, n ≤ k → Copied heap k copy → Stores heap k (f copy)) :
    Founds n Anything (Eval.copyStruct item >>= f) := by
  intro address m hm
  obtain ⟨copy, heap', hcopy, hrun⟩ := exists_copy hm.heap (h.mono hm.le)
  obtain ⟨hheap, hfresh, hclosed⟩ :=
    hcopy.founded hm.heap (List.forall_mem_singleton.mpr (h.mono hm.le))
  rw [Eval.bind_apply, hrun]
  have hcopied : Copied heap' m.heap.sequences.size copy :=
    ⟨hheap, hclosed, hfresh copy (List.mem_singleton_self copy), hcopy.size_le⟩
  have hstores := hf heap' _ copy hm.le hcopied
  exact (@hstores address { m with heap := heap' } rfl hm.stack).mono hm.le

end Eval.Founds

/-! ## Rearranging the stack -/

section

variable {n : Nat} {stack stack' : Stack Item}

theorem subset_of_pickAt (h : pickAt n stack = some stack') : stack'.toList ⊆ stack.toList := by
  obtain ⟨top, htop, rfl⟩ := Option.map_eq_some_iff.mp h
  exact List.cons_subset.mpr ⟨List.mem_of_getElem? htop, List.Subset.refl _⟩

theorem subset_of_erase? (h : stack.erase? n = some stack') : stack'.toList ⊆ stack.toList := by
  unfold Stack.erase? at h
  split at h
  · cases h
    exact fun item hitem => List.mem_of_mem_eraseIdx hitem
  · cases h

theorem subset_of_rollAt (h : rollAt n stack = some stack') : stack'.toList ⊆ stack.toList := by
  obtain ⟨top, htop, h⟩ := Option.bind_eq_some_iff.mp h
  obtain ⟨rest, hrest, h⟩ := Option.bind_eq_some_iff.mp h
  cases h
  exact List.cons_subset.mpr ⟨List.mem_of_getElem? htop, subset_of_erase? hrest⟩

theorem subset_of_reverseTop (h : reverseTop n stack = some stack') : stack'.toList ⊆ stack.toList := by
  obtain ⟨⟨items, rest⟩, hpop, rfl⟩ := Option.map_eq_some_iff.mp h
  unfold Stack.popList? at hpop
  split at hpop
  · cases hpop
    intro item hitem
    rcases List.mem_append.mp hitem with hitem | hitem
    · exact List.mem_of_mem_take (List.mem_reverse.mp hitem)
    · exact List.mem_of_mem_drop hitem
  · cases hpop

theorem subset_of_tuckTop (h : tuckTop stack = some stack') : stack'.toList ⊆ stack.toList := by
  obtain ⟨⟨a, rest⟩, ha, h⟩ := Option.bind_eq_some_iff.mp h
  obtain ⟨⟨b, below⟩, hb, h⟩ := Option.bind_eq_some_iff.mp h
  cases h
  rw [Stack.pop?_eq_some_iff.mp ha, Stack.pop?_eq_some_iff.mp hb]
  intro item hitem
  simp only [Stack.toList_push, List.mem_cons] at hitem ⊢
  tauto

end

theorem Shuffle.founds (op : Shuffle) (n : Nat) : op.run.Founds n Anything := by
  cases op with
  | depth => exact .bind .get fun _ _ _ => .push trivial
  | drop => exact .bind .pop fun _ _ _ => .pure trivial
  | nip => exact .bind .pop fun _ _ htop => .bind .pop fun hle _ _ => .push (htop.mono hle)
  | clear => exact fun _ _ hm => .ok (Nat.le_refl n) (hm.withStack allInhand_nil) trivial
  | dropAt => exact .bind .popPlace fun _ _ _ => .rearrange subset_of_erase?
  | pick => exact .bind .popPlace fun _ _ _ => .rearrange subset_of_pickAt
  | roll => exact .bind .popPlace fun _ _ _ => .rearrange subset_of_rollAt
  | reverseCount => exact .bind .popCount fun _ _ _ => .rearrange subset_of_reverseTop
  | dup | «over» => exact .rearrange subset_of_pickAt
  | tuck => exact .rearrange subset_of_tuckTop
  | rotate => exact .rearrange subset_of_rollAt
  | swap | reverse => exact .rearrange subset_of_reverseTop

/-! ## Numbers and bytes -/

section

variable {n : Nat}

theorem UnaryOp.founds (op : UnaryOp) : op.run.Founds n Anything :=
  .bind .popInteger fun _ _ _ => .bind (.orFault _) fun _ _ _ => .pushInteger _

theorem BinaryOp.founds (op : BinaryOp) : op.run.Founds n Anything :=
  .bind .popInteger fun _ _ _ => .bind .popInteger fun _ _ _ => .bind (.orFault _) fun _ _ _ =>
    .pushInteger _

theorem Relation.founds_test (relation : Relation) : relation.test.Founds n Anything :=
  .bind .popInteger fun _ _ _ => .bind .popInteger fun _ _ _ => .pure trivial

theorem Relation.founds_compare (relation : Relation) : relation.compare.Founds n Anything :=
  .bind .pop fun _ _ _ => .bind .pop fun _ _ _ => .ite (.pushBoolean _)
    (.bind .heap fun _ _ _ => .bind (.orFault _) fun _ _ _ => .bind (.orFault _) fun _ _ _ =>
      .pushBoolean _)

theorem ByteOp.founds (op : ByteOp) : op.run.Founds n Anything := by
  cases op with
  | newBuffer => exact .bind .popCount fun _ _ _ => .pushBuffer _
  | concatenate => exact .bind .popBytes fun _ _ _ => .bind .popBytes fun _ _ _ => .pushBuffer _
  | slice =>
    exact .bind .popCount fun _ _ _ => .bind .popCount fun _ _ _ => .bind .popBytes fun _ _ _ =>
      .bind (.orFault _) fun _ _ _ => .pushBuffer _
  | left =>
    exact .bind .popCount fun _ _ _ => .bind .popBytes fun _ _ _ => .bind (.orFault _) fun _ _ _ =>
      .pushBuffer _
  | right =>
    exact .bind .popCount fun _ _ _ => .bind .popBytes fun _ _ _ =>
      .ite (.bind (R := Anything) (.throw _) fun _ _ _ => .pushBuffer _) (.pushBuffer _)

end

/-! ## Compounds -/

namespace Compound

open Eval

variable {n : Nat}

theorem founds_newSequence (isStruct : Bool) {items : Array Item} (h : AllInhand n items.toList) :
    (newSequence isStruct items).Founds n Inhand := by
  cases isStruct with
  | false => exact .newArray h
  | true => exact .newStruct h

/-- What is made is pushed. -/
theorem founds_pushNew {x : Eval Item} (h : x.Founds n Inhand) : (x >>= push).Founds n Anything :=
  .bind h fun _ _ hitem => .push hitem

theorem entriesInhand_setEntry {heap : Heap} {key value : Item} {entries : List (Item × Item)}
    (hkey : key.Inside n) (hvalue : value.Inside n) (h : EntriesInhand n entries) :
    EntriesInhand n (heap.setEntry key value entries) := by
  induction entries with
  | nil => exact List.forall_mem_singleton.mpr ⟨hkey, hvalue⟩
  | cons entry entries ih =>
    obtain ⟨k, v⟩ := entry
    obtain ⟨hfirst, hrest⟩ := List.forall_mem_cons.mp h
    unfold Heap.setEntry
    split
    · exact List.forall_mem_cons.mpr ⟨⟨hfirst.1, hvalue⟩, hrest⟩
    · exact List.forall_mem_cons.mpr ⟨hfirst, ih hrest⟩

theorem founds_popEntries (count : Nat) {entries : List (Item × Item)} (h : EntriesInhand n entries) :
    (popEntries entries count).Founds n EntriesInhand := by
  induction count generalizing entries n with
  | zero => exact .pure h
  | succ count ih =>
    refine .bind .pop fun hle _ hkey => .bind .pop fun hle' _ hvalue => .bind .heap fun hle'' _ _ => ?_
    exact ih (entriesInhand_setEntry (hkey.mono (Nat.le_trans hle' hle'')) (hvalue.mono hle'')
      (h.mono (Nat.le_trans hle (Nat.le_trans hle' hle''))))

theorem founds_unpack : unpack.Founds n Anything := by
  refine .bind .pop fun _ item _ => ?_
  cases item with
  | array r | struct r =>
    refine .bind .heap fun {n'} _ heap hheap address m hm => ?_
    refine .ok (Nat.le_refl n')
      (hm.withStack (List.forall_mem_cons.mpr ⟨trivial, fun item hitem => ?_⟩)) trivial
    rcases List.mem_append.mp hitem with hitem | hitem
    · exact (hheap.sequence r item hitem).mono hm.le
    · exact hm.stack item hitem
  | null | boolean | integer | byteString | pointer | buffer | map => exact .throw _

theorem founds_newFilled (isStruct : Bool) {item : Item} (h : ∀ k, item.Inside k) :
    (newFilled isStruct item).Founds n Anything := by
  exact .bind .popCount fun _ count _ =>
    founds_pushNew (founds_newSequence isStruct (allInhand_replicate (h _) count))

theorem inside_defaultOf (tag : UInt8) (k : Nat) : (defaultOf tag).Inside k := by
  unfold defaultOf
  split <;> trivial

theorem founds_size : size.Founds n Anything := by
  refine .bind .pop fun _ item _ => .bind .heap fun _ heap _ => ?_
  cases item with
  | array | struct | map | buffer => exact .push trivial
  | null | boolean | integer | byteString | pointer =>
    exact .bind (.orFault _) fun _ _ _ => .push trivial

theorem founds_hasKey : hasKey.Founds n Anything := by
  refine .bind .pop fun _ key _ => .bind .pop fun _ container _ => .bind .heap fun _ heap _ => ?_
  cases container with
  | array | struct => exact .bind (.orFault _) fun _ _ _ => .pushBoolean _
  | map => exact .pushBoolean _
  | null | boolean | integer | byteString | pointer | buffer =>
    exact .bind (.orFault _) fun _ _ _ =>
      .ite (.pushBoolean _) (.bind (.orFault _) fun _ _ _ => .pushBoolean _)

theorem founds_keys : keys.Founds n Anything := by
  refine .bind .pop fun _ item _ => ?_
  cases item with
  | map =>
    refine .bind .heap fun _ heap hheap => founds_pushNew (.newArray fun key hkey => ?_)
    obtain ⟨entry, hentry, rfl⟩ := List.mem_map.mp hkey
    exact (hheap.map _ entry hentry).1
  | null | boolean | integer | byteString | pointer | buffer | array | struct => exact .throw _

/-- The copies of items in hand are in hand. -/
theorem founds_copies {items : Array Item} (h : AllInhand n items.toList) :
    (items.mapM copyStruct).Founds n fun n copies => AllInhand n copies.toList := by
  -- copies that are made later leave earlier ones in hand
  have hlist : ∀ (items : List Item) {n : Nat}, AllInhand n items →
      (items.mapM copyStruct).Founds n AllInhand := by
    intro items
    induction items with
    | nil => exact fun h => .pure h
    | cons item items ih =>
      intro n h
      obtain ⟨hitem, hitems⟩ := List.forall_mem_cons.mp h
      rw [List.mapM_cons]
      refine .bind (.copyStruct hitem) fun hle copy hcopy =>
        .bind (ih fun other hother => (hitems other hother).mono hle) fun hle' copies hcopies => .pure ?_
      exact List.forall_mem_cons.mpr ⟨hcopy.mono hle', hcopies⟩
  rw [Array.mapM_eq_mapM_toList]
  exact .bind (hlist items.toList h) fun _ _ hcopies => .pure hcopies

theorem founds_values : values.Founds n Anything := by
  have hcopies : ∀ {n} {items : Array Item}, AllInhand n items.toList →
      Founds n Anything (do push (← newArray (← items.mapM copyStruct))) := fun h =>
    .bind (founds_copies h) fun _ _ hcopies => founds_pushNew (.newArray hcopies)
  refine .bind .pop fun _ item _ => ?_
  cases item with
  | array | struct => exact .bind .heap fun _ _ hheap => hcopies (hheap.sequence _)
  | map =>
    refine .bind .heap fun _ _ hheap => hcopies fun value hvalue => ?_
    obtain ⟨entry, hentry, rfl⟩ := List.mem_map.mp hvalue
    exact (hheap.map _ entry hentry).2
  | null | boolean | integer | byteString | pointer | buffer => exact .throw _

theorem inside_getD {items : Array Item} (h : AllInhand n items.toList) (index : Nat) :
    (items.getD index .null).Inside n := by
  rw [Array.getD_eq_getD_getElem?]
  cases hitem : items[index]? with
  | none => trivial
  | some item => exact h item (Array.mem_toList_iff.mpr (Array.mem_of_getElem? hitem))

theorem founds_pickItem : pickItem.Founds n Anything := by
  refine .bind .pop fun _ key _ => .bind .pop fun _ container _ => .bind .heap fun _ heap hheap => ?_
  cases container with
  | array | struct =>
    exact .bind (.orFault _) fun hle _ _ => .push ((inside_getD (hheap.sequence _) _).mono hle)
  | map =>
    dsimp only
    split
    · next hfound =>
      obtain ⟨entry, hentry, rfl⟩ := Option.map_eq_some_iff.mp hfound
      exact .push (hheap.map _ entry (List.mem_of_find?_eq_some hentry)).2
    · exact .throw _
  | null | boolean | integer | byteString | pointer | buffer =>
    exact .bind (.orFault _) fun _ _ _ => .bind (.orFault _) fun _ _ _ => .push trivial

/-! ### Changes -/

theorem founds_append : append.Founds n Anything := by
  refine .bind .pop fun _ item hitem => .copyThen hitem fun heap k copy _ hcopied =>
    .popThen hcopied fun container hcontainer => ?_
  cases container with
  | array | struct =>
    refine .modifySequence hcopied hcontainer fun items item hitem => ?_
    rw [Array.toList_push] at hitem
    exact (List.mem_append.mp hitem).imp_right List.mem_singleton.mp
  | null | boolean | integer | byteString | pointer | buffer | map => exact .of_founds hcopied (.throw _)

theorem founds_setItem : setItem.Founds n Anything := by
  -- the copy has to stay inside the sequences while key and container are taken off
  refine .bind .pop fun _ item hitem => .copyThen hitem fun heap k copy _ hcopied =>
    .popThen hcopied fun key hkey => .popThen hcopied fun container hcontainer => .heapThen ?_
  cases container with
  | array | struct =>
    refine .orFaultThen hcopied fun index =>
      .modifySequence hcopied hcontainer fun items item hitem => ?_
    rw [Array.toList_setIfInBounds] at hitem
    exact List.mem_or_eq_of_mem_set hitem
  | map =>
    exact .of_founds hcopied (.modifyMap _ (entriesInhand_setEntry (hkey.mono hcopied.le)
      hcopied.copy.inside (hcopied.founded.maps _)))
  | buffer =>
    refine .orFaultThen hcopied fun _ => .orFaultThen hcopied fun index =>
      .orFaultThen hcopied fun _ => .orFaultThen hcopied fun v => .of_founds hcopied ?_
    split
    · exact .modifyBuffer _ _
    · exact .throw _
  | null | boolean | integer | byteString | pointer => exact .of_founds hcopied (.throw _)

theorem founds_reverseItems : reverseItems.Founds n Anything := by
  refine .bind .pop fun _ item hitem => ?_
  cases item with
  | array | struct =>
    refine .modifySequence hitem fun items item hitem => ?_
    rw [Array.toList_reverse] at hitem
    exact List.mem_reverse.mp hitem
  | buffer => exact .modifyBuffer _ _
  | null | boolean | integer | byteString | pointer | map => exact .throw _

theorem founds_remove : remove.Founds n Anything := by
  refine .bind .pop fun _ key _ => .bind .pop fun _ container hcontainer =>
    .bind .heap fun hle heap hheap => ?_
  cases container with
  | array | struct =>
    refine .bind (.orFault _) fun hle' index _ =>
      .modifySequence (Nat.lt_of_lt_of_le hcontainer (Nat.le_trans hle hle')) fun items item hitem => ?_
    rw [Array.toList_eraseIdxIfInBounds] at hitem
    exact List.mem_of_mem_eraseIdx hitem
  | map => exact .modifyMap _ fun entry hentry => hheap.map _ entry (List.mem_of_mem_filter hentry)
  | null | boolean | integer | byteString | pointer | buffer => exact .throw _

theorem founds_clearItems : clearItems.Founds n Anything := by
  refine .bind .pop fun _ item hitem => ?_
  cases item with
  | array | struct => exact .modifySequence hitem fun _ item hitem => absurd hitem List.not_mem_nil
  | map => exact .modifyMap _ entriesInhand_nil
  | null | boolean | integer | byteString | pointer | buffer => exact .throw _

theorem founds_popItem : popItem.Founds n Anything := by
  refine .bind .pop fun _ container hcontainer => ?_
  cases container with
  | array r | struct r =>
    refine .bind .heap fun hle heap hheap => ?_
    split
    · next item hback =>
      have hitem := hheap.sequence r item (Array.mem_toList_iff.mpr (Array.mem_of_back? hback))
      refine .bind (.modifySequence (Nat.lt_of_lt_of_le hcontainer hle) fun items item hitem => ?_)
        fun hle' _ _ => .push (hitem.mono hle')
      rw [Array.toList_pop] at hitem
      exact List.mem_of_mem_dropLast hitem
    · exact .throw _
  | null | boolean | integer | byteString | pointer | buffer | map => exact .throw _

/-! ### Kinds -/

theorem founds_convert (kind : ItemKind) {item : Item} (h : item.Inside n) :
    (convert kind item).Founds n Inhand := by
  unfold convert
  refine .ite ?_ ?_
  · split
    · exact .bind .heap fun _ _ _ => .newBuffer _
    · exact .pure h
  · refine .bind .heap fun _ heap hheap => ?_
    split
    · exact .bind (.orFault _) fun _ _ _ => .pure trivial
    · exact .bind (.orFault _) fun _ _ _ => .pure trivial
    · exact .bind (.orFault _) fun _ _ _ => .pure trivial
    · exact .bind (.orFault _) fun _ _ _ => .newBuffer _
    · exact .newArray (hheap.sequence _)
    · exact .newStruct (hheap.sequence _)
    · exact .throw _

end Compound

theorem CompoundOp.founds (op : CompoundOp) (n : Nat) : op.run.Founds n Anything := by
  cases op with
  | packMap =>
    exact .bind .popCount fun _ _ _ => .bind (Compound.founds_popEntries _ entriesInhand_nil)
      fun _ _ hentries => Compound.founds_pushNew (.newMap hentries)
  | pack isStruct =>
    exact .bind .popCount fun _ _ _ => .bind (.popMany _) fun _ _ hitems =>
      Compound.founds_pushNew (Compound.founds_newSequence isStruct hitems)
  | unpack => exact Compound.founds_unpack
  | newEmpty isStruct =>
    exact Compound.founds_pushNew (Compound.founds_newSequence isStruct allInhand_nil)
  | newNulls isStruct => exact Compound.founds_newFilled isStruct fun _ => trivial
  | newDefaults tag => exact Compound.founds_newFilled false (Compound.inside_defaultOf tag)
  | newMap => exact Compound.founds_pushNew (.newMap entriesInhand_nil)
  | size => exact Compound.founds_size
  | hasKey => exact Compound.founds_hasKey
  | keys => exact Compound.founds_keys
  | values => exact Compound.founds_values
  | pickItem => exact Compound.founds_pickItem
  | append => exact Compound.founds_append
  | setItem => exact Compound.founds_setItem
  | reverseItems => exact Compound.founds_reverseItems
  | remove => exact Compound.founds_remove
  | clearItems => exact Compound.founds_clearItems
  | popItem => exact Compound.founds_popItem

theorem SimpleOp.founds (i : Instruction) (op : SimpleOp) (n : Nat) : (op.run i).Founds n Anything := by
  cases op with
  | pushInteger =>
    unfold SimpleOp.run
    dsimp only
    split
    · exact .push trivial
    · exact .throw _
  | pushBoolean | pushNull | pushData => exact .push trivial
  | nop => exact .pure trivial
  | shuffle op => exact op.founds n
  | unary op => exact op.founds
  | binary op => exact op.founds
  | numeric relation => exact .bind relation.founds_test fun _ _ _ => .pushBoolean _
  | ordered relation => exact relation.founds_compare
  | within =>
    exact .bind .popInteger fun _ _ _ => .bind .popInteger fun _ _ _ => .bind .popInteger fun _ _ _ =>
      .pushBoolean _
  | equal =>
    exact .bind .pop fun _ _ _ => .bind .pop fun _ _ _ => .bind .heap fun _ _ _ => .pushBoolean _
  | not => exact .bind .popBoolean fun _ _ _ => .pushBoolean _
  | join => exact .bind .popBoolean fun _ _ _ => .bind .popBoolean fun _ _ _ => .pushBoolean _
  | nonzero => exact .bind .popInteger fun _ _ _ => .pushBoolean _
  | bytes op => exact op.founds
  | compound op => exact op.founds n
  | newDefaults => exact CompoundOp.founds (.newDefaults (i.operand.headD 0)) n
  | isNull => exact .bind .pop fun _ _ _ => .pushBoolean _
  | isType => exact .bind (.orFault _) fun _ _ _ => .bind .pop fun _ _ _ => .pushBoolean _
  | convert =>
    exact .bind (.orFault _) fun _ _ _ => .bind .pop fun _ _ hitem =>
      Compound.founds_pushNew (Compound.founds_convert _ hitem)

end StackContract.Machine
