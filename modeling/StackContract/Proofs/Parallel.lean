import StackContract.Proofs.Alike
/-!
# Computations on alike memories

A computation on the memory does not look at references, addresses or the address of its instruction:
from alike memories it goes on to alike memories with alike results, or fails with faults of the same
kind (`Eval.Alike`). `SimpleOp.run_alike` says so of every operation on the stack and the heap.
-/

namespace StackContract.Machine

open Script Number

/-- Memories with alike stacks and alike heaps. -/
structure MemoriesAlike (link : Link) (m m' : Memory) : Prop where
  stack : ItemsAlike link m.stack.toList m'.stack.toList
  heap : HeapsAlike link m.heap m'.heap

/-- The faults of computations on the memory. -/
def FaultKind.isOperand : FaultKind → Bool
  | .stackUnderflow | .invalidType | .overflow | .divideByZero | .indexOutOfRange | .keyNotFound
  | .breakdown => true
  | _ => false

/-- Faults of computations on the memory that are of the same kind. -/
def FaultsAlike (fault fault' : Fault) : Prop :=
  fault.kind = fault'.kind ∧ fault.kind.isOperand = true

/-- Results that are alike along a link that has grown. -/
inductive ResultsAlike {α β : Type} (link : Link) (R : Link → α → β → Prop) :
    EStateM.Result Fault Memory α → EStateM.Result Fault Memory β → Prop
  | ok {grown : Link} {a : α} {b : β} {m m' : Memory} (hle : link ≤ grown) (hvalue : R grown a b)
    (hmemory : MemoriesAlike grown m m') : ResultsAlike link R (.ok a m) (.ok b m')
  | error {grown : Link} {fault fault' : Fault} {m m' : Memory} (hle : link ≤ grown)
    (hfault : FaultsAlike fault fault') (hmemory : MemoriesAlike grown m m') :
    ResultsAlike link R (.error fault m) (.error fault' m')

/-- Computations that have alike results from alike memories, at whatever addresses. -/
def Eval.Alike {α β : Type} (link : Link) (R : Link → α → β → Prop) (x : Eval α) (y : Eval β) : Prop :=
  ∀ ⦃address address' : Nat⦄ ⦃m m' : Memory⦄, MemoriesAlike link m m' →
    ResultsAlike link R (x address m) (y address' m')

/-- Equality, along any link. -/
abbrev Same {α : Type} : Link → α → α → Prop := fun _ => Eq

/-- Alike items, by the link. -/
abbrev SameItem : Link → Item → Item → Prop := fun link => Item.Alike link

namespace Eval.Alike

variable {α β γ δ : Type} {link : Link}

/-! ## Combining computations -/

theorem pure {R : Link → α → β → Prop} {a : α} {b : β} (h : R link a b) :
    Eval.Alike link R (Pure.pure a) (Pure.pure b) :=
  fun _ _ _ _ hm => .ok link.le_refl h hm

theorem throw {R : Link → α → β → Prop} {fault fault' : Fault} (h : FaultsAlike fault fault') :
    Eval.Alike link R (MonadExcept.throw fault) (MonadExcept.throw fault') :=
  fun _ _ _ _ hm => .error link.le_refl h hm

theorem bind {R : Link → α → β → Prop} {S : Link → γ → δ → Prop} {x : Eval α} {y : Eval β}
    {f : α → Eval γ} {g : β → Eval δ} (h : Eval.Alike link R x y)
    (hf : ∀ {grown : Link}, link ≤ grown → ∀ {a b}, R grown a b → Eval.Alike grown S (f a) (g b)) :
    Eval.Alike link S (x >>= f) (y >>= g) := by
  intro address address' m m' hm
  show ResultsAlike link S (EStateM.bind (x address) (fun a => f a address) m)
    (EStateM.bind (y address') (fun b => g b address') m')
  unfold EStateM.bind
  have hx : ResultsAlike link R (x address m) (y address' m') := h hm
  generalize x address m = result, y address' m' = result' at hx
  cases hx with
  | @ok grown a b n n' hle hvalue hmemory =>
    have hrest : ResultsAlike grown S (f a address n) (g b address' n') := hf hle hvalue hmemory
    show ResultsAlike link S (f a address n) (g b address' n')
    generalize f a address n = result, g b address' n' = result' at hrest
    cases hrest with
    | ok hle' hvalue' hmemory' => exact .ok (Link.le_trans hle hle') hvalue' hmemory'
    | error hle' hfault hmemory' => exact .error (Link.le_trans hle hle') hfault hmemory'
  | error hle hfault hmemory => exact .error hle hfault hmemory

theorem ite {R : Link → α → β → Prop} {p q : Prop} [Decidable p] [Decidable q] {x x' : Eval α}
    {y y' : Eval β} (hpq : p ↔ q) (h : Eval.Alike link R x y) (h' : Eval.Alike link R x' y') :
    Eval.Alike link R (if p then x else x') (if q then y else y') := by
  by_cases hp : p
  · rw [if_pos hp, if_pos (hpq.mp hp)]
    exact h
  · rw [if_neg hp, if_neg (fun hq => hp (hpq.mpr hq))]
    exact h'

/-- The same result taken over, whose fault is one of computations on the memory. -/
theorem orFault {x y : Except Fault α} (h : x = y)
    (hfaults : ∀ fault, y = .error fault → fault.kind.isOperand = true) :
    Eval.Alike link Same (Eval.orFault x) (Eval.orFault y) := by
  subst h
  cases x with
  | ok a => exact .pure rfl
  | error fault => exact .throw ⟨rfl, hfaults fault rfl⟩

theorem get : Eval.Alike link MemoriesAlike (MonadState.get : Eval Memory) MonadState.get :=
  fun _ _ _ _ hm => .ok link.le_refl hm hm

theorem modify {f g : Memory → Memory} (h : ∀ {m m'}, MemoriesAlike link m m' →
    MemoriesAlike link (f m) (g m')) : Eval.Alike link Same (modify f) (modify g) :=
  fun _ _ _ _ hm => .ok link.le_refl rfl (h hm)

/-! ## The stack -/

theorem heap : Eval.Alike link HeapsAlike Eval.heap Eval.heap :=
  fun _ _ _ _ hm => .ok link.le_refl hm.heap hm

theorem push {item item' : Item} (h : item.Alike link item') :
    Eval.Alike link Same (Eval.push item) (Eval.push item') :=
  .modify fun hm => ⟨.cons h hm.stack, hm.heap⟩

theorem underflow {R : Link → α → β → Prop} :
    Eval.Alike link R (Eval.underflow : Eval α) (Eval.underflow : Eval β) :=
  fun _ _ _ _ hm => .error link.le_refl ⟨rfl, rfl⟩ hm

theorem pop : Eval.Alike link SameItem Eval.pop Eval.pop := by
  rintro address address' ⟨⟨items, size, hsize⟩, heap⟩ ⟨⟨items', size', hsize'⟩, heap'⟩ hm
  have hstack : ItemsAlike link items items' := hm.stack
  cases hstack with
  | nil => exact .error link.le_refl ⟨rfl, rfl⟩ hm
  | cons ha hrest => exact .ok link.le_refl ha ⟨hrest, hm.heap⟩

theorem popMany (n : Nat) : Eval.Alike link ItemsAlike (Eval.popMany n) (Eval.popMany n) := by
  refine .bind .get ?_
  intro grown _ m m' hm
  have hsize : m.stack.size = m'.stack.size := by
    rw [m.stack.size_eq, m'.stack.size_eq, hm.stack.length_eq]
  unfold Stack.popList?
  by_cases hn : n ≤ m'.stack.size
  · rw [if_pos (hsize ▸ hn), if_pos hn]
    refine .bind (R := Same) (.modify fun hm' => ⟨?_, hm'.heap⟩) ?_
    · exact List.forall₂_drop n hm.stack
    · intro _ hle _ _ _
      exact .pure (ItemsAlike.mono hle (List.forall₂_take n hm.stack))
  · rw [if_neg (fun h => hn (hsize ▸ h)), if_neg hn]
    exact .bind (R := Same) (.modify fun hm' => ⟨.nil, hm'.heap⟩) fun _ _ _ _ => .underflow

end Eval.Alike

/-! ## Faults of readings -/

theorem Item.isOperand_asBoolean (item : Item) (fault : Fault) (h : item.asBoolean = .error fault) :
    fault.kind.isOperand = true := by
  cases item <;> simp only [Item.asBoolean] at h <;> try cases h
  split at h <;> cases h
  rfl

theorem Item.isOperand_integerOfBytes (item : Item) (bytes : List UInt8) (fault : Fault)
    (h : item.integerOfBytes bytes = .error fault) : fault.kind.isOperand = true := by
  unfold Item.integerOfBytes at h
  split at h
  · cases h
    rfl
  · split at h <;> cases h
    rfl

theorem Item.isOperand_asInteger (heap : Heap) (item : Item) (fault : Fault)
    (h : item.asInteger heap = .error fault) : fault.kind.isOperand = true := by
  cases item with
  | byteString bytes => exact Item.isOperand_integerOfBytes _ _ _ h
  | buffer ref => exact Item.isOperand_integerOfBytes _ _ _ h
  | _ => cases h <;> rfl

theorem Item.isOperand_asBytes (heap : Heap) (item : Item) (fault : Fault)
    (h : item.asBytes heap = .error fault) : fault.kind.isOperand = true := by
  cases item <;> cases h <;> rfl

theorem Item.isOperand_asText (heap : Heap) (item : Item) (fault : Fault)
    (h : item.asText heap = .error fault) : fault.kind.isOperand = true := by
  unfold Item.asText at h
  cases hbytes : item.asBytes heap with
  | error other =>
    rw [hbytes] at h
    cases h
    exact item.isOperand_asBytes heap _ hbytes
  | ok bytes =>
    rw [hbytes] at h
    cases htext : Text.ofUtf8? bytes with
    | none =>
      simp only [bind, Except.bind, htext] at h
      cases h
      rfl
    | some text =>
      simp only [bind, Except.bind, htext] at h
      cases h

theorem Item.isOperand_asIndex (heap : Heap) (item : Item) (length : Nat) (fault : Fault)
    (h : item.asIndex heap length = .error fault) : fault.kind.isOperand = true := by
  unfold Item.asIndex at h
  cases hinteger : item.asInteger heap with
  | error other =>
    rw [hinteger] at h
    cases h
    exact item.isOperand_asInteger heap _ hinteger
  | ok v =>
    rw [hinteger] at h
    simp only [bind, Except.bind] at h
    split at h <;> cases h
    rfl

/-! ## Reading the stack -/

namespace Eval.Alike

variable {link : Link}

theorem popInteger : Eval.Alike link Same Eval.popInteger Eval.popInteger := by
  refine .bind .pop fun hle _ item' hitem => .bind .heap fun hle' _ heap' hheap => ?_
  exact .orFault ((hitem.mono hle').asInteger_eq hheap) (item'.isOperand_asInteger heap')

theorem popBoolean : Eval.Alike link Same Eval.popBoolean Eval.popBoolean :=
  .bind .pop fun _ _ item' hitem => .orFault hitem.asBoolean_eq item'.isOperand_asBoolean

theorem popBytes : Eval.Alike link Same Eval.popBytes Eval.popBytes := by
  refine .bind .pop fun hle _ item' hitem => .bind .heap fun hle' _ heap' hheap => ?_
  exact .orFault ((hitem.mono hle').asBytes_eq hheap) (item'.isOperand_asBytes heap')

theorem popText : Eval.Alike link Same Eval.popText Eval.popText := by
  refine .bind .pop fun hle _ item' hitem => .bind .heap fun hle' _ heap' hheap => ?_
  exact .orFault ((hitem.mono hle').asText_eq hheap) (item'.isOperand_asText heap')

theorem popCount : Eval.Alike link Same Eval.popCount Eval.popCount := by
  refine .bind .popInteger ?_
  rintro grown _ v _ rfl
  by_cases hv : 0 ≤ v.val ∧ v.val < 0x1_0000_0000_0000_0000
  · rw [if_pos hv]
    exact .pure rfl
  · rw [if_neg hv]
    exact .bind .get fun _ _ _ _ => .throw ⟨rfl, rfl⟩

theorem popPlace : Eval.Alike link Same Machine.popPlace Machine.popPlace := by
  refine .bind .popCount ?_
  rintro grown _ n _ rfl
  by_cases hn : n + 1 < 0x1_0000_0000_0000_0000
  · rw [if_pos hn]
    exact .pure rfl
  · rw [if_neg hn]
    exact .throw ⟨rfl, rfl⟩

theorem pushBoolean (b : Bool) : Eval.Alike link Same (Eval.pushBoolean b) (Eval.pushBoolean b) :=
  .push (.boolean b)

theorem pushInteger (v : Int128) : Eval.Alike link Same (Eval.pushInteger v) (Eval.pushInteger v) :=
  .push (.integer v)

/-! ## New compounds -/

theorem newBuffer (bytes : List UInt8) :
    Eval.Alike link SameItem (Eval.newBuffer bytes) (Eval.newBuffer bytes) := by
  intro _ _ m m' hm
  have hle := hm.heap.le_grown .buffers
  exact .ok hle (.buffer (hm.heap.refs_grown .buffers))
    ⟨hm.stack.mono hle, hm.heap.newBuffer bytes.toArray⟩

theorem newArray {items items' : Array Item} (h : ItemsAlike link items.toList items'.toList) :
    Eval.Alike link SameItem (Eval.newArray items) (Eval.newArray items') := by
  intro _ _ m m' hm
  have hle := hm.heap.le_grown .sequences
  exact .ok hle (.array (hm.heap.refs_grown .sequences))
    ⟨hm.stack.mono hle, hm.heap.newSequence h⟩

theorem newStruct {items items' : Array Item} (h : ItemsAlike link items.toList items'.toList) :
    Eval.Alike link SameItem (Eval.newStruct items) (Eval.newStruct items') := by
  intro _ _ m m' hm
  have hle := hm.heap.le_grown .sequences
  exact .ok hle (.struct (hm.heap.refs_grown .sequences))
    ⟨hm.stack.mono hle, hm.heap.newSequence h⟩

theorem newMap {entries entries' : List (Item × Item)}
    (h : List.Forall₂ (EntriesAlike link) entries entries') :
    Eval.Alike link SameItem (Eval.newMap entries) (Eval.newMap entries') := by
  intro _ _ m m' hm
  have hle := hm.heap.le_grown .maps
  exact .ok hle (.map (hm.heap.refs_grown .maps)) ⟨hm.stack.mono hle, hm.heap.newMap h⟩

theorem modifyHeap {f f' : Heap → Heap} (h : ∀ {heap heap'}, HeapsAlike link heap heap' →
    HeapsAlike link (f heap) (f' heap')) :
    Eval.Alike link Same (Eval.modifyHeap f) (Eval.modifyHeap f') :=
  .modify fun hm => ⟨hm.stack, h hm.heap⟩

theorem pushBuffer (bytes : List UInt8) :
    Eval.Alike link Same (Eval.pushBuffer bytes) (Eval.pushBuffer bytes) :=
  .bind (.newBuffer bytes) fun _ _ _ hitem => .push hitem

/-- Alike lists stay alike under a computation that keeps their items alike. -/
theorem mapM {f g : Item → Eval Item} (h : ∀ {grown : Link}, link ≤ grown → ∀ {a b : Item},
    a.Alike grown b → Eval.Alike grown SameItem (f a) (g b)) {items items' : List Item}
    (hitems : ItemsAlike link items items') :
    Eval.Alike link ItemsAlike (items.mapM f) (items'.mapM g) := by
  induction items generalizing link items' with
  | nil =>
    cases hitems
    exact .pure .nil
  | cons a items ih =>
    cases hitems with
    | cons ha hrest =>
      rw [List.mapM_cons, List.mapM_cons]
      refine .bind (h link.le_refl ha) fun hle _ _ hitem => ?_
      refine .bind (ih (fun hle' => h (Link.le_trans hle hle')) (ItemsAlike.mono hle hrest)) ?_
      exact fun hle' _ _ hcopies => .pure (.cons (hitem.mono hle') hcopies)

theorem arrayMapM {f g : Item → Eval Item} (h : ∀ {grown : Link}, link ≤ grown → ∀ {a b : Item},
    a.Alike grown b → Eval.Alike grown SameItem (f a) (g b)) {items items' : Array Item}
    (hitems : ItemsAlike link items.toList items'.toList) :
    Eval.Alike link (fun grown copies copies' => ItemsAlike grown copies.toList copies'.toList)
      (items.mapM f) (items'.mapM g) := by
  rw [Array.mapM_eq_mapM_toList, Array.mapM_eq_mapM_toList, map_eq_pure_bind, map_eq_pure_bind]
  exact .bind (.mapM h hitems) fun _ _ _ hcopies => .pure hcopies

theorem copyWithin (depth : Nat) {item item' : Item} (h : item.Alike link item') :
    Eval.Alike link SameItem (Eval.copyWithin depth item) (Eval.copyWithin depth item') := by
  induction depth generalizing link item item' with
  | zero => exact .pure h
  | succ depth ih =>
    cases h with
    | struct hr =>
      refine .bind .heap fun hle _ _ hheap => ?_
      refine .bind (.arrayMapM (fun _ _ _ hitem => ih hitem) (hheap.sequences (hle.refs hr))) ?_
      exact fun _ _ _ hcopies => .newStruct hcopies
    | null => exact .pure .null
    | boolean b => exact .pure (.boolean b)
    | integer v => exact .pure (.integer v)
    | byteString bytes => exact .pure (.byteString bytes)
    | pointer h => exact .pure (.pointer h)
    | buffer h => exact .pure (.buffer h)
    | array h => exact .pure (.array h)
    | map h => exact .pure (.map h)

theorem copyStruct {item item' : Item} (h : item.Alike link item') :
    Eval.Alike link SameItem (Eval.copyStruct item) (Eval.copyStruct item') := by
  refine .bind .heap fun hle _ _ hheap => ?_
  unfold Heap.sequenceDepth
  rw [hheap.depth]
  exact .copyWithin _ (h.mono hle)

end Eval.Alike

end StackContract.Machine
