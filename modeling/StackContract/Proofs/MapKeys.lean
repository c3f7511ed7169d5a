import StackContract.Proofs.Circles
/-!
# The keys of maps

Instructions find an entry by comparing keys, and never add one whose key is equal to another one
there. So no item is a key twice in a map, whatever scripts a machine runs and however often
(`Reached.distinctKeys`). Structs are compared by value, though, and a map does not copy those that it has
as keys: two of them may become equal behind its back (`equalKeys_crossed`). There are no other equal keys
(`Reached.equalKeys_structs`).
-/

namespace StackContract.Machine

open Script

/-! ## Equal keys -/

theorem equals_self (heap : Heap) (a : Item) : a.equals heap a = true := by
  unfold Item.equals Heap.sequenceDepth
  cases a <;> simp [Item.equalsWithin]

/-- Items that differ are equal as structs alone. -/
theorem structs_of_equals {heap : Heap} {a b : Item} (h : a.equals heap b = true) (hne : a ≠ b) :
    ∃ r s, a = .struct r ∧ b = .struct s ∧ r ≠ s := by
  unfold Item.equals Heap.sequenceDepth Item.equalsWithin at h
  split at h
  · next r s _ => exact ⟨r, s, rfl, rfl, fun hrs => hne (congrArg Item.struct hrs)⟩
  · exact absurd (of_decide_eq_true h) hne

/-- No item is the key of two entries. -/
def DistinctKeys (entries : List (Item × Item)) : Prop :=
  (entries.map Prod.fst).Nodup

/-- A value is stored under a key that is there, or under a new last one that is equal to none. -/
theorem keys_setEntry (heap : Heap) (key value : Item) (entries : List (Item × Item)) :
    (heap.setEntry key value entries).map Prod.fst = entries.map Prod.fst
      ∨ (heap.setEntry key value entries).map Prod.fst = entries.map Prod.fst ++ [key]
        ∧ ∀ k ∈ entries.map Prod.fst, k.equals heap key = false := by
  induction entries with
  | nil => exact .inr ⟨rfl, fun k hk => absurd hk List.not_mem_nil⟩
  | cons entry entries ih =>
    obtain ⟨k, v⟩ := entry
    unfold Heap.setEntry
    by_cases hequal : k.equals heap key = true
    · rw [if_pos hequal]
      exact .inl rfl
    · rw [if_neg hequal]
      rw [Bool.not_eq_true] at hequal
      rcases ih with hkeys | ⟨hkeys, hothers⟩
      · exact .inl (congrArg (k :: ·) hkeys)
      · exact .inr ⟨congrArg (k :: ·) hkeys, List.forall_mem_cons.mpr ⟨hequal, hothers⟩⟩

namespace DistinctKeys

variable {entries : List (Item × Item)}

theorem nil : DistinctKeys [] := List.nodup_nil

theorem setEntry (h : DistinctKeys entries) (heap : Heap) (key value : Item) :
    DistinctKeys (heap.setEntry key value entries) := by
  unfold DistinctKeys
  rcases keys_setEntry heap key value entries with hkeys | ⟨hkeys, hothers⟩
  · rw [hkeys]
    exact h
  · rw [hkeys]
    refine List.Nodup.append h (List.nodup_singleton key) fun k hk hnew => ?_
    -- the new key is equal to itself
    have hdiffers := hothers k hk
    rw [List.mem_singleton.mp hnew, equals_self] at hdiffers
    cases hdiffers

theorem filter (h : DistinctKeys entries) (p : Item × Item → Bool) : DistinctKeys (entries.filter p) :=
  List.Nodup.sublist (List.Sublist.map Prod.fst List.filter_sublist) h

/-- Entries none of whose keys are equal have distinct ones. -/
theorem of_unequal {heap : Heap}
    (h : entries.Pairwise fun entry entry' => entry.1.equals heap entry'.1 = false) :
    DistinctKeys entries := by
  refine List.pairwise_map.mpr (h.imp fun {entry entry'} hunequal hsame => ?_)
  rw [hsame, equals_self] at hunequal
  cases hunequal

/-- Where keys are distinct, two that are equal are two structs. -/
theorem structs (h : DistinctKeys entries) (heap : Heap) : entries.Pairwise fun entry entry' =>
    entry.1.equals heap entry'.1 = true →
      ∃ r s, entry.1 = .struct r ∧ entry'.1 = .struct s ∧ r ≠ s :=
  (List.pairwise_map.mp h).imp fun hne hequal => structs_of_equals hequal hne

end DistinctKeys

/-- A heap all of whose maps have distinct keys. -/
def Heap.DistinctKeys (heap : Heap) : Prop :=
  ∀ r, Machine.DistinctKeys (heap.map r)

namespace Heap.DistinctKeys

variable {heap : Heap}

theorem of_maps {heap' : Heap} (h : heap.DistinctKeys) (hmaps : heap'.maps = heap.maps) :
    heap'.DistinctKeys := by
  intro r
  unfold Heap.map
  rw [hmaps]
  exact h r

theorem newMap (h : heap.DistinctKeys) {entries : List (Item × Item)}
    (hentries : Machine.DistinctKeys entries) : (heap.newMap entries).2.DistinctKeys := by
  intro r
  rw [Heap.map_newMap]
  split
  · exact hentries
  · exact h r

theorem modifyMap (h : heap.DistinctKeys) (ref : Nat) {entries : List (Item × Item)}
    (hentries : Machine.DistinctKeys entries) : (heap.modifyMap ref fun _ => entries).DistinctKeys := by
  intro r
  rw [Heap.map_modifyMap]
  split
  · exact hentries
  · exact h r

/-- New maps are to have distinct keys where the old ones have kept their contents. -/
theorem grown {heap' : Heap} (h : heap.DistinctKeys) (hextends : heap.Extends heap')
    (hnew : ∀ r, heap.maps.size ≤ r → Machine.DistinctKeys (heap'.map r)) : heap'.DistinctKeys := by
  intro r
  rcases Nat.lt_or_ge r heap.maps.size with hr | hr
  · rw [hextends.map_eq hr]
    exact h r
  · exact hnew r hr

end Heap.DistinctKeys

/-! ## Computations on the memory -/

/-- The heap that a computation leaves behind. -/
def heapBehind {α : Type} : EStateM.Result Fault Memory α → Heap
  | .ok _ m => m.heap
  | .error _ m => m.heap

/-- A computation behind which keys are distinct if they have been so before. -/
def Eval.KeepsKeys {α : Type} (x : Eval α) : Prop :=
  ∀ address ⦃m⦄, m.heap.DistinctKeys → (heapBehind (x address m)).DistinctKeys

namespace Eval.KeepsKeys

variable {α β : Type}

/-- The heap may change but for its maps. -/
theorem of_maps {x : Eval α} (h : ∀ address m, (heapBehind (x address m)).maps = m.heap.maps) :
    KeepsKeys x :=
  fun address m hm => hm.of_maps (h address m)

theorem pure (a : α) : KeepsKeys (Pure.pure a) := fun _ _ hm => hm

theorem throw (fault : Fault) : KeepsKeys (MonadExcept.throw fault : Eval α) := fun _ _ hm => hm

theorem bind {x : Eval α} {f : α → Eval β} (hx : KeepsKeys x) (hf : ∀ a, KeepsKeys (f a)) :
    KeepsKeys (x >>= f) := by
  intro address m hm
  have hthere := hx address hm
  rw [Eval.bind_apply]
  cases hresult : x address m with
  | error fault m' =>
    rw [hresult] at hthere
    exact hthere
  | ok a m' =>
    rw [hresult] at hthere
    exact hf a address hthere

/-- What is computed from the heap may rely on its keys. -/
theorem heapThen {f : Heap → Eval α} (hf : ∀ heap, heap.DistinctKeys → KeepsKeys (f heap)) :
    KeepsKeys (Eval.heap >>= f) :=
  fun address m hm => hf m.heap hm address hm

theorem ite {c : Prop} [Decidable c] {x y : Eval α} (hx : KeepsKeys x) (hy : KeepsKeys y) :
    KeepsKeys (if c then x else y) := by
  split
  · exact hx
  · exact hy

theorem get : KeepsKeys (MonadState.get : Eval Memory) := fun _ _ hm => hm

theorem orFault (x : Except Fault α) : KeepsKeys (Eval.orFault x) := by
  cases x with
  | ok a => exact .pure a
  | error fault => exact .throw fault

/-! ### The stack -/

theorem pop : KeepsKeys Eval.pop := by
  refine .of_maps fun address m => ?_
  rw [Eval.pop_eq]
  cases m.stack.pop? <;> rfl

theorem popMany (n : Nat) : KeepsKeys (Eval.popMany n) := by
  refine .of_maps fun address m => ?_
  rw [Eval.popMany_eq]
  cases m.stack.popList? n <;> rfl

theorem rearrange (f : Stack Item → Option (Stack Item)) : KeepsKeys (Machine.rearrange f) := by
  refine .of_maps fun address m => ?_
  rw [rearrange_eq]
  cases f m.stack <;> rfl

theorem push (item : Item) : KeepsKeys (Eval.push item) := .of_maps fun _ _ => rfl

theorem pushBoolean (b : Bool) : KeepsKeys (Eval.pushBoolean b) := .push _

theorem pushInteger (v : Number.Int128) : KeepsKeys (Eval.pushInteger v) := .push _

/-- An item that is popped, and read. -/
theorem popThen {f : Item → Heap → Except Fault α} :
    KeepsKeys (do Eval.orFault (f (← Eval.pop) (← Eval.heap))) :=
  .bind .pop fun _ => .heapThen fun _ _ => .orFault _

theorem popInteger : KeepsKeys Eval.popInteger := .popThen

theorem popBytes : KeepsKeys Eval.popBytes := .popThen

theorem popText : KeepsKeys Eval.popText := .popThen

theorem popBoolean : KeepsKeys Eval.popBoolean := .bind .pop fun _ => .orFault _

theorem popCount : KeepsKeys Eval.popCount :=
  .bind .popInteger fun _ => .ite (.pure _) (.bind .get fun _ => .throw _)

theorem popPlace : KeepsKeys Machine.popPlace :=
  .bind .popCount fun _ => .ite (.pure _) (.throw _)

/-! ### Objects -/

theorem newBuffer (bytes : List UInt8) : KeepsKeys (Eval.newBuffer bytes) := .of_maps fun _ _ => rfl

theorem pushBuffer (bytes : List UInt8) : KeepsKeys (Eval.pushBuffer bytes) :=
  .bind (.newBuffer bytes) .push

theorem newArray (items : Array Item) : KeepsKeys (Eval.newArray items) := .of_maps fun _ _ => rfl

theorem newStruct (items : Array Item) : KeepsKeys (Eval.newStruct items) := .of_maps fun _ _ => rfl

theorem newMap {entries : List (Item × Item)} (h : DistinctKeys entries) :
    KeepsKeys (Eval.newMap entries) :=
  fun _ _ hm => hm.newMap h

theorem modifyBuffer (r : Nat) (f : Array UInt8 → Array UInt8) :
    KeepsKeys (Eval.modifyHeap (·.modifyBuffer r f)) :=
  .of_maps fun _ _ => rfl

theorem modifySequence (r : Nat) (f : Array Item → Array Item) :
    KeepsKeys (Eval.modifyHeap (·.modifySequence r f)) :=
  .of_maps fun _ _ => rfl

theorem modifyMap (r : Nat) {entries : List (Item × Item)} (h : DistinctKeys entries) :
    KeepsKeys (Eval.modifyHeap (·.modifyMap r fun _ => entries)) :=
  fun _ _ hm => hm.modifyMap r h

theorem arrayMapM {f : α → Eval β} (hf : ∀ a, KeepsKeys (f a)) (xs : Array α) :
    KeepsKeys (xs.mapM f) := by
  have hlist : ∀ xs : List α, KeepsKeys (xs.mapM f) := by
    intro xs
    induction xs with
    | nil => exact .pure []
    | cons x xs ih =>
      rw [List.mapM_cons]
      exact .bind (hf x) fun _ => .bind ih fun _ => .pure _
  rw [Array.mapM_eq_mapM_toList]
  exact .bind (hlist xs.toList) fun _ => .pure _

theorem copyWithin (depth : Nat) (item : Item) : KeepsKeys (Eval.copyWithin depth item) := by
  induction depth generalizing item with
  | zero => exact .pure item
  | succ depth ih =>
    cases item with
    | struct r => exact .heapThen fun _ _ => .bind (.arrayMapM ih _) fun _ => .newStruct _
    | null | boolean | integer | byteString | pointer | buffer | array | map => exact .pure _

theorem copyStruct (item : Item) : KeepsKeys (Eval.copyStruct item) :=
  .heapThen fun _ _ => .copyWithin _ item

end Eval.KeepsKeys

/-! ## Operations -/

theorem keepsKeys_test (relation : Relation) : relation.test.KeepsKeys :=
  .bind .popInteger fun _ => .bind .popInteger fun _ => .pure _

theorem Shuffle.keepsKeys (op : Shuffle) : op.run.KeepsKeys := by
  cases op with
  | depth => exact .bind .get fun _ => .push _
  | drop => exact .bind .pop fun _ => .pure _
  | nip => exact .bind .pop fun _ => .bind .pop fun _ => .push _
  | clear => exact .of_maps fun _ _ => rfl
  | dropAt | pick | roll => exact .bind .popPlace fun _ => .rearrange _
  | reverseCount => exact .bind .popCount fun _ => .rearrange _
  | dup | «over» | tuck | swap | rotate | reverse => exact .rearrange _

theorem ByteOp.keepsKeys (op : ByteOp) : op.run.KeepsKeys := by
  cases op with
  | newBuffer => exact .bind .popCount fun _ => .pushBuffer _
  | concatenate => exact .bind .popBytes fun _ => .bind .popBytes fun _ => .pushBuffer _
  | slice =>
    exact .bind .popCount fun _ => .bind .popCount fun _ => .bind .popBytes fun _ =>
      .bind (.orFault _) fun _ => .pushBuffer _
  | left =>
    exact .bind .popCount fun _ => .bind .popBytes fun _ => .bind (.orFault _) fun _ => .pushBuffer _
  | right =>
    exact .bind .popCount fun _ => .bind .popBytes fun _ =>
      .ite (.bind (.throw _) fun _ => .pushBuffer _) (.pushBuffer _)

namespace Compound

open Eval

theorem keepsKeys_newSequence (isStruct : Bool) (items : Array Item) :
    (newSequence isStruct items).KeepsKeys := by
  cases isStruct with
  | false => exact .newArray items
  | true => exact .newStruct items

/-- The pairs on the stack make distinct keys. -/
theorem keepsKeys_popEntries (n : Nat) {entries : List (Item × Item)} (h : DistinctKeys entries)
    {f : List (Item × Item) → Eval Unit} (hf : ∀ entries, DistinctKeys entries → (f entries).KeepsKeys) :
    (popEntries entries n >>= f).KeepsKeys := by
  induction n generalizing entries with
  | zero => exact hf entries h
  | succ n ih =>
    unfold popEntries
    simp only [bind_assoc]
    exact .bind .pop fun _ => .bind .pop fun _ => .heapThen fun heap _ => ih (h.setEntry heap _ _)

theorem keepsKeys_newFilled (isStruct : Bool) (item : Item) : (newFilled isStruct item).KeepsKeys :=
  .bind .popCount fun _ => .bind (keepsKeys_newSequence isStruct _) .push

theorem keepsKeys_size : size.KeepsKeys := by
  refine .bind .pop fun item => .heapThen fun _ _ => ?_
  cases item with
  | array | struct | map | buffer => exact .push _
  | null | boolean | integer | byteString | pointer => exact .bind (.orFault _) fun _ => .push _

theorem keepsKeys_hasKey : hasKey.KeepsKeys := by
  refine .bind .pop fun key => .bind .pop fun container => .heapThen fun _ _ => ?_
  cases container with
  | array | struct => exact .bind (.orFault _) fun _ => .pushBoolean _
  | map => exact .pushBoolean _
  | null | boolean | integer | byteString | pointer | buffer =>
    exact .bind (.orFault _) fun _ =>
      .ite (.pushBoolean _) (.bind (.orFault _) fun _ => .pushBoolean _)

theorem keepsKeys_keys : keys.KeepsKeys := by
  refine .bind .pop fun item => ?_
  cases item with
  | map => exact .heapThen fun _ _ => .bind (.newArray _) .push
  | null | boolean | integer | byteString | pointer | buffer | array | struct => exact .throw _

theorem keepsKeys_values : values.KeepsKeys := by
  refine .bind .pop fun item => ?_
  cases item with
  | array | struct | map =>
    exact .heapThen fun _ _ => .bind (.arrayMapM .copyStruct _) fun _ => .bind (.newArray _) .push
  | null | boolean | integer | byteString | pointer | buffer => exact .throw _

theorem keepsKeys_pickItem : pickItem.KeepsKeys := by
  refine .bind .pop fun key => .bind .pop fun container => .heapThen fun _ _ => ?_
  cases container with
  | array | struct => exact .bind (.orFault _) fun _ => .push _
  | map =>
    dsimp only
    split
    · exact .push _
    · exact .throw _
  | null | boolean | integer | byteString | pointer | buffer =>
    exact .bind (.orFault _) fun _ => .bind (.orFault _) fun _ => .push _

theorem keepsKeys_unpack : unpack.KeepsKeys := by
  refine .bind .pop fun item => ?_
  cases item with
  | array | struct => exact .heapThen fun _ _ => .of_maps fun _ _ => rfl
  | null | boolean | integer | byteString | pointer | buffer | map => exact .throw _

theorem keepsKeys_append : append.KeepsKeys := by
  refine .bind .pop fun item => .bind (.copyStruct item) fun _ => .bind .pop fun container => ?_
  cases container with
  | array | struct => exact .modifySequence _ _
  | null | boolean | integer | byteString | pointer | buffer | map => exact .throw _

theorem keepsKeys_setItem : setItem.KeepsKeys := by
  refine .bind .pop fun item => .bind (.copyStruct item) fun value => .bind .pop fun key =>
    .bind .pop fun container => .heapThen fun heap hheap => ?_
  cases container with
  | array | struct => exact .bind (.orFault _) fun _ => .modifySequence _ _
  | map r => exact .modifyMap r ((hheap r).setEntry heap key value)
  | buffer =>
    refine .bind (.orFault _) fun _ => .bind (.orFault _) fun index => .bind (.orFault _) fun _ =>
      .bind (.orFault _) fun v => ?_
    split
    · exact .modifyBuffer _ _
    · exact .throw _
  | null | boolean | integer | byteString | pointer => exact .throw _

theorem keepsKeys_reverseItems : reverseItems.KeepsKeys := by
  refine .bind .pop fun item => ?_
  cases item with
  | array | struct => exact .modifySequence _ _
  | buffer => exact .modifyBuffer _ _
  | null | boolean | integer | byteString | pointer | map => exact .throw _

theorem keepsKeys_remove : remove.KeepsKeys := by
  refine .bind .pop fun key => .bind .pop fun container => .heapThen fun heap hheap => ?_
  cases container with
  | array | struct => exact .bind (.orFault _) fun _ => .modifySequence _ _
  | map r => exact .modifyMap r ((hheap r).filter _)
  | null | boolean | integer | byteString | pointer | buffer => exact .throw _

theorem keepsKeys_clearItems : clearItems.KeepsKeys := by
  refine .bind .pop fun item => ?_
  cases item with
  | array | struct => exact .modifySequence _ _
  | map r => exact .modifyMap r .nil
  | null | boolean | integer | byteString | pointer | buffer => exact .throw _

theorem keepsKeys_popItem : popItem.KeepsKeys := by
  refine .bind .pop fun container => ?_
  cases container with
  | array | struct =>
    refine .heapThen fun _ _ => ?_
    split
    · exact .bind (.modifySequence _ _) fun _ => .push _
    · exact .throw _
  | null | boolean | integer | byteString | pointer | buffer | map => exact .throw _

theorem keepsKeys_convert (kind : ItemKind) (item : Item) : (convert kind item).KeepsKeys := by
  unfold convert
  refine .ite ?_ ?_
  · split
    · exact .heapThen fun _ _ => .newBuffer _
    · exact .pure _
  · refine .heapThen fun heap _ => ?_
    split
    · exact .bind (.orFault _) fun _ => .pure _
    · exact .bind (.orFault _) fun _ => .pure _
    · exact .bind (.orFault _) fun _ => .pure _
    · exact .bind (.orFault _) fun _ => .newBuffer _
    · exact .newArray _
    · exact .newStruct _
    · exact .throw _

end Compound

theorem CompoundOp.keepsKeys (op : CompoundOp) : op.run.KeepsKeys := by
  cases op with
  | packMap =>
    exact .bind .popCount fun n => Compound.keepsKeys_popEntries n .nil fun _ h =>
      .bind (.newMap h) .push
  | pack isStruct =>
    exact .bind .popCount fun _ => .bind (.popMany _) fun _ =>
      .bind (Compound.keepsKeys_newSequence isStruct _) .push
  | unpack => exact Compound.keepsKeys_unpack
  | newEmpty isStruct => exact .bind (Compound.keepsKeys_newSequence isStruct _) .push
  | newNulls | newDefaults => exact Compound.keepsKeys_newFilled _ _
  | newMap => exact .bind (.newMap .nil) .push
  | size => exact Compound.keepsKeys_size
  | hasKey => exact Compound.keepsKeys_hasKey
  | keys => exact Compound.keepsKeys_keys
  | values => exact Compound.keepsKeys_values
  | pickItem => exact Compound.keepsKeys_pickItem
  | append => exact Compound.keepsKeys_append
  | setItem => exact Compound.keepsKeys_setItem
  | reverseItems => exact Compound.keepsKeys_reverseItems
  | remove => exact Compound.keepsKeys_remove
  | clearItems => exact Compound.keepsKeys_clearItems
  | popItem => exact Compound.keepsKeys_popItem

theorem SimpleOp.keepsKeys (i : Instruction) (op : SimpleOp) : (op.run i).KeepsKeys := by
  cases op with
  | pushInteger =>
    unfold SimpleOp.run
    dsimp only
    split
    · exact .push _
    · exact .throw _
  | pushBoolean | pushNull | pushData => exact .push _
  | nop => exact .pure ()
  | shuffle op => exact op.keepsKeys
  | unary op => exact .bind .popInteger fun _ => .bind (.orFault _) fun _ => .pushInteger _
  | binary op =>
    exact .bind .popInteger fun _ => .bind .popInteger fun _ => .bind (.orFault _) fun _ =>
      .pushInteger _
  | numeric relation => exact .bind (keepsKeys_test relation) fun _ => .pushBoolean _
  | ordered relation =>
    exact .bind .pop fun _ => .bind .pop fun _ => .ite (.pushBoolean _)
      (.heapThen fun _ _ => .bind (.orFault _) fun _ => .bind (.orFault _) fun _ => .pushBoolean _)
  | within =>
    exact .bind .popInteger fun _ => .bind .popInteger fun _ => .bind .popInteger fun _ => .pushBoolean _
  | equal => exact .bind .pop fun _ => .bind .pop fun _ => .heapThen fun _ _ => .pushBoolean _
  | not => exact .bind .popBoolean fun _ => .pushBoolean _
  | join => exact .bind .popBoolean fun _ => .bind .popBoolean fun _ => .pushBoolean _
  | nonzero => exact .bind .popInteger fun _ => .pushBoolean _
  | bytes op => exact op.keepsKeys
  | compound op => exact op.keepsKeys
  | newDefaults => exact CompoundOp.keepsKeys (.newDefaults (i.operand.headD 0))
  | isNull => exact .bind .pop fun _ => .pushBoolean _
  | isType => exact .bind (.orFault _) fun _ => .bind .pop fun _ => .pushBoolean _
  | convert =>
    exact .bind (.orFault _) fun _ => .bind .pop fun _ => .bind (Compound.keepsKeys_convert _ _) .push

/-! ## Instructions -/

/-- A machine whose maps have distinct keys. -/
def State.DistinctKeys (s : State) : Prop :=
  s.memory.heap.DistinctKeys

/-- A computation behind which keys are distinct if they have been so before. -/
def Exec.KeepsKeys {α : Type} (x : Exec α) : Prop :=
  ∀ ⦃s⦄, s.DistinctKeys → (leftBehind (x s)).DistinctKeys

namespace Exec.KeepsKeys

variable {α β : Type}

theorem pure (a : α) : KeepsKeys (Pure.pure a : Exec α) := fun _ hs => hs

theorem throw (fault : Fault) : KeepsKeys (MonadExcept.throw fault : Exec α) := fun _ hs => hs

theorem get : KeepsKeys (MonadState.get : Exec State) := fun _ hs => hs

theorem bind {x : Exec α} {f : α → Exec β} (hx : KeepsKeys x) (hf : ∀ a, KeepsKeys (f a)) :
    KeepsKeys (x >>= f) := by
  intro s hs
  have hthere := hx hs
  rw [bind_apply]
  cases hresult : x s with
  | error fault t =>
    rw [hresult] at hthere
    exact hthere
  | ok a t =>
    rw [hresult] at hthere
    exact hf a hthere

theorem ite {c : Prop} [Decidable c] {x y : Exec α} (hx : KeepsKeys x) (hy : KeepsKeys y) :
    KeepsKeys (if c then x else y) := by
  split
  · exact hx
  · exact hy

theorem modify {f : State → State} (h : ∀ s, (f s).memory.heap = s.memory.heap) :
    KeepsKeys (modify f : Exec Unit) := by
  intro s hs
  show (f s).memory.heap.DistinctKeys
  rw [h]
  exact hs

theorem orFault (x : Except Fault α) : KeepsKeys (Exec.orFault x) := by
  cases x with
  | ok a => exact .pure a
  | error fault => exact .throw fault

theorem evaluate {x : Eval α} (h : x.KeepsKeys) : KeepsKeys (Exec.evaluate x) := by
  intro s hs
  have hthere := h s.address hs
  rw [evaluate_eq]
  cases hresult : x s.address s.memory with
  | ok a m | error fault m =>
    rw [hresult] at hthere
    exact hthere

theorem andNext {x : Exec Unit} (h : KeepsKeys x) : KeepsKeys (andNext x) :=
  .bind h fun _ => .pure _

end Exec.KeepsKeys

theorem keepsKeys_popMessage (hasMessage : Bool) : (popMessage hasMessage).KeepsKeys := by
  cases hasMessage with
  | false => exact .pure none
  | true => exact .bind .popText fun _ => .pure _

theorem keepsKeys_assertTop (hasMessage : Bool) : (assertTop hasMessage).KeepsKeys :=
  .bind (keepsKeys_popMessage hasMessage) fun _ => .bind .popBoolean fun _ => .ite (.pure _) (.throw _)

theorem keepsKeys_popPointer : popPointer.KeepsKeys := by
  refine .bind .pop fun item => ?_
  cases item with
  | pointer address => exact .pure address
  | null | boolean | integer | byteString | buffer | array | struct | map => exact .throw _

theorem keepsKeys_popNotification : popNotification.KeepsKeys := by
  refine .bind .pop fun name => .bind .pop fun values => .heapThen fun _ _ => ?_
  cases values with
  | array | struct => exact .bind (.orFault _) fun _ => .pure _
  | null | boolean | integer | byteString | pointer | buffer | map => exact .throw _

theorem keepsKeys_jumpTo (i : Located) : (jumpTo i).KeepsKeys :=
  .bind .get fun _ => .bind (.orFault _) fun _ => .pure _

theorem keepsKeys_enter (i : Located) (target : Nat) : (enter i target).KeepsKeys := by
  have hpush : Exec.KeepsKeys (do
      modify fun state => { state with frames := state.frames.push { returnTo := some i.next } }
      return .enter target : Exec Flow) := .bind (.modify fun _ => rfl) fun _ => .pure _
  have hinside : ∀ s : State, Exec.KeepsKeys (do
      if s.script.size ≤ target then throw (.invalidEntry target)
      modify fun state => { state with frames := state.frames.push { returnTo := some i.next } }
      return .enter target : Exec Flow) := fun _ => .ite (.bind (.throw _) fun _ => hpush) hpush
  exact .bind .get fun s => .ite (.bind (.throw _) fun _ => hinside s) (hinside s)

theorem keepsKeys_leave : leave.KeepsKeys := by
  refine .bind .get fun s => ?_
  cases s.frames.pop? with
  | none => exact .bind .get fun _ => .throw _
  | some top => exact .bind (.modify fun _ => rfl) fun _ => .pure _

theorem keepsKeys_allocateStatics (count : Nat) : (allocateStatics count).KeepsKeys :=
  .bind .get fun _ => .ite (.bind (.throw _) fun _ => .modify fun _ => rfl) (.modify fun _ => rfl)

theorem keepsKeys_allocateSlots (locals params : Nat) : (allocateSlots locals params).KeepsKeys := by
  refine .bind (.evaluate (.popMany params)) fun _ => .bind .get fun s => ?_
  cases s.frames.pop? with
  | none => exact .bind .get fun _ => .throw _
  | some top => exact .modify fun _ => rfl

theorem heap_withSlots (s : State) (area : SlotArea) (slots : Array Item) :
    (s.withSlots area slots).memory.heap = s.memory.heap := by
  unfold State.withSlots
  split <;> rfl

theorem keepsKeys_accessSlot (i : Instruction) : (accessSlot i).KeepsKeys := by
  unfold accessSlot
  split
  · refine .bind .get fun _ => .bind (.orFault _) fun slots => ?_
    split
    · exact .evaluate (.push _)
    · exact .throw _
  · exact .bind (.evaluate .pop) fun _ => .bind .get fun _ => .bind (.orFault _) fun _ =>
      .ite (.modify fun s => heap_withSlots s _ _) (.throw _)
  · exact .throw _

theorem keepsKeys_callService (id : UInt32) : (callService id).KeepsKeys := by
  unfold callService
  split
  · exact .throw _
  · exact .bind (.evaluate keepsKeys_popNotification) fun _ => .modify fun _ => rfl
  · exact .bind (.evaluate .popText) fun _ => .modify fun _ => rfl
  · exact .throw _

theorem keepsKeys_execute (i : Located) : (execute i).KeepsKeys := by
  unfold execute
  cases operation i.opcode with
  | simple op => exact .andNext (.evaluate (op.keepsKeys _))
  | pushAddress =>
    exact .andNext (.bind .get fun _ => .bind (.orFault _) fun _ => .evaluate (.push _))
  | jump => exact keepsKeys_jumpTo i
  | jumpIf expected => exact .bind (.evaluate .popBoolean) fun _ => .ite (keepsKeys_jumpTo i) (.pure _)
  | jumpCompare relation =>
    exact .bind (.evaluate (keepsKeys_test relation)) fun _ => .ite (keepsKeys_jumpTo i) (.pure _)
  | call => exact .bind .get fun _ => .bind (.orFault _) fun target => keepsKeys_enter i target
  | callPointer => exact .bind (.evaluate keepsKeys_popPointer) fun target => keepsKeys_enter i target
  | ret => exact keepsKeys_leave
  | abort hasMessage => exact .bind (.evaluate (keepsKeys_popMessage hasMessage)) fun _ => .throw _
  | assert hasMessage => exact .andNext (.evaluate (keepsKeys_assertTop hasMessage))
  | raise => exact .bind (.evaluate .pop) fun _ => .bind .get fun _ => .throw _
  | service => exact .andNext (keepsKeys_callService _)
  | initStatics => exact .andNext (keepsKeys_allocateStatics _)
  | initSlots => exact .andNext (keepsKeys_allocateSlots _ _)
  | slot => exact .andNext (keepsKeys_accessSlot _)
  | unsupported => exact .throw _

theorem keepsKeys_settle (i : Located) (flow : Flow) : (settle i flow).KeepsKeys := by
  intro s hs
  rw [settle_eq]
  split
  · exact hs
  · split <;> exact hs

/-- A step keeps keys distinct, whether it faults or not. -/
theorem keepsKeys_step : step.KeepsKeys :=
  .bind .get fun _ => .bind (.orFault _) fun i => .bind (keepsKeys_execute i) fun _ =>
    keepsKeys_settle i _

/-! ## Hosts -/

theorem extends_of_builds {heap heap' : Heap} {items : List Item} (h : Builds heap items heap') :
    heap.Extends heap' := by
  induction h with
  | nil => exact .refl _
  | plain _ _ ih => exact ih
  | buffer _ ih => exact (Heap.Extends.newBuffer _ _).trans ih
  | array _ _ ih ih' | struct _ _ ih ih' => exact ih.trans ((Heap.Extends.newSequence _ _).trans ih')
  | map _ _ ih ih' => exact ih.trans ((Heap.Extends.newMap _ _).trans ih')

/-- The machines that a host comes to who builds no map with equal keys. Between two instructions it may
change all but the objects there are. -/
inductive Reached : State → Prop
  | fresh {s : State} (h : s.memory.heap = {}) : Reached s
  | supplied {s t : State} {arguments : List Item} (h : Reached s)
    (hbuilds : Builds s.memory.heap arguments t.memory.heap)
    (hkeys : ∀ r, s.memory.heap.maps.size ≤ r → (t.memory.heap.map r).Pairwise fun entry entry' =>
      entry.1.equals t.memory.heap entry'.1 = false) : Reached t
  | step {s : State} (h : Reached s) : Reached (leftBehind (step s))

namespace Reached

variable {s t : State}

/-- Where the heap is the same, a host may come to another machine. -/
theorem same (h : Reached s) (hheap : t.memory.heap = s.memory.heap) : Reached t := by
  have hnothing : Builds s.memory.heap [] t.memory.heap := hheap ▸ .nil
  refine h.supplied hnothing fun r hr => ?_
  have hnone : s.memory.heap.map r = [] := by
    unfold Heap.map
    rw [Array.getD_eq_getD_getElem?, Array.getElem?_eq_none hr]
    rfl
  rw [hheap, hnone]
  exact .nil

/-- Invocations lead from such machines to such machines. -/
theorem invoke (h : Reached s) (entry : Nat) (arguments : List Item) :
    Reached (leftBehind (Machine.invoke entry arguments s)) := by
  have hinvariant : RunInvariant arguments Reached :=
    { step := fun _ h => h.step
      handOut := fun _ h => h.same rfl
      ready := fun _ h => h.same rfl
      initializer := fun _ _ h => h.same rfl
      start := fun _ _ h => h.same rfl }
  exact hinvariant.invoke entry h

/-- No item is a key twice in a map. -/
theorem distinctKeys (h : Reached s) : s.DistinctKeys := by
  induction h with
  | fresh h =>
    intro r
    rw [h]
    exact .nil
  | supplied _ hbuilds hkeys ih => exact ih.grown (extends_of_builds hbuilds) fun r hr => .of_unequal (hkeys r hr)
  | step _ ih => exact keepsKeys_step ih

/-- Two equal keys of a map are two structs. -/
theorem equalKeys_structs (h : Reached s) (r : Nat) :
    (s.memory.heap.map r).Pairwise fun entry entry' =>
      entry.1.equals s.memory.heap entry'.1 = true →
        ∃ a b, entry.1 = .struct a ∧ entry'.1 = .struct b ∧ a ≠ b :=
  (h.distinctKeys r).structs s.memory.heap

end Reached

/-- A script that stores values under two structs, and then makes the second one like the first. -/
def crossing : Array UInt8 :=
  #[0xc8, 0x4a, 0x11, 0x11, 0xbf, 0x1a, 0xd0, 0x12, 0x11, 0xbf, 0x4b, 0x4b, 0x1b, 0xd0, 0x10, 0x11, 0xd0,
    0x40]

/-- The machine that this script leaves behind. -/
def crossed : State :=
  leftBehind (invoke 0 [] { script := crossing })

theorem equalKeys_crossed : Reached crossed ∧ ∃ v w,
    crossed.memory.heap.map 0 = [(.struct 0, v), (.struct 1, w)]
      ∧ (Item.struct 0).equals crossed.memory.heap (.struct 1) = true := by
  have hreached : Reached crossed := (Reached.fresh rfl).invoke 0 []
  exact ⟨hreached, .ofNat 10, .ofNat 11, by decide +kernel, by decide +kernel⟩

end StackContract.Machine
