import StackContract.Proofs.Computations
import StackContract.Proofs.Founding
import StackContract.Proofs.Operands
/-!
# Stores into compounds

What the instructions that put items into compounds do to the heap, as functions of it: `Heap.store` puts
an item under a key, `Heap.extend` behind a sequence. A struct is copied first (`exists_setItem` and its
siblings), and the copy is stored.
-/

namespace StackContract.Machine

open Script Number

namespace Heap

/-- The heap with an integer as the byte at an index of a buffer. -/
def setByte (heap : Heap) (r index : Nat) (v : Int128) : Except Fault Heap :=
  match Compound.byteOf? v with
  | some byte => return heap.modifyBuffer r (·.setIfInBounds index byte)
  | none => throw .overflow

/-- The heap with an item as the byte under a key of a buffer. -/
def storeByte (heap : Heap) (r : Nat) (key item : Item) : Except Fault Heap := do
  Compound.unheld r key
  let index ← key.asIndex heap (heap.buffer r).size
  Compound.unheld r item
  heap.setByte r index (← item.asInteger heap)

/-- The heap with an item under a key of a container. -/
def store (heap : Heap) (key item : Item) : Item → Except Fault Heap
  | .array r | .struct r => do
    let index ← key.asIndex heap (heap.sequence r).size
    return heap.modifySequence r (·.setIfInBounds index item)
  | .map r => return heap.modifyMap r fun _ => heap.setEntry key item (heap.map r)
  | .buffer r => heap.storeByte r key item
  | container => throw (container.invalid (.kind .array))

/-- The heap with an item at the end of a container. -/
def extend (heap : Heap) (item : Item) : Item → Except Fault Heap
  | .array r | .struct r => return heap.modifySequence r (·.push item)
  | container => throw (container.invalid (.kind .array))

/-- The items that are collected from a container. -/
def collected? (heap : Heap) : Item → Option (Array Item)
  | .array r | .struct r => some (heap.sequence r)
  | .map r => some ((heap.map r).map Prod.snd).toArray
  | _ => none

end Heap

theorem Heap.Founded.collected {heap : Heap} (h : heap.Founded) {container : Item} {items : Array Item}
    (hitems : heap.collected? container = some items) : AllInhand heap.sequences.size items.toList := by
  cases container with
  | array r | struct r =>
    cases hitems
    exact h.sequences r
  | map r =>
    cases hitems
    intro item hitem
    obtain ⟨entry, hentry, rfl⟩ := List.mem_map.mp hitem
    exact (h.maps r entry hentry).2
  | null | boolean | integer | byteString | pointer | buffer => cases hitems

/-- How a store changes the heap. -/
inductive Heap.Stores (heap : Heap) (key item : Item) : Item → Heap → Prop
  | sequence {container : Item} {r : Nat} (index : Nat)
    (hcontainer : container = .array r ∨ container = .struct r) :
    Stores heap key item container (heap.modifySequence r (·.setIfInBounds index item))
  | map {r : Nat} :
    Stores heap key item (.map r) (heap.modifyMap r fun _ => heap.setEntry key item (heap.map r))
  | buffer {r : Nat} (index : Nat) (byte : UInt8) :
    Stores heap key item (.buffer r) (heap.modifyBuffer r (·.setIfInBounds index byte))

theorem Heap.stores_of_store {heap heap' : Heap} {key item container : Item}
    (h : heap.store key item container = .ok heap') : heap.Stores key item container heap' := by
  cases container with
  | array r =>
    obtain ⟨index, -, hrest⟩ := exceptBind_eq_ok h
    cases hrest
    exact .sequence index (.inl rfl)
  | struct r =>
    obtain ⟨index, -, hrest⟩ := exceptBind_eq_ok h
    cases hrest
    exact .sequence index (.inr rfl)
  | map r =>
    cases h
    exact .map
  | buffer r =>
    change heap.storeByte r key item = _ at h
    obtain ⟨-, -, h⟩ := exceptBind_eq_ok h
    obtain ⟨index, -, h⟩ := exceptBind_eq_ok h
    obtain ⟨-, -, h⟩ := exceptBind_eq_ok h
    obtain ⟨v, -, h⟩ := exceptBind_eq_ok h
    unfold Heap.setByte at h
    cases hbyte : Compound.byteOf? v with
    | none =>
      rw [hbyte] at h
      cases h
    | some byte =>
      rw [hbyte] at h
      cases h
      exact .buffer index byte
  | null | boolean | integer | byteString | pointer => cases h

/-- What is left behind where the heap is changed at last. -/
def Memory.changed (below : Stack Item) (heap : Heap) :
    Except Fault Heap → EStateM.Result Fault Memory Unit
  | .ok heap' => .ok () ⟨below, heap'⟩
  | .error fault => .error fault ⟨below, heap⟩

/-- The machine behind an instruction whose operands lie on `below` and that changes the heap at last. -/
def State.changed (s : State) (below : Stack Item) (heap : Heap) :
    Except Fault Heap → EStateM.Result Fault State Flow
  | .ok heap' => .ok .next { s with memory := ⟨below, heap'⟩ }
  | .error fault => .error fault { s with memory := ⟨below, heap⟩ }

variable {i : Located} {s : State} {below : Stack Item} {container key value copy : Item}
variable {heap heap' : Heap}

theorem withMemory_changed (outcome : Except Fault Heap) :
    s.withMemory (fun _ => Flow.next) (Memory.changed below heap outcome) = s.changed below heap outcome := by
  cases outcome <;> rfl

theorem State.exists_of_changed {flow : Flow} {t : State} {outcome : Except Fault Heap}
    (h : s.changed below heap outcome = .ok flow t) :
    ∃ heap', outcome = .ok heap' ∧ t = { s with memory := ⟨below, heap'⟩ } := by
  cases outcome with
  | error fault => cases h
  | ok heap' =>
    cases h
    exact ⟨heap', rfl, rfl⟩

theorem changeHeap_eq {α : Type} (x : Except Fault α) (f : α → Heap → Heap) (address : Nat) :
    (Eval.orFault x >>= fun a => Eval.modifyHeap (f a)) address ⟨below, heap⟩
      = Memory.changed below heap (x.map fun a => f a heap) := by
  cases x <;> rfl

/-- Behind the copy, the container is looked at. -/
theorem setItem_eq (address : Nat)
    (hcopy : Eval.copyStruct value address ⟨(below.push container).push key, heap⟩
      = .ok copy ⟨(below.push container).push key, heap'⟩) :
    Compound.setItem address ⟨((below.push container).push key).push value, heap⟩
      = Memory.changed below heap' (heap'.store key copy container) := by
  show (Eval.copyStruct value >>= fun value => _ : Eval Unit) address
    ⟨(below.push container).push key, heap⟩ = _
  rw [Eval.bind_apply, hcopy]
  cases container with
  | array r | struct r =>
    exact changeHeap_eq (key.asIndex heap' (heap'.sequence r).size)
      (fun index heap => heap.modifySequence r (·.setIfInBounds index copy)) address
  | buffer r =>
    show (Eval.orFault (Compound.unheld r key) >>= fun _ => _ : Eval Unit) address ⟨below, heap'⟩
      = Memory.changed below heap' (Compound.unheld r key >>= fun _ => _)
    cases Compound.unheld r key with
    | error fault => rfl
    | ok =>
      show (Eval.orFault (key.asIndex heap' _) >>= fun index => _ : Eval Unit) address ⟨below, heap'⟩
        = Memory.changed below heap' (key.asIndex heap' _ >>= fun index => _)
      cases key.asIndex heap' (heap'.buffer r).size with
      | error fault => rfl
      | ok index =>
        show (Eval.orFault (Compound.unheld r copy) >>= fun _ => _ : Eval Unit) address ⟨below, heap'⟩
          = Memory.changed below heap' (Compound.unheld r copy >>= fun _ => _)
        cases Compound.unheld r copy with
        | error fault => rfl
        | ok =>
          show (Eval.orFault (copy.asInteger heap') >>= fun v => _ : Eval Unit) address ⟨below, heap'⟩
            = Memory.changed below heap' (copy.asInteger heap' >>= fun v => _)
          cases copy.asInteger heap' with
          | error fault => rfl
          | ok v =>
            show (match Compound.byteOf? v with | some byte => _ | none => _ : Eval Unit) address
              ⟨below, heap'⟩ = Memory.changed below heap' (heap'.setByte r index v)
            unfold Heap.setByte
            cases Compound.byteOf? v <;> rfl
  | null | boolean | integer | byteString | pointer | map => rfl

theorem append_eq (address : Nat)
    (hcopy : Eval.copyStruct value address ⟨below.push container, heap⟩
      = .ok copy ⟨below.push container, heap'⟩) :
    Compound.append address ⟨(below.push container).push value, heap⟩
      = Memory.changed below heap' (heap'.extend copy container) := by
  show (Eval.copyStruct value >>= fun item => _ : Eval Unit) address ⟨below.push container, heap⟩ = _
  rw [Eval.bind_apply, hcopy]
  cases container <;> rfl

/-- A value is copied, and its copy is stored under the key. -/
theorem exists_setItem (hs : s.memory.Founded 0) (hop : i.opcode = .setItem)
    (hstack : s.memory.stack = ((below.push container).push key).push value) :
    ∃ copy heap, Copies s.memory.heap [value] [copy] heap
      ∧ execute i s = s.changed below heap (heap.store key copy container) := by
  have hoperation : operation i.opcode = .simple (.compound .setItem) := by
    rw [hop]
    rfl
  have hvalue : value.Inside s.memory.heap.sequences.size :=
    hs.stack value (by rw [hstack]; exact List.mem_cons_self)
  obtain ⟨copy, heap, hcopies, hrun⟩ := exists_copy
    (m := ⟨(below.push container).push key, s.memory.heap⟩) hs.heap hvalue
  refine ⟨copy, heap, hcopies, ?_⟩
  rw [execute_simple hoperation]
  show s.withMemory _ (Compound.setItem s.address s.memory) = _
  rw [State.memory_eq hstack, setItem_eq s.address (hrun _), withMemory_changed]

/-- A value is copied, and its copy comes to the end of the container. -/
theorem exists_append (hs : s.memory.Founded 0) (hop : i.opcode = .append)
    (hstack : s.memory.stack = (below.push container).push value) :
    ∃ copy heap, Copies s.memory.heap [value] [copy] heap
      ∧ execute i s = s.changed below heap (heap.extend copy container) := by
  have hoperation : operation i.opcode = .simple (.compound .append) := by
    rw [hop]
    rfl
  have hvalue : value.Inside s.memory.heap.sequences.size :=
    hs.stack value (by rw [hstack]; exact List.mem_cons_self)
  obtain ⟨copy, heap, hcopies, hrun⟩ := exists_copy
    (m := ⟨below.push container, s.memory.heap⟩) hs.heap hvalue
  refine ⟨copy, heap, hcopies, ?_⟩
  rw [execute_simple hoperation]
  show s.withMemory _ (Compound.append s.address s.memory) = _
  rw [State.memory_eq hstack, append_eq s.address (hrun _), withMemory_changed]

/-- What a container holds is copied into a new array. -/
theorem exists_values (hs : s.memory.Founded 0) (hop : i.opcode = .values)
    (hstack : s.memory.stack = below.push container) {items : Array Item}
    (hitems : s.memory.heap.collected? container = some items) :
    ∃ copies heap, Copies s.memory.heap items.toList copies heap
      ∧ execute i s = .ok .next { s with
        memory := ⟨below.push (.array heap.sequences.size), (heap.newSequence copies.toArray).2⟩ } := by
  have hoperation : operation i.opcode = .simple (.compound .values) := by
    rw [hop]
    rfl
  have hinside := hs.heap.collected hitems
  obtain ⟨copies, heap, hcopies, hrun⟩ := exists_copies (m := ⟨below, s.memory.heap⟩) hs.heap hinside
  refine ⟨copies, heap, hcopies, ?_⟩
  have hmapped := Eval.arrayMapM_eq_ok (hrun s.address)
  have hvalues : Compound.values s.address ⟨below.push container, s.memory.heap⟩
      = .ok () ⟨below.push (.array heap.sequences.size), (heap.newSequence copies.toArray).2⟩ := by
    have hpushed : (do Eval.push (← Eval.newArray (← items.mapM Eval.copyStruct)) : Eval Unit) s.address
        ⟨below, s.memory.heap⟩
        = .ok () ⟨below.push (.array heap.sequences.size), (heap.newSequence copies.toArray).2⟩ := by
      rw [Eval.bind_apply, hmapped]
      rfl
    cases container with
    | array | struct | map =>
      cases hitems
      exact hpushed
    | null | boolean | integer | byteString | pointer | buffer => cases hitems
  rw [execute_simple hoperation]
  show s.withMemory _ (Compound.values s.address s.memory) = _
  rw [State.memory_eq hstack, hvalues]
  rfl

end StackContract.Machine
