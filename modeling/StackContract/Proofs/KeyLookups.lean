import Mathlib.Algebra.Group.Int.Defs
import StackContract.Proofs.Operands
/-!
# Whether a key is there

One instruction tells whether a container has a key, another one takes what is there. They agree on all
keys of a map, and on the indices of everything else that are below 2^64 (`hasKey_iff_pickItem`).

There is nothing at an index of more than 64 bits. The first instruction reads the lowest 64 bits alone,
though (`hasKey_iff_pickItem_wrapped`), and so tells of keys that are not there: `hasKey_beyond`.
-/

namespace StackContract.Number

/-- The lowest 64 bits of an integer. -/
def Int128.low64 (v : Int128) : Int128 :=
  ⟨v.val % 2 ^ 64, by omega, by omega⟩

end StackContract.Number

namespace StackContract.Machine

open Script Number

namespace Item

/-! ## Lookups -/

/-- How many items or bytes there are in a container that is no map. -/
def extent (heap : Heap) : Item → Except Fault Nat
  | .array ref | .struct ref => .ok (heap.sequence ref).size
  | other => (other.asBytes heap).map List.length

/-- The item or the byte at an index of a container that is no map. -/
def element (heap : Heap) (container : Item) (n : Nat) : Item :=
  match container with
  | .array ref | .struct ref => (heap.sequence ref).getD n .null
  | other => match other.asBytes heap with
    | .ok bytes => .ofNat (bytes.getD n 0).toNat
    | .error _ => .null

/-- What a container has under a key. -/
def lookup (heap : Heap) (container key : Item) : Except Fault Item :=
  match container with
  | .map ref => match heap.findEntry? (heap.map ref) key with
    | some value => .ok value
    | none => .error (.keyNotFound (key.text heap))
  | other => (other.extent heap).bind fun n => (key.asIndex heap n).map (other.element heap)

/-- Whether a container has a key. -/
def hasKey (heap : Heap) (container key : Item) : Except Fault Bool :=
  match container with
  | .map ref => .ok (heap.findEntry? (heap.map ref) key).isSome
  | other => (key.asInteger heap).bind fun v =>
    if v.val < 0 then .ok false else (other.extent heap).map (isIndex v)

variable {heap : Heap} {container key : Item}

/-- A map has the keys under which there is something. -/
theorem hasKey_map_iff (ref : Nat) :
    hasKey heap (.map ref) key = .ok true ↔ ∃ item, lookup heap (.map ref) key = .ok item := by
  simp only [hasKey, lookup]
  cases heap.findEntry? (heap.map ref) key <;> simp

theorem lookup_eq (hmap : ∀ ref, container ≠ .map ref) : lookup heap container key
    = (container.extent heap).bind fun n => (key.asIndex heap n).map (container.element heap) := by
  unfold lookup
  split
  · exact absurd rfl (hmap _)
  · rfl

theorem hasKey_eq (hmap : ∀ ref, container ≠ .map ref) : hasKey heap container key
    = (key.asInteger heap).bind fun v =>
      if v.val < 0 then .ok false else (container.extent heap).map (isIndex v) := by
  unfold hasKey
  split
  · exact absurd rfl (hmap _)
  · rfl

/-- There is something under the indices below the extent. -/
theorem exists_lookup_iff (hmap : ∀ ref, container ≠ .map ref) :
    (∃ item, lookup heap container key = .ok item) ↔ ∃ v n, key.asInteger heap = .ok v
      ∧ container.extent heap = .ok n ∧ 0 ≤ v.val ∧ v.val < n := by
  rw [lookup_eq hmap]
  unfold asIndex
  cases container.extent heap with
  | error fault => simp [Except.bind]
  | ok n =>
    cases key.asInteger heap with
    | error fault => simp [Except.bind, Except.map, bind]
    | ok v =>
      by_cases hinside : 0 ≤ v.val ∧ v.val < n
      · simp [Except.bind, Except.map, bind, pure, Except.pure, hinside]
      · simp [Except.bind, Except.map, bind, throw, throwThe, MonadExceptOf.throw, hinside]

/-- A container has the indices whose lowest 64 bits are below its extent. -/
theorem hasKey_eq_true_iff (hmap : ∀ ref, container ≠ .map ref) :
    hasKey heap container key = .ok true ↔ ∃ v n, key.asInteger heap = .ok v
      ∧ container.extent heap = .ok n ∧ 0 ≤ v.val ∧ v.low64.val < n := by
  rw [hasKey_eq hmap]
  cases key.asInteger heap with
  | error fault => simp [Except.bind]
  | ok v =>
    by_cases hneg : v.val < 0
    · have hnonneg : ¬ 0 ≤ v.val := Int.not_le.mpr hneg
      simp [Except.bind, hneg, hnonneg]
    · cases container.extent heap with
      | error fault => simp [Except.bind, Except.map, hneg]
      | ok n => simp [Except.bind, Except.map, hneg, isIndex, Int128.low64]

end Item

variable {i j : Located} {s : State} {below : Stack Item} {container key : Item}

/-- The key and the container are gone whatever is found. -/
theorem pickItem_eq (address : Nat) (heap : Heap) :
    Compound.pickItem address ⟨(below.push container).push key, heap⟩
      = Memory.result below heap (container.lookup heap key) := by
  cases container with
  | map ref =>
    show (match heap.findEntry? (heap.map ref) key with | some value => _ | none => _ : Eval Unit)
      address ⟨below, heap⟩ = _
    simp only [Item.lookup]
    cases heap.findEntry? (heap.map ref) key <;> rfl
  | null | pointer _ => rfl
  | _ => exact pushResult_eq (key.asIndex heap _) _ address heap

/-- Likewise where the key is looked for alone. -/
theorem testKey_eq (address : Nat) (heap : Heap) :
    Compound.hasKey address ⟨(below.push container).push key, heap⟩
      = Memory.result below heap ((container.hasKey heap key).map .boolean) := by
  cases container with
  | map ref => rfl
  | array ref | struct ref =>
    rw [Item.hasKey_eq (by simp)]
    show (Eval.orFault (key.asInteger heap) >>= _ : Eval Unit) address ⟨below, heap⟩ = _
    cases key.asInteger heap with
    | error fault => rfl
    | ok v =>
      show _ = Memory.result below heap ((if v.val < 0 then _ else _ : Except Fault Bool).map .boolean)
      split
      · next hneg =>
        have hnone : Item.isIndex v (heap.sequence ref).size = false := by
          simp [Item.isIndex]
          omega
        show Eval.pushBoolean (Item.isIndex v (heap.sequence ref).size) address ⟨below, heap⟩ = _
        rw [hnone]
        rfl
      · rfl
  | _ =>
    rw [Item.hasKey_eq (by simp)]
    show (Eval.orFault (key.asInteger heap) >>= _ : Eval Unit) address ⟨below, heap⟩ = _
    cases key.asInteger heap with
    | error fault => rfl
    | ok v =>
      show (if v.val < 0 then _ else _ : Eval Unit) address ⟨below, heap⟩
        = Memory.result below heap ((if v.val < 0 then _ else _ : Except Fault Bool).map .boolean)
      split <;> rfl

theorem execute_pickItem (hop : i.opcode = .pickItem)
    (hstack : s.memory.stack = (below.push container).push key) :
    execute i s = s.result below (container.lookup s.memory.heap key) := by
  have hoperation : operation i.opcode = .simple (.compound .pickItem) := by
    rw [hop]
    rfl
  rw [execute_simple hoperation]
  show s.withMemory _ (Compound.pickItem s.address s.memory) = _
  rw [State.memory_eq hstack, pickItem_eq, withMemory_result]

theorem execute_hasKey (hop : i.opcode = .hasKey)
    (hstack : s.memory.stack = (below.push container).push key) :
    execute i s = s.result below ((container.hasKey s.memory.heap key).map .boolean) := by
  have hoperation : operation i.opcode = .simple (.compound .hasKey) := by
    rw [hop]
    rfl
  rw [execute_simple hoperation]
  show s.withMemory _ (Compound.hasKey s.address s.memory) = _
  rw [State.memory_eq hstack, testKey_eq, withMemory_result]


theorem result_ok_iff {found : Except Fault Item} :
    (∃ s', s.result below found = .ok .next s') ↔ ∃ item, found = .ok item := by
  cases found with
  | error fault => simp [State.result]
  | ok item => exact ⟨fun _ => ⟨item, rfl⟩, fun _ => ⟨_, rfl⟩⟩

theorem result_true_iff {found : Except Fault Bool} :
    s.result below (found.map .boolean) = .ok .next (s.withStack (below.push (.boolean true)))
      ↔ found = .ok true := by
  cases found with
  | error fault => simp [State.result, Except.map]
  | ok b =>
    constructor
    · intro h
      injection h with _ hstate
      have hstack := congrArg (·.memory.stack.toList) hstate
      simp at hstack
      rw [hstack]
    · intro h
      cases h
      rfl

/-- It is told that a key is there where something is found under it, of a map on all keys, of others
on all but integers of more than 64 bits. -/
theorem hasKey_iff_pickItem (hhas : i.opcode = .hasKey) (hpick : j.opcode = .pickItem)
    (hstack : s.memory.stack = (below.push container).push key)
    (hkey : (∃ ref, container = .map ref)
      ∨ ∀ v, key.asInteger s.memory.heap = .ok v → v.val < 2 ^ 64) :
    execute i s = .ok .next (s.withStack (below.push (.boolean true)))
      ↔ ∃ s', execute j s = .ok .next s' := by
  rw [execute_hasKey hhas hstack, execute_pickItem hpick hstack, result_true_iff, result_ok_iff]
  by_cases hmap : ∃ ref, container = .map ref
  · obtain ⟨ref, rfl⟩ := hmap
    exact Item.hasKey_map_iff ref
  · have hother : ∀ ref, container ≠ .map ref := fun ref h => hmap ⟨ref, h⟩
    have hsmall := hkey.resolve_left hmap
    rw [Item.hasKey_eq_true_iff hother, Item.exists_lookup_iff hother]
    -- indices of 64 bits are their lowest 64 bits
    have hlow : ∀ v : Int128, key.asInteger s.memory.heap = .ok v → 0 ≤ v.val →
        v.low64.val = v.val :=
      fun v hv hnonneg => Int.emod_eq_of_lt hnonneg (hsmall v hv)
    constructor
    · rintro ⟨v, n, hv, hn, hnonneg, hlt⟩
      exact ⟨v, n, hv, hn, hnonneg, hlow v hv hnonneg ▸ hlt⟩
    · rintro ⟨v, n, hv, hn, hnonneg, hlt⟩
      exact ⟨v, n, hv, hn, hnonneg, (hlow v hv hnonneg).symm ▸ hlt⟩

/-- Of anything but a map it is told that an index is there where something is found at its lowest
64 bits. -/
theorem hasKey_iff_pickItem_wrapped (hhas : i.opcode = .hasKey) (hpick : j.opcode = .pickItem)
    (hstack : s.memory.stack = (below.push container).push key)
    (hother : ∀ ref, container ≠ .map ref) {v : Int128}
    (hkey : key.asInteger s.memory.heap = .ok v) (hnonneg : 0 ≤ v.val) :
    execute i s = .ok .next (s.withStack (below.push (.boolean true)))
      ↔ ∃ s', execute j (s.withStack ((below.push container).push (.integer v.low64)))
        = .ok .next s' := by
  have hnonneg' : 0 ≤ v.low64.val := Int.emod_nonneg _ (by decide)
  rw [execute_hasKey hhas hstack, execute_pickItem hpick rfl, result_true_iff, result_ok_iff,
    Item.hasKey_eq_true_iff hother, Item.exists_lookup_iff hother]
  constructor
  · rintro ⟨w, n, hw, hn, -, hlt⟩
    rw [hkey] at hw
    cases hw
    exact ⟨v.low64, n, rfl, hn, hnonneg', hlt⟩
  · rintro ⟨w, n, hw, hn, -, hlt⟩
    cases hw
    exact ⟨v, n, hkey, hn, hnonneg, hlt⟩

/-- A machine with an array of one item and an index on its stack. -/
def indexing (v : Int128) : State :=
  { script := #[]
    memory := ⟨(Stack.empty.push (.array 0)).push (.integer v), ⟨#[], #[#[.null]], #[]⟩⟩ }

/-- The least index of more than 64 bits. -/
def farIndex : Int128 := ⟨0x1_0000_0000_0000_0000, by decide, by decide⟩

/-- An array of one item is told to have the index 2^64, where nothing is found. -/
theorem hasKey_beyond :
    execute ⟨⟨.hasKey, []⟩, 0⟩ (indexing farIndex)
        = .ok .next ((indexing farIndex).withStack (Stack.empty.push (.boolean true)))
      ∧ execute ⟨⟨.pickItem, []⟩, 0⟩ (indexing farIndex)
        = .error (.indexOutOfRange farIndex.val 1) ((indexing farIndex).withStack .empty) := by
  have htold : Item.hasKey (indexing farIndex).memory.heap (.array 0) (.integer farIndex) = .ok true := by
    decide
  have hnothing : Item.lookup (indexing farIndex).memory.heap (.array 0) (.integer farIndex)
      = .error (.indexOutOfRange farIndex.val 1) := by
    decide
  constructor
  · rw [execute_hasKey rfl rfl, htold]
    rfl
  · rw [execute_pickItem rfl rfl, hnothing]
    rfl

end StackContract.Machine
