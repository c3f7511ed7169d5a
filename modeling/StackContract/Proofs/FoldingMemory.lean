import Mathlib.Data.List.GetD
import Mathlib.Data.List.Nodup
import StackContract.Compile.Folding
import StackContract.Proofs.Standalone
/-!
# What folding keeps in memory

The machine that folds initializers keeps its arrays apart from its stack; the machine that runs them
keeps buffers and arrays in its heap. A memory mirrors a state of the folding machine (`Mirrors`) if every
array has an item of its own, and the stack holds what the values stand for.
-/

namespace StackContract.Contract

open Assembly Compile Script Lowering Machine Number
open Compile.Folding (Value Elements)
open Source (Conversion)

/-! ## Values and items -/

/-- The item of an element of an array of strings. Elements that are not assigned are null. -/
def textItem : Option String → Item
  | none => .null
  | some s => .byteString (Text.utf8 s)

/-- The item that a value stands for, where `made` are the items of the arrays. -/
def itemOf (made : List Item) : Value → Item
  | .integer v => .integer v
  | .string s => .byteString (Text.utf8 s)
  | .array id => made.getD id .null

theorem itemOf_array {made : List Item} {id : Nat} (h : id < made.length) :
    itemOf made (.array id) = made[id] :=
  List.getD_eq_getElem _ _ h

/-- A heap holds the elements of an array under an item. -/
inductive Contains (heap : Heap) : Elements → Item → Prop
  | bytes {data : List UInt8} {r : Nat} (h : r < heap.buffers.size)
    (hdata : heap.buffer r = data.toArray) : Contains heap (.bytes data) (.buffer r)
  | strings {items : List (Option String)} {r : Nat} (h : r < heap.sequences.size)
    (hitems : heap.sequence r = (items.map textItem).toArray) :
    Contains heap (.strings items) (.array r)

/-- A memory holds what a state of the folding machine does. -/
structure Mirrors (made : List Item) (state : Folding.State) (m : Memory) : Prop where
  stack : m.stack.toList = state.stack.map (itemOf made)
  length : made.length = state.arrays.length
  arrays : ∀ {id : Nat} {elements item}, state.arrays[id]? = some elements → made[id]? = some item →
    Contains m.heap elements item
  /-- Distinct arrays are distinct items. -/
  nodup : made.Nodup
  known : ∀ {id : Nat}, .array id ∈ state.stack → id < made.length
  /-- No value is larger than the largest literal. -/
  small : ∀ {v : Int128}, .integer v ∈ state.stack → v.val < 2 ^ 64

/-! ## Heaps that change -/

section

variable {heap : Heap} {elements : Elements} {item : Item}

theorem Contains.newBuffer (h : Contains heap elements item) (bytes : Array UInt8) :
    Contains (heap.newBuffer bytes).2 elements item := by
  cases h with
  | bytes hr hdata =>
    refine .bytes (Nat.lt_of_lt_of_le hr ?_) ?_
    · show _ ≤ (heap.buffers.push bytes).size
      rw [Array.size_push]
      exact Nat.le_succ _
    · exact (Heap.buffer_newBuffer ..).trans ((if_neg (Nat.ne_of_lt hr)).trans hdata)
  | strings hr hitems => exact .strings hr hitems

theorem Contains.newSequence (h : Contains heap elements item) (items : Array Item) :
    Contains (heap.newSequence items).2 elements item := by
  cases h with
  | bytes hr hdata => exact .bytes hr hdata
  | strings hr hitems =>
    refine .strings (Nat.lt_of_lt_of_le hr ?_) ?_
    · show _ ≤ (heap.sequences.push items).size
      rw [Array.size_push]
      exact Nat.le_succ _
    · exact (Heap.sequence_newSequence ..).trans ((if_neg (Nat.ne_of_lt hr)).trans hitems)

theorem contains_newBuffer (heap : Heap) (data : List UInt8) :
    Contains (heap.newBuffer data.toArray).2 (.bytes data) (.buffer heap.buffers.size) := by
  refine .bytes ?_ ?_
  · show _ < (heap.buffers.push data.toArray).size
    rw [Array.size_push]
    exact Nat.lt_succ_self _
  · exact (Heap.buffer_newBuffer ..).trans (if_pos rfl)

theorem contains_newSequence (heap : Heap) (items : List (Option String)) :
    Contains (heap.newSequence (items.map textItem).toArray).2 (.strings items)
      (.array heap.sequences.size) := by
  refine .strings ?_ ?_
  · show _ < (heap.sequences.push (items.map textItem).toArray).size
    rw [Array.size_push]
    exact Nat.lt_succ_self _
  · exact (Heap.sequence_newSequence ..).trans (if_pos rfl)

theorem Contains.modifyBuffer {r : Nat} (h : Contains heap elements item) (hother : item ≠ .buffer r)
    (f : Array UInt8 → Array UInt8) : Contains (heap.modifyBuffer r f) elements item := by
  cases h with
  | @bytes data r' hr hdata =>
    refine .bytes ?_ ?_
    · show _ < (heap.buffers.modify r f).size
      rw [Array.size_modify]
      exact hr
    · rw [Heap.buffer_modifyBuffer, if_neg (fun hsame => hother (congrArg Item.buffer hsame.1.symm))]
      exact hdata
  | strings hr hitems => exact .strings hr hitems

theorem Contains.modifySequence {r : Nat} (h : Contains heap elements item) (hother : item ≠ .array r)
    (f : Array Item → Array Item) : Contains (heap.modifySequence r f) elements item := by
  cases h with
  | bytes hr hdata => exact .bytes hr hdata
  | @strings items r' hr hitems =>
    refine .strings ?_ ?_
    · show _ < (heap.sequences.modify r f).size
      rw [Array.size_modify]
      exact hr
    · rw [Heap.sequence_modifySequence,
        if_neg (fun hsame => hother (congrArg Item.array hsame.1.symm))]
      exact hitems

/-- An item of the heap is not the next one that is made. -/
theorem Contains.ne_buffer (h : Contains heap elements item) : item ≠ .buffer heap.buffers.size := by
  rintro rfl
  cases h with
  | bytes hr _ => exact Nat.lt_irrefl _ hr

theorem Contains.ne_array (h : Contains heap elements item) : item ≠ .array heap.sequences.size := by
  rintro rfl
  cases h with
  | strings hr _ => exact Nat.lt_irrefl _ hr

end

/-! ## Stacks that change -/

namespace Mirrors

variable {made : List Item} {state : Folding.State} {stack : Stack Item} {heap heap' : Heap}
  {value : Value}

/-- Below the value on top, a memory mirrors what is there. -/
theorem pop {m : Memory} (h : Mirrors made (Folding.push state value) m) :
    ∃ stack heap, m = ⟨stack.push (itemOf made value), heap⟩ ∧ Mirrors made state ⟨stack, heap⟩ := by
  obtain ⟨rest, hpop, hrest⟩ := Stack.pop?_of_toList h.stack
  refine ⟨rest, m.heap, congrArg (Memory.mk · m.heap) (Stack.pop?_eq_some_iff.mp hpop), ?_⟩
  exact ⟨hrest, h.length, h.arrays, h.nodup, fun hid => h.known (List.mem_cons_of_mem _ hid),
    fun hv => h.small (List.mem_cons_of_mem _ hv)⟩

/-- A value that is no array is pushed as its item. -/
theorem push (h : Mirrors made state ⟨stack, heap⟩) (hvalue : ∀ id, value ≠ .array id)
    (hsmall : ∀ v, value = .integer v → v.val < 2 ^ 64) :
    Mirrors made (Folding.push state value) ⟨stack.push (itemOf made value), heap⟩ where
  stack := congrArg (itemOf made value :: ·) h.stack
  length := h.length
  arrays := h.arrays
  nodup := h.nodup
  known {id} hid := by
    rcases List.mem_cons.mp hid with heq | hid
    · exact absurd heq.symm (hvalue id)
    · exact h.known hid
  small {v} hv := by
    rcases List.mem_cons.mp hv with heq | hv
    · exact hsmall v heq.symm
    · exact h.small hv

/-- A copy of a value stands for the same item. -/
theorem dup {m : Memory} (h : Mirrors made (Folding.push state value) m) :
    Mirrors made (Folding.push (Folding.push state value) value)
      { m with stack := m.stack.push (itemOf made value) } where
  stack := congrArg (itemOf made value :: ·) h.stack
  length := h.length
  arrays := h.arrays
  nodup := h.nodup
  known hid := by
    rcases List.mem_cons.mp hid with heq | hid
    · exact h.known (heq ▸ List.mem_cons_self ..)
    · exact h.known hid
  small hv := by
    rcases List.mem_cons.mp hv with heq | hv
    · exact h.small (heq ▸ List.mem_cons_self ..)
    · exact h.small hv

/-- Nothing is lost where the arrays keep their contents. -/
theorem withHeap (h : Mirrors made state ⟨stack, heap⟩)
    (hcontains : ∀ {elements item}, Contains heap elements item → Contains heap' elements item) :
    Mirrors made state ⟨stack, heap'⟩ :=
  ⟨h.stack, h.length, fun he hi => hcontains (h.arrays he hi), h.nodup, h.known, h.small⟩

/-- The item of an array holds its elements. -/
theorem array {id : Nat} (h : Mirrors made state ⟨stack, heap⟩) (hid : id < made.length) :
    Contains heap (Folding.elements state id) (itemOf made (.array id)) := by
  have hlength := h.length
  have helements := List.getElem?_eq_getElem (hlength ▸ hid : id < state.arrays.length)
  have hitem := List.getElem?_eq_getElem hid
  have hcontains := h.arrays helements hitem
  have helements' : Folding.elements state id = state.arrays[id] :=
    List.getD_eq_getElem _ _ (hlength ▸ hid)
  rw [helements', itemOf_array hid]
  exact hcontains

/-- A new array has an item of its own. -/
theorem newArray {elements : Elements} {item : Item} (h : Mirrors made state ⟨stack, heap⟩)
    (hcontains : ∀ {elements item}, Contains heap elements item → Contains heap' elements item)
    (hnew : Contains heap' elements item)
    (hfresh : ∀ {elements other}, Contains heap elements other → other ≠ item) :
    Mirrors (made ++ [item])
      (Folding.push { state with arrays := state.arrays ++ [elements] } (.array state.arrays.length))
      ⟨stack.push item, heap'⟩ := by
  have hlength := h.length
  have hheld : ∀ {id : Nat} {other}, made[id]? = some other → ∃ elements, Contains heap elements other := by
    intro id other hother
    obtain ⟨hid, -⟩ := List.getElem?_eq_some_iff.mp hother
    exact ⟨_, h.arrays (List.getElem?_eq_getElem (hlength ▸ hid)) hother⟩
  -- the values that are on the stack stand for what they did
  have hsame : ∀ value ∈ state.stack, itemOf (made ++ [item]) value = itemOf made value := by
    intro value hvalue
    cases value with
    | integer v => rfl
    | string s => rfl
    | array id =>
      show (made ++ [item]).getD id .null = made.getD id .null
      rw [List.getD_append _ _ _ _ (h.known hvalue)]
  constructor
  · show item :: stack.toList = (made ++ [item]).getD state.arrays.length .null
      :: state.stack.map (itemOf (made ++ [item]))
    rw [List.map_congr_left hsame, ← h.stack, ← hlength, List.getD_append_right _ _ _ _ (Nat.le_refl _),
      Nat.sub_self]
    rfl
  · show (made ++ [item]).length = (state.arrays ++ [elements]).length
    rw [List.length_append, List.length_append, hlength]
    rfl
  · intro id found other hfound hother
    by_cases hid : id < made.length
    · rw [List.getElem?_append_left hid] at hother
      have hfound' : state.arrays[id]? = some found :=
        (List.getElem?_append_left (hlength ▸ hid)).symm.trans hfound
      exact hcontains (h.arrays hfound' hother)
    · obtain ⟨hlast, -⟩ := List.getElem?_eq_some_iff.mp hother
      rw [List.length_append, List.length_singleton] at hlast
      obtain rfl : id = made.length := by omega
      rw [List.getElem?_concat_length] at hother
      have hfound' : (state.arrays ++ [elements])[made.length]? = some found := hfound
      rw [hlength, List.getElem?_concat_length] at hfound'
      cases hother
      cases hfound'
      exact hnew
  · refine List.nodup_append.mpr ⟨h.nodup, List.nodup_singleton item, ?_⟩
    intro other hother last hlast
    rw [List.mem_singleton.mp hlast]
    obtain ⟨id, hid⟩ := List.mem_iff_getElem?.mp hother
    obtain ⟨_, hother⟩ := hheld hid
    exact hfresh hother
  · intro id hid
    rw [List.length_append, List.length_singleton]
    rcases List.mem_cons.mp hid with heq | hid
    · cases heq
      omega
    · exact Nat.lt_succ_of_lt (h.known hid)
  · intro v hv
    rcases List.mem_cons.mp hv with heq | hv
    · cases heq
    · exact h.small hv

/-- An array whose elements change keeps its item, and all others keep their elements. -/
theorem set {id : Nat} {elements : Elements} (h : Mirrors made state ⟨stack, heap⟩)
    (hid : id < made.length)
    (hothers : ∀ {others other}, Contains heap others other → other ≠ itemOf made (.array id) →
      Contains heap' others other) (hnew : Contains heap' elements (itemOf made (.array id))) :
    Mirrors made { state with arrays := state.arrays.set id elements } ⟨stack, heap'⟩ where
  stack := h.stack
  length := h.length.trans List.length_set.symm
  arrays {id' found other} hfound hother := by
    have hitem := itemOf_array hid
    have hfound : (state.arrays.set id elements)[id']? = some found := hfound
    rw [List.getElem?_set] at hfound
    by_cases hsame : id = id'
    · subst hsame
      rw [if_pos rfl, if_pos (h.length ▸ hid)] at hfound
      rw [List.getElem?_eq_getElem hid] at hother
      cases hfound
      cases hother
      exact hitem ▸ hnew
    · rw [if_neg hsame] at hfound
      refine hothers (h.arrays hfound hother) fun heq => hsame ?_
      obtain ⟨hid', hget⟩ := List.getElem?_eq_some_iff.mp hother
      rw [hitem, ← hget] at heq
      exact (h.nodup.getElem_inj_iff.mp heq).symm
  nodup := h.nodup
  known := h.known
  small := h.small

end Mirrors

end StackContract.Contract
