import StackContract.Proofs.Faults
import StackContract.Proofs.FoldingLowering
/-!
# Folded initializers do what their code does

Where the initializer of a readonly field is folded to a constant, code that pushes the constant leaves
the same as the code of the initializer itself would (`agrees_of_evaluate`): the same truth value for a
field of truth values, and an item of the same structure for all others.
-/

namespace StackContract.Contract

open Assembly Compile Script Lowering Machine Number
open Compile.Folding (Value Elements)
open Source (Conversion ValueType Op)

/-! ## Statement -/

/-- Items in two heaps have the same structure: compounds of the same kind have the same contents. -/
inductive Item.Same (heap heap' : Heap) : Item → Item → Prop
  | null : Same heap heap' .null .null
  | boolean (b : Bool) : Same heap heap' (.boolean b) (.boolean b)
  | integer (v : Int128) : Same heap heap' (.integer v) (.integer v)
  | byteString (bytes : List UInt8) : Same heap heap' (.byteString bytes) (.byteString bytes)
  | pointer (address : Nat) : Same heap heap' (.pointer address) (.pointer address)
  | buffer {r r' : Nat} (h : heap.buffer r = heap'.buffer r') :
    Same heap heap' (.buffer r) (.buffer r')
  | array {r r' : Nat}
    (h : List.Forall₂ (Same heap heap') (heap.sequence r).toList (heap'.sequence r').toList) :
    Same heap heap' (.array r) (.array r')
  | struct {r r' : Nat}
    (h : List.Forall₂ (Same heap heap') (heap.sequence r).toList (heap'.sequence r').toList) :
    Same heap heap' (.struct r) (.struct r')
  | map {r r' : Nat}
    (hkeys : List.Forall₂ (Same heap heap') ((heap.map r).map Prod.fst) ((heap'.map r').map Prod.fst))
    (hvalues : List.Forall₂ (Same heap heap') ((heap.map r).map Prod.snd)
      ((heap'.map r').map Prod.snd)) :
    Same heap heap' (.map r) (.map r')

/-- Items in two heaps are the same value of a field of a type. -/
def CountsAs (type : ValueType) (heap heap' : Heap) (item item' : Item) : Prop :=
  if type.isBoolean then ∃ b, item.asBoolean = .ok b ∧ item'.asBoolean = .ok b
  else Item.Same heap heap' item item'

/-! ## Constants -/

/-- An item in a heap is the value of a constant. -/
inductive Denotes (heap : Heap) : Constant → Item → Prop
  | integer (v : Int128) : Denotes heap (.integer v) (.integer v)
  | boolean (b : Bool) : Denotes heap (.boolean b) (.boolean b)
  | string (s : String) : Denotes heap (.string s) (.byteString (Text.utf8 s))
  | bytes {data : List UInt8} {r : Nat} (h : heap.buffer r = data.toArray) :
    Denotes heap (.bytes data) (.buffer r)
  | strings {items : List String} {r : Nat}
    (h : heap.sequence r = (items.map fun s => .byteString (Text.utf8 s)).toArray) :
    Denotes heap (.strings items) (.array r)

/-- An item is no object of a heap. -/
def IsNewTo (heap : Heap) : Item → Prop
  | .buffer r => heap.buffers.size ≤ r
  | .array r | .struct r => heap.sequences.size ≤ r
  | .map r => heap.maps.size ≤ r
  | _ => True

/-- From one heap to another one, a value of a constant is made, which shares nothing with what was there
before. -/
structure Makes (c : Constant) (old new : Heap) (item : Item) : Prop where
  denotes : Denotes new c item
  grows : old.Extends new
  isNew : IsNewTo old item

/-- A constant has one structure, wherever its value is. -/
theorem Denotes.same {heap heap' : Heap} {c : Constant} {item item' : Item}
    (h : Denotes heap c item) (h' : Denotes heap' c item') : Item.Same heap heap' item item' := by
  cases h with
  | integer v => cases h'; exact .integer v
  | boolean b => cases h'; exact .boolean b
  | string s => cases h'; exact .byteString _
  | bytes hr =>
    cases h' with
    | bytes hr' => exact .buffer (hr.trans hr'.symm)
  | strings hr =>
    cases h' with
    | strings hr' =>
      refine .array ?_
      rw [hr, hr', List.forall₂_same]
      intro item hitem
      obtain ⟨s, -, rfl⟩ := List.mem_map.mp hitem
      exact .byteString _

/-- The items of a literal come on the stack one after the other, the first one last. -/
theorem performs_pushStrings (items : List String) (stack : Stack Item) (heap : Heap) :
    Performs (items.map fun s => .pushData (Text.utf8 s)).reverse ⟨stack, heap⟩
      ⟨stack.pushList (items.map fun s => .byteString (Text.utf8 s)), heap⟩ := by
  induction items with
  | nil =>
    have hstack : stack.pushList [] = stack := Stack.ext rfl
    rw [List.map_nil, List.map_nil, hstack]
    exact .nil
  | cons s items ih =>
    have hstack : stack.pushList (.byteString (Text.utf8 s) :: items.map fun s => .byteString (Text.utf8 s))
        = (stack.pushList (items.map fun s => .byteString (Text.utf8 s))).push
          (.byteString (Text.utf8 s)) := Stack.ext rfl
    rw [List.map_cons, List.map_cons, List.reverse_cons, hstack]
    exact ih.append (.pushData (Text.utf8 s))

theorem length_le_extent_pushStrings (items : List String) :
    items.length ≤ extent (items.map fun s => .pushData (Text.utf8 s)).reverse := by
  induction items with
  | nil => exact Nat.le_refl 0
  | cons s items ih =>
    rw [List.map_cons, List.reverse_cons, extent_append, List.length_cons]
    exact Nat.add_le_add ih (Instruction.size_pos _)

/-- Strings are packed into an array in their order. -/
theorem performs_packLiteral (items : List String) (stack : Stack Item) (heap : Heap) :
    Performs (packLiteral (items.map fun s => .pushData (Text.utf8 s))) ⟨stack, heap⟩
      ⟨stack.push (.array heap.sequences.size),
        (heap.newSequence (items.map fun s => .byteString (Text.utf8 s)).toArray).2⟩ := by
  unfold packLiteral
  by_cases hempty : items = []
  · subst hempty
    exact .op (.compound (.newEmpty false)) rfl rfl (fun _ => rfl) (Nat.le_refl _)
  · have hpushes := performs_pushStrings items stack heap
    have hcount := length_le_extent_pushStrings items
    have hlength : (items.map fun s => Item.byteString (Text.utf8 s)).length = items.length :=
      List.length_map _
    have hpushNat : 0 < (Directive.pushNat items.length).size := Instruction.size_pos _
    rw [if_neg (by simpa using hempty), List.length_map]
    have hextent : extent ((items.map fun s => .pushData (Text.utf8 s)).reverse
        ++ [.pushNat items.length, .op .pack])
        = extent (items.map fun s => .pushData (Text.utf8 s)).reverse
          + ((Directive.pushNat items.length).size + 1) := extent_append ..
    refine ⟨fun d hd => ?_, ?_, fun hsmall => ?_⟩
    · rcases List.mem_append.mp hd with hd | hd
      · exact hpushes.inline d hd
      · rcases List.mem_cons.mp hd with rfl | hd
        · exact fun _ => Instruction.fits_pushInteger _
        · rw [List.mem_singleton.mp hd]
          exact fun _ => Instruction.fits_plain rfl
    · show stack.size + 1 ≤ stack.size + _
      omega
    · have hmax : maxScriptSize < 2 ^ 64 := by decide
      have hpack := Carries.pack (items.map fun s => .byteString (Text.utf8 s)) (by omega) stack heap
        (by omega : _ < stack.size + extent ((items.map fun s => .pushData (Text.utf8 s)).reverse
          ++ [.pushNat items.length, .op .pack]))
      rw [hlength] at hpack
      refine ((hpushes.carries (by omega)).mono ?_).append hpack
      show stack.size + _ ≤ stack.size + _
      omega

/-- The code of a constant pushes a new value of it. -/
theorem performs_pushConstant (c : Constant) (stack : Stack Item) (heap : Heap) :
    ∃ item heap', Performs (pushConstant c) ⟨stack, heap⟩ ⟨stack.push item, heap'⟩
      ∧ Makes c heap heap' item := by
  cases c with
  | integer v => exact ⟨_, _, .pushInteger v, .integer v, .refl heap, trivial⟩
  | boolean b => exact ⟨_, _, .pushBoolean b, .boolean b, .refl heap, trivial⟩
  | string s => exact ⟨_, _, .pushData _, .string s, .refl heap, trivial⟩
  | bytes data =>
    exact ⟨_, _, performs_buffer stack heap data,
      .bytes ((Heap.buffer_newBuffer ..).trans (if_pos rfl)), .newBuffer .., Nat.le_refl _⟩
  | strings items =>
    exact ⟨_, _, performs_packLiteral items stack heap,
      .strings ((Heap.sequence_newSequence ..).trans (if_pos rfl)), .newSequence .., Nat.le_refl _⟩

/-! ## Results of folding -/

theorem assignedStrings_eq_ok {index : Nat} {items : List (Option String)} {strings : List String}
    (h : Folding.assignedStrings index items = .ok strings) : items = strings.map some := by
  induction items generalizing index strings with
  | nil =>
    cases h
    rfl
  | cons item items ih =>
    cases item with
    | none => cases h
    | some s =>
      obtain ⟨rest, hrest, hpure⟩ := exceptBind_eq_ok h
      cases hpure
      rw [ih hrest]
      rfl

theorem coerce_array (state : Folding.State) (id : Nat) (type : ValueType) :
    Folding.coerce state (.array id) type = match Folding.elements state id with
      | .bytes data =>
        if Folding.isByteArray type then .ok (.bytes data) else .error (.resultType type)
      | .strings items =>
        if Folding.isStringArray type then (Folding.assignedStrings 0 items).map .strings
        else .error (.resultType type) := by
  cases type <;> rfl

/-- Only integers are folded to truth values. -/
theorem coerce_boolean {state : Folding.State} {value : Value} {c : Constant}
    (h : Folding.coerce state value .boolean = .ok c) :
    ∃ v, value = .integer v ∧ c = .boolean (v.val ≠ 0) := by
  cases value with
  | integer v =>
    cases h
    exact ⟨v, rfl, rfl⟩
  | string s => cases h
  | array id =>
    rw [coerce_array] at h
    cases helements : Folding.elements state id <;> rw [helements] at h <;> cases h

/-- Any other constant has the item of the value that is folded to it. -/
theorem denotes_of_coerce {state : Folding.State} {value : Value} {type : ValueType} {c : Constant}
    {made : List Item} {heap : Heap} (h : Folding.coerce state value type = .ok c)
    (htype : type.isBoolean ≠ true)
    (harray : ∀ id, value = .array id →
      Contains heap (Folding.elements state id) (itemOf made (.array id))) :
    Denotes heap c (itemOf made value) := by
  cases value with
  | integer v =>
    have hinteger : c = .integer v := by
      cases type <;> first | exact absurd rfl htype | cases h; rfl | cases h
    rw [hinteger]
    exact .integer v
  | string s =>
    have hstring : c = .string s := by
      cases type <;> first | cases h; rfl | cases h
    rw [hstring]
    exact .string s
  | array id =>
    have hcontains := harray id rfl
    rw [coerce_array] at h
    generalize Folding.elements state id = elements at h hcontains
    generalize itemOf made (.array id) = item at hcontains ⊢
    cases hcontains with
    | bytes _ hdata =>
      dsimp only at h
      split at h
      · cases h
        exact .bytes hdata
      · cases h
    | strings _ hitems =>
      dsimp only at h
      split at h
      · obtain ⟨strings, hassigned, rfl⟩ := exceptMap_eq_ok h
        rw [assignedStrings_eq_ok hassigned, List.map_map] at hitems
        exact .strings hitems
      · cases h

/-- The value that is folded counts as the constant that it becomes. -/
theorem counts_of_coerce {state : Folding.State} {value : Value} {type : ValueType} {c : Constant}
    {made : List Item} {heap heap' : Heap} {item : Item}
    (hcoerce : Folding.coerce state value type = .ok c)
    (harray : ∀ id, value = .array id →
      Contains heap (Folding.elements state id) (itemOf made (.array id)))
    (h : Denotes heap' c item) : CountsAs type heap heap' (itemOf made value) item := by
  unfold CountsAs
  by_cases hboolean : type.isBoolean = true
  · rw [if_pos hboolean]
    obtain rfl : type = .boolean := by cases type <;> first | rfl | cases hboolean
    obtain ⟨v, rfl, rfl⟩ := coerce_boolean hcoerce
    cases h
    exact ⟨_, rfl, rfl⟩
  · rw [if_neg hboolean]
    exact (denotes_of_coerce hcoerce hboolean harray).same h

/-! ## Runs -/

/-- The code of a constant leaves its value. -/
theorem leaves_pushConstant {c : Constant} {s : State}
    (hready : Ready (assemble (pushConstant c ++ [.op .ret])) s) :
    ∃ item heap, Leaves s item heap ∧ Denotes heap c item := by
  obtain ⟨item, heap, hperforms, hmakes⟩ := performs_pushConstant c .empty s.memory.heap
  obtain ⟨-, hentries, -⟩ := Draft.run_spec bounded_empty (closing (pushConstant c ++ [.op .ret]))
  rw [← assemble_eq] at hentries
  exact ⟨item, heap, hperforms.leaves hready hentries rfl, hmakes.denotes⟩

/-- A body whose code folds leaves the item of the value it is folded to. -/
theorem leaves_of_foldAll {scope : Scope} {code : List Source.Instruction} {offset : UInt32}
    {body : Body} {after : Folding.State} {value : Value} {s : State}
    (hfold : foldAll code {} = .ok after) (hvalue : after.stack = [value])
    (hbody : scope.body = (code ++ [(⟨offset, .ret⟩ : Source.Instruction)]).toArray)
    (hwrite : writeBody scope [] = .ok body) (hready : Ready body s) :
    ∃ made m, Leaves s (itemOf made value) m.heap ∧ Mirrors made after m := by
  have hahead : Ahead scope 0 code offset := by
    refine ⟨fun i hi => ?_, ?_⟩
    · rw [hbody, List.mem_toArray] at hi
      rcases List.mem_append.mp hi with hi | hi
      · exact targets_of_foldAll hfold i hi
      · rw [List.mem_singleton.mp hi]
        rfl
    · rw [hbody, List.drop_zero]
  obtain ⟨segments, hlowers, hlink⟩ := writeBody_spec hwrite
  obtain ⟨first, hcode, hmimics⟩ := mimics_of_lowers hlowers hahead hfold (.inl rfl)
  obtain ⟨hentries, -⟩ := linkLocal_spec hlink
  have hempty : Mirrors [] {} ⟨.empty, s.memory.heap⟩ :=
    ⟨rfl, rfl, nofun, List.nodup_nil, nofun, nofun⟩
  obtain ⟨made, m, hperforms, hmirrors⟩ := hmimics hempty
  have hstack : m.stack.toList = [itemOf made value] := by
    rw [hmirrors.stack, hvalue]
    rfl
  rw [List.nil_append, hcode] at hentries
  exact ⟨made, m, hperforms.leaves hready hentries hstack, hmirrors⟩

/-- A body whose code folds to a constant leaves an item that every value of the constant counts as. -/
theorem leaves_of_evaluate {scope : Scope} {code : List Source.Instruction} {type : ValueType}
    {c : Constant} {offset : UInt32} {body : Body} {s : State}
    (hfold : Folding.evaluate code type = .ok c)
    (hbody : scope.body = (code ++ [(⟨offset, .ret⟩ : Source.Instruction)]).toArray)
    (hwrite : writeBody scope [] = .ok body) (hs : Ready body s) :
    ∃ item heap, Leaves s item heap
      ∧ ∀ heap' item', Denotes heap' c item' → CountsAs type heap heap' item item' := by
  obtain ⟨after, hall, hrest⟩ := exceptBind_eq_ok hfold
  obtain ⟨⟨value, popped⟩, hpop, hcoerce⟩ := exceptBind_eq_ok hrest
  obtain rfl := pop_eq_ok hpop
  dsimp only at hcoerce
  split at hcoerce
  · cases hcoerce
  · next hempty =>
    have hvalue : (Folding.push popped value).stack = [value] := by
      have hnil : popped.stack = [] := by simpa using hempty
      show value :: popped.stack = [value]
      rw [hnil]
    obtain ⟨made, m, hleaves, hmirrors⟩ := leaves_of_foldAll hall hvalue hbody hwrite hs
    refine ⟨_, _, hleaves, fun heap' item' hdenotes => counts_of_coerce hcoerce (fun id hid => ?_) hdenotes⟩
    obtain ⟨stack, heap, rfl, hbelow⟩ := hmirrors.pop
    exact hbelow.array (hmirrors.known (hid ▸ List.mem_cons_self ..))

/-- Where code folds to a constant of a type and is accepted as the body of a method, it leaves one item,
and the code of the constant one that counts as the same. -/
theorem agrees_of_evaluate {scope : Scope} {code : List Source.Instruction} {type : ValueType}
    {c : Constant} {offset : UInt32} {body : Body} {s t : State}
    (hfold : Folding.evaluate code type = .ok c)
    (hbody : scope.body = (code ++ [(⟨offset, .ret⟩ : Source.Instruction)]).toArray)
    (hwrite : writeBody scope [] = .ok body) (hs : Ready body s)
    (ht : Ready (assemble (pushConstant c ++ [.op .ret])) t) :
    ∃ item heap item' heap', Leaves s item heap ∧ Leaves t item' heap'
      ∧ CountsAs type heap heap' item item' := by
  obtain ⟨item, heap, hleaves, hcounts⟩ := leaves_of_evaluate hfold hbody hwrite hs
  obtain ⟨item', heap', hleaves', hdenotes⟩ := leaves_pushConstant ht
  exact ⟨item, heap, item', heap', hleaves, hleaves', hcounts heap' item' hdenotes⟩

/-- An array of two strings, the first of which is joined from two. -/
def sampleStrings : List Source.Instruction :=
  [⟨0, .literal32 2⟩, ⟨1, .newArray .string⟩, ⟨2, .dup⟩, ⟨3, .literal32 0⟩, ⟨4, .loadString "a"⟩,
    ⟨5, .loadString "b"⟩, ⟨6, .call (.intrinsic .stringConcat)⟩, ⟨7, .storeElement⟩, ⟨8, .dup⟩,
    ⟨9, .literal32 1⟩, ⟨10, .loadString "c"⟩, ⟨11, .storeElement⟩]

/-- A method with this body, in a module without other declarations. -/
def sampleStringsScope : Scope where
  catalogue := ⟨{}, [], {}, {}⟩
  method := "T::names"
  locals := 0
  params := 0
  body := (sampleStrings ++ [(⟨12, .ret⟩ : Source.Instruction)]).toArray

theorem agrees_sampleStrings : ∃ (body : Body) (item : Item) (heap : Heap) (item' : Item) (heap' : Heap),
    writeBody sampleStringsScope [] = .ok body
      ∧ Folding.evaluate sampleStrings (.array .string) = .ok (.strings ["ab", "c"])
      ∧ Leaves { script := body.encode.toArray } item heap
      ∧ Leaves { script := (assemble (pushConstant (.strings ["ab", "c"]) ++ [.op .ret])).encode.toArray }
        item' heap'
      ∧ CountsAs (.array .string) heap heap' item item' := by
  have hwrites : (match writeBody sampleStringsScope [] with
      | .ok body => decide (body.size ≤ 2048)
      | .error _ => false) = true := by decide +kernel
  have hevaluate : Folding.evaluate sampleStrings (.array .string) = .ok (.strings ["ab", "c"]) := rfl
  have hconstant : (assemble (pushConstant (.strings ["ab", "c"]) ++ [.op .ret])).size ≤ 2048 := by
    decide +kernel
  cases hbody : writeBody sampleStringsScope [] with
  | error e =>
    rw [hbody] at hwrites
    cases hwrites
  | ok body =>
    rw [hbody] at hwrites
    have hsize : body.size ≤ 2048 := of_decide_eq_true hwrites
    have hready : ∀ {body : Body}, body.size ≤ 2048 → Ready body { script := body.encode.toArray } :=
      fun hsize => ⟨rfl, rfl, Nat.le_trans hsize (by decide),
        Nat.le_trans hsize (by decide : 2048 ≤ 1000000), hsize⟩
    obtain ⟨item, heap, item', heap', hagrees⟩ :=
      agrees_of_evaluate hevaluate rfl hbody (hready hsize) (hready hconstant)
    exact ⟨body, item, heap, item', heap', rfl, hevaluate, hagrees⟩

end StackContract.Contract
