import StackContract.Proofs.Parallel
/-!
# Operations on alike memories

Every operation on the stack and the heap goes from alike memories to alike memories
(`SimpleOp.run_alike`), as do the computations of the instructions that do more than that.
-/

namespace StackContract.Machine

open Script Number
open Eval (Alike)

variable {link : Link}

/-! ## Rearranging the stack -/

/-- Stacks with alike items, or neither. -/
inductive StacksAlike (link : Link) : Option (Stack Item) → Option (Stack Item) → Prop
  | none : StacksAlike link none none
  | some {s s' : Stack Item} (h : ItemsAlike link s.toList s'.toList) :
    StacksAlike link (some s) (some s')

theorem pickAt_alike (n : Nat) {s s' : Stack Item} (h : ItemsAlike link s.toList s'.toList) :
    StacksAlike link (pickAt n s) (pickAt n s') := by
  unfold pickAt
  rcases h.getElem? n with ⟨hnone, hnone'⟩ | ⟨a, a', hsome, hsome', ha⟩
  · rw [hnone, hnone']
    exact .none
  · rw [hsome, hsome']
    exact .some (.cons ha h)

theorem size_eq_of_alike {s s' : Stack Item} (h : ItemsAlike link s.toList s'.toList) :
    s.size = s'.size := by
  rw [s.size_eq, s'.size_eq, h.length_eq]

theorem ItemsAlike.eraseIdx {items items' : List Item} (h : ItemsAlike link items items') (n : Nat) :
    ItemsAlike link (items.eraseIdx n) (items'.eraseIdx n) := by
  induction h generalizing n with
  | nil => exact .nil
  | cons ha hrest ih =>
    cases n with
    | zero => exact hrest
    | succ n => exact .cons ha (ih n)

theorem removeAt_alike (n : Nat) {s s' : Stack Item} (h : ItemsAlike link s.toList s'.toList) :
    StacksAlike link (removeAt n s) (removeAt n s') := by
  unfold removeAt Stack.erase?
  have hsize := size_eq_of_alike h
  by_cases hn : n < s'.size
  · rw [dif_pos (hsize ▸ hn), dif_pos hn]
    exact .some (h.eraseIdx n)
  · rw [dif_neg (fun hlt => hn (hsize ▸ hlt)), dif_neg hn]
    exact .none

theorem rollAt_alike (n : Nat) {s s' : Stack Item} (h : ItemsAlike link s.toList s'.toList) :
    StacksAlike link (rollAt n s) (rollAt n s') := by
  have hremove : StacksAlike link (s.erase? n) (s'.erase? n) := removeAt_alike n h
  unfold rollAt
  rcases h.getElem? n with ⟨hnone, hnone'⟩ | ⟨a, a', hsome, hsome', ha⟩
  · rw [hnone, hnone']
    exact .none
  · rw [hsome, hsome']
    generalize s.erase? n = rest, s'.erase? n = rest' at hremove
    cases hremove with
    | none => exact .none
    | some hrest => exact .some (.cons ha hrest)

theorem reverseTop_alike (n : Nat) {s s' : Stack Item} (h : ItemsAlike link s.toList s'.toList) :
    StacksAlike link (reverseTop n s) (reverseTop n s') := by
  unfold reverseTop Stack.popList?
  have hsize := size_eq_of_alike h
  by_cases hn : n ≤ s'.size
  · rw [if_pos (hsize ▸ hn), if_pos hn]
    refine .some (List.rel_append ?_ (List.forall₂_drop n h))
    exact List.rel_reverse (List.forall₂_take n h)
  · rw [if_neg (fun hle => hn (hsize ▸ hle)), if_neg hn]
    exact .none

theorem tuckTop_alike {s s' : Stack Item} (h : ItemsAlike link s.toList s'.toList) :
    StacksAlike link (tuckTop s) (tuckTop s') := by
  obtain ⟨items, size, hsize⟩ := s
  obtain ⟨items', size', hsize'⟩ := s'
  change ItemsAlike link items items' at h
  cases h with
  | nil => exact .none
  | cons ha hrest =>
    cases hrest with
    | nil => exact .none
    | cons hb hrest => exact .some (.cons ha (.cons hb (.cons ha hrest)))

theorem rearrange_alike {f : Stack Item → Option (Stack Item)}
    (h : ∀ {link : Link} {s s' : Stack Item}, ItemsAlike link s.toList s'.toList →
      StacksAlike link (f s) (f s')) : Alike link Same (rearrange f) (rearrange f) := by
  refine .bind .get ?_
  intro grown _ m m' hm
  have hf := h hm.stack
  generalize f m.stack = s, f m'.stack = s' at hf
  cases hf with
  | none => exact .underflow
  | some hs => exact .modify fun hm' => ⟨hs, hm'.heap⟩

theorem Shuffle.run_alike (op : Shuffle) : Alike link Same op.run op.run := by
  cases op with
  | depth =>
    refine .bind .get fun _ m m' hm => ?_
    rw [size_eq_of_alike hm.stack]
    exact .push (.ofNat _)
  | drop => exact .bind .pop fun _ _ _ _ => .pure rfl
  | nip =>
    refine .bind .pop fun _ _ _ htop => .bind .pop fun hle _ _ _ => ?_
    exact .push (htop.mono hle)
  | dropAt =>
    refine .bind .popPlace ?_
    rintro _ _ n _ rfl
    exact rearrange_alike (removeAt_alike n)
  | clear => exact .modify fun hm => ⟨.nil, hm.heap⟩
  | dup => exact rearrange_alike (pickAt_alike 0)
  | «over» => exact rearrange_alike (pickAt_alike 1)
  | pick =>
    refine .bind .popPlace ?_
    rintro _ _ n _ rfl
    exact rearrange_alike (pickAt_alike n)
  | tuck => exact rearrange_alike tuckTop_alike
  | swap => exact rearrange_alike (reverseTop_alike 2)
  | rotate => exact rearrange_alike (rollAt_alike 2)
  | roll =>
    refine .bind .popPlace ?_
    rintro _ _ n _ rfl
    exact rearrange_alike (rollAt_alike n)
  | reverse n => exact rearrange_alike (reverseTop_alike n)
  | reverseCount =>
    refine .bind .popCount ?_
    rintro _ _ n _ rfl
    exact rearrange_alike (reverseTop_alike n)

/-! ## Numbers, truth values and comparisons -/

theorem isOperand_orOverflow (v : Option Int128) (fault : Fault) (h : orOverflow v = .error fault) :
    fault.kind.isOperand = true := by
  cases v <;> cases h
  rfl

theorem UnaryOp.isOperand_apply (a : Int128) (op : UnaryOp) (fault : Fault)
    (h : op.apply a = .error fault) : fault.kind.isOperand = true := by
  cases op
  case complement | sign => cases h
  all_goals
    unfold UnaryOp.apply at h
    exact isOperand_orOverflow _ _ h

theorem BinaryOp.isOperand_apply (a b : Int128) (op : BinaryOp) (fault : Fault)
    (h : op.apply a b = .error fault) : fault.kind.isOperand = true := by
  cases op
  case div | mod =>
    simp only [BinaryOp.apply] at h
    split at h
    · cases h
      rfl
    · exact isOperand_orOverflow _ _ h
  case and | or | xor | min | max => cases h
  all_goals
    unfold BinaryOp.apply at h
    exact isOperand_orOverflow _ _ h

theorem UnaryOp.run_alike (op : UnaryOp) : Alike link Same op.run op.run := by
  refine .bind .popInteger ?_
  rintro _ _ a _ rfl
  refine .bind (.orFault rfl (op.isOperand_apply a)) ?_
  rintro _ _ v _ rfl
  exact .pushInteger v

theorem BinaryOp.run_alike (op : BinaryOp) : Alike link Same op.run op.run := by
  refine .bind .popInteger ?_
  rintro _ _ b _ rfl
  refine .bind .popInteger ?_
  rintro _ _ a _ rfl
  refine .bind (.orFault rfl (op.isOperand_apply a b)) ?_
  rintro _ _ v _ rfl
  exact .pushInteger v

theorem Relation.test_alike (relation : Relation) :
    Alike link Same relation.test relation.test := by
  refine .bind .popInteger ?_
  rintro _ _ b _ rfl
  refine .bind .popInteger ?_
  rintro _ _ a _ rfl
  exact .pure rfl

theorem Relation.compare_alike (relation : Relation) :
    Alike link Same relation.compare relation.compare := by
  refine .bind .pop fun _ b b' hb => .bind .pop fun hle a a' ha => ?_
  replace hb := hb.mono hle
  rw [ha.isNull_eq, hb.isNull_eq]
  split
  · exact .pushBoolean false
  · refine .bind .heap fun hle _ heap' hheap => ?_
    refine .bind (.orFault ((ha.mono hle).asInteger_eq hheap) (a'.isOperand_asInteger heap')) ?_
    rintro _ hle' v _ rfl
    rw [(hb.mono hle).asInteger_eq hheap]
    refine .bind (.orFault rfl (b'.isOperand_asInteger heap')) ?_
    rintro _ _ w _ rfl
    exact .pushBoolean _

theorem within_alike : Alike link Same within within := by
  refine .bind .popInteger ?_
  rintro _ _ upper _ rfl
  refine .bind .popInteger ?_
  rintro _ _ lower _ rfl
  refine .bind .popInteger ?_
  rintro _ _ v _ rfl
  exact .pushBoolean _

theorem compareItems_alike (expected : Bool) :
    Alike link Same (compareItems expected) (compareItems expected) := by
  refine .bind .pop fun _ b b' hb => .bind .pop fun hle a a' ha => ?_
  refine .bind .heap fun hle' heap heap' hheap => ?_
  rw [(ha.mono hle').equals_eq hheap ((hb.mono hle).mono hle')]
  exact .pushBoolean _

theorem negateBoolean_alike : Alike link Same negateBoolean negateBoolean := by
  refine .bind .popBoolean ?_
  rintro _ _ b _ rfl
  exact .pushBoolean _

theorem isNonzero_alike : Alike link Same isNonzero isNonzero := by
  refine .bind .popInteger ?_
  rintro _ _ v _ rfl
  exact .pushBoolean _

theorem joinBooleans_alike (conjunction : Bool) :
    Alike link Same (joinBooleans conjunction) (joinBooleans conjunction) := by
  refine .bind .popBoolean ?_
  rintro _ _ b _ rfl
  refine .bind .popBoolean ?_
  rintro _ _ a _ rfl
  exact .pushBoolean _

/-! ## Byte strings -/

theorem isOperand_sliceOf (bytes : List UInt8) (index count : Nat) (fault : Fault)
    (h : sliceOf bytes index count = .error fault) : fault.kind.isOperand = true := by
  unfold sliceOf at h
  split at h <;> cases h
  rfl

theorem ByteOp.run_alike (op : ByteOp) : Alike link Same op.run op.run := by
  cases op with
  | newBuffer =>
    refine .bind .popCount ?_
    rintro _ _ n _ rfl
    exact .pushBuffer _
  | concatenate =>
    refine .bind .popBytes ?_
    rintro _ _ b _ rfl
    refine .bind .popBytes ?_
    rintro _ _ a _ rfl
    exact .pushBuffer _
  | slice =>
    refine .bind .popCount ?_
    rintro _ _ count _ rfl
    refine .bind .popCount ?_
    rintro _ _ index _ rfl
    refine .bind .popBytes ?_
    rintro _ _ bytes _ rfl
    refine .bind (.orFault rfl (isOperand_sliceOf bytes index count)) ?_
    rintro _ _ data _ rfl
    exact .pushBuffer data
  | left =>
    refine .bind .popCount ?_
    rintro _ _ count _ rfl
    refine .bind .popBytes ?_
    rintro _ _ bytes _ rfl
    refine .bind (.orFault rfl (isOperand_sliceOf bytes 0 count)) ?_
    rintro _ _ data _ rfl
    exact .pushBuffer data
  | right =>
    refine .bind .popCount ?_
    rintro _ _ count _ rfl
    refine .bind .popBytes ?_
    rintro _ _ bytes _ rfl
    split
    · exact .bind (R := Same) (.throw ⟨rfl, rfl⟩) fun _ _ _ _ => .pushBuffer _
    · exact .pushBuffer _

/-! ## Compounds -/

/-- The fault of an item that is not what was expected is that of an alike item. -/
theorem faultsAlike_invalid {item item' : Item} (h : item.Alike link item')
    (expected : Expectation) : FaultsAlike (item.invalid expected) (item'.invalid expected) := by
  rw [h.invalid_eq]
  exact ⟨rfl, rfl⟩

namespace Compound

theorem newSequence_alike (isStruct : Bool) {items items' : Array Item}
    (h : ItemsAlike link items.toList items'.toList) :
    Alike link SameItem (newSequence isStruct items) (newSequence isStruct items') := by
  unfold newSequence
  split
  · exact .newStruct h
  · exact .newArray h

theorem defaultOf_alike (tag : UInt8) : (defaultOf tag).Alike link (defaultOf tag) := by
  unfold defaultOf
  split
  · exact .boolean false
  · exact .ofNat 0
  · exact .byteString []
  · exact .null

theorem popEntries_alike (n : Nat) {entries entries' : List (Item × Item)}
    (h : List.Forall₂ (EntriesAlike link) entries entries') :
    Alike link (fun grown => List.Forall₂ (EntriesAlike grown)) (popEntries entries n)
      (popEntries entries' n) := by
  induction n generalizing link entries entries' with
  | zero => exact .pure h
  | succ n ih =>
    refine .bind .pop fun hle key key' hkey => .bind .pop fun hle' value value' hvalue => ?_
    refine .bind .heap fun hle'' _ _ hheap => ih ?_
    have hgrown := Link.le_trans hle (Link.le_trans hle' hle'')
    exact setEntry_alike hheap ((hkey.mono hle').mono hle'') (hvalue.mono hle'')
      (h.imp fun _ _ he => ⟨he.1.mono hgrown, he.2.mono hgrown⟩)

theorem packMap_alike : Alike link Same packMap packMap := by
  refine .bind .popCount ?_
  rintro _ _ n _ rfl
  refine .bind (popEntries_alike n .nil) fun _ _ _ hentries => ?_
  exact .bind (.newMap hentries) fun _ _ _ hitem => .push hitem

theorem pack_alike (isStruct : Bool) : Alike link Same (pack isStruct) (pack isStruct) := by
  refine .bind .popCount ?_
  rintro _ _ n _ rfl
  refine .bind (.popMany n) fun _ _ _ hitems => ?_
  exact .bind (newSequence_alike isStruct hitems) fun _ _ _ hitem => .push hitem

theorem newFilled_alike (isStruct : Bool) {item item' : Item} (h : item.Alike link item') :
    Alike link Same (newFilled isStruct item) (newFilled isStruct item') := by
  refine .bind .popCount ?_
  rintro _ hle n _ rfl
  refine .bind (newSequence_alike isStruct ?_) fun _ _ _ hitem => .push hitem
  rw [Array.toList_replicate, Array.toList_replicate]
  exact .replicate (h.mono hle) n

theorem unpack_sequence_alike {r r' : Nat} (h : link.refs .sequences r r') :
    Alike link Same
      (do
        let items := (← Eval.heap).sequence r
        modify fun m => { m with stack := (m.stack.pushList items.toList).push (.ofNat items.size) })
      (do
        let items := (← Eval.heap).sequence r'
        modify fun m =>
          { m with stack := (m.stack.pushList items.toList).push (.ofNat items.size) }) := by
  refine .bind .heap fun hle heap heap' hheap => .modify fun hm => ⟨?_, hm.heap⟩
  have hitems := hheap.sequences (hle.refs h)
  rw [← Array.length_toList, ← Array.length_toList, hitems.length_eq]
  exact .cons (.ofNat _) (List.rel_append hitems hm.stack)

theorem unpack_alike : Alike link Same unpack unpack := by
  refine .bind .pop fun _ _ _ hitem => ?_
  cases hitem with
  | array h => exact unpack_sequence_alike h
  | struct h => exact unpack_sequence_alike h
  | null | boolean | integer | byteString | pointer | buffer | map => exact .throw ⟨rfl, rfl⟩

theorem size_alike : Alike link Same size size := by
  refine .bind .pop fun _ item item' hitem => .bind .heap fun {grown} hle heap heap' hheap => ?_
  replace hitem := hitem.mono hle
  have hbytes : Alike grown Same (do Eval.push (.ofNat (← Eval.orFault (item.asBytes heap)).length))
      (do Eval.push (.ofNat (← Eval.orFault (item'.asBytes heap')).length)) := by
    refine .bind (.orFault (hitem.asBytes_eq hheap) (item'.isOperand_asBytes heap')) ?_
    rintro _ _ bytes _ rfl
    exact .push (.ofNat _)
  cases hitem with
  | array h | struct h =>
    show Alike _ Same (Eval.push (.ofNat (heap.sequence _).size)) (Eval.push (.ofNat (heap'.sequence _).size))
    rw [← Array.length_toList, ← Array.length_toList, (hheap.sequences h).length_eq]
    exact .push (.ofNat _)
  | map h =>
    show Alike _ Same (Eval.push (.ofNat (heap.map _).length)) (Eval.push (.ofNat (heap'.map _).length))
    rw [(hheap.maps h).length_eq]
    exact .push (.ofNat _)
  | buffer h =>
    show Alike _ Same (Eval.push (.ofNat (heap.buffer _).size)) (Eval.push (.ofNat (heap'.buffer _).size))
    rw [hheap.buffers h]
    exact .push (.ofNat _)
  | null | boolean | integer | byteString | pointer => exact hbytes

theorem hasKey_alike : Alike link Same hasKey hasKey := by
  refine .bind .pop fun _ key key' hkey => .bind .pop fun hle _ _ hcontainer => ?_
  refine .bind .heap fun {grown} hle' heap heap' hheap => ?_
  replace hkey := (hkey.mono hle).mono hle'
  replace hcontainer := hcontainer.mono hle'
  -- for sequences and bytes the key is an index
  have hindex : ∀ {f f' : Int128 → Eval Unit}, (∀ {next : Link}, grown ≤ next → ∀ i,
      Alike next Same (f i) (f' i)) → Alike grown Same
        (do f (← Eval.orFault (key.asInteger heap))) (do f' (← Eval.orFault (key'.asInteger heap'))) := by
    intro f f' hf
    refine .bind (.orFault (hkey.asInteger_eq hheap) (key'.isOperand_asInteger heap')) ?_
    rintro _ hnext i _ rfl
    exact hf hnext i
  have hbytes : ∀ {item item' : Item}, item.Alike grown item' → Alike grown Same
      (do
        let i ← Eval.orFault (key.asInteger heap)
        if i.val < 0 then Eval.pushBoolean false
        else Eval.pushBoolean (Item.isIndex i (← Eval.orFault (item.asBytes heap)).length))
      (do
        let i ← Eval.orFault (key'.asInteger heap')
        if i.val < 0 then Eval.pushBoolean false
        else Eval.pushBoolean (Item.isIndex i (← Eval.orFault (item'.asBytes heap')).length)) := by
    intro item item' hitem
    refine hindex fun _ i => .ite Iff.rfl (.pushBoolean false) ?_
    refine .bind (.orFault (hitem.asBytes_eq hheap) (item'.isOperand_asBytes heap')) ?_
    rintro _ _ bytes _ rfl
    exact .pushBoolean _
  cases hcontainer with
  | array h | struct h =>
    refine hindex fun _ i => ?_
    rw [← Array.length_toList, ← Array.length_toList, (hheap.sequences h).length_eq]
    exact .pushBoolean _
  | map h =>
    show Alike grown Same (Eval.pushBoolean (heap.findEntry? (heap.map _) key).isSome)
      (Eval.pushBoolean (heap'.findEntry? (heap'.map _) key').isSome)
    rcases findEntry?_alike hheap hkey (hheap.maps h) with ⟨hnone, hnone'⟩ | ⟨_, _, hsome, hsome', -⟩
    · rw [hnone, hnone']
      exact .pushBoolean _
    · rw [hsome, hsome']
      exact .pushBoolean _
  | null => exact hbytes .null
  | boolean b => exact hbytes (.boolean b)
  | integer v => exact hbytes (.integer v)
  | byteString bytes => exact hbytes (.byteString bytes)
  | pointer h => exact hbytes (.pointer h)
  | buffer h => exact hbytes (.buffer h)

theorem keys_alike : Alike link Same keys keys := by
  refine .bind .pop fun _ _ _ hitem => ?_
  cases hitem with
  | map h =>
    refine .bind .heap fun hle heap heap' hheap => ?_
    refine .bind (.newArray ?_) fun _ _ _ hitem => .push hitem
    exact List.rel_map (fun _ _ he => he.1) (hheap.maps (hle.refs h))
  | null | boolean | integer | byteString | pointer | buffer | array | struct =>
    exact .throw ⟨rfl, rfl⟩

/-- An array of the copies of alike items. -/
theorem pushCopies_alike {items items' : Array Item}
    (h : ItemsAlike link items.toList items'.toList) : Alike link Same
      (do Eval.push (← Eval.newArray (← items.mapM Eval.copyStruct)))
      (do Eval.push (← Eval.newArray (← items'.mapM Eval.copyStruct))) := by
  refine .bind (.arrayMapM (fun _ _ _ hitem => .copyStruct hitem) h) fun _ _ _ hcopies => ?_
  exact .bind (.newArray hcopies) fun _ _ _ hitem => .push hitem

theorem values_alike : Alike link Same values values := by
  refine .bind .pop fun _ _ _ hitem => ?_
  cases hitem with
  | array h | struct h =>
    exact .bind .heap fun hle _ _ hheap => pushCopies_alike (hheap.sequences (hle.refs h))
  | map h =>
    refine .bind .heap fun hle _ _ hheap => pushCopies_alike ?_
    exact List.rel_map (fun _ _ he => he.2) (hheap.maps (hle.refs h))
  | null | boolean | integer | byteString | pointer | buffer => exact .throw ⟨rfl, rfl⟩

/-- An index into something of the same length. -/
theorem index_alike {heap heap' : Heap} (hheap : HeapsAlike link heap heap') {key key' : Item}
    (hkey : key.Alike link key') (length : Nat) :
    Alike link Same (Eval.orFault (key.asIndex heap length))
      (Eval.orFault (key'.asIndex heap' length)) :=
  .orFault (hkey.asIndex_eq hheap length) (key'.isOperand_asIndex heap' length)

theorem getD_alike {items items' : Array Item} (h : ItemsAlike link items.toList items'.toList)
    (n : Nat) : (items.getD n .null).Alike link (items'.getD n .null) := by
  rw [Array.getD_eq_getD_getElem?, Array.getD_eq_getD_getElem?, ← Array.getElem?_toList,
    ← Array.getElem?_toList]
  rcases h.getElem? n with ⟨hnone, hnone'⟩ | ⟨a, a', hsome, hsome', ha⟩
  · rw [hnone, hnone']
    exact .null
  · rw [hsome, hsome']
    exact ha

theorem pickItem_alike : Alike link Same pickItem pickItem := by
  refine .bind .pop fun _ key key' hkey => .bind .pop fun hle _ _ hcontainer => ?_
  refine .bind .heap fun {grown} hle' heap heap' hheap => ?_
  replace hkey := (hkey.mono hle).mono hle'
  replace hcontainer := hcontainer.mono hle'
  -- items that are no compound are picked from as bytes
  have hbytes : ∀ {item item' : Item}, item.Alike grown item' → Alike grown Same
      (do
        let bytes ← Eval.orFault (item.asBytes heap)
        Eval.push (.ofNat (bytes.getD (← Eval.orFault (key.asIndex heap bytes.length)) 0).toNat))
      (do
        let bytes ← Eval.orFault (item'.asBytes heap')
        Eval.push (.ofNat (bytes.getD (← Eval.orFault (key'.asIndex heap' bytes.length)) 0).toNat)) := by
    intro item item' hitem
    refine .bind (.orFault (hitem.asBytes_eq hheap) (item'.isOperand_asBytes heap')) ?_
    rintro _ hnext bytes _ rfl
    rw [hkey.asIndex_eq hheap]
    refine .bind (.orFault rfl (key'.isOperand_asIndex heap' _)) ?_
    rintro _ _ n _ rfl
    exact .push (.ofNat _)
  cases hcontainer with
  | array h | struct h =>
    have hitems := hheap.sequences h
    have hlength := hitems.length_eq
    rw [Array.length_toList, Array.length_toList] at hlength
    show Alike grown Same
      (do Eval.push ((heap.sequence _).getD (← Eval.orFault (key.asIndex heap _)) .null))
      (do Eval.push ((heap'.sequence _).getD (← Eval.orFault (key'.asIndex heap' _)) .null))
    rw [hlength]
    refine .bind (index_alike hheap hkey _) ?_
    rintro _ hnext n _ rfl
    exact .push ((getD_alike hitems n).mono hnext)
  | map h =>
    dsimp only
    rcases findEntry?_alike hheap hkey (hheap.maps h) with
      ⟨hnone, hnone'⟩ | ⟨value, value', hsome, hsome', hvalue⟩
    · rw [hnone, hnone']
      exact .throw ⟨rfl, rfl⟩
    · rw [hsome, hsome']
      exact .push hvalue
  | null => exact hbytes .null
  | boolean b => exact hbytes (.boolean b)
  | integer v => exact hbytes (.integer v)
  | byteString bytes => exact hbytes (.byteString bytes)
  | pointer h => exact hbytes (.pointer h)
  | buffer h => exact hbytes (.buffer h)

/-- A sequence is changed on both sides, to alike items. -/
theorem modifySequence_alike {r r' : Nat} (h : link.refs .sequences r r')
    {f f' : Array Item → Array Item} (hf : ∀ {items items' : Array Item},
      ItemsAlike link items.toList items'.toList →
      ItemsAlike link (f items).toList (f' items').toList) :
    Alike link Same (Eval.modifyHeap (·.modifySequence r f))
      (Eval.modifyHeap (·.modifySequence r' f')) :=
  .modifyHeap fun hheap => hheap.modifySequence h (hf (hheap.sequences h))

theorem append_alike : Alike link Same append append := by
  refine .bind .pop fun _ _ _ hitem => .bind (.copyStruct hitem) fun _ _ _ hcopy => ?_
  refine .bind .pop fun hle item item' hcontainer => ?_
  replace hcopy := hcopy.mono hle
  cases hcontainer with
  | array h | struct h =>
    refine modifySequence_alike h fun hitems => ?_
    rw [Array.toList_push, Array.toList_push]
    exact List.rel_append hitems (.cons hcopy .nil)
  | null | boolean | integer | byteString | pointer | buffer | map => exact .throw ⟨rfl, rfl⟩

theorem ItemsAlike.set {items items' : List Item} (h : ItemsAlike link items items') (n : Nat)
    {a a' : Item} (ha : a.Alike link a') : ItemsAlike link (items.set n a) (items'.set n a') := by
  induction h generalizing n with
  | nil => exact .nil
  | cons hhead hrest ih =>
    cases n with
    | zero => exact .cons ha hrest
    | succ n => exact .cons hhead (ih n)

theorem isOperand_unheld (r : Nat) (item : Item) (fault : Fault) (h : unheld r item = .error fault) :
    fault.kind.isOperand = true := by
  unfold unheld at h
  split at h
  · cases h
    rfl
  · cases h

/-- Either both items are the held buffer, or neither is. -/
theorem unheld_alike {r r' : Nat} {a a' : Item} (h : link.refs .buffers r r')
    (ha : a.Alike link a') :
    Alike link Same (Eval.orFault (unheld r a)) (Eval.orFault (unheld r' a')) := by
  refine .orFault ?_ (isOperand_unheld r' a')
  unfold unheld
  rw [if_congr (ha.eq_iff (.buffer h)) rfl rfl]

theorem setItem_alike : Alike link Same setItem setItem := by
  refine .bind .pop fun _ _ _ hitem => .bind (.copyStruct hitem) fun _ value value' hvalue => ?_
  refine .bind .pop fun hle key key' hkey => .bind .pop fun hle' _ _ hcontainer => ?_
  refine .bind .heap fun {grown} hle'' heap heap' hheap => ?_
  -- what was taken off first is alike in the larger link, too
  replace hvalue := ((hvalue.mono hle).mono hle').mono hle''
  replace hkey := (hkey.mono hle').mono hle''
  replace hcontainer := hcontainer.mono hle''
  cases hcontainer with
  | array h | struct h =>
    have hlength := (hheap.sequences h).length_eq
    rw [Array.length_toList, Array.length_toList] at hlength
    show Alike grown Same
      (do
        let index ← Eval.orFault (key.asIndex heap (heap.sequence _).size)
        Eval.modifyHeap (·.modifySequence _ (·.setIfInBounds index value)))
      (do
        let index ← Eval.orFault (key'.asIndex heap' (heap'.sequence _).size)
        Eval.modifyHeap (·.modifySequence _ (·.setIfInBounds index value')))
    rw [hlength]
    refine .bind (index_alike hheap hkey _) ?_
    rintro _ hnext n _ rfl
    refine modifySequence_alike (hnext.refs h) fun hitems => ?_
    rw [Array.toList_setIfInBounds, Array.toList_setIfInBounds]
    exact ItemsAlike.set hitems n (hvalue.mono hnext)
  | map h =>
    refine .modifyHeap fun hheap' => hheap'.modifyMap h ?_
    exact setEntry_alike hheap hkey hvalue (hheap.maps h)
  | buffer h =>
    dsimp only
    rw [hheap.buffers h]
    refine .bind (unheld_alike h hkey) fun hunheld _ _ _ => ?_
    refine .bind (.orFault (hkey.asIndex_eq hheap _) (key'.isOperand_asIndex heap' _)) ?_
    rintro _ hnext n _ rfl
    replace hnext := Link.le_trans hunheld hnext
    refine .bind (unheld_alike (hnext.refs h) (hvalue.mono hnext)) fun hunheld' _ _ _ => ?_
    refine .bind (.orFault (hvalue.asInteger_eq hheap) (value'.isOperand_asInteger heap')) ?_
    rintro _ hnext' v _ rfl
    cases byteOf? v with
    | none => exact .throw ⟨rfl, rfl⟩
    | some byte =>
      exact .modifyHeap fun hheap => hheap.modifyBuffer (hnext'.refs (hunheld'.refs (hnext.refs h))) _
  | null | boolean | integer | byteString | pointer => exact .throw ⟨rfl, rfl⟩

theorem reverseItems_alike : Alike link Same reverseItems reverseItems := by
  refine .bind .pop fun _ _ _ hitem => ?_
  cases hitem with
  | array h | struct h =>
    refine modifySequence_alike h fun hitems => ?_
    rw [Array.toList_reverse, Array.toList_reverse]
    exact List.rel_reverse hitems
  | buffer h => exact .modifyHeap fun hheap => hheap.modifyBuffer h _
  | null | boolean | integer | byteString | pointer | map => exact .throw ⟨rfl, rfl⟩

theorem remove_alike : Alike link Same remove remove := by
  refine .bind .pop fun _ key key' hkey => .bind .pop fun hle _ _ hcontainer => ?_
  refine .bind .heap fun {grown} hle' heap heap' hheap => ?_
  -- what was taken off first is alike in the larger link, too
  replace hkey := (hkey.mono hle).mono hle'
  replace hcontainer := hcontainer.mono hle'
  cases hcontainer with
  | array h | struct h =>
    have hlength := (hheap.sequences h).length_eq
    rw [Array.length_toList, Array.length_toList] at hlength
    show Alike grown Same
      (do
        let index ← Eval.orFault (key.asIndex heap (heap.sequence _).size)
        Eval.modifyHeap (·.modifySequence _ (·.eraseIdxIfInBounds index)))
      (do
        let index ← Eval.orFault (key'.asIndex heap' (heap'.sequence _).size)
        Eval.modifyHeap (·.modifySequence _ (·.eraseIdxIfInBounds index)))
    rw [hlength]
    refine .bind (index_alike hheap hkey _) ?_
    rintro _ hnext n _ rfl
    refine modifySequence_alike (hnext.refs h) fun hitems => ?_
    rw [Array.toList_eraseIdxIfInBounds, Array.toList_eraseIdxIfInBounds]
    exact ItemsAlike.eraseIdx hitems n
  | map h =>
    exact .modifyHeap fun hheap' =>
      hheap'.modifyMap h (removeEntries_alike hheap hkey (hheap.maps h))
  | null | boolean | integer | byteString | pointer | buffer => exact .throw ⟨rfl, rfl⟩

theorem clearItems_alike : Alike link Same clearItems clearItems := by
  refine .bind .pop fun _ _ _ hitem => ?_
  cases hitem with
  | array h | struct h => exact modifySequence_alike h fun _ => .nil
  | map h => exact .modifyHeap fun hheap => hheap.modifyMap h .nil
  | null | boolean | integer | byteString | pointer | buffer => exact .throw ⟨rfl, rfl⟩

theorem popSequence_alike {r r' : Nat} (h : link.refs .sequences r r') : Alike link Same
    (do
      match ((← Eval.heap).sequence r).back? with
      | some item =>
        Eval.modifyHeap (·.modifySequence r Array.pop)
        Eval.push item
      | none => throw (.indexOutOfRange (-1) 0))
    (do
      match ((← Eval.heap).sequence r').back? with
      | some item =>
        Eval.modifyHeap (·.modifySequence r' Array.pop)
        Eval.push item
      | none => throw (.indexOutOfRange (-1) 0)) := by
  refine .bind .heap fun hle heap heap' hheap => ?_
  have hitems := hheap.sequences (hle.refs h)
  have hlength := hitems.length_eq
  rw [Array.length_toList, Array.length_toList] at hlength
  rw [Array.back?_eq_getElem?, Array.back?_eq_getElem?, ← Array.getElem?_toList,
    ← Array.getElem?_toList, hlength]
  rcases hitems.getElem? ((heap'.sequence r').size - 1) with
    ⟨hnone, hnone'⟩ | ⟨a, a', hsome, hsome', ha⟩
  · rw [hnone, hnone']
    exact .throw ⟨rfl, rfl⟩
  · rw [hsome, hsome']
    refine .bind (modifySequence_alike (hle.refs h) fun hitems => ?_)
      fun hle' _ _ _ => .push (ha.mono hle')
    rw [Array.toList_pop, Array.toList_pop, List.dropLast_eq_take, List.dropLast_eq_take,
      hitems.length_eq]
    exact List.forall₂_take _ hitems

theorem popItem_alike : Alike link Same popItem popItem := by
  refine .bind .pop fun _ _ _ hitem => ?_
  cases hitem with
  | array h | struct h => exact popSequence_alike h
  | null | boolean | integer | byteString | pointer | buffer | map => exact .throw ⟨rfl, rfl⟩

theorem convertTo_alike (kind : ItemKind) {item item' : Item} (h : item.Alike link item') :
    Alike link SameItem (convertTo kind item) (convertTo kind item') := by
  refine .bind .heap fun {grown} hle heap heap' hheap => ?_
  replace h := h.mono hle
  cases kind with
  | boolean =>
    refine .bind (.orFault h.asBoolean_eq item'.isOperand_asBoolean) ?_
    rintro _ _ b _ rfl
    exact .pure (.boolean b)
  | integer =>
    refine .bind (.orFault (h.asInteger_eq hheap) (item'.isOperand_asInteger heap')) ?_
    rintro _ _ v _ rfl
    exact .pure (.integer v)
  | byteString =>
    refine .bind (.orFault (h.asBytes_eq hheap) (item'.isOperand_asBytes heap')) ?_
    rintro _ _ bytes _ rfl
    exact .pure (.byteString bytes)
  | buffer =>
    refine .bind (.orFault (h.asBytes_eq hheap) (item'.isOperand_asBytes heap')) ?_
    rintro _ _ bytes _ rfl
    exact .newBuffer bytes
  | array =>
    cases h with
    | struct h => exact .newArray (hheap.sequences h)
    | null | boolean | integer | byteString | pointer | buffer | array | map =>
      exact .throw ⟨rfl, rfl⟩
  | struct =>
    cases h with
    | array h => exact .newStruct (hheap.sequences h)
    | null | boolean | integer | byteString | pointer | buffer | struct | map =>
      exact .throw ⟨rfl, rfl⟩
  | any | pointer | map | interop => exact .throw (faultsAlike_invalid h _)

theorem convert_alike (kind : ItemKind) {item item' : Item} (h : item.Alike link item') :
    Alike link SameItem (convert kind item) (convert kind item') := by
  unfold convert
  rw [h.kind_eq]
  split
  · cases h with
    | buffer h =>
      refine .bind .heap fun hle heap heap' hheap => ?_
      rw [hheap.buffers (hle.refs h)]
      exact .newBuffer _
    | null => exact .pure .null
    | boolean b => exact .pure (.boolean b)
    | integer v => exact .pure (.integer v)
    | byteString bytes => exact .pure (.byteString bytes)
    | pointer h => exact .pure (.pointer h)
    | array h => exact .pure (.array h)
    | struct h => exact .pure (.struct h)
    | map h => exact .pure (.map h)
  · exact convertTo_alike kind h

end Compound

theorem CompoundOp.run_alike (op : CompoundOp) : Alike link Same op.run op.run := by
  cases op with
  | packMap => exact Compound.packMap_alike
  | pack isStruct => exact Compound.pack_alike isStruct
  | unpack => exact Compound.unpack_alike
  | newEmpty isStruct =>
    exact .bind (Compound.newSequence_alike isStruct .nil) fun _ _ _ hitem => .push hitem
  | newNulls isStruct => exact Compound.newFilled_alike isStruct .null
  | newDefaults tag => exact Compound.newFilled_alike false (Compound.defaultOf_alike tag)
  | newMap => exact .bind (.newMap .nil) fun _ _ _ hitem => .push hitem
  | size => exact Compound.size_alike
  | hasKey => exact Compound.hasKey_alike
  | keys => exact Compound.keys_alike
  | values => exact Compound.values_alike
  | pickItem => exact Compound.pickItem_alike
  | append => exact Compound.append_alike
  | setItem => exact Compound.setItem_alike
  | reverseItems => exact Compound.reverseItems_alike
  | remove => exact Compound.remove_alike
  | clearItems => exact Compound.clearItems_alike
  | popItem => exact Compound.popItem_alike

/-! ## Simple operations -/

/-- Whether an operation finds what it needs in the operand of its instruction. -/
def SimpleOp.HasOperand (i : Instruction) : SimpleOp → Prop
  | .isType | .convert => ∃ kind, operandKind i = .ok kind
  | _ => True

/-- An operation goes from alike memories to alike memories. -/
theorem SimpleOp.run_alike {i : Instruction} {op : SimpleOp} (h : op.HasOperand i) :
    Alike link Same (op.run i) (op.run i) := by
  cases op with
  | pushInteger =>
    unfold SimpleOp.run
    cases i.integer? with
    | none => exact .throw ⟨rfl, rfl⟩
    | some v => exact .pushInteger v
  | pushBoolean b => exact .pushBoolean b
  | pushNull => exact .push .null
  | pushData => exact .push (.byteString _)
  | nop => exact .pure rfl
  | shuffle op => exact op.run_alike
  | unary op => exact op.run_alike
  | binary op => exact op.run_alike
  | numeric relation =>
    refine .bind relation.test_alike ?_
    rintro _ _ b _ rfl
    exact .pushBoolean b
  | ordered relation => exact relation.compare_alike
  | within => exact within_alike
  | equal expected => exact compareItems_alike expected
  | not => exact negateBoolean_alike
  | join conjunction => exact joinBooleans_alike conjunction
  | nonzero => exact isNonzero_alike
  | bytes op => exact op.run_alike
  | compound op => exact op.run_alike
  | newDefaults => exact CompoundOp.run_alike (.newDefaults (i.operand.headD 0))
  | isNull =>
    refine .bind .pop fun _ _ _ hitem => ?_
    rw [hitem.isNull_eq]
    exact .pushBoolean _
  | isType =>
    obtain ⟨kind, hkind⟩ := h
    unfold SimpleOp.run
    rw [hkind]
    refine .bind (.orFault rfl nofun) ?_
    rintro _ _ kind _ rfl
    refine .bind .pop fun _ _ _ hitem => ?_
    rw [hitem.kind_eq]
    exact .pushBoolean _
  | convert =>
    obtain ⟨kind, hkind⟩ := h
    unfold SimpleOp.run
    rw [hkind]
    refine .bind (.orFault rfl nofun) ?_
    rintro _ _ kind _ rfl
    refine .bind .pop fun _ _ _ hitem => ?_
    exact .bind (Compound.convert_alike kind hitem) fun _ _ _ hconverted => .push hconverted

end StackContract.Machine
