import Mathlib.Data.Finset.Card
import Mathlib.Order.WellFounded
import StackContract.Proofs.Alike
import StackContract.Proofs.Faults
/-!
# Structs in structs

A struct in a struct is a part of its value, so that copying and comparing go down from struct to struct.
They come to an end where structs do not nest in a circle (`Heap.Founded`): copying makes one copy of
each struct on its way (`exists_copy`), and comparing finds an answer (`compares_equals`), as the bound
on the depth that the machine sets is never reached.

What keeps a heap founded is that new sequences hold only what was there before, and that a struct which
is stored into an older sequence is a fresh copy, which holds fresh copies alone.
-/

namespace StackContract.Machine

/-! ## Founded heaps -/

/-- A sequence holds a struct. -/
def Heap.Nests (heap : Heap) (r s : Nat) : Prop :=
  .struct s ∈ (heap.sequence r).toList

/-- A reference to a sequence is below a bound. -/
def Item.Inside (n : Nat) : Item → Prop
  | .array r | .struct r => r < n
  | _ => True

/-- References lead to objects, and structs do not nest in a circle. -/
structure Heap.Founded (heap : Heap) : Prop where
  sequences : ∀ r, ∀ item ∈ (heap.sequence r).toList, item.Inside heap.sequences.size
  maps : ∀ r, ∀ entry ∈ heap.map r,
    entry.1.Inside heap.sequences.size ∧ entry.2.Inside heap.sequences.size
  wellFounded : WellFounded fun s r => heap.Nests r s

theorem Item.Inside.null {n : Nat} : Item.null.Inside n :=
  trivial

theorem Item.Inside.mono {n n' : Nat} {item : Item} (h : item.Inside n) (hle : n ≤ n') :
    item.Inside n' := by
  cases item with
  | array r | struct r => exact Nat.lt_of_lt_of_le h hle
  | null | boolean | integer | byteString | pointer | buffer | map => trivial

namespace Heap

variable {heap old new : Heap} {items : Array Item}

/-! ### Sequences -/

theorem sequence_newSequence_of_lt {r : Nat} (h : r < heap.sequences.size) :
    (heap.newSequence items).2.sequence r = heap.sequence r :=
  (sequence_newSequence heap items r).trans (if_neg (Nat.ne_of_lt h))

theorem sequence_newSequence_self :
    (heap.newSequence items).2.sequence heap.sequences.size = items :=
  (sequence_newSequence heap items _).trans (if_pos rfl)

theorem sequence_of_ge {r : Nat} (h : heap.sequences.size ≤ r) : heap.sequence r = #[] := by
  unfold sequence
  rw [Array.getD_eq_getD_getElem?, Array.getElem?_eq_none h]
  rfl

theorem size_newSequence : (heap.newSequence items).2.sequences.size = heap.sequences.size + 1 :=
  Array.size_push _

theorem lt_of_mem_sequence {r : Nat} {item : Item} (h : item ∈ (heap.sequence r).toList) :
    r < heap.sequences.size := by
  by_contra hge
  rw [sequence_of_ge (Nat.le_of_not_lt hge)] at h
  cases h

theorem lt_of_lt_size_sequence {r j : Nat} (h : j < (heap.sequence r).size) :
    r < heap.sequences.size := by
  by_contra hge
  rw [sequence_of_ge (Nat.le_of_not_lt hge)] at h
  exact Nat.not_lt_zero j h

theorem size_modifySequence {f : Array Item → Array Item} {r : Nat} :
    (heap.modifySequence r f).sequences.size = heap.sequences.size :=
  Array.size_modify

/-! ### Well-foundedness -/

/-- A heap is well-founded if each struct that is new in a sequence belongs to a part of the heap that
has only what it had, and leads nowhere else. -/
theorem wellFounded_of_children (h : WellFounded fun s r => old.Nests r s) (part : Nat → Prop)
    (hpart : ∀ r s, part r → new.Nests r s → old.Nests r s ∧ part s)
    (hchildren : ∀ r s, new.Nests r s → old.Nests r s ∨ part s) :
    WellFounded fun s r => new.Nests r s := by
  have hinside : ∀ r, part r → Acc (fun s r => new.Nests r s) r := by
    intro r
    induction r using h.induction with
    | h r ih =>
      intro hr
      refine ⟨r, fun s hs => ?_⟩
      obtain ⟨hold, hthere⟩ := hpart r s hr hs
      exact ih s hold hthere
  refine ⟨fun r => ?_⟩
  induction r using h.induction with
  | h r ih =>
    refine ⟨r, fun s hs => ?_⟩
    rcases hchildren r s hs with hold | hthere
    · exact ih s hold
    · exact hinside s hthere

theorem founded_empty : Founded {} where
  sequences r item h := absurd (lt_of_mem_sequence h) (Nat.not_lt_zero r)
  maps r entry h := by
    change entry ∈ (#[] : Array (List (Item × Item))).getD r [] at h
    rw [Array.getD_eq_getD_getElem?] at h
    cases h
  wellFounded := ⟨fun r => ⟨r, fun s hs => absurd (lt_of_mem_sequence hs) (Nat.not_lt_zero r)⟩⟩

/-- Sequences may be stored that hold what is there. -/
theorem Founded.newSequence (h : heap.Founded)
    (hitems : ∀ item ∈ items.toList, item.Inside heap.sequences.size) :
    (heap.newSequence items).2.Founded := by
  have hcontents : ∀ r item, item ∈ ((heap.newSequence items).2.sequence r).toList →
      (r < heap.sequences.size ∧ item ∈ (heap.sequence r).toList) ∨ item ∈ items.toList := by
    intro r item hitem
    have hr := lt_of_mem_sequence hitem
    rw [size_newSequence] at hr
    rcases Nat.lt_succ_iff_lt_or_eq.mp hr with hr | rfl
    · rw [sequence_newSequence_of_lt hr] at hitem
      exact .inl ⟨hr, hitem⟩
    · rw [sequence_newSequence_self] at hitem
      exact .inr hitem
  have hle : heap.sequences.size ≤ (heap.newSequence items).2.sequences.size := by
    rw [size_newSequence]
    exact Nat.le_succ _
  refine ⟨fun r item hitem => ?_, fun r entry hentry => ?_, ?_⟩
  · rcases hcontents r item hitem with ⟨-, hold⟩ | hnew
    · exact (h.sequences r item hold).mono hle
    · exact (hitems item hnew).mono hle
  · exact ⟨(h.maps r entry hentry).1.mono hle, (h.maps r entry hentry).2.mono hle⟩
  · refine wellFounded_of_children h.wellFounded (· < heap.sequences.size) ?_ ?_
    · intro r s hr hs
      rcases hcontents r _ hs with ⟨-, hold⟩ | hnew
      · exact ⟨hold, h.sequences r _ hold⟩
      · unfold Nests at hs
        rw [sequence_newSequence_of_lt hr] at hs
        exact ⟨hs, h.sequences r _ hs⟩
    · intro r s hs
      rcases hcontents r _ hs with ⟨-, hold⟩ | hnew
      · exact .inl hold
      · exact .inr (hitems _ hnew)

/-- Buffers may change, and maps that hold what is there. -/
theorem Founded.of_sequences (h : old.Founded) (hsequences : new.sequences = old.sequences)
    (hmaps : ∀ r, ∀ entry ∈ new.map r,
      entry.1.Inside old.sequences.size ∧ entry.2.Inside old.sequences.size) : new.Founded := by
  have hsame : new.sequence = old.sequence := by
    unfold sequence
    rw [hsequences]
  refine ⟨?_, ?_, ?_⟩
  · rw [hsame, hsequences]
    exact h.sequences
  · rw [hsequences]
    exact hmaps
  · unfold Nests
    rw [hsame]
    exact h.wellFounded

/-- From a bound on, structs nest only structs from that bound on. -/
def ClosedFrom (heap : Heap) (k : Nat) : Prop :=
  ∀ r s, k ≤ r → heap.Nests r s → k ≤ s

theorem closedFrom_size (heap : Heap) : heap.ClosedFrom heap.sequences.size := by
  intro r s hr hs
  exact absurd (lt_of_mem_sequence hs) (Nat.not_lt_of_le hr)

end Heap

/-- A struct is between bounds, and an array is below the upper one. -/
def Item.Fresh (k n : Nat) : Item → Prop
  | .struct r => k ≤ r ∧ r < n
  | .array r => r < n
  | _ => True

theorem Item.Fresh.inside {k n : Nat} {item : Item} (h : item.Fresh k n) : item.Inside n := by
  cases item with
  | struct r => exact h.2
  | array r => exact h
  | null | boolean | integer | byteString | pointer | buffer | map => trivial

theorem Item.Fresh.mono {k n n' : Nat} {item : Item} (h : item.Fresh k n) (hle : n ≤ n') :
    item.Fresh k n' := by
  cases item with
  | struct r => exact ⟨h.1, Nat.lt_of_lt_of_le h.2 hle⟩
  | array r => exact Nat.lt_of_lt_of_le h hle
  | null | boolean | integer | byteString | pointer | buffer | map => trivial

/-- What is no struct is fresh. -/
theorem Item.Inside.fresh {k n : Nat} {item : Item} (h : item.Inside n)
    (hstruct : ∀ r, item ≠ .struct r) : item.Fresh k n := by
  cases item with
  | struct r => exact absurd rfl (hstruct r)
  | array r => exact h
  | null | boolean | integer | byteString | pointer | buffer | map => trivial

namespace Heap

variable {heap : Heap}

/-- A sequence may change to what it held and fresh items: those lead only to what is as fresh. -/
theorem Founded.modifySequence (h : heap.Founded) {k c : Nat} (hc : c < k)
    (hclosed : heap.ClosedFrom k) {f : Array Item → Array Item}
    (hf : ∀ item ∈ (f (heap.sequence c)).toList,
      item ∈ (heap.sequence c).toList ∨ item.Fresh k heap.sequences.size) :
    (heap.modifySequence c f).Founded := by
  have hcontents : ∀ r item, item ∈ ((heap.modifySequence c f).sequence r).toList →
      item ∈ (heap.sequence r).toList ∨ (r = c ∧ item.Fresh k heap.sequences.size) := by
    intro r item hitem
    have hr := lt_of_mem_sequence hitem
    rw [size_modifySequence] at hr
    rw [sequence_modifySequence] at hitem
    by_cases hsame : c = r
    · subst hsame
      rw [if_pos ⟨rfl, hr⟩] at hitem
      exact (hf item hitem).imp_right fun hfresh => ⟨rfl, hfresh⟩
    · rw [if_neg fun hboth => hsame hboth.1] at hitem
      exact .inl hitem
  refine ⟨fun r item hitem => ?_, fun r entry hentry => ?_, ?_⟩
  · rw [size_modifySequence]
    rcases hcontents r item hitem with hold | ⟨-, hfresh⟩
    · exact h.sequences r item hold
    · exact hfresh.inside
  · rw [size_modifySequence]
    exact h.maps r entry hentry
  · refine wellFounded_of_children h.wellFounded (k ≤ ·) ?_ ?_
    · intro r s hr hs
      rcases hcontents r _ hs with hold | ⟨rfl, -⟩
      · exact ⟨hold, hclosed r s hr hold⟩
      · exact absurd hc (Nat.not_lt_of_le hr)
    · intro r s hs
      exact (hcontents r _ hs).imp_right fun hfresh => hfresh.2.1

end Heap

/-! ## Depth -/

/-- At most so many structs are inside each other in an item. -/
inductive Item.NestsWithin (heap : Heap) : Nat → Item → Prop
  | plain {n : Nat} {item : Item} (h : ∀ r, item ≠ .struct r) : Item.NestsWithin heap n item
  | struct {n r : Nat} (h : ∀ item ∈ (heap.sequence r).toList, Item.NestsWithin heap n item) :
    Item.NestsWithin heap (n + 1) (.struct r)

/-- No struct is inside itself. -/
theorem Heap.Founded.acyclic {heap : Heap} (h : heap.Founded) (r : Nat) :
    ¬ Relation.TransGen heap.Nests r r := by
  intro hcircle
  have hswapped : Relation.TransGen (Function.swap heap.Nests) r r := Relation.transGen_swap.mpr hcircle
  exact (WellFounded.transGen h.wellFounded).irrefl.irrefl r hswapped

/-- Structs that are inside each other are different, so there are no more of them than there are
sequences. -/
theorem Heap.Founded.nestsWithin {heap : Heap} (h : heap.Founded) {item : Item}
    (hinside : item.Inside heap.sequences.size) : item.NestsWithin heap heap.sequences.size := by
  -- `around` are the structs in which `r` is
  have hstruct : ∀ r, r < heap.sequences.size → ∀ around : Finset Nat,
      around ⊆ Finset.range heap.sequences.size → (∀ s ∈ around, Relation.TransGen heap.Nests s r) →
      Item.NestsWithin heap (heap.sequences.size - around.card) (.struct r) := by
    intro r
    induction r using h.wellFounded.induction with
    | h r ih =>
      intro hr around hsubset hreach
      -- or `r` would be inside itself
      have hout : r ∉ around := fun hmem => h.acyclic r (hreach r hmem)
      have hinsert : insert r around ⊆ Finset.range heap.sequences.size :=
        Finset.insert_subset (Finset.mem_range.mpr hr) hsubset
      have hcard := Finset.card_le_card hinsert
      rw [Finset.card_insert_of_notMem hout, Finset.card_range] at hcard
      obtain ⟨left, hleft⟩ : ∃ left, heap.sequences.size - around.card = left + 1 :=
        ⟨heap.sequences.size - (around.card + 1), by omega⟩
      rw [hleft]
      refine .struct fun item hitem => ?_
      by_cases hplain : ∀ s, item ≠ .struct s
      · exact .plain hplain
      · obtain ⟨s, hs⟩ := Classical.not_forall_not.mp hplain
        subst hs
        have hbelow := ih s hitem (h.sequences r _ hitem) (insert r around) hinsert ?_
        · rw [Finset.card_insert_of_notMem hout] at hbelow
          rw [show left = heap.sequences.size - (around.card + 1) by omega]
          exact hbelow
        · intro t ht
          rcases Finset.mem_insert.mp ht with rfl | ht
          · exact .single hitem
          · exact (hreach t ht).tail hitem
  cases item with
  | struct r =>
    exact hstruct r hinside ∅ (Finset.empty_subset _) fun s hs => absurd hs (Finset.notMem_empty s)
  | null | boolean | integer | byteString | pointer | buffer | array | map => exact .plain nofun

/-! ## Copies -/

/-- Copying as the recursion goes, without a bound on its depth: one item after the other, and the items
of a struct before the struct. -/
inductive Copies : Heap → List Item → List Item → Heap → Prop
  | nil {heap : Heap} : Copies heap [] [] heap
  | shared {heap heap' : Heap} {item : Item} {items copies : List Item} (h : ∀ r, item ≠ .struct r)
    (hrest : Copies heap items copies heap') : Copies heap (item :: items) (item :: copies) heap'
  | struct {heap heap' heap'' : Heap} {r : Nat} {fields items copies : List Item}
    (h : Copies heap (heap.sequence r).toList fields heap')
    (hrest : Copies (heap'.newSequence fields.toArray).2 items copies heap'') :
    Copies heap (.struct r :: items) (.struct heap'.sequences.size :: copies) heap''

namespace Copies

variable {heap heap' heap'' : Heap} {item copy : Item} {items copies : List Item}

theorem cons (h : Copies heap [item] [copy] heap') (hrest : Copies heap' items copies heap'') :
    Copies heap (item :: items) (copy :: copies) heap'' := by
  cases h with
  | shared hplain hnil =>
    cases hnil
    exact .shared hplain hrest
  | struct hfields hnil =>
    cases hnil
    exact .struct hfields hrest

theorem grows (h : Copies heap items copies heap') : heap.Extends heap' := by
  induction h with
  | nil => exact .refl _
  | shared _ _ ih => exact ih
  | struct _ _ ih ih' => exact (ih.trans (.newSequence _ _)).trans ih'

theorem size_le (h : Copies heap items copies heap') : heap.sequences.size ≤ heap'.sequences.size :=
  h.grows.sequences.length_le

/-- Buffers and maps are as they were. -/
theorem sameOthers (h : Copies heap items copies heap') :
    heap'.buffers = heap.buffers ∧ heap'.maps = heap.maps := by
  induction h with
  | nil => exact ⟨rfl, rfl⟩
  | shared _ _ ih => exact ih
  | struct _ _ ih ih' => exact ⟨ih'.1.trans ih.1, ih'.2.trans ih.2⟩

/-- Copies are made of new structs alone. -/
theorem founded (h : Copies heap items copies heap') (hheap : heap.Founded)
    (hitems : ∀ item ∈ items, item.Inside heap.sequences.size) : heap'.Founded
      ∧ (∀ copy ∈ copies, copy.Fresh heap.sequences.size heap'.sequences.size)
      ∧ heap'.ClosedFrom heap.sequences.size := by
  induction h with
  | nil => exact ⟨hheap, fun copy hcopy => absurd hcopy List.not_mem_nil, Heap.closedFrom_size _⟩
  | @shared heap heap' item items copies hplain hrest ih =>
    obtain ⟨hitem, hitems⟩ := List.forall_mem_cons.mp hitems
    obtain ⟨hfounded, hfresh, hclosed⟩ := ih hheap hitems
    exact ⟨hfounded, List.forall_mem_cons.mpr ⟨(hitem.fresh hplain).mono hrest.size_le, hfresh⟩, hclosed⟩
  | @struct heap heap' heap'' r fields items copies hcopied hrest ih ih' =>
    -- the struct is made behind the copies of its items, and the rest behind the struct
    obtain ⟨hitem, hitems⟩ := List.forall_mem_cons.mp hitems
    obtain ⟨hfounded, hfields, hclosed⟩ := ih hheap (hheap.sequences r)
    have hle := hcopied.size_le
    have hsize : (heap'.newSequence fields.toArray).2.sequences.size = heap'.sequences.size + 1 :=
      Heap.size_newSequence
    have hgrown := hrest.size_le
    rw [hsize] at hgrown
    obtain ⟨hfounded', hfresh, hclosed'⟩ := ih'
      (hfounded.newSequence fun field hfield => (hfields field hfield).inside)
      fun item hmem => (hitems item hmem).mono (by omega)
    rw [hsize] at hfresh hclosed'
    refine ⟨hfounded', List.forall_mem_cons.mpr ⟨⟨hle, hgrown⟩, fun copy hcopy => ?_⟩, ?_⟩
    · have hlater := hfresh copy hcopy
      cases copy with
      | struct s => exact ⟨Nat.le_trans hle (Nat.le_of_succ_le hlater.1), hlater.2⟩
      | array s => exact hlater
      | null | boolean | integer | byteString | pointer | buffer | map => trivial
    · -- where the sequence of `s` was made tells where it leads
      intro s t hs ht
      by_cases hlater : heap'.sequences.size + 1 ≤ s
      · exact Nat.le_trans (Nat.le_succ_of_le hle) (hclosed' s t hlater ht)
      · unfold Heap.Nests at ht
        rw [hrest.grows.sequence_eq (by omega)] at ht
        rcases Nat.lt_or_eq_of_le (Nat.le_of_not_lt hlater) with hearlier | rfl
        · rw [Heap.sequence_newSequence_of_lt (by omega)] at ht
          exact hclosed s t hs ht
        · rw [Heap.sequence_newSequence_self] at ht
          exact (hfields _ ht).1

end Copies

/-- In a heap that has grown, items nest as deep as they did. -/
theorem Item.NestsWithin.grows {heap heap' : Heap} {n : Nat} {item : Item}
    (h : item.NestsWithin heap n) (hext : heap.Extends heap') (hheap : heap.Founded)
    (hinside : item.Inside heap.sequences.size) : item.NestsWithin heap' n := by
  induction h with
  | plain hplain => exact .plain hplain
  | @struct n r _ ih =>
    refine .struct fun item hitem => ?_
    rw [hext.sequence_eq hinside] at hitem
    exact ih item hitem (hheap.sequences r item hitem)

/-- The machine makes this copy of an item. -/
def CopiedWithin (depth : Nat) (item : Item) (m : Memory) : Prop :=
  ∃ copy heap, Copies m.heap [item] [copy] heap
    ∧ ∀ address, Eval.copyWithin depth item address m = .ok copy { m with heap }

/-- The machine makes copies of items if it makes copies of each of them that has a property, which items
keep as the heap grows. -/
theorem mapM_copies {make : Item → Eval Item} {D : Heap → Item → Prop}
    (hgrows : ∀ {heap heap' : Heap} {item : Item}, heap.Extends heap' → heap.Founded →
      item.Inside heap.sequences.size → D heap item → D heap' item)
    (hcopied : ∀ {item : Item} {m : Memory}, m.heap.Founded → item.Inside m.heap.sequences.size →
      D m.heap item → ∃ copy heap, Copies m.heap [item] [copy] heap
        ∧ ∀ address, make item address m = .ok copy { m with heap })
    (items : List Item) {m : Memory} (hheap : m.heap.Founded)
    (hitems : ∀ item ∈ items, item.Inside m.heap.sequences.size ∧ D m.heap item) :
    ∃ copies heap, Copies m.heap items copies heap
      ∧ ∀ address, items.mapM make address m = .ok copies { m with heap } := by
  induction items generalizing m with
  | nil => exact ⟨[], m.heap, .nil, fun _ => rfl⟩
  | cons item items ih =>
    obtain ⟨⟨hinside, hdepth⟩, hitems⟩ := List.forall_mem_cons.mp hitems
    obtain ⟨copy, heap, hcopy, hrun⟩ := hcopied hheap hinside hdepth
    have hfounded := (hcopy.founded hheap (List.forall_mem_singleton.mpr hinside)).1
    obtain ⟨copies, heap', hcopies, hruns⟩ := ih (m := { m with heap }) hfounded
      fun item hmem => ⟨(hitems item hmem).1.mono hcopy.size_le,
        hgrows hcopy.grows hheap (hitems item hmem).1 (hitems item hmem).2⟩
    refine ⟨copy :: copies, heap', hcopy.cons hcopies, fun address => ?_⟩
    rw [List.mapM_cons, Eval.bind_apply, hrun]
    dsimp only
    rw [Eval.bind_apply, hruns]
    rfl

/-- The machine makes a copy if structs do not nest too deep. -/
theorem copyWithin_copies (depth : Nat) {item : Item} {m : Memory} (hheap : m.heap.Founded)
    (hinside : item.Inside m.heap.sequences.size) (hdepth : item.NestsWithin m.heap depth) :
    CopiedWithin depth item m := by
  induction depth generalizing item m with
  | zero =>
    cases hdepth with
    | plain hplain => exact ⟨item, m.heap, .shared hplain .nil, fun _ => rfl⟩
  | succ depth ih =>
    cases hdepth with
    | plain hplain =>
      refine ⟨item, m.heap, .shared hplain .nil, fun _ => ?_⟩
      cases item with
      | struct r => exact absurd rfl (hplain r)
      | null | boolean | integer | byteString | pointer | buffer | array | map => rfl
    | @struct _ r hfields =>
      obtain ⟨copies, heap, hcopies, hruns⟩ := mapM_copies
        (D := fun heap item => item.NestsWithin heap depth)
        (fun hgrown hheap hinside hnests => hnests.grows hgrown hheap hinside) ih
        (m.heap.sequence r).toList hheap
        fun item hmem => ⟨hheap.sequences r item hmem, hfields item hmem⟩
      refine ⟨_, _, .struct hcopies .nil, fun address => ?_⟩
      show ((m.heap.sequence r).mapM (Eval.copyWithin depth) >>= Eval.newStruct) address m = _
      rw [Eval.bind_apply, Eval.arrayMapM_eq_ok (hruns address)]
      rfl

theorem Item.NestsWithin.succ {heap : Heap} {n : Nat} {item : Item} (h : item.NestsWithin heap n) :
    item.NestsWithin heap (n + 1) := by
  induction h with
  | plain hplain => exact .plain hplain
  | struct _ ih => exact .struct ih

/-- What is no struct is not copied. -/
theorem copyStruct_plain {item : Item} (h : ∀ r, item ≠ .struct r) (address : Nat) (m : Memory) :
    Eval.copyStruct item address m = .ok item m := by
  cases item with
  | struct r => exact absurd rfl (h r)
  | null | boolean | integer | byteString | pointer | buffer | array | map => rfl

/-- In a founded heap, copying comes to an end, and the machine makes this copy. -/
theorem exists_copy {m : Memory} (hheap : m.heap.Founded) {item : Item}
    (hinside : item.Inside m.heap.sequences.size) : ∃ copy heap', Copies m.heap [item] [copy] heap'
      ∧ ∀ address, Eval.copyStruct item address m = .ok copy { m with heap := heap' } :=
  copyWithin_copies _ hheap hinside (hheap.nestsWithin hinside).succ

theorem exists_copies {m : Memory} (hheap : m.heap.Founded) {items : List Item}
    (hitems : ∀ item ∈ items, item.Inside m.heap.sequences.size) : ∃ copies heap',
      Copies m.heap items copies heap'
        ∧ ∀ address, items.mapM Eval.copyStruct address m = .ok copies { m with heap := heap' } :=
  mapM_copies (D := fun _ _ => True) (fun _ _ _ _ => trivial)
    (fun hheap hinside _ => exists_copy hheap hinside) items hheap
    fun item hmem => ⟨hitems item hmem, trivial⟩

/-! ## Comparisons -/

/-- Comparing as the recursion goes, without a bound on its depth: one pair of items after the other, up
to the first that differs. -/
inductive Compares (heap : Heap) : List Item → List Item → Bool → Prop
  | nil : Compares heap [] [] true
  | plain {a b : Item} {as bs : List Item} {result : Bool}
    (h : ∀ r s, ¬ (a = .struct r ∧ b = .struct s)) (hsame : a = b) (hrest : Compares heap as bs result) :
    Compares heap (a :: as) (b :: bs) result
  | plainDiffer {a b : Item} {as bs : List Item} (h : ∀ r s, ¬ (a = .struct r ∧ b = .struct s))
    (hdiffer : a ≠ b) : Compares heap (a :: as) (b :: bs) false
  | same {r : Nat} {as bs : List Item} {result : Bool} (hrest : Compares heap as bs result) :
    Compares heap (.struct r :: as) (.struct r :: bs) result
  | lengths {r s : Nat} {as bs : List Item} (hdiffer : r ≠ s)
    (h : (heap.sequence r).toList.length ≠ (heap.sequence s).toList.length) :
    Compares heap (.struct r :: as) (.struct s :: bs) false
  | fields {r s : Nat} {as bs : List Item} {result : Bool} (hdiffer : r ≠ s)
    (hlength : (heap.sequence r).toList.length = (heap.sequence s).toList.length)
    (h : Compares heap (heap.sequence r).toList (heap.sequence s).toList true)
    (hrest : Compares heap as bs result) :
    Compares heap (.struct r :: as) (.struct s :: bs) result
  | fieldsDiffer {r s : Nat} {as bs : List Item} (hdiffer : r ≠ s)
    (hlength : (heap.sequence r).toList.length = (heap.sequence s).toList.length)
    (h : Compares heap (heap.sequence r).toList (heap.sequence s).toList false) :
    Compares heap (.struct r :: as) (.struct s :: bs) false

namespace Compares

variable {heap : Heap} {a b : Item} {as bs : List Item} {result : Bool}

theorem cons (h : Compares heap [a] [b] true) (hrest : Compares heap as bs result) :
    Compares heap (a :: as) (b :: bs) result := by
  cases h with
  | plain hplain hsame _ => exact .plain hplain hsame hrest
  | same _ => exact .same hrest
  | fields hdiffer hlength hfields _ => exact .fields hdiffer hlength hfields hrest

theorem consDiffer (h : Compares heap [a] [b] false) : Compares heap (a :: as) (b :: bs) false := by
  cases h with
  | plain _ _ hnil | same hnil | fields _ _ _ hnil => cases hnil
  | plainDiffer hplain hdiffer => exact .plainDiffer hplain hdiffer
  | lengths hdiffer hlength => exact .lengths hdiffer hlength
  | fieldsDiffer hdiffer hlength hfields => exact .fieldsDiffer hdiffer hlength hfields

end Compares

/-- Items that are not both structs are compared by their references and values. -/
theorem compares_plain {heap : Heap} {a b : Item} (h : ∀ r s, ¬ (a = .struct r ∧ b = .struct s)) :
    Compares heap [a] [b] (decide (a = b)) := by
  by_cases hsame : a = b
  · rw [decide_eq_true hsame]
    exact .plain h hsame .nil
  · rw [decide_eq_false hsame]
    exact .plainDiffer h hsame

/-- Comparing pair by pair finds whether all pairs are equal. -/
theorem compares_pairs {heap : Heap} {equal : Item → Item → Bool} {as bs : List Item}
    (hequal : ∀ a ∈ as, ∀ b, Compares heap [a] [b] (equal a b)) (hlength : as.length = bs.length) :
    Compares heap as bs ((as.zip bs).all fun (a, b) => equal a b) := by
  induction as generalizing bs with
  | nil =>
    cases bs with
    | nil => exact .nil
    | cons b bs => cases hlength
  | cons a as ih =>
    cases bs with
    | nil => cases hlength
    | cons b bs =>
      obtain ⟨hfirst, has⟩ := List.forall_mem_cons.mp hequal
      have hpair := hfirst b
      rw [List.zip_cons_cons, List.all_cons]
      dsimp only
      cases hresult : equal a b with
      | false =>
        rw [hresult] at hpair
        exact hpair.consDiffer
      | true =>
        rw [hresult] at hpair
        exact hpair.cons (ih has (Nat.succ.inj hlength))

/-- Comparing finds the answer of the machine if structs do not nest too deep. -/
theorem compares_equalsWithin {heap : Heap} (depth : Nat) {a : Item} (b : Item)
    (hdepth : a.NestsWithin heap depth) :
    Compares heap [a] [b] (a.equalsWithin heap depth b) := by
  induction depth generalizing a b with
  | zero =>
    cases hdepth with
    | plain h => exact compares_plain fun r s hboth => h r hboth.1
  | succ depth ih =>
    cases hdepth with
    | plain h =>
      have hleaf : a.equalsWithin heap (depth + 1) b = decide (a = b) := by
        cases a with
        | struct r => exact absurd rfl (h r)
        | null | boolean | integer | byteString | pointer | buffer | array | map => rfl
      rw [hleaf]
      exact compares_plain fun r s hboth => h r hboth.1
    | @struct _ r hfields =>
      cases b with
      | struct s =>
        show Compares heap _ _ (decide (r = s) || allPairs _ _ _)
        -- structs with the same reference are equal without a look at their items
        by_cases hsame : r = s
        · subst hsame
          rw [decide_eq_true rfl]
          exact .same .nil
        · rw [decide_eq_false hsame, Bool.false_or]
          unfold allPairs
          by_cases hlength : (heap.sequence r).toList.length = (heap.sequence s).toList.length
          · rw [decide_eq_true hlength, Bool.true_and]
            have hcompared := compares_pairs (fun a ha b => ih b (hfields a ha)) hlength
            revert hcompared
            cases ((heap.sequence r).toList.zip (heap.sequence s).toList).all _ with
            | true => exact fun hcompared => .fields hsame hlength hcompared .nil
            | false => exact fun hcompared => .fieldsDiffer hsame hlength hcompared
          · rw [decide_eq_false hlength, Bool.false_and]
            exact .lengths hsame hlength
      | null | boolean | integer | byteString | pointer | buffer | array | map =>
        exact compares_plain fun r s hboth => Item.noConfusion hboth.2

/-- In a founded heap, comparing comes to an end, with the answer of the machine. -/
theorem compares_equals {heap : Heap} (hheap : heap.Founded) {a : Item}
    (hinside : a.Inside heap.sequences.size) (b : Item) :
    Compares heap [a] [b] (a.equals heap b) :=
  compares_equalsWithin _ b (hheap.nestsWithin hinside).succ

end StackContract.Machine
