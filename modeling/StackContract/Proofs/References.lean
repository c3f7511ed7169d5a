import StackContract.Proofs.EqualItems
import StackContract.Proofs.Notifications
import StackContract.Proofs.Stores
/-!
# References

How often the items of a machine refer to a sequence (`State.references`). Items that were there before a
sequence do not, so that a copy of a struct is referred to from the place alone where it is put
(`Copies.references_eq`).
-/

namespace StackContract.Machine

/-- How many items refer to a sequence. -/
def references (r : Nat) (items : List Item) : Nat :=
  items.countP fun item => item.object? = some (.sequences, r)

/-- The keys and values of entries. -/
def partsOf (entries : List (Item × Item)) : List Item :=
  entries.flatMap fun entry => [entry.1, entry.2]

/-- The items in compounds. -/
def Heap.items (heap : Heap) : List Item :=
  heap.sequences.toList.flatMap Array.toList ++ heap.maps.toList.flatMap partsOf

/-- The items in slots and in what was told to the outside. -/
def State.keptItems (s : State) : List Item :=
  s.statics.toList.flatMap Array.toList
    ++ s.frames.toList.flatMap (fun frame => frame.locals.toList ++ frame.arguments.toList)
    ++ s.notifications.toList.flatMap Notification.state

/-- How many of all items that there are refer to a sequence. -/
def State.references (s : State) (r : Nat) : Nat :=
  Machine.references r (s.memory.stack.toList ++ s.memory.heap.items ++ s.keptItems)

section

variable {heap heap' : Heap} {items copies : List Item} {k r o : Nat}

@[simp] theorem references_append (r : Nat) (items items' : List Item) :
    references r (items ++ items') = references r items + references r items' :=
  List.countP_append

theorem references_cons (r : Nat) (item : Item) (items : List Item) :
    references r (item :: items) = references r [item] + references r items :=
  references_append r [item] items

/-- What is below a bound does not refer to anything beyond it. -/
theorem references_eq_zero (h : AllInhand k items) (hr : k ≤ r) : references r items = 0 := by
  refine List.countP_eq_zero.mpr fun item hitem hobject => ?_
  have hinside := h item hitem
  have hsame := of_decide_eq_true hobject
  cases item with
  | array r' | struct r' =>
    cases hsame
    exact absurd hinside (Nat.not_lt_of_le hr)
  | buffer | map => cases hsame
  | null | boolean | integer | byteString | pointer => cases hsame

theorem references_struct (s : Nat) : references r [.struct s] = if r = s then 1 else 0 := by
  unfold references
  rw [List.countP_singleton]
  by_cases hsame : r = s
  · rw [if_pos hsame, hsame]
    exact if_pos (decide_eq_true rfl)
  · rw [if_neg hsame]
    refine if_neg fun hobject => hsame ?_
    cases of_decide_eq_true hobject
    rfl

theorem references_newSequence (heap : Heap) (items : List Item) : references r
    (heap.newSequence items.toArray).2.items = references r heap.items + references r items := by
  unfold Heap.items Heap.newSequence
  simp only [Array.toList_push, List.flatMap_append, List.flatMap_singleton, references_append]
  omega

/-! ## Items that are there -/

theorem exists_getD_of_mem {α : Type} {xs : Array α} {x : α} (h : x ∈ xs.toList) (d : α) :
    ∃ r, xs.getD r d = x := by
  obtain ⟨r, hr, hat⟩ := List.getElem_of_mem h
  refine ⟨r, ?_⟩
  rw [Array.getD_eq_getD_getElem?, ← Array.getElem?_toList, List.getElem?_eq_getElem hr, hat]
  rfl

theorem Heap.Founded.allInhand_items (h : heap.Founded) : AllInhand heap.sequences.size heap.items := by
  refine List.forall_mem_append.mpr ⟨?_, ?_⟩
  · intro item hitem
    obtain ⟨sequence, hsequence, hmem⟩ := List.mem_flatMap.mp hitem
    obtain ⟨r, hr⟩ := exists_getD_of_mem hsequence #[]
    refine h.sequences r item ?_
    unfold Heap.sequence
    rw [hr]
    exact hmem
  · intro item hitem
    obtain ⟨entries, hentries, hmem⟩ := List.mem_flatMap.mp hitem
    obtain ⟨r, rfl⟩ := exists_getD_of_mem hentries []
    obtain ⟨entry, hentry, hpart⟩ := List.mem_flatMap.mp hmem
    obtain ⟨hkey, hvalue⟩ := h.maps r entry hentry
    rcases List.mem_cons.mp hpart with rfl | hpart
    · exact hkey
    · cases List.mem_singleton.mp hpart
      exact hvalue

theorem State.Founded.allInhand_kept {n : Nat} {s : State} (h : s.Founded n) (htold : s.Told) :
    AllInhand s.memory.heap.sequences.size s.keptItems := by
  refine List.forall_mem_append.mpr ⟨List.forall_mem_append.mpr ⟨?_, ?_⟩, ?_⟩
  · intro item hitem
    obtain ⟨items, hitems, hmem⟩ := List.mem_flatMap.mp hitem
    exact h.statics items (Option.mem_toList.mp hitems) item hmem
  · intro item hitem
    obtain ⟨frame, hframe, hmem⟩ := List.mem_flatMap.mp hitem
    obtain ⟨hlocals, harguments⟩ := h.frames frame hframe
    rcases List.mem_append.mp hmem with hmem | hmem
    · exact hlocals item hmem
    · exact harguments item hmem
  · intro item hitem
    obtain ⟨notification, hnotification, hmem⟩ := List.mem_flatMap.mp hitem
    exact htold notification hnotification item hmem

/-! ## Copies -/

/-- Copying makes one reference to each struct that it makes. -/
theorem Copies.references_eq (h : Copies heap items copies heap') (hk : k ≤ heap.sequences.size)
    (hold : ∀ r < k, AllInhand k (heap.sequence r).toList) (hitems : AllInhand k items) (ho : k ≤ o) :
    references o heap'.items + references o copies = references o heap.items
      + if heap.sequences.size ≤ o ∧ o < heap'.sequences.size then 1 else 0 := by
  induction h with
  | nil =>
    rw [if_neg fun h => Nat.not_lt_of_le h.1 h.2]
    rfl
  | @shared _ _ item _ copies hplain _ ih =>
    obtain ⟨hitem, hitems⟩ := List.forall_mem_cons.mp hitems
    have hnone : references o [item] = 0 :=
      references_eq_zero (List.forall_mem_singleton.mpr hitem) ho
    rw [references_cons, hnone, Nat.zero_add]
    exact ih hk hold hitems
  | @struct heap made heap' r fields items copies hcopied hrest ih ih' =>
    obtain ⟨hr, hitems⟩ := List.forall_mem_cons.mp hitems
    have hmade := hcopied.size_le
    have hlater := hrest.size_le
    rw [Heap.size_newSequence] at hlater
    have hgrown := hcopied.grows.trans (.newSequence made fields.toArray)
    have hfields := ih hk hold (hold r hr)
    have hothers := ih' (by rw [Heap.size_newSequence]; omega) (fun s hs => by
      rw [hgrown.sequence_eq (Nat.lt_of_lt_of_le hs hk)]
      exact hold s hs) hitems
    rw [references_newSequence, Heap.size_newSequence] at hothers
    rw [references_cons, references_struct]
    split at hfields <;> split at hothers <;> split <;> split <;> omega

/-! ## Stores -/

/-- Where one part changes, there come to be no more items than come to be in that part. -/
theorem countP_flatMap_modify_le {α β : Type} {p : β → Bool} {g : α → List β} {f : α → α} {n : Nat}
    {xs : List α} {r : Nat} (h : ∀ x, xs[r]? = some x → (g (f x)).countP p ≤ (g x).countP p + n) :
    ((xs.modify r f).flatMap g).countP p ≤ (xs.flatMap g).countP p + n := by
  induction xs generalizing r with
  | nil =>
    rw [List.modify_nil]
    exact Nat.le_add_right _ _
  | cons x xs ih =>
    cases r with
    | zero =>
      rw [List.modify_zero_cons, List.flatMap_cons, List.flatMap_cons, List.countP_append,
        List.countP_append]
      have hfirst := h x rfl
      omega
    | succ r =>
      rw [List.modify_succ_cons, List.flatMap_cons, List.flatMap_cons, List.countP_append,
        List.countP_append]
      have hrest := ih h
      omega

theorem references_modifySequence_le {f : Array Item → Array Item} {n : Nat}
    (h : references o (f (heap.sequence r)).toList ≤ references o (heap.sequence r).toList + n) :
    references o (heap.modifySequence r f).items ≤ references o heap.items + n := by
  have hsequences : references o ((heap.modifySequence r f).sequences.toList.flatMap Array.toList)
      ≤ references o (heap.sequences.toList.flatMap Array.toList) + n := by
    unfold Heap.modifySequence
    rw [Array.toList_modify]
    refine countP_flatMap_modify_le fun sequence hat => ?_
    have hsame : heap.sequence r = sequence := by
      unfold Heap.sequence
      rw [Array.getD_eq_getD_getElem?, ← Array.getElem?_toList, hat, Option.getD_some]
    rwa [hsame] at h
  show references o (_ ++ heap.maps.toList.flatMap partsOf)
    ≤ references o (_ ++ heap.maps.toList.flatMap partsOf) + n
  rw [references_append, references_append]
  omega

theorem references_modifyMap_le {f : List (Item × Item) → List (Item × Item)} {n : Nat}
    (h : references o (partsOf (f (heap.map r))) ≤ references o (partsOf (heap.map r)) + n) :
    references o (heap.modifyMap r f).items ≤ references o heap.items + n := by
  have hmaps : references o ((heap.modifyMap r f).maps.toList.flatMap partsOf)
      ≤ references o (heap.maps.toList.flatMap partsOf) + n := by
    unfold Heap.modifyMap
    rw [Array.toList_modify]
    refine countP_flatMap_modify_le fun entries hat => ?_
    have hsame : heap.map r = entries := by
      unfold Heap.map
      rw [Array.getD_eq_getD_getElem?, ← Array.getElem?_toList, hat, Option.getD_some]
    rwa [hsame] at h
  show references o (heap.sequences.toList.flatMap Array.toList ++ _)
    ≤ references o (heap.sequences.toList.flatMap Array.toList ++ _) + n
  rw [references_append, references_append]
  omega

theorem references_set_le (items : List Item) (index : Nat) (item : Item) :
    references o (items.set index item) ≤ references o items + references o [item] := by
  induction items generalizing index with
  | nil => exact Nat.zero_le _
  | cons other items ih =>
    cases index with
    | zero =>
      rw [List.set_cons_zero, references_cons, references_cons o other]
      omega
    | succ index =>
      have hrest := ih index
      rw [List.set_cons_succ, references_cons, references_cons o other items]
      omega

theorem references_partsOf_cons (k v : Item) (entries : List (Item × Item)) :
    references o (partsOf ((k, v) :: entries))
      = references o [k] + (references o [v] + references o (partsOf entries)) := by
  rw [← references_cons, ← references_cons]
  rfl

theorem references_setEntry_le (key item : Item) (entries : List (Item × Item)) :
    references o (partsOf (heap.setEntry key item entries))
      ≤ references o (partsOf entries) + (references o [key] + references o [item]) := by
  induction entries with
  | nil =>
    rw [Heap.setEntry, references_partsOf_cons]
    omega
  | cons entry entries ih =>
    obtain ⟨k, v⟩ := entry
    unfold Heap.setEntry
    split
    · rw [references_partsOf_cons, references_partsOf_cons]
      omega
    · rw [references_partsOf_cons, references_partsOf_cons]
      omega

/-- A store makes no more references than the item and the key. -/
theorem references_store_le {key item container : Item} (h : heap.store key item container = .ok heap') :
    references o heap'.items ≤ references o heap.items + (references o [key] + references o [item]) := by
  cases heap.stores_of_store h with
  | @sequence _ r index _ =>
    refine Nat.le_trans (references_modifySequence_le (n := references o [item]) ?_) (by omega)
    rw [Array.toList_setIfInBounds]
    exact references_set_le _ index item
  | @map r => exact references_modifyMap_le (references_setEntry_le key item (heap.map r))
  | buffer => exact Nat.le_add_right _ _

theorem references_extend_le {item container : Item} (h : heap.extend item container = .ok heap') :
    references o heap'.items ≤ references o heap.items + references o [item] := by
  cases container with
  | array r | struct r =>
    cases h
    refine references_modifySequence_le ?_
    rw [Array.toList_push, references_append]
  | null | boolean | integer | byteString | pointer | buffer | map => cases h

end

end StackContract.Machine
