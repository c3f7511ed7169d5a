import StackContract.Proofs.EqualItems
import StackContract.Proofs.KeyLookups
import StackContract.Proofs.Stores
/-!
# Stores at indices

An array, a struct or a buffer is a list of what is found at its indices (`Item.contents`), and a store
sets one place of it: `setItem_exact`. That holds where container, key and value are in each other, or the
same. But a buffer is not to be read while one of its bytes is replaced: where it is its own key or its own
value, the machine breaks down (`setItem_breaksDown_iff`).
-/

namespace StackContract.Machine

open Script Number

/-! ## Contents -/

/-- A container whose items or bytes have indices at which others may be stored. -/
def Item.Indexed : Item → Prop
  | .array _ | .struct _ | .buffer _ => True
  | _ => False

/-- What is found at the indices of a container. -/
def Item.contents (heap : Heap) : Item → List Item
  | .array r | .struct r => (heap.sequence r).toList
  | .buffer r => (heap.buffer r).toList.map fun byte => .ofNat byte.toNat
  | _ => []

/-- An item may be stored in a container under a key that reads as this integer. -/
structure Item.Takes (heap : Heap) (container key item : Item) (v : Int128) : Prop where
  reads : key.asInteger heap = .ok v
  nonneg : 0 ≤ v.val
  lt : v.val < (container.contents heap).length
  /-- A buffer takes signed and unsigned bytes. -/
  byte : ∀ r, container = .buffer r → ∃ w, item.asInteger heap = .ok w ∧ -128 ≤ w.val ∧ w.val < 256

/-- A buffer is to be read while one of its own bytes is replaced. -/
def Item.Held (heap : Heap) (container key item : Item) : Prop :=
  ∃ r, container = .buffer r ∧ (key = .buffer r
    ∨ item = .buffer r ∧ ∃ v, key.asInteger heap = .ok v ∧ 0 ≤ v.val ∧ v.val < (heap.buffer r).size)

/-- What is found where an item was stored in a container. -/
inductive Item.StoredAs (old new : Heap) (container item : Item) : Item → Prop
  /-- A buffer keeps the integer modulo 256. -/
  | byte {r : Nat} {w : Int128} (hcontainer : container = .buffer r)
    (hreads : item.asInteger old = .ok w) : StoredAs old new container item (.ofNat (w.val % 256).toNat)
  /-- Other containers keep the item, but a new struct for a struct. -/
  | item {stored : Item} (hcontainer : ∀ r, container ≠ .buffer r)
    (hmirrors : item.Mirrors old new stored)
    (hfresh : stored.Fresh old.sequences.size new.sequences.size) : StoredAs old new container item stored

/-- What is found at an index of a container. -/
def State.Picks (s : State) (container : Item) (v : Int128) (found : Item) : Prop :=
  ∀ (i : Located) (below : Stack Item), i.opcode = .pickItem →
    execute i (s.withStack ((below.push container).push (.integer v)))
      = .ok .next (s.withStack (below.push found))

section

variable {heap heap' : Heap} {container key item item' : Item} {v : Int128}

theorem asInteger_of_buffers (hbuffers : heap'.buffers = heap.buffers) (item : Item) :
    item.asInteger heap' = item.asInteger heap := by
  cases item with
  | buffer r =>
    unfold Item.asInteger Heap.buffer
    rw [hbuffers]
  | null | boolean | integer | byteString | pointer | array | struct | map => rfl

/-- What was copied reads as before. -/
theorem Item.Mirrors.asInteger_eq (h : item.Mirrors heap heap' item')
    (hbuffers : heap'.buffers = heap.buffers) : item'.asInteger heap' = item.asInteger heap := by
  cases h with
  | plain => exact asInteger_of_buffers hbuffers item
  | struct => rfl

theorem Item.Mirrors.buffer_iff (h : item.Mirrors heap heap' item') (r : Nat) :
    item' = .buffer r ↔ item = .buffer r := by
  cases h with
  | plain => exact Iff.rfl
  | struct => exact ⟨nofun, nofun⟩

/-- The copy may be stored where the item may. -/
theorem Item.takes_copy (hbuffers : heap'.buffers = heap.buffers)
    (hcontents : container.contents heap' = container.contents heap)
    (hmirrors : item.Mirrors heap heap' item') :
    container.Takes heap' key item' v ↔ container.Takes heap key item v := by
  have hkey := asInteger_of_buffers hbuffers key
  have hitem := hmirrors.asInteger_eq hbuffers
  constructor
  · rintro ⟨hreads, hnonneg, hlt, hbyte⟩
    exact ⟨hkey ▸ hreads, hnonneg, hcontents ▸ hlt, hitem ▸ hbyte⟩
  · rintro ⟨hreads, hnonneg, hlt, hbyte⟩
    exact ⟨hkey ▸ hreads, hnonneg, hcontents ▸ hlt, hitem ▸ hbyte⟩

theorem Item.held_copy (hbuffers : heap'.buffers = heap.buffers)
    (hmirrors : item.Mirrors heap heap' item') :
    container.Held heap' key item' ↔ container.Held heap key item := by
  unfold Item.Held Heap.buffer
  rw [hbuffers, asInteger_of_buffers hbuffers key]
  simp only [hmirrors.buffer_iff]

/-! ## Lookups -/

theorem extent_eq_length (h : container.Indexed) :
    container.extent heap = .ok (container.contents heap).length := by
  cases container with
  | array r | struct r => rfl
  | buffer r => exact congrArg Except.ok (List.length_map _).symm
  | null | boolean | integer | byteString | pointer | map => cases h

theorem element_eq_getD (h : container.Indexed) {n : Nat} (hlt : n < (container.contents heap).length) :
    container.element heap n = (container.contents heap)[n] := by
  cases container with
  | array r | struct r =>
    have hn : n < (heap.sequence r).size := hlt
    show (heap.sequence r).getD n .null = (heap.sequence r).toList[n]
    rw [Array.getD_eq_getD_getElem?, Array.getElem?_eq_getElem hn]
    rfl
  | buffer r =>
    have hn : n < (heap.buffer r).toList.length := Nat.lt_of_lt_of_eq hlt (List.length_map _)
    have hbyte : (heap.buffer r).toList.getD n 0 = (heap.buffer r).toList[n] := by
      rw [List.getD_eq_getElem?_getD, List.getElem?_eq_getElem hn, Option.getD_some]
    show Item.ofNat ((heap.buffer r).toList.getD n 0).toNat = _
    simp only [hbyte, Item.contents, List.getElem_map]
  | null | boolean | integer | byteString | pointer | map => cases h

/-- An item is found at an index that lies there in the contents. -/
theorem lookup_eq_ok_iff (h : container.Indexed) {found : Item} :
    container.lookup heap (.integer v) = .ok found
      ↔ 0 ≤ v.val ∧ (container.contents heap)[v.val.toNat]? = some found := by
  have hmap : ∀ r, container ≠ .map r := by
    rintro r rfl
    exact h
  rw [Item.lookup_eq hmap, extent_eq_length h]
  show (((Item.integer v).asIndex heap _).map (container.element heap)) = _ ↔ _
  unfold Item.asIndex
  show Except.map (container.element heap) (if 0 ≤ v.val ∧ v.val < _ then pure v.val.toNat else throw _)
    = .ok found ↔ _
  by_cases hinside : 0 ≤ v.val ∧ v.val < (container.contents heap).length
  · have hlt : v.val.toNat < (container.contents heap).length := by omega
    rw [if_pos hinside, List.getElem?_eq_getElem hlt, ← element_eq_getD h hlt]
    constructor
    · intro hfound
      exact ⟨hinside.1, congrArg some (Except.ok.inj hfound)⟩
    · rintro ⟨-, hfound⟩
      exact congrArg Except.ok (Option.some.inj hfound)
  · rw [if_neg hinside]
    constructor
    · intro hfound
      cases hfound
    · rintro ⟨hnonneg, hfound⟩
      obtain ⟨hlt, -⟩ := List.getElem?_eq_some_iff.mp hfound
      exact absurd ⟨hnonneg, by omega⟩ hinside

end

theorem picks_iff {s : State} {container found : Item} {v : Int128} (h : container.Indexed) :
    s.Picks container v found
      ↔ 0 ≤ v.val ∧ (container.contents s.memory.heap)[v.val.toNat]? = some found := by
  rw [← lookup_eq_ok_iff h]
  constructor
  · intro hpicks
    have hthere := hpicks ⟨⟨.pickItem, []⟩, 0⟩ .empty rfl
    rw [execute_pickItem rfl rfl] at hthere
    cases hlookup : container.lookup s.memory.heap (.integer v) with
    | error fault =>
      rw [State.withStack, hlookup] at hthere
      cases hthere
    | ok item =>
      rw [State.withStack, hlookup] at hthere
      injection hthere with _ hstate
      have hstack := congrArg (·.memory.stack.toList) hstate
      exact congrArg Except.ok (List.head_eq_of_cons_eq hstack)
  · intro hlookup i below hop
    rw [execute_pickItem hop rfl]
    show State.result _ below (container.lookup s.memory.heap (.integer v)) = _
    rw [hlookup]
    rfl

/-! ## Stores -/

section

variable {heap : Heap} {container key item : Item} {v : Int128}

theorem asIndex_eq_ok {length : Nat} (hreads : key.asInteger heap = .ok v) (hnonneg : 0 ≤ v.val)
    (hlt : v.val < length) : key.asIndex heap length = .ok v.val.toNat := by
  unfold Item.asIndex
  rw [hreads]
  exact if_pos ⟨hnonneg, hlt⟩

theorem integer_of_asIndex {length index : Nat} (h : key.asIndex heap length = .ok index) :
    ∃ v, key.asInteger heap = .ok v ∧ 0 ≤ v.val ∧ v.val < length := by
  unfold Item.asIndex at h
  cases hreads : key.asInteger heap with
  | error fault =>
    rw [hreads] at h
    cases h
  | ok v =>
    rw [hreads] at h
    by_cases hinside : 0 ≤ v.val ∧ v.val < length
    · exact ⟨v, rfl, hinside⟩
    · change (if 0 ≤ v.val ∧ v.val < length then _ else _) = _ at h
      rw [if_neg hinside] at h
      cases h

theorem asInteger_ne_breakdown : item.asInteger heap ≠ .error .breakdown := by
  have hbytes : ∀ (item : Item) bytes, item.integerOfBytes bytes ≠ .error .breakdown := by
    intro item bytes
    unfold Item.integerOfBytes
    split
    · exact nofun
    · split <;> exact nofun
  cases item with
  | byteString bytes => exact hbytes _ _
  | buffer r => exact hbytes _ _
  | null | boolean | integer | pointer | array | struct | map => exact nofun

theorem asIndex_ne_breakdown {length : Nat} : key.asIndex heap length ≠ .error .breakdown := by
  unfold Item.asIndex
  cases hreads : key.asInteger heap with
  | error fault =>
    rintro ⟨⟩
    exact asInteger_ne_breakdown hreads
  | ok v =>
    show (if 0 ≤ v.val ∧ v.val < length then pure v.val.toNat else throw _) ≠ _
    split <;> exact nofun

theorem toNat_byte (w : Int128) : (UInt8.ofNat (w.val % 256).toNat).toNat = (w.val % 256).toNat := by
  rw [UInt8.toNat_ofNat']
  omega

theorem Heap.lt_of_lt_size_buffer {r j : Nat} (h : j < (heap.buffer r).size) : r < heap.buffers.size := by
  by_contra hge
  unfold Heap.buffer at h
  rw [Array.getD_eq_getD_getElem?, Array.getElem?_eq_none (Nat.le_of_not_lt hge)] at h
  exact Nat.not_lt_zero j h

theorem sequence_set {r index : Nat} (hr : r < heap.sequences.size) :
    ((heap.modifySequence r (·.setIfInBounds index item)).sequence r).toList
      = (heap.sequence r).toList.set index item := by
  rw [Heap.sequence_modifySequence, if_pos ⟨rfl, hr⟩]
  exact Array.toList_setIfInBounds

theorem buffer_set {r index : Nat} {byte : UInt8} (hr : r < heap.buffers.size) :
    ((heap.modifyBuffer r (·.setIfInBounds index byte)).buffer r).toList
      = (heap.buffer r).toList.set index byte := by
  rw [Heap.buffer_modifyBuffer, if_pos ⟨rfl, hr⟩]
  exact Array.toList_setIfInBounds

/-- Where an item may be stored, one place of the contents is set. -/
theorem exists_store (hindexed : container.Indexed) (hheld : ¬ container.Held heap key item)
    (h : container.Takes heap key item v) : ∃ heap' kept, heap.store key item container = .ok heap'
      ∧ container.contents heap' = (container.contents heap).set v.val.toNat kept
      ∧ heap'.sequences.size = heap.sequences.size
      ∧ (∀ r, container ≠ .array r → container ≠ .struct r → heap'.sequence r = heap.sequence r)
      ∧ ((∃ r w, container = .buffer r ∧ item.asInteger heap = .ok w
          ∧ kept = .ofNat (w.val % 256).toNat)
        ∨ (∀ r, container ≠ .buffer r) ∧ kept = item) := by
  obtain ⟨hreads, hnonneg, hlt, hbyte⟩ := h
  cases container with
  | array r | struct r =>
    have hindex : key.asIndex heap (heap.sequence r).size = .ok v.val.toNat :=
      asIndex_eq_ok hreads hnonneg hlt
    have hlt' : v.val < (heap.sequence r).size := hlt
    have hr : r < heap.sequences.size := Heap.lt_of_lt_size_sequence (j := v.val.toNat) (by omega)
    refine ⟨heap.modifySequence r (·.setIfInBounds v.val.toNat item), item, ?_, sequence_set hr,
      Heap.size_modifySequence, fun o hne hne' => ?_, .inr ⟨nofun, rfl⟩⟩
    · show (key.asIndex heap (heap.sequence r).size >>= fun index => _ : Except Fault Heap) = _
      rw [hindex]
      rfl
    · rw [Heap.sequence_modifySequence, if_neg]
      rintro ⟨rfl, -⟩
      first
        | exact hne rfl
        | exact hne' rfl
  | buffer r =>
    obtain ⟨w, hw, hlow, hhigh⟩ := hbyte r rfl
    have hlt' : v.val < (heap.buffer r).size :=
      Int.lt_of_lt_of_le hlt (Int.ofNat_le.mpr (Nat.le_of_eq (List.length_map _)))
    have hr : r < heap.buffers.size := Heap.lt_of_lt_size_buffer (j := v.val.toNat) (by omega)
    have hindex : key.asIndex heap (heap.buffer r).size = .ok v.val.toNat :=
      asIndex_eq_ok hreads hnonneg hlt'
    have hkey : Compound.unheld r key = .ok () := if_neg fun hsame => hheld ⟨r, rfl, .inl hsame⟩
    have hitem : Compound.unheld r item = .ok () :=
      if_neg fun hsame => hheld ⟨r, rfl, .inr ⟨hsame, v, hreads, hnonneg, hlt'⟩⟩
    refine ⟨heap.modifyBuffer r (·.setIfInBounds v.val.toNat (UInt8.ofNat (w.val % 256).toNat)), _, ?_,
      ?_, rfl, fun _ _ _ => rfl, .inl ⟨r, w, rfl, hw, rfl⟩⟩
    · show heap.storeByte r key item = _
      unfold Heap.storeByte
      rw [hkey, hindex, hitem, hw]
      show heap.setByte r v.val.toNat w = _
      unfold Heap.setByte Compound.byteOf?
      rw [if_pos ⟨hlow, hhigh⟩]
      rfl
    · show List.map _ (Heap.buffer _ r).toList = _
      rw [buffer_set hr, List.map_set, toNat_byte]
      rfl
  | null | boolean | integer | byteString | pointer | map => cases hindexed

/-- Where no item may be stored, the store fails by itself. -/
theorem exists_store_fault (hindexed : container.Indexed) (hheld : ¬ container.Held heap key item)
    (h : ∀ v, ¬ container.Takes heap key item v) :
    ∃ fault, heap.store key item container = .error fault ∧ fault ≠ .breakdown := by
  cases container with
  | array r | struct r =>
    show ∃ fault, (key.asIndex heap (heap.sequence r).size >>= fun index => _ : Except Fault Heap)
      = .error fault ∧ _
    cases hindex : key.asIndex heap (heap.sequence r).size with
    | error fault => exact ⟨fault, rfl, fun hfault => asIndex_ne_breakdown (hfault ▸ hindex)⟩
    | ok index =>
      obtain ⟨v, hreads, hnonneg, hlt⟩ := integer_of_asIndex hindex
      exact absurd ⟨hreads, hnonneg, hlt, nofun⟩ (h v)
  | buffer r =>
    have hkey : Compound.unheld r key = .ok () := if_neg fun hsame => hheld ⟨r, rfl, .inl hsame⟩
    show ∃ fault, heap.storeByte r key item = .error fault ∧ _
    unfold Heap.storeByte
    rw [hkey]
    show ∃ fault, (key.asIndex heap (heap.buffer r).size >>= fun index => _ : Except Fault Heap)
      = .error fault ∧ _
    cases hindex : key.asIndex heap (heap.buffer r).size with
    | error fault => exact ⟨fault, rfl, fun hfault => asIndex_ne_breakdown (hfault ▸ hindex)⟩
    | ok index =>
      obtain ⟨v, hreads, hnonneg, hlt⟩ := integer_of_asIndex hindex
      have hitem : Compound.unheld r item = .ok () :=
        if_neg fun hsame => hheld ⟨r, rfl, .inr ⟨hsame, v, hreads, hnonneg, hlt⟩⟩
      rw [hitem]
      show ∃ fault, (item.asInteger heap >>= fun w => _ : Except Fault Heap) = .error fault ∧ _
      cases hw : item.asInteger heap with
      | error fault => exact ⟨fault, rfl, fun hfault => asInteger_ne_breakdown (hfault ▸ hw)⟩
      | ok w =>
        -- the key is an index, so the byte cannot be one
        have hnone : Compound.byteOf? w = none := by
          refine if_neg fun hbyte => h v ⟨hreads, hnonneg, ?_, fun _ _ => ⟨w, hw, hbyte⟩⟩
          exact Int.lt_of_lt_of_le hlt (Int.ofNat_le.mpr (Nat.le_of_eq (List.length_map _).symm))
        refine ⟨.overflow, ?_, nofun⟩
        show heap.setByte r index w = _
        unfold Heap.setByte
        rw [hnone]
        rfl
  | null | boolean | integer | byteString | pointer | map => cases hindexed

theorem store_held (h : container.Held heap key item) :
    heap.store key item container = .error .breakdown := by
  obtain ⟨r, rfl, hheld⟩ := h
  show heap.storeByte r key item = _
  unfold Heap.storeByte
  by_cases hkey : key = .buffer r
  · rw [show Compound.unheld r key = .error .breakdown from if_pos hkey]
    rfl
  · obtain ⟨hitem, v, hreads, hnonneg, hlt⟩ := hheld.resolve_left hkey
    rw [show Compound.unheld r key = .ok () from if_neg hkey, asIndex_eq_ok hreads hnonneg hlt,
      show Compound.unheld r item = .error .breakdown from if_pos hitem]
    rfl

end

/-! ## The instruction -/

/-- What the instruction does that stores an item in an array, a struct or a buffer. -/
structure StoresExactly (i : Located) (s : State) (container key item : Item) : Prop where
  /-- The item is found at the index, and what was at every other one is still there. -/
  succeeds : ∀ v, container.Takes s.memory.heap key item v → ∃ t, execute i s = .ok .next t
    ∧ (container.contents t.memory.heap).length = (container.contents s.memory.heap).length
    ∧ (∃ stored, t.Picks container v stored
      ∧ container.StoredAs s.memory.heap t.memory.heap item stored)
    ∧ ∀ w found, w ≠ v → (t.Picks container w found ↔ s.Picks container w found)
  /-- Otherwise the machine faults, and all objects are as they were. -/
  fails : (∀ v, ¬ container.Takes s.memory.heap key item v) → ∃ fault t, execute i s = .error fault t
    ∧ fault ≠ .breakdown ∧ s.memory.heap.Extends t.memory.heap

variable {script : Array UInt8} {initializer : Option Nat} {limits : Limits} {i : Located} {s : State}
variable {below : Stack Item} {container key item : Item}

theorem contents_of_extends {heap heap' : Heap} (hgrown : heap.Extends heap')
    (hbuffers : heap'.buffers = heap.buffers) (hinside : container.Inside heap.sequences.size) :
    container.contents heap' = container.contents heap := by
  cases container with
  | array r | struct r => exact congrArg Array.toList (hgrown.sequence_eq hinside)
  | buffer r =>
    unfold Item.contents Heap.buffer
    rw [hbuffers]
  | null | boolean | integer | byteString | pointer | map => rfl

/-- What is stored is a copy, which mirrors the item. -/
theorem exists_setItem_mirrors (hs : s.memory.Founded 0) (hop : i.opcode = .setItem)
    (hstack : s.memory.stack = ((below.push container).push key).push item) :
    ∃ copy heap, Copies s.memory.heap [item] [copy] heap ∧ item.Mirrors s.memory.heap heap copy
      ∧ execute i s = s.changed below heap (heap.store key copy container) := by
  have hitem : item.Inside s.memory.heap.sequences.size :=
    hs.stack item (by rw [hstack]; exact List.mem_cons_self)
  obtain ⟨copy, heap, hcopies, hexecute⟩ := exists_setItem hs hop hstack
  have hmirrors := hcopies.mirrors hs.heap (List.forall_mem_singleton.mpr hitem)
  exact ⟨copy, heap, hcopies, (List.forall₂_cons.mp hmirrors).1, hexecute⟩

/-- A copy is what is stored in a container that was there, if that takes items as they are. -/
theorem Copies.storedAs {heap heap' heap'' : Heap} {copy : Item} (h : Copies heap [item] [copy] heap')
    (hheap : heap.Founded) (hitem : item.Inside heap.sequences.size)
    (hcontainer : container.Inside heap.sequences.size) (hnobuffer : ∀ r, container ≠ .buffer r)
    (hothers : ∀ r, container ≠ .array r → container ≠ .struct r → heap''.sequence r = heap'.sequence r)
    (hsize : heap''.sequences.size = heap'.sequences.size) :
    container.StoredAs heap heap'' item copy := by
  have hitems : AllInhand heap.sequences.size [item] := List.forall_mem_singleton.mpr hitem
  have hmirrors := (List.forall₂_cons.mp (h.mirrors hheap hitems)).1
  have hfresh := (h.founded hheap hitems).2.1 copy (.head _)
  -- what the copy encloses is none of what was there, and the container was
  have hnew : ∀ r, copy.Encloses heap' r → heap.sequences.size ≤ r := fun r hr =>
    h.enclosed_ge hheap hitems (.head _) hr
  refine .item hnobuffer (hmirrors.congr (fun _ _ => rfl) fun r hr => hothers r ?_ ?_)
    (hfresh.mono (Nat.le_of_eq hsize.symm))
  · rintro rfl
    exact absurd hcontainer (Nat.not_lt_of_le (hnew r hr))
  · rintro rfl
    exact absurd hcontainer (Nat.not_lt_of_le (hnew r hr))

theorem setItem_exact (h : Reachable script initializer limits s) (hop : i.opcode = .setItem)
    (hstack : s.memory.stack = ((below.push container).push key).push item)
    (hindexed : container.Indexed) (hheld : ¬ container.Held s.memory.heap key item) :
    StoresExactly i s container key item := by
  have hfounded := h.founded_memory
  have hinside : ∀ other ∈ [item, key, container], other.Inside s.memory.heap.sequences.size := by
    intro other hother
    refine hfounded.stack other ?_
    rw [hstack]
    exact List.mem_append_left _ hother
  obtain ⟨hitem, -, hcontainer, -⟩ : _ ∧ _ ∧ _ ∧ _ := by
    simpa only [List.forall_mem_cons] using hinside
  obtain ⟨copy, heap, hcopies, hmirrors, hexecute⟩ := exists_setItem_mirrors hfounded hop hstack
  have hbuffers := hcopies.sameOthers.1
  have hcontents := contents_of_extends hcopies.grows hbuffers hcontainer
  have hheld' : ¬ container.Held heap key copy := mt (Item.held_copy hbuffers hmirrors).mp hheld
  refine ⟨fun v htakes => ?_, fun hnone => ?_⟩
  · obtain ⟨heap', kept, hstore, hset, hsize, hothers, hkept⟩ := exists_store hindexed hheld'
      ((Item.takes_copy hbuffers hcontents hmirrors).mpr htakes)
    rw [hcontents] at hset
    have hlt := htakes.lt
    have hnonneg := htakes.nonneg
    refine ⟨{ s with memory := ⟨below, heap'⟩ }, by rw [hexecute, hstore]; rfl, ?_, ⟨kept, ?_, ?_⟩, ?_⟩
    · rw [hset, List.length_set]
    · rw [picks_iff hindexed]
      refine ⟨hnonneg, ?_⟩
      dsimp only
      rw [hset]
      exact List.getElem?_set_self (by omega)
    · rcases hkept with ⟨r, w, hbuffer, hw, rfl⟩ | ⟨hnobuffer, rfl⟩
      · exact .byte hbuffer ((hmirrors.asInteger_eq hbuffers).symm.trans hw)
      · exact hcopies.storedAs hfounded.heap hitem hcontainer hnobuffer hothers hsize
    · intro w found hne
      rw [picks_iff hindexed, picks_iff hindexed]
      refine and_congr_right fun hw => ?_
      dsimp only
      have hplace : v.val.toNat ≠ w.val.toNat := fun hsame => hne (Int128.ext (by omega))
      rw [hset, List.getElem?_set_ne hplace]
  · obtain ⟨fault, hstore, hfault⟩ := exists_store_fault hindexed hheld' fun v htakes =>
      hnone v ((Item.takes_copy hbuffers hcontents hmirrors).mp htakes)
    refine ⟨fault, { s with memory := ⟨below, heap⟩ }, by rw [hexecute, hstore]; rfl, hfault,
      hcopies.grows⟩

/-- A machine that is about to store an array of one integer in itself. -/
def selfStored : State :=
  (State.launched #[0x4a, 0x10, 0x4b, 0xd0, 0x40] { sequences := #[#[.ofNat 1]] } [.array 0]).stepped 3

theorem storesExactly_selfStored : Reachable #[0x4a, 0x10, 0x4b, 0xd0, 0x40] none {} selfStored
    ∧ (Item.array 0).Takes selfStored.memory.heap (.ofNat 0) (.array 0) .zero
    ∧ StoresExactly ⟨⟨.setItem, []⟩, 3⟩ selfStored (.array 0) (.ofNat 0) (.array 0) := by
  have hreachable : Reachable #[0x4a, 0x10, 0x4b, 0xd0, 0x40] none {} selfStored :=
    (reachable_launched (.array (Builds.nil.ofNat 1) .nil)).stepped 3
  obtain ⟨hitems, hlength⟩ : selfStored.memory.stack.toList = [.array 0, .ofNat 0, .array 0, .array 0]
      ∧ ((Item.array 0).contents selfStored.memory.heap).length = 1 := by
    decide +kernel
  have hstack : selfStored.memory.stack
      = (((Stack.empty.push (.array 0)).push (.array 0)).push (.ofNat 0)).push (.array 0) :=
    Stack.ext hitems
  have htakes : (Item.array 0).Takes selfStored.memory.heap (.ofNat 0) (.array 0) .zero :=
    ⟨rfl, by decide, by rw [hlength]; decide, nofun⟩
  exact ⟨hreachable, htakes,
    setItem_exact hreachable rfl hstack trivial fun ⟨_, hbuffer, _⟩ => nomatch hbuffer⟩

/-- The machine breaks down on a buffer that is its own key, and on one that is its own value if the key
is an index. -/
theorem setItem_breaksDown_iff (h : Reachable script initializer limits s) (hop : i.opcode = .setItem)
    (hstack : s.memory.stack = ((below.push container).push key).push item)
    (hindexed : container.Indexed) :
    (∃ t, execute i s = .error .breakdown t ∧ s.memory.heap.Extends t.memory.heap)
      ↔ container.Held s.memory.heap key item := by
  constructor
  · rintro ⟨t, hexecute, -⟩
    by_contra hheld
    have hexact := setItem_exact h hop hstack hindexed hheld
    by_cases htakes : ∃ v, container.Takes s.memory.heap key item v
    · obtain ⟨v, htakes⟩ := htakes
      obtain ⟨u, hok, -⟩ := hexact.succeeds v htakes
      rw [hexecute] at hok
      cases hok
    · obtain ⟨fault, u, hfault, hother, -⟩ := hexact.fails fun v hv => htakes ⟨v, hv⟩
      rw [hexecute] at hfault
      cases hfault
      exact hother rfl
  · intro hheld
    obtain ⟨copy, heap, hcopies, hmirrors, hexecute⟩ :=
      exists_setItem_mirrors h.founded_memory hop hstack
    have hheld' := (Item.held_copy hcopies.sameOthers.1 hmirrors).mpr hheld
    refine ⟨{ s with memory := ⟨below, heap⟩ }, ?_, hcopies.grows⟩
    rw [hexecute, store_held hheld']
    rfl

/-- A machine that is about to store 5 in a buffer of one zero byte, under that buffer as the key. -/
def selfKeyed : State :=
  (State.launched #[0x4a, 0x4a, 0x15, 0xd0, 0x40] { buffers := #[#[0]] } [.buffer 0]).stepped 3

/-- The key is an index and the value a byte, and yet the machine breaks down. -/
theorem breaksDown_selfKeyed : Reachable #[0x4a, 0x4a, 0x15, 0xd0, 0x40] none {} selfKeyed
    ∧ (Item.buffer 0).Takes selfKeyed.memory.heap (.buffer 0) (.ofNat 5) .zero
    ∧ ∃ t, execute ⟨⟨.setItem, []⟩, 3⟩ selfKeyed = .error .breakdown t := by
  have hreachable : Reachable #[0x4a, 0x4a, 0x15, 0xd0, 0x40] none {} selfKeyed :=
    (reachable_launched (.buffer .nil)).stepped 3
  obtain ⟨hitems, hreads, hlength⟩ :
      selfKeyed.memory.stack.toList = [.ofNat 5, .buffer 0, .buffer 0, .buffer 0]
        ∧ (Item.buffer 0).asInteger selfKeyed.memory.heap = .ok .zero
        ∧ ((Item.buffer 0).contents selfKeyed.memory.heap).length = 1 := by
    decide +kernel
  have hstack : selfKeyed.memory.stack
      = (((Stack.empty.push (.buffer 0)).push (.buffer 0)).push (.buffer 0)).push (.ofNat 5) :=
    Stack.ext hitems
  have htakes : (Item.buffer 0).Takes selfKeyed.memory.heap (.buffer 0) (.ofNat 5) .zero :=
    ⟨hreads, by decide, by rw [hlength]; decide, fun _ _ => ⟨.ofNat 5, rfl, by decide, by decide⟩⟩
  obtain ⟨t, hexecute, -⟩ :=
    (setItem_breaksDown_iff (i := ⟨⟨.setItem, []⟩, 3⟩) hreachable rfl hstack trivial).mpr ⟨0, rfl, .inl rfl⟩
  exact ⟨hreachable, htakes, t, hexecute⟩

end StackContract.Machine
