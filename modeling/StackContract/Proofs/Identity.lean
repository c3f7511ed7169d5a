import StackContract.Proofs.Alike
/-!
# Machines with the same references

Along a link in which every reference stands for itself, memories are alike to themselves if all
pointers in them are (`heapsAlike_self`). What grows from such a link adds nothing to it. The identity is
the link in which addresses stand for themselves, too.
-/

namespace StackContract.Machine

/-- An item is in a sequence or a map of the heap. -/
inductive Heap.Holds (heap : Heap) (item : Item) : Prop
  | sequence {r : Nat} (h : item ∈ (heap.sequence r).toList)
  | key {r : Nat} {value : Item} (h : (item, value) ∈ heap.map r)
  | value {r : Nat} {key : Item} (h : (key, item) ∈ heap.map r)

/-- Every reference stands for itself, also to objects that are still to be made. -/
structure Link.Direct (link : Link) : Prop where
  refs : ∀ {part r r'}, link.refs part r r' ↔ r = r'
  ahead : link.ahead

section

variable {link grown : Link} (hdirect : link.Direct)

include hdirect

theorem Item.alike_self {item : Item} (h : ∀ a, item = .pointer a → link.addresses a a) :
    item.Alike link item := by
  cases item with
  | null => exact .null
  | boolean b => exact .boolean b
  | integer v => exact .integer v
  | byteString bytes => exact .byteString bytes
  | pointer a => exact .pointer (h a rfl)
  | buffer r => exact .buffer (hdirect.refs.mpr rfl)
  | array r => exact .array (hdirect.refs.mpr rfl)
  | struct r => exact .struct (hdirect.refs.mpr rfl)
  | map r => exact .map (hdirect.refs.mpr rfl)

theorem itemsAlike_self {items : List Item} (h : ∀ a, .pointer a ∈ items → link.addresses a a) :
    ItemsAlike link items items :=
  List.forall₂_same.mpr fun _ hitem => Item.alike_self hdirect fun a ha => h a (ha ▸ hitem)

theorem heapsAlike_self {heap : Heap} (h : ∀ a, heap.Holds (.pointer a) → link.addresses a a) :
    HeapsAlike link heap heap where
  ranges := by
    intro part r r' hr
    obtain rfl := hdirect.refs.mp hr
    by_cases hlt : r < heap.count part
    · exact .inl ⟨hlt, hlt⟩
    · exact .inr ⟨hdirect.ahead, r - heap.count part, by omega, by omega⟩
  buffers := by
    intro r r' hr
    rw [hdirect.refs.mp hr]
  sequences := by
    intro r r' hr
    obtain rfl := hdirect.refs.mp hr
    exact itemsAlike_self hdirect fun a ha => h a (.sequence ha)
  maps := by
    intro r r' hr
    obtain rfl := hdirect.refs.mp hr
    refine List.forall₂_same.mpr fun (key, value) hentry => ⟨?_, ?_⟩
    · refine Item.alike_self hdirect fun a ha => ?_
      subst ha
      exact h a (.key hentry)
    · refine Item.alike_self hdirect fun a ha => ?_
      subst ha
      exact h a (.value hentry)
  depth := rfl

/-! ## Growing -/

/-- A link that has grown has no other pairs. -/
theorem Link.eq_of_le (hle : link ≤ grown) {part : Part} {r r' : Nat} (h : grown.refs part r r') :
    r = r' :=
  (grown.refs_unique (hle.refs (hdirect.refs.mpr rfl)) h).mp rfl

theorem Item.Alike.of_le (hle : link ≤ grown) {a a' : Item} (h : a.Alike grown a') :
    a.Alike link a' := by
  have hrefs : ∀ {part r r'}, grown.refs part r r' → link.refs part r r' :=
    fun hr => hdirect.refs.mpr (Link.eq_of_le hdirect hle hr)
  cases h with
  | null => exact .null
  | boolean b => exact .boolean b
  | integer v => exact .integer v
  | byteString bytes => exact .byteString bytes
  | pointer h =>
    rw [hle.addresses] at h
    exact .pointer h
  | buffer h => exact .buffer (hrefs h)
  | array h => exact .array (hrefs h)
  | struct h => exact .struct (hrefs h)
  | map h => exact .map (hrefs h)

theorem ItemsAlike.of_le (hle : link ≤ grown) {items items' : List Item}
    (h : ItemsAlike grown items items') : ItemsAlike link items items' :=
  h.imp fun _ _ hitem => hitem.of_le hdirect hle

theorem HeapsAlike.of_le (hle : link ≤ grown) {heap heap' : Heap} (h : HeapsAlike grown heap heap') :
    HeapsAlike link heap heap' where
  ranges := by
    intro part r r' hr
    rcases h.ranges (hle.refs hr) with hinside | ⟨-, hbeyond⟩
    · exact .inl hinside
    · exact .inr ⟨hdirect.ahead, hbeyond⟩
  buffers hr := h.buffers (hle.refs hr)
  sequences hr := ItemsAlike.of_le hdirect hle (h.sequences (hle.refs hr))
  maps hr := (h.maps (hle.refs hr)).imp fun _ _ hentry =>
    ⟨hentry.1.of_le hdirect hle, hentry.2.of_le hdirect hle⟩
  depth := h.depth

end

/-! ## The identity -/

/-- Every reference stands for itself, and so do the addresses that count. -/
def Link.identity (counts : Nat → Prop) : Link where
  addresses a a' := a = a' ∧ counts a
  refs _ := Eq
  ahead := True
  addresses_unique := by
    rintro a _ b _ ⟨rfl, -⟩ ⟨rfl, -⟩
    exact Iff.rfl
  refs_unique := by
    rintro part r _ s _ rfl rfl
    exact Iff.rfl

section

variable {counts : Nat → Prop} {grown : Link}

theorem Link.direct_identity : (Link.identity counts).Direct :=
  ⟨Iff.rfl, trivial⟩

theorem itemsAlike_identity {items : List Item} (h : ∀ a, .pointer a ∈ items → counts a) :
    ItemsAlike (Link.identity counts) items items :=
  itemsAlike_self Link.direct_identity fun a ha => ⟨rfl, h a ha⟩

theorem heapsAlike_identity {heap : Heap} (h : ∀ a, heap.Holds (.pointer a) → counts a) :
    HeapsAlike (Link.identity counts) heap heap :=
  heapsAlike_self Link.direct_identity fun a ha => ⟨rfl, h a ha⟩

theorem Item.Alike.of_identity_le (hle : Link.identity counts ≤ grown) {a a' : Item}
    (h : a.Alike grown a') : a.Alike (Link.identity counts) a' :=
  h.of_le Link.direct_identity hle

theorem ItemsAlike.of_identity_le (hle : Link.identity counts ≤ grown) {items items' : List Item}
    (h : ItemsAlike grown items items') : ItemsAlike (Link.identity counts) items items' :=
  ItemsAlike.of_le Link.direct_identity hle h

theorem HeapsAlike.of_identity_le (hle : Link.identity counts ≤ grown) {heap heap' : Heap}
    (h : HeapsAlike grown heap heap') : HeapsAlike (Link.identity counts) heap heap' :=
  h.of_le Link.direct_identity hle

/-- Items that are alike along the identity are the same. -/
theorem Item.Alike.eq_of_identity {a a' : Item} (h : a.Alike (Link.identity counts) a') : a = a' := by
  cases h with
  | pointer h => rw [h.1]
  | buffer h | array h | struct h | map h => exact congrArg _ h
  | null | boolean | integer | byteString => rfl

/-- Lists that are alike item by item along the identity are the same. -/
theorem ItemsAlike.eq_of_identity {items items' : List Item}
    (h : ItemsAlike (Link.identity counts) items items') : items = items' :=
  List.forall₂_eq_eq_eq ▸ h.imp fun _ _ hitem => hitem.eq_of_identity

theorem HeapsAlike.count_eq {heap heap' : Heap} (h : HeapsAlike (Link.identity counts) heap heap')
    (part : Part) : heap.count part = heap'.count part := by
  -- the reference behind the last one is paired with itself, too
  rcases h.ranges (rfl : heap.count part = heap.count part) with ⟨hlt, -⟩ | ⟨-, k, hk, hk'⟩
  · exact absurd hlt (Nat.lt_irrefl _)
  · omega

/-- Heaps that are alike along the identity are the same. -/
theorem HeapsAlike.eq_of_identity {heap heap' : Heap}
    (h : HeapsAlike (Link.identity counts) heap heap') : heap = heap' := by
  -- arrays of one size are the same if they hold the same at every reference
  have hsame : ∀ {α : Type} {xs ys : Array α} {d : α}, xs.size = ys.size →
      (∀ r, xs.getD r d = ys.getD r d) → xs = ys := by
    intro α xs ys d hsize hget
    refine Array.ext hsize fun r hr hr' => ?_
    have hthere := hget r
    rwa [Array.getD_eq_getD_getElem?, Array.getD_eq_getD_getElem?, Array.getElem?_eq_getElem hr,
      Array.getElem?_eq_getElem hr'] at hthere
  have hbuffers := hsame (h.count_eq .buffers) fun r => h.buffers (rfl : r = r)
  have hsequences := hsame (h.count_eq .sequences) fun r =>
    Array.toList_inj.mp (ItemsAlike.eq_of_identity (h.sequences (rfl : r = r)))
  have hmaps : heap.maps = heap'.maps := by
    refine hsame (d := []) (h.count_eq .maps) fun r => ?_
    have hentries : List.Forall₂ Eq (heap.map r) (heap'.map r) := (h.maps rfl).imp fun _ _ hentry =>
      Prod.ext hentry.1.eq_of_identity hentry.2.eq_of_identity
    rwa [List.forall₂_eq_eq_eq] at hentries
  obtain ⟨buffers, sequences, maps⟩ := heap
  obtain ⟨buffers', sequences', maps'⟩ := heap'
  cases hbuffers
  cases hsequences
  cases hmaps
  rfl

/-- The pointers of a heap that is alike to itself count. -/
theorem HeapsAlike.counts_of_holds {heap : Heap} (h : HeapsAlike (Link.identity counts) heap heap) {a : Nat}
    (ha : heap.Holds (.pointer a)) : counts a := by
  have hpointer : ∀ {item : Item}, Item.Alike (Link.identity counts) (.pointer a) item → counts a := by
    intro item hitem
    cases hitem with
    | pointer h => exact h.2
  cases ha with
  | sequence hmem => exact hpointer (List.forall₂_same.mp (h.sequences rfl) _ hmem)
  | key hmem => exact hpointer (List.forall₂_same.mp (h.maps rfl) _ hmem).1
  | value hmem => exact hpointer (List.forall₂_same.mp (h.maps rfl) _ hmem).2

end

end StackContract.Machine
