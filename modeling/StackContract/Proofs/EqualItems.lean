import StackContract.Proofs.MapKeys
/-!
# Equality of items

On a heap in which structs do not nest in a circle, equality of items is an equivalence, under which an
item and its copy are equal (`equality_of_reachable`).

It is found at a bounded depth, but not different at a larger one (`equalsWithin_eq`), so that structs
are equal where their fields are (`equals_structs_iff`). A copy has structs for structs, and shares all
else (`Item.Mirrors`).
-/

namespace StackContract.Machine

variable {heap heap' : Heap} {a b c : Item}

/-! ## Depth -/

theorem allPairs_iff {α : Type} {related : α → α → Bool} {xs ys : List α} :
    allPairs related xs ys = true ↔ List.Forall₂ (fun x y => related x y = true) xs ys := by
  unfold allPairs
  rw [List.forall₂_iff_zip, Bool.and_eq_true, decide_eq_true_iff, List.all_eq_true]
  exact and_congr_right fun _ => ⟨fun h x y hpair => h (x, y) hpair, fun h pair hpair => h hpair⟩

theorem forall₂_imp_mem {α β : Type} {R S : α → β → Prop} {xs : List α} {ys : List β}
    (h : List.Forall₂ R xs ys) (himp : ∀ x ∈ xs, ∀ y ∈ ys, R x y → S x y) : List.Forall₂ S xs ys := by
  refine List.forall₂_iff_zip.mpr ⟨h.length_eq, fun {x y} hpair => ?_⟩
  obtain ⟨hx, hy⟩ := List.of_mem_zip hpair
  exact himp x hx y hy (List.forall₂_zip h hpair)

theorem allPairs_congr {α : Type} {related related' : α → α → Bool} {xs ys : List α}
    (h : ∀ x ∈ xs, ∀ y ∈ ys, related x y = related' x y) :
    allPairs related xs ys = allPairs related' xs ys := by
  rw [Bool.eq_iff_iff, allPairs_iff, allPairs_iff]
  constructor
  · exact fun hall => forall₂_imp_mem hall fun x hx y hy hxy => h x hx y hy ▸ hxy
  · exact fun hall => forall₂_imp_mem hall fun x hx y hy hxy => (h x hx y hy).symm ▸ hxy

/-- What is no struct is compared at any depth by its reference or its value. -/
theorem equalsWithin_plain (ha : ∀ r, a ≠ .struct r) (depth : Nat) (b : Item) :
    a.equalsWithin heap depth b = decide (a = b) := by
  cases depth with
  | zero => rfl
  | succ depth =>
    cases a with
    | struct r => exact absurd rfl (ha r)
    | null | boolean | integer | byteString | pointer | buffer | array | map => rfl

/-- Comparisons agree that go deep enough. -/
theorem equalsWithin_eq {n m : Nat} (hn : a.NestsWithin heap n) (hm : a.NestsWithin heap m) (b : Item) :
    a.equalsWithin heap n b = a.equalsWithin heap m b := by
  induction hn generalizing m b with
  | plain ha => rw [equalsWithin_plain ha, equalsWithin_plain ha]
  | @struct n r _ ih =>
    cases hm with
    | plain ha => exact absurd rfl (ha r)
    | @struct m _ hfields =>
      cases b with
      | struct s =>
        show (decide (r = s) || _) = (decide (r = s) || _)
        rw [allPairs_congr fun item hitem other _ => ih item hitem (hfields item hitem) other]
      | null | boolean | integer | byteString | pointer | buffer | array | map => rfl

/-- The machine goes deep enough for every item, even for those that refer to nothing. -/
theorem Heap.Founded.nestsWithin_depth (h : heap.Founded) (item : Item) :
    item.NestsWithin heap heap.sequenceDepth := by
  by_cases hinside : item.Inside heap.sequences.size
  · exact (h.nestsWithin hinside).succ
  · cases item with
    | struct r => exact .struct fun item hitem => absurd (Heap.lt_of_mem_sequence hitem) hinside
    | null | boolean | integer | byteString | pointer | buffer | array | map => exact .plain nofun

/-! ## Equality, case by case -/

theorem equals_iff_eq (h : ∀ r s, ¬ (a = .struct r ∧ b = .struct s)) : a.equals heap b = true ↔ a = b := by
  constructor
  · intro hequal
    by_contra hne
    obtain ⟨r, s, hr, hs, -⟩ := structs_of_equals hequal hne
    exact h r s ⟨hr, hs⟩
  · rintro rfl
    exact equals_self heap a

/-- Structs are equal that are the same, or whose fields are equal one by one. -/
theorem equals_structs_iff (hheap : heap.Founded) (r s : Nat) :
    (Item.struct r).equals heap (.struct s) = true ↔ r = s ∨ List.Forall₂
      (fun x y => x.equals heap y = true) (heap.sequence r).toList (heap.sequence s).toList := by
  have hfields : allPairs (Item.equalsWithin heap heap.sequences.size) (heap.sequence r).toList
        (heap.sequence s).toList
      = allPairs (Item.equals heap) (heap.sequence r).toList (heap.sequence s).toList := by
    refine allPairs_congr fun x hx y _ => ?_
    have hwithin := hheap.nestsWithin (hheap.sequences r x hx)
    exact equalsWithin_eq hwithin hwithin.succ y
  show (decide (r = s) || allPairs _ _ _) = true ↔ _
  rw [Bool.or_eq_true, decide_eq_true_iff, hfields, allPairs_iff]

theorem equals_symm (hheap : heap.Founded) (h : a.equals heap b = true) : b.equals heap a = true := by
  have hwithin := hheap.nestsWithin_depth a
  generalize heap.sequenceDepth = depth at hwithin
  induction hwithin generalizing b with
  | plain ha =>
    rw [equals_iff_eq fun r s hboth => ha r hboth.1] at h
    exact h ▸ equals_self heap _
  | @struct _ r _ ih =>
    by_cases hsame : Item.struct r = b
    · exact hsame ▸ equals_self heap _
    · obtain ⟨_, s, ⟨⟩, rfl, -⟩ := structs_of_equals h hsame
      rcases (equals_structs_iff hheap r s).mp h with rfl | hfields
      · exact equals_self heap _
      · exact (equals_structs_iff hheap s r).mpr
          (.inr (List.Forall₂.flip (forall₂_imp_mem hfields fun x hx y _ hxy => ih x hx hxy)))

theorem forall₂_trans {α : Type} {R S T : α → α → Prop} {xs ys zs : List α} (h : List.Forall₂ R xs ys)
    (h' : List.Forall₂ S ys zs) (htrans : ∀ x ∈ xs, ∀ y z, R x y → S y z → T x z) :
    List.Forall₂ T xs zs := by
  induction h generalizing zs with
  | nil =>
    cases h'
    exact .nil
  | @cons x y xs ys hxy _ ih =>
    obtain ⟨htransHead, htransRest⟩ := List.forall_mem_cons.mp htrans
    cases h' with
    | cons hyz hrest => exact .cons (htransHead _ _ hxy hyz) (ih hrest htransRest)

theorem equals_trans (hheap : heap.Founded) (h : a.equals heap b = true) (h' : b.equals heap c = true) :
    a.equals heap c = true := by
  have hwithin := hheap.nestsWithin_depth a
  generalize heap.sequenceDepth = depth at hwithin
  induction hwithin generalizing b c with
  | plain ha =>
    rw [equals_iff_eq fun r s hboth => ha r hboth.1] at h
    exact h ▸ h'
  | @struct _ r _ ih =>
    by_cases hsame : Item.struct r = b
    · exact hsame ▸ h'
    · obtain ⟨_, s, ⟨⟩, rfl, -⟩ := structs_of_equals h hsame
      by_cases hsame' : Item.struct s = c
      · exact hsame' ▸ h
      · obtain ⟨_, t, ⟨⟩, rfl, -⟩ := structs_of_equals h' hsame'
        rcases (equals_structs_iff hheap r s).mp h with rfl | hfields
        · exact h'
        · rcases (equals_structs_iff hheap s t).mp h' with rfl | hfields'
          · exact h
          · exact (equals_structs_iff hheap r t).mpr
              (.inr (forall₂_trans hfields hfields' fun x hx y z hxy hyz => ih x hx hxy hyz))

theorem kind_of_equals (h : a.equals heap b = true) : a.kind = b.kind := by
  by_cases hsame : a = b
  · rw [hsame]
  · obtain ⟨r, s, rfl, rfl, -⟩ := structs_of_equals h hsame
    rfl

/-! ## Structs of an item -/

/-- A struct is an item, or inside it through structs. -/
def Item.Encloses (heap : Heap) (item : Item) (r : Nat) : Prop :=
  ∃ s, item = .struct s ∧ Relation.ReflTransGen heap.Nests s r

namespace Item.Encloses

theorem self (r : Nat) : (Item.struct r).Encloses heap r :=
  ⟨r, rfl, .refl⟩

theorem field {r s : Nat} {item : Item} (hitem : item ∈ (heap.sequence r).toList)
    (h : item.Encloses heap s) : (Item.struct r).Encloses heap s := by
  obtain ⟨t, rfl, hchain⟩ := h
  exact ⟨r, rfl, .head hitem hchain⟩

/-- Where the structs of an item are as they were, it has no others. -/
theorem of_same {item : Item} {r : Nat} (h : item.Encloses heap' r)
    (hsame : ∀ s, item.Encloses heap s → heap'.sequence s = heap.sequence s) : item.Encloses heap r := by
  obtain ⟨s, rfl, hchain⟩ := h
  induction hchain with
  | refl => exact .self s
  | tail _ hnests ih =>
    unfold Heap.Nests at hnests
    rw [hsame _ ih] at hnests
    obtain ⟨_, ⟨⟩, hthere⟩ := ih
    exact ⟨s, rfl, hthere.tail hnests⟩

theorem lt {item : Item} {r : Nat} (h : item.Encloses heap r) (hheap : heap.Founded)
    (hinside : item.Inside heap.sequences.size) : r < heap.sequences.size := by
  obtain ⟨s, rfl, hchain⟩ := h
  induction hchain with
  | refl => exact hinside
  | tail _ hnests _ => exact hheap.sequences _ _ hnests

end Item.Encloses

/-! ## Heaps with the same sequences -/

/-- As deep as it was an item nests where the sequences are as they were. -/
theorem Item.NestsWithin.of_same {depth : Nat} (h : a.NestsWithin heap depth) (hheap : heap.Founded)
    (hsame : ∀ r < heap.sequences.size, heap'.sequence r = heap.sequence r)
    (ha : a.Inside heap.sequences.size) : a.NestsWithin heap' depth := by
  induction h with
  | plain hplain => exact .plain hplain
  | @struct _ r _ ih =>
    refine .struct fun item hitem => ?_
    rw [hsame r ha] at hitem
    exact ih item hitem (hheap.sequences r item hitem)

/-- Comparing comes to the same where the sequences are as they were. -/
theorem equals_of_same (hheap : heap.Founded)
    (hsame : ∀ r < heap.sequences.size, heap'.sequence r = heap.sequence r) (hheap' : heap'.Founded)
    (ha : a.Inside heap.sequences.size) (hb : b.Inside heap.sequences.size) :
    a.equals heap' b = a.equals heap b := by
  have hwithin := hheap.nestsWithin_depth a
  unfold Item.equals
  rw [equalsWithin_eq (hheap'.nestsWithin_depth a) (hwithin.of_same hheap hsame ha)]
  generalize heap.sequenceDepth = depth at hwithin
  induction hwithin generalizing b with
  | plain hplain => rw [equalsWithin_plain hplain, equalsWithin_plain hplain]
  | @struct depth r _ ih =>
    cases b with
    | struct s =>
      show (decide (r = s) || allPairs _ _ _) = (decide (r = s) || allPairs _ _ _)
      rw [hsame r ha, hsame s hb, allPairs_congr fun x hx y hy =>
        ih x hx (hheap.sequences r x hx) (hheap.sequences s y hy)]
    | null | boolean | integer | byteString | pointer | buffer | array | map => rfl

/-! ## Copies -/

/-- An item has structs for the structs of another one, with the same items in them but for structs. -/
inductive Item.Mirrors (old new : Heap) : Item → Item → Prop
  | plain {item : Item} (h : ∀ r, item ≠ .struct r) : Item.Mirrors old new item item
  | struct {r s : Nat} (hlength : (old.sequence r).toList.length = (new.sequence s).toList.length)
    (hfields : ∀ pair ∈ (old.sequence r).toList.zip (new.sequence s).toList,
      Item.Mirrors old new pair.1 pair.2) : Item.Mirrors old new (.struct r) (.struct s)

namespace Item.Mirrors

variable {old new old' new' : Heap}

theorem of_fields {r s : Nat}
    (h : List.Forall₂ (Item.Mirrors old new) (old.sequence r).toList (new.sequence s).toList) :
    Item.Mirrors old new (.struct r) (.struct s) :=
  .struct h.length_eq fun _ hpair => (List.forall₂_iff_zip.mp h).2 hpair

theorem fields {r s : Nat} (h : Item.Mirrors old new (.struct r) (.struct s)) :
    List.Forall₂ (Item.Mirrors old new) (old.sequence r).toList (new.sequence s).toList := by
  cases h with
  | plain hplain => exact absurd rfl (hplain r)
  | struct hlength hfields => exact List.forall₂_iff_zip.mpr ⟨hlength, fun hpair => hfields _ hpair⟩

/-- What the structs hold is all that counts. -/
theorem congr (h : Item.Mirrors old new a b)
    (hold : ∀ r, a.Encloses old r → old'.sequence r = old.sequence r)
    (hnew : ∀ r, b.Encloses new r → new'.sequence r = new.sequence r) : Item.Mirrors old' new' a b := by
  induction h with
  | plain hplain => exact .plain hplain
  | @struct r s hlength hfields ih =>
    have hr := hold r (.self r)
    have hs := hnew s (.self s)
    refine .struct (by rw [hr, hs]; exact hlength) fun pair hpair => ?_
    rw [hr, hs] at hpair
    obtain ⟨hfirst, hsecond⟩ := List.of_mem_zip hpair
    exact ih pair hpair (fun t ht => hold t (.field hfirst ht)) fun t ht => hnew t (.field hsecond ht)

/-- An item is equal to one that it mirrors, where that one is as it was. -/
theorem equals (h : Item.Mirrors old new a b) (hnew : new.Founded)
    (hsame : ∀ r, a.Encloses old r → new.sequence r = old.sequence r) : b.equals new a = true := by
  induction h with
  | plain hplain => exact equals_self new _
  | @struct r s hlength hfields ih =>
    refine (equals_structs_iff hnew s r).mpr (.inr ?_)
    rw [hsame r (.self r)]
    refine List.Forall₂.flip (List.forall₂_iff_zip.mpr ⟨hlength, fun {x y} hpair => ?_⟩)
    exact ih (x, y) hpair fun t ht => hsame t (.field (List.of_mem_zip hpair).1 ht)

end Item.Mirrors

/-- Copies mirror their items. -/
theorem Copies.mirrors {items copies : List Item} (h : Copies heap items copies heap')
    (hheap : heap.Founded) (hitems : AllInhand heap.sequences.size items) :
    List.Forall₂ (Item.Mirrors heap heap') items copies := by
  induction h with
  | nil => exact .nil
  | shared hplain _ ih => exact .cons (.plain hplain) (ih hheap (List.forall_mem_cons.mp hitems).2)
  | @struct heap made heap' r fields items copies hcopied hrest ih ih' =>
    obtain ⟨hr, hitems⟩ := List.forall_mem_cons.mp hitems
    obtain ⟨hmade, hfresh, -⟩ := hcopied.founded hheap (hheap.sequences r)
    have hinside : AllInhand made.sequences.size fields := fun field hfield =>
      (hfresh field hfield).inside
    have hgrown := (Heap.Extends.newSequence made fields.toArray).trans hrest.grows
    refine .cons (.of_fields ?_) ?_
    · -- the struct holds the copies of the fields, which are as they were made
      have hthere : heap'.sequence made.sequences.size = fields.toArray := by
        rw [hrest.grows.sequence_eq (by rw [Heap.size_newSequence]; exact Nat.lt_succ_self _),
          Heap.sequence_newSequence_self]
      rw [hthere]
      exact forall₂_imp_mem (ih hheap (hheap.sequences r)) fun x _ y hy hxy =>
        hxy.congr (fun _ _ => rfl) fun s hs => hgrown.sequence_eq (hs.lt hmade (hinside y hy))
    · -- the other items were there before the struct
      have hstep := hcopied.grows.trans (.newSequence made fields.toArray)
      have hlater : AllInhand (made.newSequence fields.toArray).2.sequences.size items :=
        AllInhand.mono hitems hstep.sequences.length_le
      refine forall₂_imp_mem (ih' (hmade.newSequence hinside) hlater) fun x hx y _ hxy =>
        hxy.congr (fun s hs => ?_) fun _ _ => rfl
      have hthere : x.Encloses heap s := hs.of_same fun r hr =>
        hstep.sequence_eq (hr.lt hheap (hitems x hx))
      exact (hstep.sequence_eq (hthere.lt hheap (hitems x hx))).symm

/-- Copies are apart from what was there. -/
theorem Copies.enclosed_ge {items copies : List Item}
    (h : Copies heap items copies heap') (hheap : heap.Founded)
    (hitems : AllInhand heap.sequences.size items) {copy : Item} (hcopy : copy ∈ copies) {r : Nat}
    (henclosed : copy.Encloses heap' r) : heap.sequences.size ≤ r := by
  obtain ⟨-, hfresh, hclosed⟩ := h.founded hheap hitems
  obtain ⟨s, rfl, hchain⟩ := henclosed
  induction hchain with
  | refl => exact (hfresh _ hcopy).1
  | tail _ hnests ih => exact hclosed _ _ ih hnests

/-- An item is equal to its copy. -/
theorem Copies.equals {item copy : Item} (h : Copies heap [item] [copy] heap') (hheap : heap.Founded)
    (hinside : item.Inside heap.sequences.size) : copy.equals heap' item = true := by
  have hitems : AllInhand heap.sequences.size [item] := List.forall_mem_singleton.mpr hinside
  have hmirrors := (List.forall₂_cons.mp (h.mirrors hheap hitems)).1
  exact hmirrors.equals (h.founded hheap hitems).1 fun r hr =>
    h.grows.sequence_eq (hr.lt hheap hinside)

/-! ## The laws of equality -/

/-- What equality of items is on a heap. -/
structure EqualityLaws (m : Memory) : Prop where
  refl : ∀ a : Item, a.equals m.heap a = true
  symm : ∀ a b : Item, a.equals m.heap b = true → b.equals m.heap a = true
  trans : ∀ a b c : Item, a.equals m.heap b = true → b.equals m.heap c = true → a.equals m.heap c = true
  /-- Equal items are of one kind. -/
  kinds : ∀ a b : Item, a.equals m.heap b = true → a.kind = b.kind
  /-- Of anything but structs, only items with the same value or the same reference are equal. -/
  identity : ∀ a b : Item, (∀ r s, ¬ (a = .struct r ∧ b = .struct s)) →
    (a.equals m.heap b = true ↔ a = b)
  structs : ∀ r s, (Item.struct r).equals m.heap (.struct s) = true ↔ r = s ∨ List.Forall₂
    (fun x y => x.equals m.heap y = true) (m.heap.sequence r).toList (m.heap.sequence s).toList
  /-- A copy can be made, and is equal to the item. -/
  copies : ∀ item : Item, item.Inside m.heap.sequences.size → ∃ copy heap,
    (∀ address, Eval.copyStruct item address m = .ok copy { m with heap })
      ∧ copy.equals heap item = true

theorem Heap.Founded.equalityLaws {m : Memory} (h : m.heap.Founded) : EqualityLaws m where
  refl := equals_self m.heap
  symm _ _ := equals_symm h
  trans _ _ _ := equals_trans h
  kinds _ _ := kind_of_equals
  identity _ _ := equals_iff_eq
  structs := equals_structs_iff h
  copies item hinside := by
    obtain ⟨copy, heap, hcopy, hrun⟩ := exists_copy h hinside
    exact ⟨copy, heap, hrun, hcopy.equals h hinside⟩

section

variable {script : Array UInt8} {initializer : Option Nat} {limits : Limits} {s : State}

theorem equality_of_reachable (h : Reachable script initializer limits s) : EqualityLaws s.memory :=
  h.founded_memory.heap.equalityLaws

end

/-- A machine whose host has built two structs of a struct of one integer. -/
def twinned : State where
  script := #[0x40]
  memory := { heap := { sequences := #[#[.ofNat 1], #[.struct 0], #[.ofNat 1], #[.struct 2]] } }

theorem equality_twinned : Reachable #[0x40] none {} twinned ∧ EqualityLaws twinned.memory
    ∧ (Item.struct 1).equals twinned.memory.heap (.struct 3) = true := by
  have hfields {heap : Heap} : Builds heap [.ofNat 1] heap := Builds.nil.ofNat 1
  have hbuilds : Builds {} [.struct 1, .struct 3] twinned.memory.heap :=
    .struct (.struct hfields .nil) (.struct (.struct hfields .nil) .nil)
  have hreachable : Reachable #[0x40] none {} twinned := .built .fresh hbuilds
  exact ⟨hreachable, equality_of_reachable hreachable, by decide +kernel⟩

end StackContract.Machine
