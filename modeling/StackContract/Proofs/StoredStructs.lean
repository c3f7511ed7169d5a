import StackContract.Proofs.References
/-!
# Structs are stored by value

Where a struct is stored into an array, a struct or a map, or collected from one, a copy of it is. The copy
is equal to the struct as that was (`ByValue.equal`), and from then on they are apart: the structs of the
copy are new and referred to from nowhere else, so that whatever is done to objects that were there before
leaves them as they are, and the other way round (`storesByValue_of_reachable`).

The copy is not equal any more to a struct that it has itself been put into: `not_equals_nestingOnce`.
-/

namespace StackContract.Machine

open Script

/-! ## What stores keep -/

section

variable {item : Item}

theorem Heap.Stores.keeps {heap heap' : Heap} {key container : Item}
    (h : heap.Stores key item container heap') : heap.Keeps (AllBut container.object?) heap' := by
  cases h with
  | sequence _ hcontainer => rcases hcontainer with rfl | rfl <;> exact .modifySequence _ _
  | map => exact .modifyMap _ _
  | buffer => exact .modifyBuffer _ _

theorem Heap.keeps_extend {heap heap' : Heap} {container : Item}
    (h : heap.extend item container = .ok heap') : heap.Keeps (AllBut container.object?) heap' := by
  cases container with
  | array r | struct r =>
    cases h
    exact .modifySequence _ _
  | null | boolean | integer | byteString | pointer | buffer | map => cases h

end

/-! ## Copies that are stored -/

/-- Sequences that are there before others are made. -/
def Item.Older (k : Nat) (item : Item) : Prop :=
  ∀ r, item.object? = some (.sequences, r) → r < k

/-- Sequences that are made from some time on. -/
def Item.Newer (k : Nat) (item : Item) : Prop :=
  ∀ r, item.object? = some (.sequences, r) → k ≤ r

/-- What is stored of an item on the way from a machine to another one, `between` being the heap in which
it has been copied and is still to be stored, into a compound that is the `subject` if it was there. -/
structure ByValue (s t : State) (between : Heap) (subject : Option (Part × Nat)) (item copy : Item) :
    Prop where
  /-- The copy has structs for structs, and shares all else. -/
  mirrors : item.Mirrors s.memory.heap t.memory.heap copy
  /-- It is equal to the item as that was, -/
  equal : copy.equals between item = true
  /-- and as it is, unless one of its own structs is stored into. -/
  equal_behind : (∀ r, item.Encloses s.memory.heap r → subject ≠ some (.sequences, r)) →
    copy.equals t.memory.heap item = true
  /-- Its structs are new, and no two items refer to one. -/
  fresh : ∀ r, copy.Encloses t.memory.heap r → s.memory.heap.sequences.size ≤ r
    ∧ r < t.memory.heap.sequences.size ∧ t.references r ≤ 1
  /-- They keep their fields where only sequences are changed that were there before. -/
  lasting : ∀ u, Later (Item.Older s.memory.heap.sequences.size) t u →
    ∀ r, copy.Encloses t.memory.heap r → u.memory.heap.sequence r = t.memory.heap.sequence r
  /-- The structs of the item keep theirs where only sequences are changed that were not. -/
  apart : ∀ u, Later (Item.Newer s.memory.heap.sequences.size) t u →
    ∀ r, item.Encloses s.memory.heap r → u.memory.heap.sequence r = t.memory.heap.sequence r

section

variable {s t : State} {between : Heap} {subject : Option (Part × Nat)} {items copies : List Item}

/-- Copies are stored by value into a compound that was there. -/
theorem Copies.byValue (h : Copies s.memory.heap items copies between) (hheap : s.memory.heap.Founded)
    (hitems : AllInhand s.memory.heap.sequences.size items) (hfounded : t.memory.heap.Founded)
    (hkeeps : between.Keeps (AllBut subject) t.memory.heap)
    (hsubject : ∀ r, subject = some (.sequences, r) → r < s.memory.heap.sequences.size)
    (honce : ∀ r, s.memory.heap.sequences.size ≤ r → r < between.sequences.size → t.references r ≤ 1) :
    List.Forall₂ (ByValue s t between subject) items copies := by
  obtain ⟨hbetween, hfresh, hclosed⟩ := h.founded hheap hitems
  refine forall₂_imp_mem (h.mirrors hheap hitems) fun item hitem copy hcopy hmirrors => ?_
  -- the structs of the copy are new, and stay as they were made
  have hthere : ∀ r, copy.Encloses between r → s.memory.heap.sequences.size ≤ r
      ∧ r < between.sequences.size := fun r hr =>
    ⟨h.enclosed_ge hheap hitems hcopy hr, hr.lt hbetween (hfresh copy hcopy).inside⟩
  have hsame : ∀ r, copy.Encloses between r → t.memory.heap.sequence r = between.sequence r :=
    fun r hr => hkeeps.sequences r (hthere r hr).2 fun hobject =>
      Nat.not_lt_of_le (hthere r hr).1 (hsubject r hobject)
  have henclosed : ∀ r, copy.Encloses t.memory.heap r → copy.Encloses between r := fun r hr =>
    hr.of_same hsame
  have hold : ∀ r, item.Encloses s.memory.heap r → r < s.memory.heap.sequences.size := fun r hr =>
    hr.lt hheap (hitems item hitem)
  have hcount : between.sequences.size ≤ t.memory.heap.sequences.size := hkeeps.count_le .sequences
  have hmirrors' : item.Mirrors s.memory.heap t.memory.heap copy :=
    hmirrors.congr (fun _ _ => rfl) hsame
  refine ⟨hmirrors', hmirrors.equals hbetween fun r hr => h.grows.sequence_eq (hold r hr),
    fun hnone => ?_, fun r hr => ?_, fun u hu r hr => ?_, fun u hu r hr => ?_⟩
  · refine hmirrors'.equals hfounded fun r hr => ?_
    rw [hkeeps.sequences r (Nat.lt_of_lt_of_le (hold r hr) h.size_le) (hnone r hr),
      h.grows.sequence_eq (hold r hr)]
  · obtain ⟨hle, hlt⟩ := hthere r (henclosed r hr)
    exact ⟨hle, Nat.lt_of_lt_of_le hlt hcount, honce r hle hlt⟩
  · obtain ⟨hle, hlt⟩ := hthere r (henclosed r hr)
    refine hu.keeps.sequences r (Nat.lt_of_lt_of_le hlt hcount) fun other hother hobject => ?_
    exact Nat.not_lt_of_le hle (hother r hobject)
  · have hlt := hold r hr
    refine hu.keeps.sequences r (Nat.lt_of_lt_of_le hlt (Nat.le_trans h.size_le hcount))
      fun other hother hobject => ?_
    exact Nat.not_lt_of_le (hother r hobject) hlt

end

/-! ## Instructions -/

/-- On a machine, structs are stored and collected by value. -/
structure StoresByValue (s : State) : Prop where
  append : ∀ {i : Located} {below : Stack Item} {container item : Item} {flow : Flow} {t : State},
    i.opcode = .append → s.memory.stack = (below.push container).push item →
    execute i s = .ok flow t → ∃ copy between,
      between.extend copy container = .ok t.memory.heap
        ∧ ByValue s t between container.object? item copy
  setItem : ∀ {i : Located} {below : Stack Item} {container key item : Item} {flow : Flow} {t : State},
    i.opcode = .setItem → s.memory.stack = ((below.push container).push key).push item →
    execute i s = .ok flow t → ∃ copy between,
      between.store key copy container = .ok t.memory.heap
        ∧ ByValue s t between container.object? item copy
  /-- What is collected is put into an array that is new itself. -/
  values : ∀ {i : Located} {below : Stack Item} {container : Item} {items : Array Item},
    i.opcode = .values → s.memory.stack = below.push container →
    s.memory.heap.collected? container = some items → ∃ t r copies between,
      execute i s = .ok .next t ∧ t.memory.stack = below.push (.array r)
        ∧ t.memory.heap.sequence r = copies ∧ s.memory.heap.sequences.size ≤ r
        ∧ List.Forall₂ (ByValue s t between none) items.toList copies.toList

section

variable {script : Array UInt8} {initializer : Option Nat} {limits : Limits} {s : State}

theorem Item.Inside.object_lt {k r : Nat} {item : Item} (h : item.Inside k)
    (hobject : item.object? = some (.sequences, r)) : r < k := by
  cases item with
  | array | struct =>
    cases hobject
    exact h
  | null | boolean | integer | byteString | pointer | buffer | map => cases hobject

/-- A machine refers once to what was made by copying, where that and no other new object came to the
heap, and nothing new to the rest of the machine. -/
theorem Copies.references_le (h : Reachable script initializer limits s) {items copies : List Item}
    {between heap : Heap} {stack : Stack Item} (hcopies : Copies s.memory.heap items copies between)
    (hitems : AllInhand s.memory.heap.sequences.size items) {r : Nat}
    (hr : s.memory.heap.sequences.size ≤ r) (hstack : references r stack.toList = 0)
    (hheap : references r heap.items ≤ references r between.items + references r copies) :
    State.references { s with memory := ⟨stack, heap⟩ } r ≤ 1 := by
  obtain ⟨n, hs⟩ := h.founded
  have hfounded := hs.memory.heap
  have hkept : references r s.keptItems = 0 := references_eq_zero (hs.allInhand_kept h.told) hr
  have hnone : references r s.memory.heap.items = 0 := references_eq_zero hfounded.allInhand_items hr
  have hmade := hcopies.references_eq (Nat.le_refl _) (fun s _ => hfounded.sequences s) hitems hr
  show references r (stack.toList ++ heap.items ++ s.keptItems) ≤ 1
  rw [references_append, references_append, hstack, hkept]
  split at hmade <;> omega

theorem Reachable.founded_behind (h : Reachable script initializer limits s) {i : Located} {flow : Flow}
    {t : State} (hexecute : execute i s = .ok flow t) : t.memory.heap.Founded := by
  obtain ⟨n, hs⟩ := h.founded
  have hbehind := (founds_execute i hs).leftBehind
  rw [hexecute] at hbehind
  exact hbehind.memory.heap

/-- A copy is stored by value where only the compound that it is put into changes behind it, and comes to
have one reference more. -/
theorem Copies.byValue_stored (h : Reachable script initializer limits s) {item copy container : Item}
    {between heap : Heap} {below : Stack Item} (hcopies : Copies s.memory.heap [item] [copy] between)
    (hitem : item.Inside s.memory.heap.sequences.size)
    (hcontainer : container.Inside s.memory.heap.sequences.size)
    (hbelow : AllInhand s.memory.heap.sequences.size below.toList) (hheap : heap.Founded)
    (hkeeps : between.Keeps (AllBut container.object?) heap)
    (hreferences : ∀ r, s.memory.heap.sequences.size ≤ r →
      references r heap.items ≤ references r between.items + references r [copy]) :
    ByValue s { s with memory := ⟨below, heap⟩ } between container.object? item copy := by
  have hitems := List.forall_mem_singleton.mpr hitem
  have hstored := hcopies.byValue h.founded_memory.heap hitems
    (t := { s with memory := ⟨below, heap⟩ }) hheap hkeeps (fun r => hcontainer.object_lt) fun r hr _ =>
      hcopies.references_le h hitems hr (references_eq_zero hbelow hr) (hreferences r hr)
  exact (List.forall₂_cons.mp hstored).1

theorem storesByValue_of_reachable (h : Reachable script initializer limits s) : StoresByValue s := by
  have hmemory := h.founded_memory
  constructor
  case append =>
    intro i below container item flow t hop hstack hexecute
    have hinside := hmemory.stack
    rw [hstack] at hinside
    obtain ⟨hitem, hcontainer, hbelow⟩ := (List.forall_mem_cons.mp hinside).imp_right List.forall_mem_cons.mp
    obtain ⟨copy, between, hcopies, hchanged⟩ := exists_append hmemory hop hstack
    obtain ⟨heap, hextend, rfl⟩ := State.exists_of_changed (hchanged.symm.trans hexecute)
    exact ⟨copy, between, hextend, hcopies.byValue_stored h hitem hcontainer hbelow
      (h.founded_behind hexecute) (Heap.keeps_extend hextend) fun _ _ => references_extend_le hextend⟩
  case setItem =>
    intro i below container key item flow t hop hstack hexecute
    have hinside := hmemory.stack
    rw [hstack] at hinside
    obtain ⟨hitem, hkey, hcontainer, hbelow⟩ := (List.forall_mem_cons.mp hinside).imp_right fun h =>
      (List.forall_mem_cons.mp h).imp_right List.forall_mem_cons.mp
    obtain ⟨copy, between, hcopies, hchanged⟩ := exists_setItem hmemory hop hstack
    obtain ⟨heap, hstore, rfl⟩ := State.exists_of_changed (hchanged.symm.trans hexecute)
    refine ⟨copy, between, hstore, hcopies.byValue_stored h hitem hcontainer hbelow
      (h.founded_behind hexecute) (Heap.stores_of_store hstore).keeps fun r hr => ?_⟩
    have hnokey : references r [key] = 0 := references_eq_zero (List.forall_mem_singleton.mpr hkey) hr
    have hstored := references_store_le (o := r) hstore
    rwa [hnokey, Nat.zero_add] at hstored
  case values =>
    intro i below container items hop hstack hcollected
    have hinside := hmemory.stack
    rw [hstack] at hinside
    obtain ⟨-, hbelow⟩ := List.forall_mem_cons.mp hinside
    obtain ⟨copies, between, hcopies, hexecute⟩ := exists_values hmemory hop hstack hcollected
    have hitems := hmemory.heap.collected hcollected
    refine ⟨_, between.sequences.size, copies.toArray, between, hexecute, rfl,
      Heap.sequence_newSequence_self, hcopies.size_le, ?_⟩
    refine hcopies.byValue hmemory.heap hitems (h.founded_behind hexecute)
      ((Heap.Extends.newSequence _ _).keeps _) nofun fun r hr hlt => ?_
    refine hcopies.references_le h hitems hr ?_ (Nat.le_of_eq (references_newSequence between copies))
    -- the array of the copies is none of them
    have hbeyond : references r [.array between.sequences.size] = 0 := by
      refine List.countP_eq_zero.mpr fun item hitem hobject => Nat.ne_of_lt hlt ?_
      cases List.mem_singleton.mp hitem
      cases of_decide_eq_true hobject
      rfl
    show references r (_ :: below.toList) = 0
    rw [references_cons, hbeyond, references_eq_zero hbelow hr]

end

/-- A machine that is about to append a struct of a struct to an array. -/
def appending : State :=
  .launched #[0xcf, 0x40] { sequences := #[#[.ofNat 1], #[.struct 0], #[]] } [.struct 1, .array 2]

theorem storesByValue_appending : Reachable #[0xcf, 0x40] none {} appending ∧ StoresByValue appending
    ∧ appending.memory.stack = (Stack.empty.push (.array 2)).push (.struct 1)
    ∧ ∃ t, execute ⟨⟨.append, []⟩, 0⟩ appending = .ok .next t := by
  have hbuilds : Builds {} [.struct 1, .array 2]
      { sequences := #[#[.ofNat 1], #[.struct 0], #[]] } :=
    .struct (.struct (Builds.nil.ofNat 1) .nil) (.array .nil .nil)
  have hreachable : Reachable #[0xcf, 0x40] none {} appending := reachable_launched hbuilds
  have hstack : appending.memory.stack = (Stack.empty.push (.array 2)).push (.struct 1) := rfl
  obtain ⟨copy, between, -, hexecute⟩ := exists_append (i := ⟨⟨.append, []⟩, 0⟩)
    hreachable.founded_memory rfl hstack
  exact ⟨hreachable, storesByValue_of_reachable hreachable, hstack, _, hexecute⟩

/-- A machine that is about to append a struct of one integer to itself. -/
def nestingOnce : State :=
  (State.launched nesting { sequences := #[#[.ofNat 1]] } [.struct 0]).stepped 2

/-- The copy that the struct ends with is not equal to the struct, which is longer now. -/
theorem not_equals_nestingOnce : Reachable nesting none {} nestingOnce
    ∧ nestingOnce.memory.stack.toList = [.struct 0, .struct 0, .struct 0]
    ∧ ∃ t, execute ⟨⟨.append, []⟩, 2⟩ nestingOnce = .ok .next t
      ∧ t.memory.heap.sequences = #[#[.ofNat 1, .struct 1], #[.ofNat 1]]
      ∧ (Item.struct 1).equals t.memory.heap (.struct 0) = false := by
  have hbuilds : Builds {} [.struct 0] { sequences := #[#[.ofNat 1]] } :=
    .struct (Builds.nil.ofNat 1) .nil
  have hreachable : Reachable nesting none {} nestingOnce := (reachable_launched hbuilds).stepped 2
  obtain ⟨hitems, hsequences, hequal⟩ :
      nestingOnce.memory.stack.toList = [.struct 0, .struct 0, .struct 0]
        ∧ (leftBehind (execute ⟨⟨.append, []⟩, 2⟩ nestingOnce)).memory.heap.sequences
          = #[#[.ofNat 1, .struct 1], #[.ofNat 1]]
        ∧ (Item.struct 1).equals
          (leftBehind (execute ⟨⟨.append, []⟩, 2⟩ nestingOnce)).memory.heap (.struct 0) = false := by
    decide +kernel
  have hstack : nestingOnce.memory.stack
      = ((Stack.empty.push (.struct 0)).push (.struct 0)).push (.struct 0) := Stack.ext hitems
  obtain ⟨copy, between, -, hexecute⟩ := exists_append (i := ⟨⟨.append, []⟩, 2⟩)
    hreachable.founded_memory rfl hstack
  refine ⟨hreachable, hitems, leftBehind (execute ⟨⟨.append, []⟩, 2⟩ nestingOnce), ?_, hsequences, hequal⟩
  rw [hexecute]
  rfl

end StackContract.Machine
