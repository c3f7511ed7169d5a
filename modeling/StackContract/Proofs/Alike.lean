import Mathlib.Data.List.Forall2
import StackContract.Machine.Operation
/-!
# Alike memories

Two machines may do the same with references and addresses that differ. A `Link` says which of them
stand for each other; items, heaps and memories are alike along a link.

Alike items read alike (`Item.Alike.asInteger` and its siblings) and compare alike
(`Item.Alike.equals`). What is made in both heaps at once makes the link grow (`HeapsAlike.newBuffer`
and its siblings).
-/

namespace StackContract.Machine

open Script Number

/-! ## Kinds of faults -/

/-- The kinds of faults, without what they report. -/
inductive FaultKind
  | executionLimit | recursionLimit | stackLimit | stackUnderflow | decode | invalidType | overflow
  | divideByZero | indexOutOfRange | keyNotFound | unsupported | unknownService | unavailableService
  | invalidSlot | staticsAlreadyAllocated | invalidEntry | thrown | aborted | assertFailed
  | breakdown
deriving DecidableEq, Repr

def Fault.kind : Fault → FaultKind
  | .executionLimit _ => .executionLimit
  | .recursionLimit _ => .recursionLimit
  | .stackLimit _ => .stackLimit
  | .stackUnderflow _ => .stackUnderflow
  | .decode _ => .decode
  | .invalidType _ _ => .invalidType
  | .overflow => .overflow
  | .divideByZero => .divideByZero
  | .indexOutOfRange _ _ => .indexOutOfRange
  | .keyNotFound _ => .keyNotFound
  | .unsupported _ => .unsupported
  | .unknownService _ => .unknownService
  | .unavailableService _ => .unavailableService
  | .invalidSlot _ _ => .invalidSlot
  | .staticsAlreadyAllocated => .staticsAlreadyAllocated
  | .invalidEntry _ => .invalidEntry
  | .thrown _ => .thrown
  | .aborted _ => .aborted
  | .assertFailed _ => .assertFailed
  | .breakdown => .breakdown

/-- The faults that code can only meet if it was not compiled as it should be. -/
def FaultKind.isStructural : FaultKind → Bool
  | .decode | .invalidEntry | .invalidSlot | .unsupported => true
  | _ => false

/-! ## Links -/

/-- The parts of a heap. -/
inductive Part
  | buffers | sequences | maps
deriving DecidableEq

/-- The number of objects in a part of a heap. -/
def Heap.count (heap : Heap) : Part → Nat
  | .buffers => heap.buffers.size
  | .sequences => heap.sequences.size
  | .maps => heap.maps.size

/-- Which addresses and which references of two machines stand for each other. -/
structure Link where
  addresses : Nat → Nat → Prop
  refs : Part → Nat → Nat → Prop
  /-- Whether references to objects that are still to be made stand for each other, too. -/
  ahead : Prop
  addresses_unique : ∀ {a a' b b'}, addresses a a' → addresses b b' → (a = b ↔ a' = b')
  refs_unique : ∀ {part r r' s s'}, refs part r r' → refs part s s' → (r = s ↔ r' = s')

namespace Link

/-- A link has grown to another one by references. -/
structure Grows (link grown : Link) : Prop where
  addresses : grown.addresses = link.addresses
  refs : ∀ {part r r'}, link.refs part r r' → grown.refs part r r'
  ahead : grown.ahead → link.ahead

instance : LE Link := ⟨Grows⟩

theorem le_refl (link : Link) : link ≤ link :=
  ⟨rfl, id, id⟩

theorem le_trans {first second third : Link} (h : first ≤ second) (h' : second ≤ third) :
    first ≤ third :=
  ⟨h'.addresses.trans h.addresses, fun hr => h'.refs (h.refs hr), fun ha => h.ahead (h'.ahead ha)⟩

/-- The link with one more pair of references, which are in no other pair. -/
def extend (link : Link) (part : Part) (n n' : Nat)
    (fresh : ∀ {r r'}, link.refs part r r' → (r = n ↔ r' = n')) : Link where
  addresses := link.addresses
  refs other r r' := link.refs other r r' ∨ (other = part ∧ r = n ∧ r' = n')
  ahead := link.ahead
  addresses_unique := link.addresses_unique
  refs_unique := by
    rintro other r r' s s' (hr | ⟨rfl, rfl, rfl⟩) (hs | ⟨hother, rfl, rfl⟩)
    · exact link.refs_unique hr hs
    · subst hother
      exact fresh hr
    · exact eq_comm.trans ((fresh hs).trans eq_comm)
    · exact ⟨fun _ => rfl, fun _ => rfl⟩

theorem le_extend {link : Link} {part : Part} {n n' : Nat}
    {fresh : ∀ {r r'}, link.refs part r r' → (r = n ↔ r' = n')} :
    link ≤ link.extend part n n' fresh :=
  ⟨rfl, .inl, id⟩

end Link

/-! ## Items -/

/-- Items that are the same but for addresses and references that stand for each other. -/
inductive Item.Alike (link : Link) : Item → Item → Prop
  | null : Item.Alike link .null .null
  | boolean (b : Bool) : Item.Alike link (.boolean b) (.boolean b)
  | integer (v : Int128) : Item.Alike link (.integer v) (.integer v)
  | byteString (bytes : List UInt8) : Item.Alike link (.byteString bytes) (.byteString bytes)
  | pointer {a a' : Nat} (h : link.addresses a a') : Item.Alike link (.pointer a) (.pointer a')
  | buffer {r r' : Nat} (h : link.refs .buffers r r') : Item.Alike link (.buffer r) (.buffer r')
  | array {r r' : Nat} (h : link.refs .sequences r r') : Item.Alike link (.array r) (.array r')
  | struct {r r' : Nat} (h : link.refs .sequences r r') : Item.Alike link (.struct r) (.struct r')
  | map {r r' : Nat} (h : link.refs .maps r r') : Item.Alike link (.map r) (.map r')

/-- Lists of alike items. -/
abbrev ItemsAlike (link : Link) : List Item → List Item → Prop :=
  List.Forall₂ (Item.Alike link)

/-- Entries of maps with alike keys and alike values. -/
def EntriesAlike (link : Link) (entry entry' : Item × Item) : Prop :=
  entry.1.Alike link entry'.1 ∧ entry.2.Alike link entry'.2

theorem Item.Alike.mono {link grown : Link} (hle : link ≤ grown) {a a' : Item}
    (h : a.Alike link a') : a.Alike grown a' := by
  cases h with
  | null => exact .null
  | boolean b => exact .boolean b
  | integer v => exact .integer v
  | byteString bytes => exact .byteString bytes
  | pointer h =>
    refine .pointer ?_
    rw [hle.addresses]
    exact h
  | buffer h => exact .buffer (hle.refs h)
  | array h => exact .array (hle.refs h)
  | struct h => exact .struct (hle.refs h)
  | map h => exact .map (hle.refs h)

theorem ItemsAlike.mono {link grown : Link} (hle : link ≤ grown) {items items' : List Item}
    (h : ItemsAlike link items items') : ItemsAlike grown items items' :=
  h.imp fun _ _ hitem => hitem.mono hle

theorem Item.Alike.ofNat {link : Link} (n : Nat) : (Item.ofNat n).Alike link (Item.ofNat n) :=
  .integer _

theorem ItemsAlike.replicate {link : Link} {a a' : Item} (h : a.Alike link a') (n : Nat) :
    ItemsAlike link (List.replicate n a) (List.replicate n a') := by
  induction n with
  | zero => exact .nil
  | succ n ih => exact .cons h ih

/-- The items at one place of alike lists are alike. -/
theorem ItemsAlike.getElem? {link : Link} {items items' : List Item}
    (h : ItemsAlike link items items') (n : Nat) :
    (items[n]? = none ∧ items'[n]? = none)
      ∨ ∃ a a', items[n]? = some a ∧ items'[n]? = some a' ∧ a.Alike link a' := by
  induction h generalizing n with
  | nil => exact .inl ⟨rfl, rfl⟩
  | @cons a a' items items' ha _ ih =>
    cases n with
    | zero => exact .inr ⟨a, a', rfl, rfl, ha⟩
    | succ n => exact ih n

/-! ## Heaps -/

/-- Heaps in which references that stand for each other lead to the same contents. -/
structure HeapsAlike (link : Link) (heap heap' : Heap) : Prop where
  ranges : ∀ {part r r'}, link.refs part r r' → (r < heap.count part ∧ r' < heap'.count part)
    ∨ (link.ahead ∧ ∃ k, r = heap.count part + k ∧ r' = heap'.count part + k)
  buffers : ∀ {r r'}, link.refs .buffers r r' → heap.buffer r = heap'.buffer r'
  sequences : ∀ {r r'}, link.refs .sequences r r' →
    ItemsAlike link (heap.sequence r).toList (heap'.sequence r').toList
  maps : ∀ {r r'}, link.refs .maps r r' →
    List.Forall₂ (EntriesAlike link) (heap.map r) (heap'.map r')
  depth : heap.sequences.size = heap'.sequences.size

/-! ## Readings -/

section

variable {link : Link} {heap heap' : Heap} {a a' b b' : Item}

theorem Item.Alike.kind_eq (h : a.Alike link a') : a.kind = a'.kind := by
  cases h <;> rfl

theorem Item.Alike.isNull_eq (h : a.Alike link a') : a.isNull = a'.isNull := by
  cases h <;> rfl

theorem Item.Alike.asBoolean_eq (h : a.Alike link a') : a.asBoolean = a'.asBoolean := by
  cases h <;> rfl

theorem Item.Alike.invalid_eq (h : a.Alike link a') (expected : Expectation) :
    a.invalid expected = a'.invalid expected := by
  unfold Item.invalid
  rw [h.kind_eq]

theorem Item.Alike.asInteger_eq (h : a.Alike link a') (hheap : HeapsAlike link heap heap') :
    a.asInteger heap = a'.asInteger heap' := by
  cases h with
  | buffer h =>
    show Item.integerOfBytes _ (heap.buffer _).toList = Item.integerOfBytes _ (heap'.buffer _).toList
    rw [hheap.buffers h]
    rfl
  | null | boolean | integer | byteString | pointer | array | struct | map => rfl

theorem Item.Alike.asBytes_eq (h : a.Alike link a') (hheap : HeapsAlike link heap heap') :
    a.asBytes heap = a'.asBytes heap' := by
  cases h with
  | buffer h =>
    show Except.ok (heap.buffer _).toList = Except.ok (heap'.buffer _).toList
    rw [hheap.buffers h]
  | null | boolean | integer | byteString | pointer | array | struct | map => rfl

theorem Item.Alike.asText_eq (h : a.Alike link a') (hheap : HeapsAlike link heap heap') :
    a.asText heap = a'.asText heap' := by
  unfold Item.asText
  rw [h.asBytes_eq hheap, h.invalid_eq]

theorem Item.Alike.asIndex_eq (h : a.Alike link a') (hheap : HeapsAlike link heap heap')
    (length : Nat) : a.asIndex heap length = a'.asIndex heap' length := by
  unfold Item.asIndex
  rw [h.asInteger_eq hheap]

/-! ## Equality -/

/-- Alike items are the same items on both sides. -/
theorem Item.Alike.eq_iff (h : a.Alike link a') (h' : b.Alike link b') : a = b ↔ a' = b' := by
  constructor
  · rintro rfl
    cases h with
    | pointer h =>
      cases h' with
      | pointer h' => rw [(link.addresses_unique h h').mp rfl]
    | buffer h | array h | struct h | map h =>
      cases h'
      next h' => rw [(link.refs_unique h h').mp rfl]
    | null | boolean | integer | byteString =>
      cases h'
      rfl
  · rintro rfl
    cases h with
    | pointer h =>
      cases h' with
      | pointer h' => rw [(link.addresses_unique h h').mpr rfl]
    | buffer h | array h | struct h | map h =>
      cases h'
      next h' => rw [(link.refs_unique h h').mpr rfl]
    | null | boolean | integer | byteString =>
      cases h'
      rfl

theorem allPairs_eq {α : Type} {R : α → α → Prop} {related related' : α → α → Bool}
    {xs xs' ys ys' : List α} (hxs : List.Forall₂ R xs xs') (hys : List.Forall₂ R ys ys')
    (h : ∀ {x x' y y'}, R x x' → R y y' → related x y = related' x' y') :
    allPairs related xs ys = allPairs related' xs' ys' := by
  unfold allPairs
  rw [hxs.length_eq, hys.length_eq]
  congr 1
  induction hxs generalizing ys ys' with
  | nil => rfl
  | cons hx _ ih =>
    cases hys with
    | nil => rfl
    | cons hy hys =>
      rw [List.zip_cons_cons, List.zip_cons_cons, List.all_cons, List.all_cons, ih hys]
      show (related _ _ && _) = (related' _ _ && _)
      rw [h hx hy]

theorem Item.Alike.equalsWithin_eq (hheap : HeapsAlike link heap heap') (depth : Nat)
    (h : a.Alike link a') (h' : b.Alike link b') :
    a.equalsWithin heap depth b = a'.equalsWithin heap' depth b' := by
  have heq : ∀ {x x' y y' : Item}, x.Alike link x' → y.Alike link y' →
      decide (x = y) = decide (x' = y') :=
    fun hx hy => decide_eq_decide.mpr (hx.eq_iff hy)
  induction depth generalizing a a' b b' with
  | zero => exact heq h h'
  | succ depth ih =>
    cases h with
    | struct hr =>
      cases h' with
      | struct hs =>
        show (decide _ || allPairs _ _ _) = (decide _ || allPairs _ _ _)
        rw [decide_eq_decide.mpr (link.refs_unique hr hs),
          allPairs_eq (hheap.sequences hr) (hheap.sequences hs) fun hx hy => ih hx hy]
      | null | boolean | integer | byteString | pointer | buffer | array | map => rfl
    | null => exact heq .null h'
    | boolean b => exact heq (.boolean b) h'
    | integer v => exact heq (.integer v) h'
    | byteString bytes => exact heq (.byteString bytes) h'
    | pointer h => exact heq (.pointer h) h'
    | buffer h => exact heq (.buffer h) h'
    | array h => exact heq (.array h) h'
    | map h => exact heq (.map h) h'

/-- Alike items compare alike. -/
theorem Item.Alike.equals_eq (hheap : HeapsAlike link heap heap') (h : a.Alike link a')
    (h' : b.Alike link b') : a.equals heap b = a'.equals heap' b' := by
  unfold Item.equals Heap.sequenceDepth
  rw [hheap.depth]
  exact h.equalsWithin_eq hheap _ h'

/-! ## Entries of maps -/

theorem findEntry?_alike (hheap : HeapsAlike link heap heap') {key key' : Item}
    (hkey : key.Alike link key') {entries entries' : List (Item × Item)}
    (h : List.Forall₂ (EntriesAlike link) entries entries') :
    (heap.findEntry? entries key = none ∧ heap'.findEntry? entries' key' = none)
      ∨ ∃ value value', heap.findEntry? entries key = some value
        ∧ heap'.findEntry? entries' key' = some value' ∧ value.Alike link value' := by
  unfold Heap.findEntry?
  induction h with
  | nil => exact .inl ⟨rfl, rfl⟩
  | @cons entry entry' entries entries' hentry _ ih =>
    rw [List.find?_cons, List.find?_cons, hentry.1.equals_eq hheap hkey]
    split
    · exact .inr ⟨_, _, rfl, rfl, hentry.2⟩
    · exact ih

theorem setEntry_alike (hheap : HeapsAlike link heap heap') {key key' value value' : Item}
    (hkey : key.Alike link key') (hvalue : value.Alike link value')
    {entries entries' : List (Item × Item)}
    (h : List.Forall₂ (EntriesAlike link) entries entries') :
    List.Forall₂ (EntriesAlike link) (heap.setEntry key value entries)
      (heap'.setEntry key' value' entries') := by
  induction h with
  | nil => exact .cons ⟨hkey, hvalue⟩ .nil
  | @cons entry entry' entries entries' hentry hrest ih =>
    obtain ⟨k, v⟩ := entry
    obtain ⟨k', v'⟩ := entry'
    have hequals : k.equals heap key = k'.equals heap' key' := hentry.1.equals_eq hheap hkey
    show List.Forall₂ _ (if k.equals heap key = true then _ else _)
      (if k'.equals heap' key' = true then _ else _)
    rw [hequals]
    split
    · exact .cons ⟨hentry.1, hvalue⟩ hrest
    · exact .cons hentry ih

theorem removeEntries_alike (hheap : HeapsAlike link heap heap') {key key' : Item}
    (hkey : key.Alike link key') {entries entries' : List (Item × Item)}
    (h : List.Forall₂ (EntriesAlike link) entries entries') :
    List.Forall₂ (EntriesAlike link) (entries.filter fun entry => !entry.1.equals heap key)
      (entries'.filter fun entry => !entry.1.equals heap' key') := by
  induction h with
  | nil => exact .nil
  | @cons entry entry' entries entries' hentry _ ih =>
    rw [List.filter_cons, List.filter_cons, hentry.1.equals_eq hheap hkey]
    split
    · exact .cons hentry ih
    · exact ih

end

/-! ## Contents after a change -/

namespace Heap

theorem buffer_newBuffer (heap : Heap) (bytes : Array UInt8) (r : Nat) :
    (heap.newBuffer bytes).2.buffer r = if r = heap.count .buffers then bytes else heap.buffer r := by
  unfold newBuffer buffer count
  simp only [Array.getD_eq_getD_getElem?, Array.getElem?_push]
  split <;> rfl

theorem sequence_newSequence (heap : Heap) (items : Array Item) (r : Nat) :
    (heap.newSequence items).2.sequence r
      = if r = heap.count .sequences then items else heap.sequence r := by
  unfold newSequence sequence count
  simp only [Array.getD_eq_getD_getElem?, Array.getElem?_push]
  split <;> rfl

theorem map_newMap (heap : Heap) (entries : List (Item × Item)) (r : Nat) :
    (heap.newMap entries).2.map r = if r = heap.count .maps then entries else heap.map r := by
  unfold newMap map count
  simp only [Array.getD_eq_getD_getElem?, Array.getElem?_push]
  split <;> rfl

theorem buffer_modifyBuffer (heap : Heap) (ref : Nat) (f : Array UInt8 → Array UInt8) (r : Nat) :
    (heap.modifyBuffer ref f).buffer r
      = if ref = r ∧ r < heap.count .buffers then f (heap.buffer r) else heap.buffer r := by
  unfold modifyBuffer buffer count
  simp only [Array.getD_eq_getD_getElem?, Array.getElem?_modify]
  by_cases href : ref = r <;> by_cases hr : r < heap.buffers.size <;> simp [href, hr]

theorem sequence_modifySequence (heap : Heap) (ref : Nat) (f : Array Item → Array Item) (r : Nat) :
    (heap.modifySequence ref f).sequence r
      = if ref = r ∧ r < heap.count .sequences then f (heap.sequence r) else heap.sequence r := by
  unfold modifySequence sequence count
  simp only [Array.getD_eq_getD_getElem?, Array.getElem?_modify]
  by_cases href : ref = r <;> by_cases hr : r < heap.sequences.size <;> simp [href, hr]

theorem map_modifyMap (heap : Heap) (ref : Nat) (f : List (Item × Item) → List (Item × Item))
    (r : Nat) : (heap.modifyMap ref f).map r
      = if ref = r ∧ r < heap.count .maps then f (heap.map r) else heap.map r := by
  unfold modifyMap map count
  simp only [Array.getD_eq_getD_getElem?, Array.getElem?_modify]
  by_cases href : ref = r <;> by_cases hr : r < heap.maps.size <;> simp [href, hr]

end Heap

/-! ## Alike changes -/

namespace HeapsAlike

variable {link : Link} {heap heap' : Heap}

/-- The next reference of one heap stands for that of the other or for none. -/
theorem fresh (h : HeapsAlike link heap heap') {part : Part} {r r' : Nat}
    (hr : link.refs part r r') : r = heap.count part ↔ r' = heap'.count part := by
  rcases h.ranges hr with ⟨hlt, hlt'⟩ | ⟨-, k, rfl, rfl⟩
  · exact ⟨fun heq => absurd heq (Nat.ne_of_lt hlt), fun heq => absurd heq (Nat.ne_of_lt hlt')⟩
  · omega

theorem lt_iff (h : HeapsAlike link heap heap') {part : Part} {r r' : Nat}
    (hr : link.refs part r r') : r < heap.count part ↔ r' < heap'.count part := by
  rcases h.ranges hr with ⟨hlt, hlt'⟩ | ⟨-, k, rfl, rfl⟩
  · exact ⟨fun _ => hlt', fun _ => hlt⟩
  · omega

/-- The link in which the next references of a part stand for each other, too. -/
def grown (h : HeapsAlike link heap heap') (part : Part) : Link :=
  link.extend part (heap.count part) (heap'.count part) h.fresh

theorem le_grown (h : HeapsAlike link heap heap') (part : Part) : link ≤ h.grown part :=
  Link.le_extend

theorem refs_grown (h : HeapsAlike link heap heap') (part : Part) :
    (h.grown part).refs part (heap.count part) (heap'.count part) :=
  .inr ⟨rfl, rfl, rfl⟩

/-- A reference that stands for another one is the next one on both sides or on none. -/
theorem fresh_grown (h : HeapsAlike link heap heap') {part : Part} {r r' : Nat}
    (hr : (h.grown part).refs part r r') :
    (r = heap.count part ∧ r' = heap'.count part)
      ∨ (r ≠ heap.count part ∧ r' ≠ heap'.count part ∧ link.refs part r r') := by
  rcases hr with hr | ⟨-, rfl, rfl⟩
  · have hfresh := h.fresh hr
    by_cases heq : r = heap.count part
    · exact .inl ⟨heq, hfresh.mp heq⟩
    · exact .inr ⟨heq, fun heq' => heq (hfresh.mpr heq'), hr⟩
  · exact .inl ⟨rfl, rfl⟩

theorem ranges_grown (h : HeapsAlike link heap heap') {part : Part} {next next' : Heap}
    (hcount : ∀ other, next.count other = heap.count other + if other = part then 1 else 0)
    (hcount' : ∀ other, next'.count other = heap'.count other + if other = part then 1 else 0)
    {other : Part} {r r' : Nat} (hr : (h.grown part).refs other r r') :
    (r < next.count other ∧ r' < next'.count other)
      ∨ (link.ahead ∧ ∃ k, r = next.count other + k ∧ r' = next'.count other + k) := by
  rw [hcount, hcount']
  rcases hr with hr | ⟨rfl, rfl, rfl⟩
  · rcases h.ranges hr with ⟨hlt, hlt'⟩ | ⟨hahead, k, rfl, rfl⟩
    · exact .inl ⟨by omega, by omega⟩
    · split
      · rcases k with _ | k
        · exact .inl ⟨by omega, by omega⟩
        · exact .inr ⟨hahead, k, by omega, by omega⟩
      · exact .inr ⟨hahead, k, rfl, rfl⟩
  · rw [if_pos rfl]
    exact .inl ⟨by omega, by omega⟩

/-- Buffers of the same bytes that are made on both sides stand for each other. -/
theorem newBuffer (h : HeapsAlike link heap heap') (bytes : Array UInt8) :
    HeapsAlike (h.grown .buffers) (heap.newBuffer bytes).2 (heap'.newBuffer bytes).2 where
  ranges := h.ranges_grown (by rintro (_ | _ | _) <;> first | rfl | exact Array.size_push _)
    (by rintro (_ | _ | _) <;> first | rfl | exact Array.size_push _)
  buffers hr := by
    rw [Heap.buffer_newBuffer, Heap.buffer_newBuffer]
    rcases h.fresh_grown hr with ⟨heq, heq'⟩ | ⟨hne, hne', hr⟩
    · rw [if_pos heq, if_pos heq']
    · rw [if_neg hne, if_neg hne']
      exact h.buffers hr
  sequences hr := by
    rcases hr with hr | ⟨⟨⟩, -⟩
    exact (h.sequences hr).mono (h.le_grown _)
  maps hr := by
    rcases hr with hr | ⟨⟨⟩, -⟩
    exact (h.maps hr).imp fun _ _ he => ⟨he.1.mono (h.le_grown _), he.2.mono (h.le_grown _)⟩
  depth := h.depth

/-- Sequences of alike items that are made on both sides stand for each other. -/
theorem newSequence (h : HeapsAlike link heap heap') {items items' : Array Item}
    (hitems : ItemsAlike link items.toList items'.toList) :
    HeapsAlike (h.grown .sequences) (heap.newSequence items).2 (heap'.newSequence items').2 where
  ranges := h.ranges_grown (by rintro (_ | _ | _) <;> first | rfl | exact Array.size_push _)
    (by rintro (_ | _ | _) <;> first | rfl | exact Array.size_push _)
  buffers hr := by
    rcases hr with hr | ⟨⟨⟩, -⟩
    exact h.buffers hr
  sequences hr := by
    rw [Heap.sequence_newSequence, Heap.sequence_newSequence]
    rcases h.fresh_grown hr with ⟨heq, heq'⟩ | ⟨hne, hne', hr⟩
    · rw [if_pos heq, if_pos heq']
      exact hitems.mono (h.le_grown _)
    · rw [if_neg hne, if_neg hne']
      exact (h.sequences hr).mono (h.le_grown _)
  maps hr := by
    rcases hr with hr | ⟨⟨⟩, -⟩
    exact (h.maps hr).imp fun _ _ he => ⟨he.1.mono (h.le_grown _), he.2.mono (h.le_grown _)⟩
  depth := by
    show (heap.sequences.push items).size = (heap'.sequences.push items').size
    rw [Array.size_push, Array.size_push, h.depth]

/-- Maps of alike entries that are made on both sides stand for each other. -/
theorem newMap (h : HeapsAlike link heap heap') {entries entries' : List (Item × Item)}
    (hentries : List.Forall₂ (EntriesAlike link) entries entries') :
    HeapsAlike (h.grown .maps) (heap.newMap entries).2 (heap'.newMap entries').2 where
  ranges := h.ranges_grown (by rintro (_ | _ | _) <;> first | rfl | exact Array.size_push _)
    (by rintro (_ | _ | _) <;> first | rfl | exact Array.size_push _)
  buffers hr := by
    rcases hr with hr | ⟨⟨⟩, -⟩
    exact h.buffers hr
  sequences hr := by
    rcases hr with hr | ⟨⟨⟩, -⟩
    exact (h.sequences hr).mono (h.le_grown _)
  maps hr := by
    have hmono : ∀ {es es' : List (Item × Item)}, List.Forall₂ (EntriesAlike link) es es' →
        List.Forall₂ (EntriesAlike (h.grown .maps)) es es' :=
      fun hes => hes.imp fun _ _ he => ⟨he.1.mono (h.le_grown _), he.2.mono (h.le_grown _)⟩
    rw [Heap.map_newMap, Heap.map_newMap]
    rcases h.fresh_grown hr with ⟨heq, heq'⟩ | ⟨hne, hne', hr⟩
    · rw [if_pos heq, if_pos heq']
      exact hmono hentries
    · rw [if_neg hne, if_neg hne']
      exact hmono (h.maps hr)
  depth := h.depth

theorem modifyBuffer (h : HeapsAlike link heap heap') {ref ref' : Nat}
    (href : link.refs .buffers ref ref') (f : Array UInt8 → Array UInt8) :
    HeapsAlike link (heap.modifyBuffer ref f) (heap'.modifyBuffer ref' f) where
  ranges {part r r'} hr := by
    have hranges := h.ranges hr
    rcases part with _ | _ | _ <;> simpa [Heap.count, Heap.modifyBuffer] using hranges
  buffers {r r'} hr := by
    have hsame := link.refs_unique href hr
    have hlt := h.lt_iff hr
    rw [Heap.buffer_modifyBuffer, Heap.buffer_modifyBuffer, h.buffers hr]
    exact if_congr (and_congr hsame hlt) rfl rfl
  sequences := h.sequences
  maps := h.maps
  depth := h.depth

theorem modifySequence (h : HeapsAlike link heap heap') {ref ref' : Nat}
    (href : link.refs .sequences ref ref') {f f' : Array Item → Array Item}
    (hf : ItemsAlike link (f (heap.sequence ref)).toList (f' (heap'.sequence ref')).toList) :
    HeapsAlike link (heap.modifySequence ref f) (heap'.modifySequence ref' f') where
  ranges {part r r'} hr := by
    have hranges := h.ranges hr
    rcases part with _ | _ | _ <;> simpa [Heap.count, Heap.modifySequence] using hranges
  buffers := h.buffers
  sequences {r r'} hr := by
    have hsame := link.refs_unique href hr
    have hlt := h.lt_iff hr
    rw [Heap.sequence_modifySequence, Heap.sequence_modifySequence]
    by_cases hhere : ref = r ∧ r < heap.count .sequences
    · rw [if_pos hhere, if_pos ((and_congr hsame hlt).mp hhere)]
      obtain ⟨rfl, -⟩ := hhere
      rw [← hsame.mp rfl]
      exact hf
    · rw [if_neg hhere, if_neg (fun hthere => hhere ((and_congr hsame hlt).mpr hthere))]
      exact h.sequences hr
  maps := h.maps
  depth := by
    unfold Heap.modifySequence
    rw [Array.size_modify, Array.size_modify, h.depth]

theorem modifyMap (h : HeapsAlike link heap heap') {ref ref' : Nat}
    (href : link.refs .maps ref ref') {f f' : List (Item × Item) → List (Item × Item)}
    (hf : List.Forall₂ (EntriesAlike link) (f (heap.map ref)) (f' (heap'.map ref'))) :
    HeapsAlike link (heap.modifyMap ref f) (heap'.modifyMap ref' f') where
  ranges {part r r'} hr := by
    have hranges := h.ranges hr
    rcases part with _ | _ | _ <;> simpa [Heap.count, Heap.modifyMap] using hranges
  buffers := h.buffers
  sequences := h.sequences
  maps {r r'} hr := by
    have hsame := link.refs_unique href hr
    have hlt := h.lt_iff hr
    rw [Heap.map_modifyMap, Heap.map_modifyMap]
    by_cases hhere : ref = r ∧ r < heap.count .maps
    · rw [if_pos hhere, if_pos ((and_congr hsame hlt).mp hhere)]
      obtain ⟨rfl, -⟩ := hhere
      rw [← hsame.mp rfl]
      exact hf
    · rw [if_neg hhere, if_neg (fun hthere => hhere ((and_congr hsame hlt).mpr hthere))]
      exact h.maps hr
  depth := h.depth

end HeapsAlike

end StackContract.Machine
