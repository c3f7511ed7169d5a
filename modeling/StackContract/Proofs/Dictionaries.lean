import StackContract.Proofs.Effects
import StackContract.Proofs.KeyLookups
import StackContract.Proofs.OrderedEntries
import StackContract.Proofs.Stores
/-!
# Maps are dictionaries

Whatever is done to a map whose keys are compared by value, it goes on as the dictionary does that its
entries were at first: it has the keys that have been stored under since they were last removed, in the
order in which they came, each with the value that was stored last (`mapsAreDictionaries_of_reachable`).

What is done to a map is told by its edits (`History`). Between them there may be any other instructions
that are not on the map.
-/

namespace StackContract.Machine

open Script Number

/-! ## Instructions on maps -/

section

variable {i : Located} {s : State} {below : Stack Item} {r : Nat} {key : Item}

/-- The machine whose map `r` has got other entries. -/
def State.withEntries (s : State) (below : Stack Item) (heap : Heap) (r : Nat)
    (entries : List (Item × Item)) : State :=
  { s with memory := ⟨below, heap.modifyMap r fun _ => entries⟩ }

theorem execute_removeKey (hop : i.opcode = .remove)
    (hstack : s.memory.stack = (below.push (.map r)).push key) :
    execute i s = .ok .next (s.withEntries below s.memory.heap r
      ((Edit.remove key).entries s.memory.heap (s.memory.heap.map r))) := by
  have hoperation : operation i.opcode = .simple (.compound .remove) := by
    rw [hop]
    rfl
  rw [execute_simple hoperation]
  show s.withMemory _ (Compound.remove s.address s.memory) = _
  rw [State.memory_eq hstack]
  rfl

theorem execute_clearMap (hop : i.opcode = .clearItems) (hstack : s.memory.stack = below.push (.map r)) :
    execute i s = .ok .next (s.withEntries below s.memory.heap r []) := by
  have hoperation : operation i.opcode = .simple (.compound .clearItems) := by
    rw [hop]
    rfl
  rw [execute_simple hoperation]
  show s.withMemory _ (Compound.clearItems s.address s.memory) = _
  rw [State.memory_eq hstack]
  rfl

theorem execute_keys (hop : i.opcode = .keys) (hstack : s.memory.stack = below.push (.map r)) :
    execute i s = .ok .next { s with memory := ⟨below.push (.array s.memory.heap.sequences.size),
      (s.memory.heap.newSequence ((s.memory.heap.map r).map Prod.fst).toArray).2⟩ } := by
  have hoperation : operation i.opcode = .simple (.compound .keys) := by
    rw [hop]
    rfl
  rw [execute_simple hoperation]
  show s.withMemory _ (Compound.keys s.address s.memory) = _
  rw [State.memory_eq hstack]
  rfl

theorem execute_sizeOfMap (hop : i.opcode = .size) (hstack : s.memory.stack = below.push (.map r)) :
    execute i s = .ok .next (s.withStack (below.push (.ofNat (s.memory.heap.map r).length))) := by
  have hoperation : operation i.opcode = .simple (.compound .size) := by
    rw [hop]
    rfl
  rw [execute_simple hoperation]
  show s.withMemory _ (Compound.size s.address s.memory) = _
  rw [State.memory_eq hstack]
  rfl

end

/-! ## Histories -/

/-- The machine is in front of an instruction that edits a map. What is stored is the copy of an item. -/
inductive State.Edits (t : State) (r : Nat) (i : Located) : Edit → Prop
  | set {below : Stack Item} {key value stored : Item} {between : Heap} (hop : i.opcode = .setItem)
    (hstack : t.memory.stack = ((below.push (.map r)).push key).push value) (hkey : key.Plain)
    (hcopy : Copies t.memory.heap [value] [stored] between) : Edits t r i (.set key stored)
  | remove {below : Stack Item} {key : Item} (hop : i.opcode = .remove)
    (hstack : t.memory.stack = (below.push (.map r)).push key) : Edits t r i (.remove key)
  | clear {below : Stack Item} (hop : i.opcode = .clearItems)
    (hstack : t.memory.stack = below.push (.map r)) : Edits t r i .clear

section

variable {script : Array UInt8} {initializer : Option Nat} {limits : Limits} {s t u : State} {r : Nat}
variable {i : Located} {edit : Edit} {edits : List Edit}

/-- Machines to which edits of a map lead, the last of which comes first in the list. -/
inductive History (script : Array UInt8) (initializer : Option Nat) (limits : Limits) (r : Nat)
    (s : State) : List Edit → State → Prop
  | start : History script initializer limits r s [] s
  | edit {t u : State} {i : Located} {flow : Flow} {edit : Edit} {edits : List Edit}
    (h : History script initializer limits r s edits t) (ht : Reachable script initializer limits t)
    (hedit : t.Edits r i edit) (hexecute : execute i t = .ok flow u) :
    History script initializer limits r s (edit :: edits) u
  | other {t u : State} {edits : List Edit} (h : History script initializer limits r s edits t)
    (hlater : Later (fun item => item.object? ≠ some (.maps, r)) t u) :
    History script initializer limits r s edits u

/-- Only one copy can be made of an item. -/
theorem Copies.unique {heap heap' heap'' : Heap} {items copies copies' : List Item}
    (h : Copies heap items copies heap') (h' : Copies heap items copies' heap'') :
    copies' = copies ∧ heap'' = heap' := by
  induction h generalizing copies' heap'' with
  | nil =>
    cases h'
    exact ⟨rfl, rfl⟩
  | shared hplain _ ih =>
    cases h' with
    | shared _ hrest =>
      obtain ⟨rfl, rfl⟩ := ih hrest
      exact ⟨rfl, rfl⟩
    | struct => exact absurd rfl (hplain _)
  | struct _ _ ih ih' =>
    cases h' with
    | shared hplain => exact absurd rfl (hplain _)
    | struct hfields hrest =>
      obtain ⟨rfl, rfl⟩ := ih hfields
      obtain ⟨rfl, rfl⟩ := ih' hrest
      exact ⟨rfl, rfl⟩

/-- An edit succeeds, and changes the entries of the map. -/
theorem execute_of_edits (ht : t.memory.Founded 0) (hedit : t.Edits r i edit) : ∃ below heap,
    t.memory.heap.Extends heap ∧ heap.maps = t.memory.heap.maps
      ∧ execute i t = .ok .next (t.withEntries below heap r (edit.entries heap (heap.map r))) := by
  cases hedit with
  | @set below _ _ _ _ hop hstack _ hcopy =>
    obtain ⟨copy, heap, hcopies, hexecute⟩ := exists_setItem ht hop hstack
    obtain ⟨hsame, rfl⟩ := hcopies.unique hcopy
    cases hsame
    exact ⟨below, _, hcopy.grows, hcopy.sameOthers.2, hexecute⟩
  | remove hop hstack => exact ⟨_, _, .refl _, rfl, execute_removeKey hop hstack⟩
  | clear hop hstack => exact ⟨_, _, .refl _, rfl, execute_clearMap hop hstack⟩

/-- Behind an edit, a map that is there has the edited entries. -/
theorem map_of_edits (ht : t.memory.Founded 0) (hedit : t.Edits r i edit) {flow : Flow}
    (hexecute : execute i t = .ok flow u) (hr : r < t.memory.heap.maps.size) :
    r < u.memory.heap.maps.size
      ∧ ∃ heap, u.memory.heap.map r = edit.entries heap (t.memory.heap.map r) := by
  obtain ⟨below, heap, -, hmaps, hedited⟩ := execute_of_edits ht hedit
  cases hedited.symm.trans hexecute
  have hmap : heap.map r = t.memory.heap.map r := by
    unfold Heap.map
    rw [hmaps]
  refine ⟨?_, heap, ?_⟩
  · show r < (heap.maps.modify r _).size
    rw [Array.size_modify, hmaps]
    exact hr
  · show (heap.modifyMap r fun _ => _).map r = _
    rw [Heap.map_modifyMap, if_pos ⟨rfl, by rw [Heap.count, hmaps]; exact hr⟩, hmap]

/-- The entries of a map, and that it is there. -/
structure History.Kept (r : Nat) (d : Dictionary) (now : Nat) (t : State) : Prop where
  there : r < t.memory.heap.maps.size
  plain : PlainKeys (t.memory.heap.map r)
  lists : d.Lists now (t.memory.heap.map r)

theorem History.kept (h : History script initializer limits r s edits t)
    (hr : r < s.memory.heap.maps.size) (hplain : PlainKeys (s.memory.heap.map r))
    (hdistinct : DistinctKeys (s.memory.heap.map r)) :
    History.Kept r ((Dictionary.ofEntries (s.memory.heap.map r)).replay (s.memory.heap.map r).length edits)
      ((s.memory.heap.map r).length + edits.length) t := by
  induction h with
  | start => exact ⟨hr, hplain, Dictionary.lists_ofEntries hdistinct⟩
  | @edit t u i flow edit edits _ ht hedit hexecute ih =>
    obtain ⟨hthere, heap, hentries⟩ := map_of_edits ht.founded_memory hedit hexecute ih.there
    refine ⟨hthere, ?_, ?_⟩
    · rw [hentries]
      refine plainKeys_entries ih.plain fun key value hset => ?_
      cases hedit with
      | set _ _ hkey =>
        cases hset
        exact hkey
      | remove | clear => cases hset
    · rw [hentries]
      exact Dictionary.lists_after ih.lists ih.plain edit
  | @other t u edits _ hlater ih =>
    have hkeeps := hlater.keeps
    have hsame : u.memory.heap.map r = t.memory.heap.map r :=
      hkeeps.maps r ih.there fun item hitem hobject => hitem hobject
    refine ⟨Nat.lt_of_lt_of_le ih.there (hkeeps.count_le .maps), ?_, ?_⟩
    · rw [hsame]
      exact ih.plain
    · rw [hsame]
      exact ih.lists

end

/-! ## What a map answers -/

/-- The instructions that read a map find a dictionary, whose entries these are. -/
structure State.Answers (t : State) (r : Nat) (d : Dictionary) (entries : List (Item × Item)) : Prop where
  size : ∀ {i : Located} {below : Stack Item}, i.opcode = .size →
    t.memory.stack = below.push (.map r) →
    execute i t = .ok .next (t.withStack (below.push (.ofNat entries.length)))
  /-- The keys come in a new array, -/
  keys : ∀ {i : Located} {below : Stack Item}, i.opcode = .keys →
    t.memory.stack = below.push (.map r) → ∃ u q, execute i t = .ok .next u
      ∧ u.memory.stack = below.push (.array q) ∧ t.memory.heap.sequences.size ≤ q
      ∧ u.memory.heap.sequence q = (entries.map Prod.fst).toArray
  /-- and so do the values, as copies. -/
  values : ∀ {i : Located} {below : Stack Item}, i.opcode = .values →
    t.memory.stack = below.push (.map r) → ∃ u q copies, execute i t = .ok .next u
      ∧ u.memory.stack = below.push (.array q) ∧ t.memory.heap.sequences.size ≤ q
      ∧ u.memory.heap.sequence q = copies
      ∧ List.Forall₂ (fun value copy => value.Mirrors t.memory.heap u.memory.heap copy
        ∧ copy.Fresh t.memory.heap.sequences.size u.memory.heap.sequences.size)
        (entries.map Prod.snd) copies.toList
  pickItem : ∀ {i : Located} {below : Stack Item} {key value : Item}, i.opcode = .pickItem →
    t.memory.stack = (below.push (.map r)).push key → d.value key = some value →
    execute i t = .ok .next (t.withStack (below.push value))
  keyNotFound : ∀ {i : Located} {below : Stack Item} {key : Item}, i.opcode = .pickItem →
    t.memory.stack = (below.push (.map r)).push key → d.value key = none →
    execute i t = .error (.keyNotFound (key.text t.memory.heap)) (t.withStack below)
  hasKey : ∀ {i : Located} {below : Stack Item} {key : Item}, i.opcode = .hasKey →
    t.memory.stack = (below.push (.map r)).push key →
    execute i t = .ok .next (t.withStack (below.push (.boolean (d.value key).isSome)))

section

variable {t : State} {r now : Nat} {d : Dictionary}

theorem History.Kept.answers (h : History.Kept r d now t) (ht : t.memory.Founded 0) :
    t.Answers r d (t.memory.heap.map r) where
  size hop hstack := execute_sizeOfMap hop hstack
  keys hop hstack :=
    ⟨_, _, execute_keys hop hstack, rfl, Nat.le_refl _, Heap.sequence_newSequence_self⟩
  values hop hstack := by
    have hcollected : t.memory.heap.collected? (.map r)
        = some ((t.memory.heap.map r).map Prod.snd).toArray := rfl
    have hitems := ht.heap.collected hcollected
    obtain ⟨copies, heap, hcopies, hexecute⟩ := exists_values ht hop hstack hcollected
    obtain ⟨hfounded, hfresh, -⟩ := hcopies.founded ht.heap hitems
    refine ⟨_, heap.sequences.size, copies.toArray, hexecute, rfl, hcopies.size_le,
      Heap.sequence_newSequence_self, ?_⟩
    refine forall₂_imp_mem (hcopies.mirrors ht.heap hitems) fun value _ copy hcopy hmirrors => ?_
    refine ⟨hmirrors.congr (fun _ _ => rfl) fun q hq => ?_, (hfresh copy hcopy).mono ?_⟩
    · exact Heap.sequence_newSequence_of_lt (hq.lt hfounded (hfresh copy hcopy).inside)
    · exact Nat.le_trans (Nat.le_succ _) (Nat.le_of_eq Heap.size_newSequence.symm)
  pickItem hop hstack hvalue := by
    rw [execute_pickItem hop hstack, Item.lookup, h.lists.findEntry?_eq h.plain, hvalue]
    rfl
  keyNotFound hop hstack hvalue := by
    rw [execute_pickItem hop hstack, Item.lookup, h.lists.findEntry?_eq h.plain, hvalue]
    rfl
  hasKey hop hstack := by
    rw [execute_hasKey hop hstack, Item.hasKey, h.lists.findEntry?_eq h.plain]
    rfl

end

/-! ## Packing -/

/-- Pairs on top of a stack, the key of each above its value, the first on top. -/
def Stack.pushPairs (below : Stack Item) : List (Item × Item) → Stack Item
  | [] => below
  | (key, value) :: pairs => ((below.pushPairs pairs).push value).push key

/-- Storing pairs in a map, one after the other, with the instruction for it. -/
inductive SetsAll (i : Located) (container : Item) : State → List (Item × Item) → State → Prop
  | nil {t : State} : SetsAll i container t [] t
  | cons {t u v : State} {key value : Item} {pairs : List (Item × Item)}
    (hexecute : execute i (t.withStack (((t.memory.stack.push container).push key).push value))
      = .ok .next u) (hrest : SetsAll i container u pairs v) :
    SetsAll i container t ((key, value) :: pairs) v

section

variable {i j : Located} {s : State} {below : Stack Item} {pairs : List (Item × Item)}

/-- The entries of pairs, of which the first comes first. -/
def Heap.entriesOf (heap : Heap) (entries pairs : List (Item × Item)) : List (Item × Item) :=
  pairs.foldl (fun entries pair => heap.setEntry pair.1 pair.2 entries) entries

theorem popEntries_eq (address : Nat) (heap : Heap) (entries : List (Item × Item)) :
    Compound.popEntries entries pairs.length address ⟨below.pushPairs pairs, heap⟩
      = .ok (heap.entriesOf entries pairs) ⟨below, heap⟩ := by
  induction pairs generalizing entries with
  | nil => rfl
  | cons pair pairs ih => exact ih _

theorem execute_packMap {count : Item} {v : Int128} (hop : i.opcode = .packMap)
    (hstack : s.memory.stack = (below.pushPairs pairs).push count)
    (hcount : count.asInteger s.memory.heap = .ok v) (hv : v.val = pairs.length)
    (hlt : pairs.length < 0x1_0000_0000_0000_0000) : execute i s = .ok .next { s with
      memory := ⟨below.push (.map s.memory.heap.maps.size),
        (s.memory.heap.newMap (s.memory.heap.entriesOf [] pairs)).2⟩ } := by
  have hoperation : operation i.opcode = .simple (.compound .packMap) := by
    rw [hop]
    rfl
  have hpacked : Compound.packMap s.address ⟨(below.pushPairs pairs).push count, s.memory.heap⟩
      = .ok () ⟨below.push (.map s.memory.heap.maps.size),
        (s.memory.heap.newMap (s.memory.heap.entriesOf [] pairs)).2⟩ := by
    show (Eval.popCount >>= fun n => _ : Eval Unit) s.address _ = _
    rw [Eval.bind_apply, popCount_eq hcount hv hlt]
    show (Compound.popEntries [] pairs.length >>= fun entries => _ : Eval Unit) s.address _ = _
    rw [Eval.bind_apply, popEntries_eq]
    rfl
  rw [execute_simple hoperation]
  show s.withMemory _ (Compound.packMap s.address s.memory) = _
  rw [State.memory_eq hstack, hpacked]
  rfl

/-- An entry has the key of another one, and its value or a copy of it. -/
def Mirrored (old new : Heap) (entry entry' : Item × Item) : Prop :=
  entry'.1 = entry.1 ∧ entry.2.Mirrors old new entry'.2

/-- Entries stay the same but for copies where a value and its copy are stored under a key that is
compared alike. -/
theorem mirrored_setEntry {old new heap : Heap} {key value copy : Item} {entries entries' : List (Item × Item)}
    (h : List.Forall₂ (Mirrored old new) entries entries') (hvalue : value.Mirrors old new copy)
    (hequal : ∀ entry ∈ entries, entry.1.equals heap key = entry.1.equals old key) :
    List.Forall₂ (Mirrored old new) (old.setEntry key value entries) (heap.setEntry key copy entries') := by
  induction h with
  | nil => exact .cons ⟨rfl, hvalue⟩ .nil
  | @cons entry entry' entries entries' hentry hrest ih =>
    obtain ⟨k, v⟩ := entry
    obtain ⟨_, v'⟩ := entry'
    obtain ⟨rfl, hv⟩ := hentry
    obtain ⟨hfirst, hothers⟩ := List.forall_mem_cons.mp hequal
    unfold Heap.setEntry
    rw [hfirst]
    split
    · exact .cons ⟨rfl, hvalue⟩ hrest
    · exact .cons ⟨rfl, hv⟩ (ih hothers)

/-- A machine whose map has entries of items that were there on an old heap, but for copies. -/
structure Packing (old : Heap) (r : Nat) (entries : List (Item × Item)) (t : State) : Prop where
  founded : t.Founded old.sequences.size
  there : r < t.memory.heap.maps.size
  same : ∀ q < old.sequences.size, t.memory.heap.sequence q = old.sequence q
  inhand : EntriesInhand old.sequences.size entries
  mirrored : List.Forall₂ (Mirrored old t.memory.heap) entries (t.memory.heap.map r)

/-- The entries are the same but for copies where a copy has been made and is stored. -/
theorem Packing.mirrored_store {old heap : Heap} {r : Nat} {t : State} {entries : List (Item × Item)}
    {key value copy : Item} (h : Packing old r entries t) (hold : old.Founded)
    (hkey : key.Inside old.sequences.size) (hvalue : value.Inside old.sequences.size)
    (hcopies : Copies t.memory.heap [value] [copy] heap) :
    List.Forall₂ (Mirrored old heap) (old.setEntry key value entries)
      (heap.setEntry key copy (t.memory.heap.map r)) := by
  have hheap := h.founded.memory.heap
  have hitems : AllInhand t.memory.heap.sequences.size [value] :=
    List.forall_mem_singleton.mpr (hvalue.mono h.founded.memory.le)
  have hbefore : List.Forall₂ (Mirrored old heap) entries (t.memory.heap.map r) := by
    refine forall₂_imp_mem h.mirrored fun entry _ entry' hentry' hpair => ⟨hpair.1, ?_⟩
    refine hpair.2.congr (fun _ _ => rfl) fun q hq => ?_
    exact hcopies.grows.sequence_eq (hq.lt hheap (hheap.maps r entry' hentry').2)
  have hcopy : value.Mirrors old heap copy := by
    refine (List.forall₂_cons.mp (hcopies.mirrors hheap hitems)).1.congr (fun q hq => ?_) fun _ _ => rfl
    have hthere := hq.of_same fun s hs => h.same s (hs.lt hold hvalue)
    exact (h.same q (hthere.lt hold hvalue)).symm
  have hgrown : ∀ q < old.sequences.size, heap.sequence q = old.sequence q := fun q hq =>
    (hcopies.grows.sequence_eq (Nat.lt_of_lt_of_le hq h.founded.memory.le)).trans (h.same q hq)
  exact mirrored_setEntry hbefore hcopy fun entry hentry =>
    equals_of_same hold hgrown (hcopies.founded hheap hitems).1 (h.inhand entry hentry).1 hkey

/-- A store does to the map what packing does to the entries. -/
theorem Packing.store {old : Heap} {r : Nat} {t : State} {entries : List (Item × Item)}
    {key value : Item} (h : Packing old r entries t) (hold : old.Founded) (hop : j.opcode = .setItem)
    (hkey : key.Inside old.sequences.size) (hvalue : value.Inside old.sequences.size) :
    ∃ u, execute j (t.withStack (((t.memory.stack.push (.map r)).push key).push value)) = .ok .next u
      ∧ Packing old r (old.setEntry key value entries) u := by
  have hle := h.founded.memory.le
  have hready : State.Founded old.sequences.size
      (t.withStack (((t.memory.stack.push (.map r)).push key).push value)) :=
    h.founded.withMemory (h.founded.memory.withStack (List.forall_mem_cons.mpr ⟨hvalue.mono hle,
      List.forall_mem_cons.mpr ⟨hkey.mono hle, List.forall_mem_cons.mpr ⟨trivial, h.founded.memory.stack⟩⟩⟩))
      (Nat.le_refl _)
  obtain ⟨copy, heap, hcopies, hexecute⟩ := exists_setItem (hready.memory.mono (Nat.zero_le _)) hop rfl
  have hcopies : Copies t.memory.heap [value] [copy] heap := hcopies
  have hmap : heap.map r = t.memory.heap.map r := by
    unfold Heap.map
    rw [hcopies.sameOthers.2]
  have hcount : r < heap.maps.size := by
    rw [hcopies.sameOthers.2]
    exact h.there
  have hnext := (founds_execute j hready).leftBehind
  rw [hexecute] at hnext
  refine ⟨_, hexecute, hnext, ?_, fun q hq => ?_,
    Compound.entriesInhand_setEntry hkey hvalue h.inhand, ?_⟩
  · exact Nat.lt_of_lt_of_eq hcount Array.size_modify.symm
  · exact (hcopies.grows.sequence_eq (Nat.lt_of_lt_of_le hq hle)).trans (h.same q hq)
  · show List.Forall₂ _ _ ((heap.modifyMap r fun _ => heap.setEntry key copy (heap.map r)).map r)
    rw [Heap.map_modifyMap, if_pos ⟨rfl, hcount⟩, hmap]
    exact (h.mirrored_store hold hkey hvalue hcopies).imp fun _ _ hpair =>
      ⟨hpair.1, hpair.2.congr (fun _ _ => rfl) fun _ _ => rfl⟩

/-- Pairs of items that were there are stored one after the other, with the entries that packing them
makes, but for copies. -/
theorem Packing.exists_setsAll {old : Heap} {r : Nat} {t : State} {entries : List (Item × Item)}
    (h : Packing old r entries t) (hold : old.Founded) (hop : j.opcode = .setItem)
    (hpairs : EntriesInhand old.sequences.size pairs) : ∃ u, SetsAll j (.map r) t pairs u
      ∧ List.Forall₂ (Mirrored old u.memory.heap) (old.entriesOf entries pairs) (u.memory.heap.map r) := by
  induction pairs generalizing t entries with
  | nil => exact ⟨t, .nil, h.mirrored⟩
  | cons pair pairs ih =>
    obtain ⟨key, value⟩ := pair
    obtain ⟨⟨hkey, hvalue⟩, hpairs⟩ := List.forall_mem_cons.mp hpairs
    obtain ⟨next, hexecute, hnext⟩ := h.store hold hop hkey hvalue
    obtain ⟨u, hsets, hpacked⟩ := ih hnext hpairs
    exact ⟨u, .cons hexecute hsets, hpacked⟩

theorem allInhand_pushPairs {n : Nat} (h : AllInhand n (below.pushPairs pairs).toList) :
    AllInhand n below.toList ∧ EntriesInhand n pairs := by
  induction pairs with
  | nil => exact ⟨h, entriesInhand_nil⟩
  | cons pair pairs ih =>
    obtain ⟨hkey, hrest⟩ := List.forall_mem_cons.mp h
    obtain ⟨hvalue, hrest⟩ := List.forall_mem_cons.mp hrest
    obtain ⟨hbelow, hpairs⟩ := ih hrest
    exact ⟨hbelow, List.forall_mem_cons.mpr ⟨⟨hkey, hvalue⟩, hpairs⟩⟩

end

/-! ## Machines -/

/-- A map acts as the dictionary of the entries that it has on a machine. -/
structure ActsAsDictionary (script : Array UInt8) (initializer : Option Nat) (limits : Limits) (s : State)
    (r : Nat) : Prop where
  /-- An item that is to be stored can be copied. -/
  copies : ∀ {t : State} {below : Stack Item} {key value : Item}, Reachable script initializer limits t →
    t.memory.stack = ((below.push (.map r)).push key).push value →
    ∃ stored between, Copies t.memory.heap [value] [stored] between
  /-- Edits succeed, and leave the entries of all keys but their own as they are. -/
  edits : ∀ {t : State} {i : Located} {edit : Edit} {earlier : List Edit},
    History script initializer limits r s earlier t → Reachable script initializer limits t →
    t.Edits r i edit → ∃ u, execute i t = .ok .next u ∧ ∀ key, edit.key? = some key →
      ((u.memory.heap.map r).filter fun entry => decide (entry.1 ≠ key))
        = (t.memory.heap.map r).filter fun entry => decide (entry.1 ≠ key)
  /-- The map answers as the edited dictionary. -/
  answers : ∀ {t : State} {edits : List Edit}, History script initializer limits r s edits t →
    Reachable script initializer limits t → ∃ entries,
      ((Dictionary.ofEntries (s.memory.heap.map r)).replay (s.memory.heap.map r).length edits).Lists
          ((s.memory.heap.map r).length + edits.length) entries
        ∧ t.Answers r ((Dictionary.ofEntries (s.memory.heap.map r)).replay
          (s.memory.heap.map r).length edits) entries

/-- On a machine, maps whose keys are compared by value are dictionaries. -/
structure MapsAreDictionaries (script : Array UInt8) (initializer : Option Nat) (limits : Limits)
    (s : State) : Prop where
  acts : ∀ r < s.memory.heap.maps.size, PlainKeys (s.memory.heap.map r) →
    DistinctKeys (s.memory.heap.map r) → ActsAsDictionary script initializer limits s r
  /-- Packing pairs makes the entries that storing them in a new map makes, the pair on top first, but
  that no value is copied. -/
  packs : ∀ {i j : Located} {below : Stack Item} {count : Item} {v : Int128}
    {pairs : List (Item × Item)}, i.opcode = .packMap → j.opcode = .setItem →
    s.memory.stack = (below.pushPairs pairs).push count → count.asInteger s.memory.heap = .ok v →
    v.val = pairs.length → pairs.length < 0x1_0000_0000_0000_0000 → ∃ t u, execute i s = .ok .next t
      ∧ t.memory.stack = below.push (.map s.memory.heap.maps.size)
      ∧ t.memory.heap.sequences = s.memory.heap.sequences
      ∧ SetsAll j (.map s.memory.heap.maps.size)
        { s with memory := ⟨below, (s.memory.heap.newMap []).2⟩ } pairs u
      ∧ List.Forall₂ (Mirrored s.memory.heap u.memory.heap)
        (t.memory.heap.map s.memory.heap.maps.size) (u.memory.heap.map s.memory.heap.maps.size)

section

variable {script : Array UInt8} {initializer : Option Nat} {limits : Limits} {s : State}

theorem actsAsDictionary {r : Nat} (hr : r < s.memory.heap.maps.size)
    (hplain : PlainKeys (s.memory.heap.map r)) (hdistinct : DistinctKeys (s.memory.heap.map r)) :
    ActsAsDictionary script initializer limits s r where
  copies {t below key value} ht hstack := by
    have hfounded := ht.founded_memory
    have hvalue : value.Inside t.memory.heap.sequences.size :=
      hfounded.stack value (by rw [hstack]; exact List.mem_cons_self)
    obtain ⟨stored, between, hcopies, -⟩ := exists_copy hfounded.heap hvalue
    exact ⟨stored, between, hcopies⟩
  edits {t i edit earlier} h ht hedit := by
    have hkept := h.kept hr hplain hdistinct
    obtain ⟨below, heap, -, -, hexecute⟩ := execute_of_edits ht.founded_memory hedit
    refine ⟨_, hexecute, fun key hkey => ?_⟩
    obtain ⟨-, heap', hentries⟩ := map_of_edits ht.founded_memory hedit hexecute hkept.there
    rw [hentries]
    exact filter_entries hkept.plain hkept.lists.distinctKeys hkey
  answers {t edits} h ht := by
    have hkept := h.kept hr hplain hdistinct
    exact ⟨t.memory.heap.map r, hkept.lists, hkept.answers ht.founded_memory⟩

theorem mapsAreDictionaries_of_reachable (h : Reachable script initializer limits s) :
    MapsAreDictionaries script initializer limits s := by
  refine ⟨fun r hr => actsAsDictionary hr, fun {i j below count v pairs} hop hop' hstack hcount hv hlt => ?_⟩
  obtain ⟨n, hs⟩ := h.founded
  have hfounded := hs.memory.heap
  have hinside := hs.memory.stack
  rw [hstack] at hinside
  obtain ⟨hbelow, hpairs⟩ := allInhand_pushPairs (List.forall_mem_cons.mp hinside).2
  have hmaps : (s.memory.heap.newMap []).2.maps.size = s.memory.heap.maps.size + 1 := Array.size_push _
  have hnew : ∀ entries, (s.memory.heap.newMap entries).2.map s.memory.heap.maps.size = entries :=
    fun entries => (Heap.map_newMap _ entries _).trans (if_pos rfl)
  have hheap : (s.memory.heap.newMap []).2.Founded := by
    refine hfounded.of_sequences rfl fun r entry hentry => ?_
    rw [Heap.map_newMap] at hentry
    split at hentry
    · exact nomatch hentry
    · exact hfounded.maps r entry hentry
  have hstart : State.Founded s.memory.heap.sequences.size
      { s with memory := ⟨below, (s.memory.heap.newMap []).2⟩ } :=
    hs.withMemory ⟨Nat.le_refl _, hheap, hbelow⟩ (Nat.le_refl _)
  have hpacking : Packing s.memory.heap s.memory.heap.maps.size []
      { s with memory := ⟨below, (s.memory.heap.newMap []).2⟩ } :=
    ⟨hstart, Nat.lt_of_lt_of_eq (Nat.lt_succ_self _) hmaps.symm, fun _ _ => rfl, entriesInhand_nil,
      by rw [hnew]; exact .nil⟩
  obtain ⟨u, hsets, hmirrored⟩ := hpacking.exists_setsAll hfounded hop' hpairs
  refine ⟨_, u, execute_packMap hop hstack hcount hv hlt, rfl, rfl, hsets, ?_⟩
  dsimp only
  rw [hnew]
  exact hmirrored

end

/-- A machine that is about to store 7 under 2 in a map that has 5 under 1. -/
def mapped : State :=
  .launched #[0xd0, 0x40] { maps := #[[(.ofNat 1, .ofNat 5)]] } [.ofNat 7, .ofNat 2, .map 0]

theorem mapsAreDictionaries_mapped : Reachable #[0xd0, 0x40] none {} mapped
    ∧ MapsAreDictionaries #[0xd0, 0x40] none {} mapped
    ∧ ActsAsDictionary #[0xd0, 0x40] none {} mapped 0
    ∧ ∃ u, History #[0xd0, 0x40] none {} 0 mapped [.set (.ofNat 2) (.ofNat 7)] u := by
  have hparts : Builds {}
      ([(Item.ofNat 1, Item.ofNat 5)].flatMap fun entry => [entry.1, entry.2]) {} :=
    (Builds.nil.ofNat 5).ofNat 1
  have hmap : Builds {} [.map ({} : Heap).maps.size] (Heap.newMap {} [(.ofNat 1, .ofNat 5)]).2 :=
    .map hparts .nil
  have hbuilds : Builds {} [.ofNat 7, .ofNat 2, .map 0] { maps := #[[(.ofNat 1, .ofNat 5)]] } :=
    (hmap.ofNat 2).ofNat 7
  have hreachable : Reachable #[0xd0, 0x40] none {} mapped := reachable_launched hbuilds
  have hmaps := mapsAreDictionaries_of_reachable hreachable
  have hacts : ActsAsDictionary #[0xd0, 0x40] none {} mapped 0 :=
    hmaps.acts 0 (by decide) (List.forall_mem_singleton.mpr trivial) (List.nodup_singleton _)
  have hstack : mapped.memory.stack
      = ((Stack.empty.push (.map 0)).push (.ofNat 2)).push (.ofNat 7) := rfl
  have hedit : mapped.Edits 0 ⟨⟨.setItem, []⟩, 0⟩ (.set (.ofNat 2) (.ofNat 7)) :=
    .set rfl hstack trivial (.shared nofun .nil)
  obtain ⟨u, hexecute, -⟩ := hacts.edits .start hreachable hedit
  exact ⟨hreachable, hmaps, hacts, u, .edit .start hreachable hedit hexecute⟩

end StackContract.Machine
