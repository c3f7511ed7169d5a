import StackContract.Proofs.EqualItems
/-!
# Entries in the order of their keys

A dictionary tells what is under each key and since when the key has been there. The entries of a map are a
list of one, in the order in which its keys came (`Dictionary.Lists`), and stay one where a value is stored,
a key removed or all are (`Dictionary.lists_after`), as long as keys are compared by value.
-/

namespace StackContract.Machine

/-- Items that are compared by value. -/
def Item.Plain : Item → Prop
  | .null | .boolean _ | .integer _ | .byteString _ | .pointer _ => True
  | _ => False

/-- A change of a map. -/
inductive Edit
  | set (key value : Item)
  | remove (key : Item)
  | clear

/-- The key that is edited alone. -/
def Edit.key? : Edit → Option Item
  | .set key _ | .remove key => some key
  | .clear => none

/-- The entries of a map behind an edit. -/
def Edit.entries (heap : Heap) (entries : List (Item × Item)) : Edit → List (Item × Item)
  | .set key value => heap.setEntry key value entries
  | .remove key => entries.filter fun entry => !entry.1.equals heap key
  | .clear => []

/-- What is under each key, and the time at which a key that is there has come. -/
structure Dictionary where
  value : Item → Option Item
  since : Item → Nat

namespace Dictionary

/-- A dictionary behind an edit. A key that is there keeps its time when its value is replaced. -/
def after (d : Dictionary) (now : Nat) : Edit → Dictionary
  | .set key value =>
    { value := fun k => if k = key then some value else d.value k
      since := fun k => if k = key ∧ d.value key = none then now else d.since k }
  | .remove key => { d with value := fun k => if k = key then none else d.value k }
  | .clear => { d with value := fun _ => none }

/-- A dictionary behind a number of edits, the last of which comes first in the list. -/
def replay (d : Dictionary) (now : Nat) : List Edit → Dictionary
  | [] => d
  | edit :: earlier => (d.replay now earlier).after (now + earlier.length) edit

/-- The dictionary of entries, whose keys have come one after the other. -/
def ofEntries (entries : List (Item × Item)) : Dictionary where
  value k := (entries.find? fun entry => entry.1 = k).map Prod.snd
  since k := entries.findIdx fun entry => entry.1 = k

/-- The entries of a dictionary, in the order in which the keys have come. -/
structure Lists (d : Dictionary) (now : Nat) (entries : List (Item × Item)) : Prop where
  mem_iff : ∀ k v, (k, v) ∈ entries ↔ d.value k = some v
  ordered : entries.Pairwise fun entry entry' => d.since entry.1 < d.since entry'.1
  earlier : ∀ entry ∈ entries, d.since entry.1 < now

end Dictionary

section

variable {heap : Heap} {entries : List (Item × Item)} {key value k v : Item}

/-! ## Entries -/

theorem Item.Plain.ne_struct (h : k.Plain) (r : Nat) : k ≠ .struct r := by
  rintro rfl
  exact h

theorem equals_plain (h : k.Plain) (b : Item) : k.equals heap b = decide (k = b) :=
  equalsWithin_plain h.ne_struct _ b

/-- Entries whose keys are compared by value. -/
def PlainKeys (entries : List (Item × Item)) : Prop :=
  ∀ entry ∈ entries, entry.1.Plain

theorem setEntry_of_notMem (hplain : PlainKeys entries) (hkey : ∀ entry ∈ entries, entry.1 ≠ key) :
    heap.setEntry key value entries = entries ++ [(key, value)] := by
  induction entries with
  | nil => rfl
  | cons entry entries ih =>
    obtain ⟨k, v⟩ := entry
    obtain ⟨hfirst, hrest⟩ := List.forall_mem_cons.mp hplain
    obtain ⟨hne, hothers⟩ := List.forall_mem_cons.mp hkey
    unfold Heap.setEntry
    rw [equals_plain hfirst, decide_eq_false hne, if_neg Bool.false_ne_true, ih hrest hothers]
    rfl

theorem fst_replaced (key value : Item) (entry : Item × Item) :
    (if entry.1 = key then (key, value) else entry).1 = entry.1 := by
  split
  · next hsame => exact hsame.symm
  · rfl

/-- A value is stored in the entry of its key. -/
theorem setEntry_of_mem (hplain : PlainKeys entries) (hdistinct : DistinctKeys entries)
    (hkey : (key, v) ∈ entries) : heap.setEntry key value entries
      = entries.map fun entry => if entry.1 = key then (key, value) else entry := by
  induction entries with
  | nil => cases hkey
  | cons entry entries ih =>
    obtain ⟨k, w⟩ := entry
    obtain ⟨hfirst, hrest⟩ := List.forall_mem_cons.mp hplain
    obtain ⟨hout, hothers⟩ := List.nodup_cons.mp hdistinct
    unfold Heap.setEntry
    rw [equals_plain hfirst, List.map_cons]
    by_cases hsame : k = key
    · -- no other entry has this key
      subst hsame
      rw [decide_eq_true rfl, if_pos rfl, if_pos rfl]
      congr 1
      refine (List.map_congr_left fun entry hentry => ?_).trans (List.map_id _) |>.symm
      exact if_neg fun h => hout (List.mem_map.mpr ⟨entry, hentry, h⟩)
    · rw [decide_eq_false hsame, if_neg Bool.false_ne_true, if_neg hsame]
      have hmem : (key, v) ∈ entries := (List.mem_cons.mp hkey).resolve_left fun h => hsame (by cases h; rfl)
      rw [ih hrest hothers hmem]

theorem remove_of_plain (hplain : PlainKeys entries) :
    (entries.filter fun entry => !entry.1.equals heap key)
      = entries.filter fun entry => decide (entry.1 ≠ key) := by
  refine List.filter_congr fun entry hentry => ?_
  rw [equals_plain (hplain entry hentry), decide_not]

end

/-! ## Dictionaries -/

namespace Dictionary

variable {d : Dictionary} {now : Nat} {heap : Heap} {entries : List (Item × Item)} {key k v : Item}

theorem Lists.distinctKeys (h : d.Lists now entries) : DistinctKeys entries := by
  refine List.pairwise_map.mpr (h.ordered.imp fun {entry entry'} hlt hsame => ?_)
  rw [hsame] at hlt
  exact Nat.lt_irrefl _ hlt

/-- An entry is found by its key. -/
theorem Lists.findEntry?_eq (h : d.Lists now entries) (hplain : PlainKeys entries) :
    heap.findEntry? entries key = d.value key := by
  unfold Heap.findEntry?
  cases hfind : entries.find? fun entry => entry.1.equals heap key with
  | none =>
    cases hvalue : d.value key with
    | none => rfl
    | some v =>
      have hmem := (h.mem_iff key v).mpr hvalue
      exact absurd (equals_self heap key) (List.find?_eq_none.mp hfind (key, v) hmem)
  | some entry =>
    obtain ⟨k, v⟩ := entry
    have hmem := List.mem_of_find?_eq_some hfind
    have hequal := List.find?_some hfind
    rw [equals_plain (hplain _ hmem)] at hequal
    cases of_decide_eq_true hequal
    exact ((h.mem_iff _ v).mp hmem).symm

theorem value_ofEntries_cons (k v key : Item) (entries : List (Item × Item)) :
    (ofEntries ((k, v) :: entries)).value key
      = if k = key then some v else (ofEntries entries).value key := by
  show (((k, v) :: entries).find? _).map _ = _
  rw [List.find?_cons]
  by_cases hsame : k = key
  · rw [decide_eq_true hsame, if_pos hsame]
    rfl
  · rw [decide_eq_false hsame, if_neg hsame]
    rfl

theorem since_ofEntries_cons (k v key : Item) (entries : List (Item × Item)) :
    (ofEntries ((k, v) :: entries)).since key
      = if k = key then 0 else (ofEntries entries).since key + 1 := by
  unfold ofEntries
  dsimp only
  rw [List.findIdx_cons]
  by_cases hsame : k = key
  · rw [decide_eq_true hsame, if_pos hsame]
    rfl
  · rw [decide_eq_false hsame, if_neg hsame]
    rfl

theorem lists_ofEntries (h : DistinctKeys entries) :
    (ofEntries entries).Lists entries.length entries := by
  induction entries with
  | nil => exact ⟨fun k v => ⟨nofun, nofun⟩, .nil, fun entry hentry => nomatch hentry⟩
  | cons entry entries ih =>
    obtain ⟨k, v⟩ := entry
    obtain ⟨hout, hothers⟩ := List.nodup_cons.mp h
    obtain ⟨hmem, hordered, hearlier⟩ := ih hothers
    have hne : ∀ w, (k, w) ∉ entries := fun w hentry =>
      hout (List.mem_map.mpr ⟨(k, w), hentry, rfl⟩)
    -- the other keys come later
    have hlater : ∀ entry ∈ entries, (ofEntries ((k, v) :: entries)).since entry.1
        = (ofEntries entries).since entry.1 + 1 := by
      rintro ⟨key, w⟩ hentry
      rw [since_ofEntries_cons, if_neg]
      rintro rfl
      exact hne w hentry
    have hfirst : (ofEntries ((k, v) :: entries)).since k = 0 := by
      rw [since_ofEntries_cons, if_pos rfl]
    refine ⟨fun key w => ?_, List.pairwise_cons.mpr ⟨fun entry hentry => ?_, ?_⟩, ?_⟩
    · rw [value_ofEntries_cons, List.mem_cons]
      split
      · next hsame =>
        subst hsame
        constructor
        · intro hentry
          cases hentry.resolve_right (hne w)
          rfl
        · intro hvalue
          cases hvalue
          exact .inl rfl
      · next hother =>
        rw [← hmem]
        exact or_iff_right fun hentry => hother (by cases hentry; rfl)
    · rw [hfirst, hlater entry hentry]
      exact Nat.succ_pos _
    · refine hordered.imp_of_mem fun {entry entry'} hentry hentry' hlt => ?_
      rw [hlater entry hentry, hlater entry' hentry']
      exact Nat.succ_lt_succ hlt
    · refine List.forall_mem_cons.mpr ⟨?_, fun entry hentry => ?_⟩
      · rw [hfirst]
        exact Nat.succ_pos _
      · rw [hlater entry hentry]
        exact Nat.succ_lt_succ (hearlier entry hentry)

theorem Lists.ne_of_value (h : d.Lists now entries) (hnone : d.value key = none) :
    ∀ entry ∈ entries, entry.1 ≠ key := by
  rintro ⟨k, v⟩ hentry rfl
  rw [(h.mem_iff k v).mp hentry] at hnone
  cases hnone

/-- What is stored under a key that is not there makes an entry, and that is the last one. -/
theorem Lists.append (h : d.Lists now entries) (hnone : d.value key = none) (value : Item) :
    (d.after now (.set key value)).Lists (now + 1) (entries ++ [(key, value)]) := by
  have hne := h.ne_of_value hnone
  have hsince : ∀ entry ∈ entries, (d.after now (.set key value)).since entry.1 = d.since entry.1 :=
    fun entry hentry => if_neg fun hboth => hne entry hentry hboth.1
  have hnow : (d.after now (.set key value)).since key = now := if_pos ⟨rfl, hnone⟩
  refine ⟨fun k v => ?_, List.pairwise_append.mpr ⟨?_, List.pairwise_singleton _ _, ?_⟩, ?_⟩
  · show _ ↔ (if k = key then some value else d.value k) = some v
    rw [List.mem_append, List.mem_singleton, h.mem_iff]
    split
    · next hsame =>
      subst hsame
      rw [hnone]
      exact ⟨fun hor => hor.elim nofun fun hsame => by cases hsame; rfl,
        fun hsome => .inr (by cases hsome; rfl)⟩
    · next hother => exact or_iff_left fun hsame => hother (by cases hsame; rfl)
  · refine h.ordered.imp_of_mem fun {entry entry'} hentry hentry' hlt => ?_
    rw [hsince entry hentry, hsince entry' hentry']
    exact hlt
  · intro entry hentry new hnew
    cases List.mem_singleton.mp hnew
    rw [hsince entry hentry, hnow]
    exact h.earlier entry hentry
  · intro entry hentry
    rcases List.mem_append.mp hentry with hentry | hentry
    · rw [hsince entry hentry]
      exact Nat.lt_succ_of_lt (h.earlier entry hentry)
    · cases List.mem_singleton.mp hentry
      rw [hnow]
      exact Nat.lt_succ_self _

/-- What is stored under a key that is there takes the place of the value in its entry. -/
theorem Lists.replace {old : Item} (h : d.Lists now entries) (hsome : d.value key = some old)
    (value : Item) : (d.after now (.set key value)).Lists (now + 1)
      (entries.map fun entry => if entry.1 = key then (key, value) else entry) := by
  -- no key comes or goes, and none gets another time
  have hsince : ∀ k, (d.after now (.set key value)).since k = d.since k := by
    refine fun k => if_neg fun hboth => ?_
    rw [hboth.2] at hsome
    cases hsome
  refine ⟨fun k v => ?_, List.pairwise_map.mpr (h.ordered.imp fun {entry entry'} hlt => ?_), ?_⟩
  · show _ ↔ (if k = key then some value else d.value k) = some v
    rw [List.mem_map]
    split
    · next hsame =>
      subst hsame
      constructor
      · rintro ⟨entry, -, hentry⟩
        split at hentry
        · cases hentry
          rfl
        · next hother =>
          cases hentry
          exact absurd rfl hother
      · rintro ⟨⟩
        exact ⟨(k, old), (h.mem_iff k old).mpr hsome, if_pos rfl⟩
    · next hother =>
      rw [← h.mem_iff]
      constructor
      · rintro ⟨entry, hentry, hsame⟩
        split at hsame
        · cases hsame
          exact absurd rfl hother
        · exact hsame ▸ hentry
      · exact fun hentry => ⟨(k, v), hentry, if_neg hother⟩
  · rw [hsince, hsince, fst_replaced, fst_replaced]
    exact hlt
  · intro entry hentry
    obtain ⟨other, hother, rfl⟩ := List.mem_map.mp hentry
    rw [hsince, fst_replaced]
    exact Nat.lt_succ_of_lt (h.earlier other hother)

theorem Lists.set (h : d.Lists now entries) (hplain : PlainKeys entries) (key value : Item) :
    (d.after now (.set key value)).Lists (now + 1) (heap.setEntry key value entries) := by
  cases hthere : d.value key with
  | none =>
    rw [setEntry_of_notMem hplain (h.ne_of_value hthere)]
    exact h.append hthere value
  | some old =>
    rw [setEntry_of_mem hplain h.distinctKeys ((h.mem_iff key old).mpr hthere)]
    exact h.replace hthere value

theorem Lists.remove (h : d.Lists now entries) (hplain : PlainKeys entries) (key : Item) :
    (d.after now (.remove key)).Lists (now + 1)
      (entries.filter fun entry => !entry.1.equals heap key) := by
  rw [remove_of_plain hplain]
  refine ⟨fun k v => ?_, h.ordered.filter _, fun entry hentry => ?_⟩
  · show _ ↔ (if k = key then none else d.value k) = some v
    rw [List.mem_filter, h.mem_iff, decide_eq_true_iff]
    split
    · next hsame => exact ⟨fun hboth => absurd hsame hboth.2, nofun⟩
    · next hother => exact and_iff_left hother
  · exact Nat.lt_succ_of_lt (h.earlier entry (List.mem_of_mem_filter hentry))

/-- Edited entries are those of the edited dictionary. -/
theorem lists_after (h : d.Lists now entries) (hplain : PlainKeys entries) (edit : Edit) :
    (d.after now edit).Lists (now + 1) (edit.entries heap entries) := by
  cases edit with
  | set key value => exact h.set hplain key value
  | remove key => exact h.remove hplain key
  | clear => exact ⟨fun k v => ⟨nofun, nofun⟩, .nil, fun entry hentry => nomatch hentry⟩

end Dictionary

/-! ## Edits -/

section

variable {heap : Heap} {entries : List (Item × Item)} {edit : Edit}

theorem plainKeys_entries (hplain : PlainKeys entries) (hedit : ∀ key value, edit = .set key value → key.Plain) :
    PlainKeys (edit.entries heap entries) := by
  cases edit with
  | set key value =>
    intro entry hentry
    have hmem : entry.1 ∈ (heap.setEntry key value entries).map Prod.fst := List.mem_map_of_mem hentry
    have hold : entry.1 ∈ entries.map Prod.fst → entry.1.Plain := fun hmem => by
      obtain ⟨other, hother, hsame⟩ := List.mem_map.mp hmem
      exact hsame ▸ hplain other hother
    rcases keys_setEntry heap key value entries with hkeys | ⟨hkeys, -⟩
    · exact hold (hkeys ▸ hmem)
    · rw [hkeys, List.mem_append, List.mem_singleton] at hmem
      rcases hmem with hmem | hmem
      · exact hold hmem
      · exact hmem ▸ hedit key value rfl
  | remove key => exact fun entry hentry => hplain entry (List.mem_of_mem_filter hentry)
  | clear => exact fun entry hentry => nomatch hentry

/-- An edit of one key leaves the entries of all others as they are, in their order. -/
theorem filter_entries (hplain : PlainKeys entries) (hdistinct : DistinctKeys entries) {key : Item}
    (hkey : edit.key? = some key) :
    ((edit.entries heap entries).filter fun entry => decide (entry.1 ≠ key))
      = entries.filter fun entry => decide (entry.1 ≠ key) := by
  cases edit with
  | set key value =>
    cases hkey
    show (heap.setEntry key value entries).filter _ = _
    by_cases hthere : ∃ v, (key, v) ∈ entries
    · obtain ⟨v, hthere⟩ := hthere
      rw [setEntry_of_mem hplain hdistinct hthere, List.filter_map]
      have hsame : ((fun entry : Item × Item => decide (entry.1 ≠ key)) ∘ fun entry =>
          if entry.1 = key then (key, value) else entry) = fun entry => decide (entry.1 ≠ key) := by
        funext entry
        show decide ((if entry.1 = key then (key, value) else entry).1 ≠ key) = _
        rw [fst_replaced]
      rw [hsame]
      refine (List.map_congr_left fun entry hentry => ?_).trans (List.map_id _)
      exact if_neg (of_decide_eq_true (List.mem_filter.mp hentry).2)
    · have hne : ∀ entry ∈ entries, entry.1 ≠ key := by
        rintro ⟨k, v⟩ hentry rfl
        exact hthere ⟨v, hentry⟩
      rw [setEntry_of_notMem hplain hne, List.filter_append]
      simp
  | remove key =>
    cases hkey
    show (entries.filter _).filter _ = _
    rw [remove_of_plain hplain, List.filter_filter]
    simp only [Bool.and_self]
  | clear => cases hkey

end

end StackContract.Machine
