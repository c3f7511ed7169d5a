/-!
# Insertion-ordered tables

A finite map whose entries keep the order in which their keys first came. Storing a value under a
key that is present replaces the value in place.

The entries are the view: `find?_insert` and `keys_insert` say what `insert` does to it.
-/

namespace StackContract

/-- A finite map that lists its entries in the order of first insertion. -/
structure Table (κ ν : Type) where
  entries : List (κ × ν) := []

namespace Table

variable {κ ν : Type} [DecidableEq κ]

instance : Inhabited (Table κ ν) := ⟨{}⟩

/-- The value of the first entry of `entries` with this key. -/
def findIn (key : κ) : List (κ × ν) → Option ν
  | [] => none
  | (k, v) :: rest => if k = key then some v else findIn key rest

/-- Replaces the value of the first entry with this key, or puts a new entry last. -/
def insertIn (key : κ) (value : ν) : List (κ × ν) → List (κ × ν)
  | [] => [(key, value)]
  | (k, v) :: rest => if k = key then (k, value) :: rest else (k, v) :: insertIn key value rest

/-- The value stored under a key. -/
def find? (table : Table κ ν) (key : κ) : Option ν :=
  findIn key table.entries

/-- Whether a key has a value. -/
def contains (table : Table κ ν) (key : κ) : Bool :=
  (table.find? key).isSome

/-- Stores a value under a key. A key keeps the place of its first insertion. -/
def insert (table : Table κ ν) (key : κ) (value : ν) : Table κ ν :=
  ⟨insertIn key value table.entries⟩

/-- The table of a list of entries, a later value replacing an earlier one of the same key. -/
def ofList (entries : List (κ × ν)) : Table κ ν :=
  entries.foldl (fun table entry => table.insert entry.1 entry.2) {}

/-- The keys in the order of their first insertion. -/
def keys (table : Table κ ν) : List κ :=
  table.entries.map Prod.fst

/-- The values in the order of their keys. -/
def values (table : Table κ ν) : List ν :=
  table.entries.map Prod.snd

/-- The number of keys. -/
def size (table : Table κ ν) : Nat :=
  table.entries.length

theorem findIn_insertIn (key other : κ) (value : ν) (entries : List (κ × ν)) :
    findIn other (insertIn key value entries) =
      if other = key then some value else findIn other entries := by
  induction entries with
  | nil => simp only [insertIn, findIn, eq_comm]
  | cons entry rest ih =>
    obtain ⟨k, v⟩ := entry
    by_cases h : k = key <;> by_cases h' : other = key <;> grind [insertIn, findIn]

/-- An insertion shows under its own key and under no other. -/
theorem find?_insert (table : Table κ ν) (key other : κ) (value : ν) :
    (table.insert key value).find? other =
      if other = key then some value else table.find? other :=
  findIn_insertIn key other value table.entries

theorem map_fst_insertIn (key : κ) (value : ν) (entries : List (κ × ν)) :
    (insertIn key value entries).map Prod.fst =
      if key ∈ entries.map Prod.fst then entries.map Prod.fst
      else entries.map Prod.fst ++ [key] := by
  induction entries with
  | nil => simp [insertIn]
  | cons entry rest ih =>
    obtain ⟨k, v⟩ := entry
    by_cases h : k = key <;> grind [insertIn]

/-- An insertion goes past entries of other keys. -/
theorem insertIn_append {key : κ} {first : List (κ × ν)} (h : key ∉ first.map Prod.fst) (value : ν)
    (second : List (κ × ν)) :
    insertIn key value (first ++ second) = first ++ insertIn key value second := by
  induction first with
  | nil => rfl
  | cons entry first ih =>
    obtain ⟨k, v⟩ := entry
    rw [List.map_cons, List.mem_cons, not_or] at h
    show (if k = key then _ else (k, v) :: insertIn key value (first ++ second)) = _
    rw [if_neg (fun hk => h.1 hk.symm), ih h.2]
    rfl

/-- A look-up goes past entries of other keys. -/
theorem findIn_append {key : κ} {first : List (κ × ν)} (h : key ∉ first.map Prod.fst)
    (second : List (κ × ν)) : findIn key (first ++ second) = findIn key second := by
  induction first with
  | nil => rfl
  | cons entry first ih =>
    obtain ⟨k, v⟩ := entry
    rw [List.map_cons, List.mem_cons, not_or] at h
    show (if k = key then _ else findIn key (first ++ second)) = _
    rw [if_neg (fun hk => h.1 hk.symm), ih h.2]

theorem mem_of_findIn {key : κ} {value : ν} {entries : List (κ × ν)}
    (h : findIn key entries = some value) : (key, value) ∈ entries := by
  induction entries with
  | nil => cases h
  | cons entry rest ih =>
    obtain ⟨k, v⟩ := entry
    have hcons : (if k = key then some v else findIn key rest) = some value := h
    split at hcons
    · next hk =>
      cases hcons
      rw [hk]
      exact List.mem_cons_self ..
    · exact List.mem_cons_of_mem _ (ih hcons)

/-- What a look-up finds is among the values. -/
theorem mem_values_of_find? {table : Table κ ν} {key : κ} {value : ν}
    (h : table.find? key = some value) : value ∈ table.values :=
  List.mem_map_of_mem (mem_of_findIn h)

theorem isSome_findIn {key : κ} {entries : List (κ × ν)} (h : key ∈ entries.map Prod.fst) :
    (findIn key entries).isSome = true := by
  induction entries with
  | nil => cases h
  | cons entry rest ih =>
    obtain ⟨k, v⟩ := entry
    show (if k = key then some v else findIn key rest).isSome = true
    split
    · rfl
    · next hne => exact ih ((List.mem_cons.mp h).resolve_left fun heq => hne heq.symm)

/-- Among entries of different keys, a look-up finds the value of the entry of its key. -/
theorem findIn_eq_some_iff {entries : List (κ × ν)} (h : (entries.map Prod.fst).Nodup) {key : κ}
    {value : ν} : findIn key entries = some value ↔ (key, value) ∈ entries := by
  refine ⟨mem_of_findIn, fun hmem => ?_⟩
  induction entries with
  | nil => cases hmem
  | cons entry rest ih =>
    obtain ⟨k, v⟩ := entry
    rw [List.map_cons, List.nodup_cons] at h
    show (if k = key then some v else findIn key rest) = some value
    rcases List.mem_cons.mp hmem with heq | hmem
    · cases heq
      rw [if_pos rfl]
    · have hne : k ≠ key := by
        intro heq
        rw [heq] at h
        exact h.1 (List.mem_map.mpr ⟨_, hmem, rfl⟩)
      rw [if_neg hne]
      exact ih h.2 hmem

/-- The order of entries of different keys does not matter. -/
theorem findIn_perm {entries entries' : List (κ × ν)} (h : (entries.map Prod.fst).Nodup)
    (hperm : entries.Perm entries') (key : κ) : findIn key entries' = findIn key entries := by
  have h' : (entries'.map Prod.fst).Nodup := (hperm.map Prod.fst).nodup h
  apply Option.ext
  intro value
  rw [findIn_eq_some_iff h, findIn_eq_some_iff h', hperm.mem_iff]

/-- A key without a value is not among the keys. -/
theorem not_mem_keys {table : Table κ ν} {key : κ} (h : ¬ table.contains key = true) :
    key ∉ table.keys :=
  fun hmem => h (isSome_findIn hmem)

/-- The entry of a new key comes last. -/
theorem entries_insert {table : Table κ ν} {key : κ} (h : key ∉ table.keys) (value : ν) :
    (table.insert key value).entries = table.entries ++ [(key, value)] := by
  have hinsert := insertIn_append h value []
  rw [List.append_nil] at hinsert
  exact hinsert

/-- A key that is present keeps its place; a new key comes last. -/
theorem keys_insert (table : Table κ ν) (key : κ) (value : ν) :
    (table.insert key value).keys = if key ∈ table.keys then table.keys else table.keys ++ [key] :=
  map_fst_insertIn key value table.entries

theorem nodup_keys_insert {table : Table κ ν} (h : table.keys.Nodup) (key : κ) (value : ν) :
    (table.insert key value).keys.Nodup := by
  rw [keys_insert]
  split
  · exact h
  · next hnew =>
    rw [List.nodup_append]
    refine ⟨h, List.pairwise_singleton _ _, ?_⟩
    intro other hother new hmem heq
    rw [heq, List.mem_singleton.mp hmem] at hother
    exact hnew hother

/-- A table that is made of a list has each of its keys once. -/
theorem nodup_keys_ofList (entries : List (κ × ν)) : (ofList entries).keys.Nodup := by
  have hfold : ∀ {table : Table κ ν}, table.keys.Nodup → (entries.foldl
      (fun table entry => table.insert entry.1 entry.2) table).keys.Nodup := by
    induction entries with
    | nil => exact id
    | cons entry entries ih => exact fun h => ih (nodup_keys_insert h entry.1 entry.2)
  exact hfold List.nodup_nil

/-- A key that comes with one value only has it. -/
theorem find?_ofList {entries : List (κ × ν)} {key : κ} {value : ν} (hmem : (key, value) ∈ entries)
    (hsame : ∀ other, (key, other) ∈ entries → other = value) :
    (ofList entries).find? key = some value := by
  -- what is found is the value, if it is there to begin with or still to come
  have hfold : ∀ (entries : List (κ × ν)) (table : Table κ ν),
      (∀ other, (key, other) ∈ entries → other = value) →
      (table.find? key = some value ∨ (key, value) ∈ entries) →
      (entries.foldl (fun table entry => table.insert entry.1 entry.2) table).find? key
        = some value := by
    intro entries
    induction entries with
    | nil => exact fun _ _ hthere => hthere.resolve_right List.not_mem_nil
    | cons entry entries ih =>
      intro table hsame hthere
      refine ih _ (fun other hother => hsame other (List.mem_cons_of_mem _ hother)) ?_
      rw [find?_insert]
      by_cases hkey : key = entry.1
      · rw [if_pos hkey, hsame entry.2 (hkey ▸ List.mem_cons_self ..)]
        exact .inl rfl
      · rw [if_neg hkey]
        refine hthere.imp_right fun hmem => (List.mem_cons.mp hmem).resolve_left fun heq => ?_
        exact hkey (congrArg Prod.fst heq)
  exact hfold entries {} hsame (.inr hmem)

end Table

end StackContract
