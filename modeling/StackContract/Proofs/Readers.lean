import StackContract.Json.Reader
/-!
# Readers that undo a printer

A reader inverts a way of writing values as JSON when it reads back what was written, and nothing else,
exactly as long as the levels it may open are as many as the JSON nests (`Inverts`). The rules for
records, variants and lists carry this from the parts to the whole.
-/

namespace StackContract.Json

/-! ## Nesting -/

mutual

/-- How many lists and objects stand inside each other. -/
def nesting : Json → Nat
  | .list elements => nestingOfElements elements + 1
  | .object members => nestingOfMembers members + 1
  | _ => 0

/-- The deepest nesting of elements. -/
def nestingOfElements : List Json → Nat
  | [] => 0
  | element :: rest => max element.nesting (nestingOfElements rest)

/-- The deepest nesting of the values of members. -/
def nestingOfMembers : List (Option String × Json) → Nat
  | [] => 0
  | (_, value) :: rest => max value.nesting (nestingOfMembers rest)

end

@[simp] theorem nesting_null : nesting .null = 0 := by simp [nesting]

@[simp] theorem nesting_bool (b : Bool) : nesting (.bool b) = 0 := by simp [nesting]

@[simp] theorem nesting_int (v : Int) : nesting (.int v) = 0 := by simp [nesting]

@[simp] theorem nesting_ofText (s : String) : nesting (ofText s) = 0 := by simp [ofText, nesting]

theorem nestingOfElements_le {elements : List Json} {depth : Nat} :
    nestingOfElements elements ≤ depth ↔ ∀ element ∈ elements, nesting element ≤ depth := by
  induction elements with
  | nil => simp [nestingOfElements]
  | cons element elements ih => rw [nestingOfElements, Nat.max_le, ih, List.forall_mem_cons]

theorem nestingOfMembers_le {members : List (Option String × Json)} {depth : Nat} :
    nestingOfMembers members ≤ depth ↔ ∀ member ∈ members, nesting member.2 ≤ depth := by
  induction members with
  | nil => simp [nestingOfMembers]
  | cons member members ih => rw [nestingOfMembers, Nat.max_le, ih, List.forall_mem_cons]

theorem nesting_list_le {elements : List Json} {depth : Nat} :
    nesting (.list elements) ≤ depth + 1 ↔ ∀ element ∈ elements, nesting element ≤ depth := by
  simp [nesting, nestingOfElements_le]

theorem nesting_ofMembers_le {members : List (String × Json)} {depth : Nat} :
    nesting (ofMembers members) ≤ depth + 1 ↔ ∀ member ∈ members, nesting member.2 ≤ depth := by
  simp only [ofMembers, nesting, Nat.add_le_add_iff_right, nestingOfMembers_le, List.forall_mem_map]

theorem nesting_list_pos (elements : List Json) : ¬nesting (.list elements) ≤ 0 := by
  simp [nesting]

theorem nesting_ofMembers_pos (members : List (String × Json)) :
    ¬nesting (ofMembers members) ≤ 0 := by
  simp [ofMembers, nesting]

/-! ## Scalars -/

/-- A reader reads what `toJson` writes as the value it was written for, and it does so exactly within
the levels that the JSON needs. -/
def Inverts {α : Type} (read : Reader α) (toJson : α → Json) : Prop :=
  ∀ depth a b, read depth (toJson a) = some b ↔ nesting (toJson a) ≤ depth ∧ a = b

theorem inverts_text : Inverts Reader.text ofText := by
  intro depth a b
  simp [Reader.text, ofText, nesting]

theorem inverts_bool : Inverts Reader.bool .bool := by
  intro depth a b
  simp [Reader.bool]

/-- Integers of a type, all of which lie in the range that is read. -/
theorem inverts_int {α : Type} {low high : Int} {make : Int → α} {toInt : α → Int}
    (hrange : ∀ a, low ≤ toInt a ∧ toInt a ≤ high) (hmake : ∀ a, make (toInt a) = a) :
    Inverts (Reader.int low high make) fun a => .int (toInt a) := by
  intro depth a b
  simp [Reader.int, hrange a, hmake a]

theorem inverts_uint8 : Inverts Reader.uint8 fun v => ofNat v.toNat := by
  apply inverts_int
  · intro v
    have hv := v.toNat_lt
    omega
  · intro v
    simp

theorem inverts_uint16 : Inverts Reader.uint16 fun v => ofNat v.toNat := by
  apply inverts_int
  · intro v
    have hv := v.toNat_lt
    omega
  · intro v
    simp

theorem inverts_uint32 : Inverts Reader.uint32 fun v => ofNat v.toNat := by
  apply inverts_int
  · intro v
    have hv := v.toNat_lt
    omega
  · intro v
    simp

theorem inverts_int32 : Inverts Reader.int32 fun v => .int v.toInt := by
  apply inverts_int
  · intro v
    have hlow := v.le_toInt
    have hhigh := v.toInt_lt
    omega
  · intro v
    simp

theorem inverts_int64 : Inverts Reader.int64 fun v => .int v.toInt := by
  apply inverts_int
  · intro v
    have hlow := v.le_toInt
    have hhigh := v.toInt_lt
    omega
  · intro v
    simp

/-! ## Lists -/

theorem mapM_map_eq_some {α : Type} {toJson : α → Json} {read : Json → Option α} {depth : Nat}
    {values : List α}
    (h : ∀ a ∈ values, ∀ b, read (toJson a) = some b ↔ nesting (toJson a) ≤ depth ∧ a = b)
    (read' : List α) :
    (values.map toJson).mapM read = some read'
      ↔ (∀ a ∈ values, nesting (toJson a) ≤ depth) ∧ values = read' := by
  induction values generalizing read' with
  | nil => simp [eq_comm]
  | cons a values ih =>
    have hfirst := h a (List.mem_cons_self ..)
    have hmore := ih fun other hother => h other (List.mem_cons_of_mem _ hother)
    rw [List.map_cons, List.mapM_cons]
    simp only [Option.bind_eq_bind, Option.pure_def, Option.bind_eq_some_iff, hfirst, hmore, List.forall_mem_cons]
    grind

/-- A list of values, each written on its own. -/
theorem inverts_list {α : Type} {read : Reader α} {toJson : α → Json} (h : Inverts read toJson) :
    Inverts (Reader.list read) fun values => .list (values.map toJson) := by
  intro depth values read'
  cases depth with
  | zero => simp only [Reader.list, nesting_list_pos, false_and, reduceCtorEq]
  | succ depth =>
    simp only [Reader.list, mapM_map_eq_some (fun a _ b => h depth a b) read', nesting_list_le,
      List.forall_mem_map]

/-! ## Records -/

theorem hasValidKeys_ofMembers {members : List (String × Json)}
    (h : (members.map Prod.fst).Nodup) :
    hasValidKeys (members.map Prod.fst)
      (members.map fun member => (some member.1, member.2)) = true := by
  have honce (name : String) :
      ((members.map fun member => (some member.1, member.2)).filter
        fun member => member.1 = some name).length = (members.map Prod.fst).count name := by
    rw [← List.countP_eq_length_filter, List.countP_map, List.count, List.countP_map]
    apply List.countP_congr
    intro member _
    simp
  simp only [hasValidKeys, Bool.and_eq_true, List.all_eq_true, decide_eq_true_eq, honce,
    List.nodup_iff_count.mp h, List.forall_mem_map, Option.isSome_some, implies_true, and_self]

theorem lookup_ofMembers {members : List (String × Json)} (h : (members.map Prod.fst).Nodup)
    {member : String × Json} (hmember : member ∈ members) :
    (members.map fun member => (some member.1, member.2)).lookup (some member.1)
      = some member.2 := by
  induction members with
  | nil => cases hmember
  | cons first members ih =>
    rw [List.map_cons, List.nodup_cons] at h
    rw [List.map_cons, List.lookup_cons]
    cases hmember with
    | head => simp
    | tail _ hmember =>
      have hother : member.1 ≠ first.1 := by
        intro heq
        exact h.1 (heq ▸ List.mem_map_of_mem hmember)
      simp only [Option.some_beq_some, beq_eq_false_iff_ne.mpr hother]
      exact ih h.2 hmember

/-- The fields of a record that is written as an object with all of its fields. -/
theorem fields?_ofMembers {members : List (String × Json)} (h : (members.map Prod.fst).Nodup) :
    fields? (members.map Prod.fst) (ofMembers members)
      = some (members.map fun member => some member.2) := by
  simp only [ofMembers, fields?, hasValidKeys_ofMembers h, if_true, List.map_map]
  congr 1
  apply List.map_congr_left
  intro member hmember
  exact lookup_ofMembers h hmember

/-- A record, when its parts are read from the fields as they were written. -/
theorem record_ofMembers {α : Type} {names : List String}
    {make : Nat → List (Option Json) → Option α} {members : List (String × Json)} {a : α}
    (hnames : members.map Prod.fst = names) (hnodup : names.Nodup)
    (hmake : ∀ depth b, make depth (members.map fun member => some member.2) = some b
      ↔ (∀ member ∈ members, nesting member.2 ≤ depth) ∧ a = b) (depth : Nat) (b : α) :
    record names make depth (ofMembers members) = some b
      ↔ nesting (ofMembers members) ≤ depth ∧ a = b := by
  subst hnames
  cases depth with
  | zero => simp only [record, nesting_ofMembers_pos, false_and, reduceCtorEq]
  | succ depth =>
    rw [record, fields?_ofMembers hnodup, Option.bind_some, hmake, nesting_ofMembers_le]

/-- A field that must be there, in front of what is made of it. -/
theorem required_bind {α β : Type} {read : Reader α} {toJson : α → Json} (h : Inverts read toJson)
    (depth : Nat) (a : α) (make : α → Option β) (b : β) :
    (required read depth (some (toJson a))).bind make = some b
      ↔ nesting (toJson a) ≤ depth ∧ make a = some b := by
  rw [required, Option.bind_some, Option.bind_eq_some_iff]
  simp only [h depth a]
  constructor
  · intro hread
    obtain ⟨_, ⟨hdepth, rfl⟩, hb⟩ := hread
    exact ⟨hdepth, hb⟩
  · intro hread
    exact ⟨a, ⟨hread.1, rfl⟩, hread.2⟩

/-- A field that has a default is written nevertheless. -/
theorem defaulted_bind {α β : Type} {read : Reader α} {toJson : α → Json}
    (h : Inverts read toJson) (default : α) (depth : Nat) (a : α) (make : α → Option β) (b : β) :
    (defaulted default read depth (some (toJson a))).bind make = some b
      ↔ nesting (toJson a) ≤ depth ∧ make a = some b :=
  required_bind h depth a make b

/-! ## Variants -/

/-- What is made of a value that is read. -/
theorem map_eq_some_of {α β : Type} {read? : Option α} {a : α} {fits : Prop}
    (h : ∀ b, read? = some b ↔ fits ∧ a = b) (make : α → β) (b : β) :
    read?.map make = some b ↔ fits ∧ make a = b := by
  simp only [Option.map_eq_some_iff, h]
  constructor
  · intro hread
    obtain ⟨_, ⟨hfits, rfl⟩, hb⟩ := hread
    exact ⟨hfits, hb⟩
  · intro hread
    exact ⟨a, ⟨hread.1, rfl⟩, hread.2⟩

theorem map_eq_some_iff {α β : Type} {read : Reader α} {toJson : α → Json}
    (h : Inverts read toJson) (make : α → β) (depth : Nat) (a : α) (b : β) :
    (read depth (toJson a)).map make = some b ↔ nesting (toJson a) ≤ depth ∧ make a = b :=
  map_eq_some_of (h depth a) make b

section
variable {α : Type} {plain? : String → Option α} {payload? : String → Nat → Json → Option α}

theorem variant_plain {tag : String} {a : α} (h : plain? tag = some a) (depth : Nat) (b : α) :
    variant plain? payload? depth (ofText tag) = some b
      ↔ nesting (ofText tag) ≤ depth ∧ a = b := by
  have hread : variant plain? payload? depth (ofText tag) = plain? tag := by cases depth <;> rfl
  simp [hread, h]

theorem variant_payload {a : α} {tag : String} {payload : Json} (hplain : plain? tag = none)
    (h : ∀ depth b, payload? tag depth payload = some b ↔ nesting payload ≤ depth ∧ a = b)
    (depth : Nat) (b : α) :
    variant plain? payload? depth (ofMembers [(tag, payload)]) = some b
      ↔ nesting (ofMembers [(tag, payload)]) ≤ depth ∧ a = b := by
  cases depth with
  | zero =>
    simp [variant, ofMembers, nesting]
  | succ depth =>
    have hread : variant plain? payload? (depth + 1) (ofMembers [(tag, payload)])
        = payload? tag depth payload := by
      simp only [variant, ofMembers, List.map_cons, List.map_nil, hplain]
    rw [hread, h, nesting_ofMembers_le]
    simp

/-- An enumeration is written as its tags. -/
theorem inverts_enumeration {tag : α → String} (h : ∀ a, plain? (tag a) = some a) :
    Inverts (variant plain? payload?) fun a => ofText (tag a) :=
  fun depth a b => variant_plain (h a) depth b

end

/-- `null` or a value that is not written as `null`. -/
theorem inverts_optional {α : Type} {read : Reader α} {toJson : α → Json} (h : Inverts read toJson)
    (hnull : ∀ a, toJson a ≠ .null) :
    Inverts (Reader.optional read) fun a? => (a?.map toJson).getD .null := by
  intro depth a? b?
  cases a? with
  | none => simp [Reader.optional]
  | some a =>
    have hread : Reader.optional read depth (toJson a) = (read depth (toJson a)).map some := by
      unfold Reader.optional
      split
      · next heq => exact absurd heq (hnull a)
      · rfl
    simp only [Option.map_some, Option.getD_some, hread, map_eq_some_iff h]

end StackContract.Json
