/-!
# Stacks

A stack is a list of values, the top one first, that knows its length, so that a limit on its size is
checked in one step however deep it is.

The list is the view: two stacks with the same list are equal, and each operation is told by what it
does to the list.
-/

namespace StackContract.Machine

/-- A list of values, the top one first, that knows its length. -/
structure Stack (α : Type) where
  toList : List α
  size : Nat
  size_eq : size = toList.length

namespace Stack

variable {α : Type}

/-- The stack with nothing on it. -/
def empty : Stack α := ⟨[], 0, rfl⟩

instance : Inhabited (Stack α) := ⟨empty⟩

theorem ext {s t : Stack α} (h : s.toList = t.toList) : s = t := by
  obtain ⟨_, _, rfl⟩ := s
  obtain ⟨_, _, rfl⟩ := t
  cases h
  rfl

/-- The stack of a list. -/
def ofList (items : List α) : Stack α := ⟨items, items.length, rfl⟩

/-- The stack with a value on top. -/
def push (s : Stack α) (a : α) : Stack α where
  toList := a :: s.toList
  size := s.size + 1
  size_eq := by rw [s.size_eq, List.length_cons]

/-- The stack with the values of a list on top, the first one topmost. -/
def pushList (s : Stack α) (items : List α) : Stack α where
  toList := items ++ s.toList
  size := items.length + s.size
  size_eq := by rw [s.size_eq, List.length_append]

/-- The top value and the stack below it. -/
def pop? : Stack α → Option (α × Stack α)
  | ⟨[], _, _⟩ => none
  | ⟨a :: rest, size, size_eq⟩ =>
    some (a, ⟨rest, size - 1, by rw [size_eq, List.length_cons, Nat.add_sub_cancel]⟩)

/-- The top `n` values, the topmost first, and the stack below them. -/
def popList? (s : Stack α) (n : Nat) : Option (List α × Stack α) :=
  if n ≤ s.size then
    some (s.toList.take n, ⟨s.toList.drop n, s.size - n, by rw [s.size_eq, List.length_drop]⟩)
  else none

/-- The stack without the value `n` places below the top. -/
def erase? (s : Stack α) (n : Nat) : Option (Stack α) :=
  if h : n < s.size then
    some ⟨s.toList.eraseIdx n, s.size - 1, by
      rw [s.size_eq, List.length_eraseIdx_of_lt (s.size_eq ▸ h)]⟩
  else none

/-! ## The list of a stack -/

@[simp] theorem toList_empty : (empty : Stack α).toList = [] := rfl

@[simp] theorem toList_ofList (items : List α) : (ofList items).toList = items := rfl

@[simp] theorem toList_push (s : Stack α) (a : α) : (s.push a).toList = a :: s.toList := rfl

@[simp] theorem toList_pushList (s : Stack α) (items : List α) :
    (s.pushList items).toList = items ++ s.toList := rfl

@[simp] theorem pop?_push (s : Stack α) (a : α) : (s.push a).pop? = some (a, s) := rfl

theorem pop?_eq_some_iff {s t : Stack α} {a : α} : s.pop? = some (a, t) ↔ s = t.push a := by
  constructor
  · intro h
    obtain ⟨_ | ⟨b, rest⟩, size, size_eq⟩ := s
    · cases h
    · cases h
      exact ext rfl
  · rintro rfl
    exact pop?_push t a

theorem pop?_eq_none_iff {s : Stack α} : s.pop? = none ↔ s.toList = [] := by
  obtain ⟨_ | ⟨a, rest⟩, size, size_eq⟩ := s
  · exact ⟨fun _ => rfl, fun _ => rfl⟩
  · exact ⟨nofun, nofun⟩

/-- The values below the top are left. -/
theorem pop?_of_toList {s : Stack α} {a : α} {rest : List α} (h : s.toList = a :: rest) :
    ∃ t, s.pop? = some (a, t) ∧ t.toList = rest := by
  obtain ⟨items, size, size_eq⟩ := s
  cases h
  exact ⟨_, rfl, rfl⟩

theorem popList?_pushList (s : Stack α) (items : List α) :
    (s.pushList items).popList? items.length = some (items, s) := by
  have h : items.length ≤ (s.pushList items).size := Nat.le_add_right ..
  rw [popList?, if_pos h]
  exact congrArg some (Prod.ext List.take_left (ext List.drop_left))

end Stack

end StackContract.Machine
