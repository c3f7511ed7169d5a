import Mathlib.Algebra.Group.Nat.Defs
import Mathlib.Data.List.Perm.Basic
import StackContract.Proofs.Operands
/-!
# Counted rearrangements

The instructions that copy, move or drop the item at a given place, or reverse a given number of items, as
functions on the list of the items below their count (`rearrangements_exact`). The instructions without a
count are cases of these: `execute_shorthand`, `nip_eq_drop`, `tuck_eq_swap_over`.

Places are counted by 64 bits, the top being the first. So there is no place for the largest count, on
which the machine breaks down.
-/

namespace StackContract.Machine

open Script Number

variable {n : Nat} {items items' : List Item}

/-! ## On lists -/

/-- The items with a copy of the one at `n` on top. -/
def picked (n : Nat) (items : List Item) : Option (List Item) :=
  items[n]?.map (· :: items)

/-- The items with the one at `n` moved to the top. -/
def rolled (n : Nat) (items : List Item) : Option (List Item) :=
  items[n]?.map (· :: items.eraseIdx n)

/-- The items without the one at `n`. -/
def dropped (n : Nat) (items : List Item) : Option (List Item) :=
  if n < items.length then some (items.eraseIdx n) else none

/-- The items with the top `n` reversed. -/
def reversed (n : Nat) (items : List Item) : Option (List Item) :=
  if n ≤ items.length then some ((items.take n).reverse ++ items.drop n) else none

theorem exists_of_picked (h : picked n items = some items') :
    ∃ item ∈ items, items' = item :: items := by
  obtain ⟨item, hitem, rfl⟩ := Option.map_eq_some_iff.mp h
  exact ⟨item, List.mem_of_getElem? hitem, rfl⟩

theorem perm_of_rolled (h : rolled n items = some items') : items'.Perm items := by
  obtain ⟨item, hitem, rfl⟩ := Option.map_eq_some_iff.mp h
  obtain ⟨hlt, rfl⟩ := List.getElem?_eq_some_iff.mp hitem
  exact List.getElem_cons_eraseIdx_perm hlt

theorem perm_of_dropped (h : dropped n items = some items') :
    ∃ item, (item :: items').Perm items := by
  unfold dropped at h
  split at h
  · next hlt =>
    cases h
    exact ⟨items[n], List.getElem_cons_eraseIdx_perm hlt⟩
  · cases h

theorem perm_of_reversed (h : reversed n items = some items') : items'.Perm items := by
  unfold reversed at h
  split at h
  · cases h
    have hperm := (List.reverse_perm (items.take n)).append_right (items.drop n)
    rw [List.take_append_drop] at hperm
    exact hperm
  · cases h

/-! ## On stacks -/

variable (stack : Stack Item)

theorem toList_pickAt (n : Nat) : (pickAt n stack).map Stack.toList = picked n stack.toList := by
  unfold pickAt picked
  rw [Option.map_map]
  rfl

theorem toList_erase? (n : Nat) : (stack.erase? n).map Stack.toList = dropped n stack.toList := by
  unfold Stack.erase? dropped
  rw [← stack.size_eq]
  split <;> rfl

theorem toList_rollAt (n : Nat) : (rollAt n stack).map Stack.toList = rolled n stack.toList := by
  have herase := toList_erase? stack n
  unfold rollAt rolled
  cases hitem : stack.toList[n]? with
  | none => rfl
  | some item =>
    obtain ⟨hlt, -⟩ := List.getElem?_eq_some_iff.mp hitem
    unfold dropped at herase
    rw [if_pos hlt] at herase
    obtain ⟨rest, hrest, hlist⟩ := Option.map_eq_some_iff.mp herase
    simp [hrest, hlist]

theorem toList_reverseTop (n : Nat) :
    (reverseTop n stack).map Stack.toList = reversed n stack.toList := by
  unfold reverseTop Stack.popList? reversed
  rw [← stack.size_eq]
  split <;> rfl

/-! ## On the machine -/

variable {i j k : Located} {s s' : State} {below : Stack Item} {v : Int128}

/-- The machine behind a rearrangement of the items on `below`, which are left where it has no result. -/
def State.rearranged (s : State) (below : Stack Item) :
    Option (List Item) → EStateM.Result Fault State Flow
  | some items => .ok .next (s.withStack (.ofList items))
  | none => .error (.stackUnderflow s.address) (s.withStack below)

theorem toList_of_rearranged {result : Option (List Item)}
    (h : s.rearranged below result = .ok .next s') : result = some s'.memory.stack.toList := by
  cases result with
  | none => cases h
  | some items =>
    cases h
    rfl

theorem withMemory_rearrange {f : Stack Item → Option (Stack Item)} {g : List Item → Option (List Item)}
    (hlists : ∀ stack, (f stack).map Stack.toList = g stack.toList) {heap : Heap}
    (hheap : heap = s.memory.heap) :
    s.withMemory (fun _ => Flow.next) (rearrange f s.address ⟨below, heap⟩)
      = s.rearranged below (g below.toList) := by
  subst hheap
  rw [rearrange_eq, ← hlists]
  cases f below with
  | none => rfl
  | some stack => exact congrArg (fun t => EStateM.Result.ok Flow.next (s.withStack t)) (Stack.ext rfl)

/-- The largest count has no place. -/
theorem popPlace_eq {item : Item} {heap : Heap} (hitem : item.asInteger heap = .ok v) (hv : v.val = n)
    (hn : n < 2 ^ 64) (address : Nat) :
    popPlace address ⟨below.push item, heap⟩
      = if n + 1 < 2 ^ 64 then .ok n ⟨below, heap⟩ else .error .breakdown ⟨below, heap⟩ := by
  unfold popPlace
  rw [Eval.bind_apply, popCount_eq hitem hv hn]
  show (if n + 1 < 2 ^ 64 then pure n else throw .breakdown : Eval Nat) address ⟨below, heap⟩ = _
  split <;> rfl

/-- An instruction without a count. -/
theorem execute_fixed (op : Shuffle) {f : Stack Item → Option (Stack Item)}
    {g : List Item → Option (List Item)} (hop : operation i.opcode = .simple (.shuffle op))
    (hrun : op.run = rearrange f) (hlists : ∀ stack, (f stack).map Stack.toList = g stack.toList) :
    execute i s = s.rearranged s.memory.stack (g s.memory.stack.toList) := by
  rw [execute_simple hop]
  show s.withMemory _ (op.run s.address ⟨s.memory.stack, s.memory.heap⟩) = _
  rw [hrun]
  exact withMemory_rearrange hlists rfl

/-- An instruction on the item at a counted place. -/
theorem execute_place (op : Shuffle) {f : Nat → Stack Item → Option (Stack Item)}
    {g : Nat → List Item → Option (List Item)} (hop : operation i.opcode = .simple (.shuffle op))
    (hrun : op.run = do rearrange (f (← popPlace)))
    (hlists : ∀ stack n, (f n stack).map Stack.toList = g n stack.toList)
    (h : s.HasInteger v below) (hv : v.val = n) (hn : n < 2 ^ 64) :
    execute i s = if n + 1 < 2 ^ 64 then s.rearranged below (g n below.toList)
      else .error .breakdown (s.withStack below) := by
  obtain ⟨item, hstack, hitem⟩ := h
  rw [execute_simple hop, State.memory_eq hstack]
  show s.withMemory _ (op.run s.address ⟨below.push item, s.memory.heap⟩) = _
  rw [hrun, Eval.bind_apply, popPlace_eq hitem hv hn]
  by_cases hplace : n + 1 < 2 ^ 64
  · rw [if_pos hplace, if_pos hplace]
    exact withMemory_rearrange (hlists · n) rfl
  · rw [if_neg hplace, if_neg hplace]
    rfl

theorem execute_reverseN (hop : i.opcode = .reverseN) (h : s.HasInteger v below) (hv : v.val = n)
    (hn : n < 2 ^ 64) : execute i s = s.rearranged below (reversed n below.toList) := by
  obtain ⟨item, hstack, hitem⟩ := h
  have hoperation : operation i.opcode = .simple (.shuffle .reverseCount) := by
    rw [hop]
    rfl
  rw [execute_simple hoperation, State.memory_eq hstack]
  show s.withMemory _ ((Eval.popCount >>= _ : Eval Unit) s.address _) = _
  rw [Eval.bind_apply, popCount_eq hitem hv hn]
  exact withMemory_rearrange (toList_reverseTop · n) rfl

/-- What the counted rearrangements make of the items below a count. -/
structure CountedExact (i : Located) (s : State) (below : Stack Item) (n : Nat) : Prop where
  pick : i.opcode = .pick → n + 1 < 2 ^ 64 → execute i s = s.rearranged below (picked n below.toList)
  roll : i.opcode = .roll → n + 1 < 2 ^ 64 → execute i s = s.rearranged below (rolled n below.toList)
  drop : i.opcode = .xDrop → n + 1 < 2 ^ 64 → execute i s = s.rearranged below (dropped n below.toList)
  reverse : i.opcode = .reverseN → execute i s = s.rearranged below (reversed n below.toList)
  beyond : i.opcode = .pick ∨ i.opcode = .roll ∨ i.opcode = .xDrop → n + 1 = 2 ^ 64 →
    execute i s = .error .breakdown (s.withStack below)

/-- Counted rearrangements do what they do to the list of the items, for every count below 2^64 but
the largest one where it is a place. -/
theorem rearrangements_exact (h : s.HasInteger v below) (hv : v.val = n) (hn : n < 2 ^ 64) :
    CountedExact i s below n where
  pick hop hplace := by
    rw [execute_place .pick (by rw [hop]; rfl) rfl toList_pickAt h hv hn, if_pos hplace]
  roll hop hplace := by
    rw [execute_place .roll (by rw [hop]; rfl) rfl toList_rollAt h hv hn, if_pos hplace]
  drop hop hplace := by
    rw [execute_place .dropAt (by rw [hop]; rfl) rfl toList_erase? h hv hn, if_pos hplace]
  reverse hop := execute_reverseN hop h hv hn
  beyond hop hlast := by
    have hplace : ¬ n + 1 < 2 ^ 64 := by omega
    rcases hop with hop | hop | hop
    · rw [execute_place .pick (by rw [hop]; rfl) rfl toList_pickAt h hv hn, if_neg hplace]
    · rw [execute_place .roll (by rw [hop]; rfl) rfl toList_rollAt h hv hn, if_neg hplace]
    · rw [execute_place .dropAt (by rw [hop]; rfl) rfl toList_erase? h hv hn, if_neg hplace]

/-! ## Without a count -/

/-- The counted rearrangement that an instruction without a count stands for, and the count. -/
def shorthand : Opcode → Option (Opcode × Nat)
  | .dup => some (.pick, 0)
  | .over => some (.pick, 1)
  | .swap => some (.reverseN, 2)
  | .reverse3 => some (.reverseN, 3)
  | .reverse4 => some (.reverseN, 4)
  | .rot => some (.roll, 2)
  | _ => none

/-- An instruction without a count does to the whole stack what a counted one does below its count. -/
theorem fixed_eq_counted (op : Shuffle) {f : Stack Item → Option (Stack Item)}
    {g : List Item → Option (List Item)} {stack : Stack Item}
    (hop : operation i.opcode = .simple (.shuffle op)) (hrun : op.run = rearrange f)
    (hlists : ∀ stack, (f stack).map Stack.toList = g stack.toList)
    (hcounted : execute j (s.withStack stack)
      = (s.withStack stack).rearranged s.memory.stack (g s.memory.stack.toList)) :
    execute i s = execute j (s.withStack stack) := by
  rw [hcounted, execute_fixed op hop hrun hlists]
  cases g s.memory.stack.toList <;> rfl

theorem execute_shorthand (h : shorthand i.opcode = some (j.opcode, n)) (hv : v.val = n) :
    execute i s = execute j (s.withStack (s.memory.stack.push (.integer v))) := by
  have hexact (hn : n < 2 ^ 64) := rearrangements_exact (i := j)
    (s.hasInteger_withStack v s.memory.stack) hv hn
  unfold shorthand at h
  split at h
  case h_1 hop =>
    obtain ⟨hj, rfl⟩ := Prod.mk.inj (Option.some.inj h)
    exact fixed_eq_counted .dup (by rw [hop]; rfl) rfl (toList_pickAt · 0)
      ((hexact (by decide)).pick hj.symm (by decide))
  case h_2 hop =>
    obtain ⟨hj, rfl⟩ := Prod.mk.inj (Option.some.inj h)
    exact fixed_eq_counted .over (by rw [hop]; rfl) rfl (toList_pickAt · 1)
      ((hexact (by decide)).pick hj.symm (by decide))
  case h_3 hop =>
    obtain ⟨hj, rfl⟩ := Prod.mk.inj (Option.some.inj h)
    exact fixed_eq_counted .swap (by rw [hop]; rfl) rfl (toList_reverseTop · 2)
      ((hexact (by decide)).reverse hj.symm)
  case h_4 hop =>
    obtain ⟨hj, rfl⟩ := Prod.mk.inj (Option.some.inj h)
    exact fixed_eq_counted (.reverse 3) (by rw [hop]; rfl) rfl (toList_reverseTop · 3)
      ((hexact (by decide)).reverse hj.symm)
  case h_5 hop =>
    obtain ⟨hj, rfl⟩ := Prod.mk.inj (Option.some.inj h)
    exact fixed_eq_counted (.reverse 4) (by rw [hop]; rfl) rfl (toList_reverseTop · 4)
      ((hexact (by decide)).reverse hj.symm)
  case h_6 hop =>
    obtain ⟨hj, rfl⟩ := Prod.mk.inj (Option.some.inj h)
    exact fixed_eq_counted .rotate (by rw [hop]; rfl) rfl (toList_rollAt · 2)
      ((hexact (by decide)).roll hj.symm (by decide))
  case h_7 => cases h

/-- The items with a copy of the top one below the second. -/
def tucked : List Item → Option (List Item)
  | a :: b :: rest => some (a :: b :: a :: rest)
  | _ => none

theorem toList_tuckTop : (tuckTop stack).map Stack.toList = tucked stack.toList := by
  obtain ⟨items, size, size_eq⟩ := stack
  match items with
  | [] => rfl
  | [a] => rfl
  | a :: b :: rest => rfl

/-- The second item is brought up, and then copied over the first. -/
theorem tuck_eq_swap_over (htuck : i.opcode = .tuck) (hswap : j.opcode = .swap)
    (hover : k.opcode = .over) : execute i s = (do let _ ← execute j; execute k : Exec Flow) s := by
  rw [bind_apply, execute_fixed .tuck (by rw [htuck]; rfl) rfl toList_tuckTop,
    execute_fixed .swap (by rw [hswap]; rfl) rfl (toList_reverseTop · 2)]
  match s.memory.stack.toList with
  | [] => rfl
  | [a] => rfl
  | a :: b :: rest =>
    have hreversed : reversed 2 (a :: b :: rest) = some (b :: a :: rest) := by simp [reversed]
    rw [hreversed]
    show _ = execute k (s.withStack (.ofList (b :: a :: rest)))
    rw [execute_fixed .over (by rw [hover]; rfl) rfl (toList_pickAt · 1)]
    rfl

/-- What an instruction comes to, whatever a fault leaves behind. -/
def outcome : EStateM.Result Fault State Flow → Except Fault (Flow × State)
  | .ok flow s => .ok (flow, s)
  | .error fault _ => .error fault

/-- The item below the top is removed as the one at its place. Where there is none, the top is gone. -/
theorem nip_eq_drop (hnip : i.opcode = .nip) (hdrop : j.opcode = .xDrop) :
    outcome (execute i s)
      = outcome (execute j (s.withStack (s.memory.stack.push (.integer .one)))) := by
  have hexact := rearrangements_exact (i := j) (s.hasInteger_withStack .one s.memory.stack)
    (rfl : Int128.one.val = (1 : Nat)) (by decide)
  have hoperation : operation i.opcode = .simple (.shuffle .nip) := by
    rw [hnip]
    rfl
  rw [hexact.drop hdrop (by decide), execute_simple hoperation]
  obtain ⟨items, hitems⟩ : ∃ items, s.memory.stack = .ofList items := ⟨_, Stack.ext rfl⟩
  rw [State.memory_eq hitems]
  match items with
  | [] => rfl
  | [a] => rfl
  | a :: b :: rest =>
    have hdropped : dropped 1 (a :: b :: rest) = some (a :: rest) := by simp [dropped]
    show _ = outcome (State.rearranged _ _ (dropped 1 (a :: b :: rest)))
    rw [hdropped]
    rfl

/-! ## What is kept -/

/-- Nothing is lost but what is to be dropped, and nothing is new but a copy. -/
structure Keeps (opcode : Opcode) (before after : List Item) : Prop where
  copy : opcode = .pick → ∃ item ∈ before, after = item :: before
  move : opcode = .roll ∨ opcode = .reverseN → after.Perm before
  drop : opcode = .xDrop → ∃ item, (item :: after).Perm before

theorem keeps_of_execute (h : s.HasInteger v below) (hv : v.val = n) (hn : n < 2 ^ 64)
    (hexec : execute i s = .ok .next s') : Keeps i.opcode below.toList s'.memory.stack.toList := by
  have hexact := rearrangements_exact (i := i) h hv hn
  have hplace (hop : i.opcode = .pick ∨ i.opcode = .roll ∨ i.opcode = .xDrop) : n + 1 < 2 ^ 64 := by
    by_contra hlast
    rw [hexact.beyond hop (by omega)] at hexec
    cases hexec
  constructor
  case copy =>
    intro hop
    rw [hexact.pick hop (hplace (.inl hop))] at hexec
    exact exists_of_picked (toList_of_rearranged hexec)
  case move =>
    rintro (hop | hop)
    · rw [hexact.roll hop (hplace (.inr (.inl hop)))] at hexec
      exact perm_of_rolled (toList_of_rearranged hexec)
    · rw [hexact.reverse hop] at hexec
      exact perm_of_reversed (toList_of_rearranged hexec)
  case drop =>
    intro hop
    rw [hexact.drop hop (hplace (.inr (.inr hop)))] at hexec
    exact perm_of_dropped (toList_of_rearranged hexec)

/-- The largest count of 64 bits. -/
def lastCount : Int128 := ⟨0xffff_ffff_ffff_ffff, by decide, by decide⟩

/-- The machine breaks down on the largest count, for which no stack has enough items. -/
theorem pick_lastCount (below : Stack Item) :
    execute ⟨⟨.pick, []⟩, 0⟩ (State.withStack { script := #[] } (below.push (.integer lastCount)))
      = .error .breakdown (State.withStack { script := #[] } below) :=
  (rearrangements_exact (n := 0xffff_ffff_ffff_ffff) (State.hasInteger_withStack ..) rfl
    (by decide)).beyond (.inl rfl) (by decide)

end StackContract.Machine
