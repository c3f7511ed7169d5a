import Mathlib.Tactic.IntervalCases
import StackContract.Proofs.StringChains
/-!
# Searches by hash

What a switch over strings stands for in the source is a search: tests on the hash lead to buckets, and
in a bucket leaves compare a slot with keys (`Moves`). How tests on numbers turn out is left open here,
so that nothing depends on the hash.

A region is accepted whatever its tests lead to. Where they lead nowhere but to leaves and to the default
target (`IsTidy`), the search is left for the default target, or for that of a leaf whose slot is
equal to its key (`isLeft_of_searches`). If it finds the leaf of every key, it is left for where the chain
of comparisons goes (`regionsCollapse_of_build`).
-/

namespace StackContract.Contract

open Lowering Machine Number
open Compile (ofInt32 ofInt64)
open Source (Condition Module Op Place)

/-! ## The source -/

/-- The operation at a position. -/
def opAt? (body : Array Source.Instruction) (position : Nat) : Option Op :=
  body[position]?.map (·.op)

/-- The position that a branch to an offset leads to: that of the first instruction there. -/
def positionOf? (body : Array Source.Instruction) (offset : UInt32) : Option Nat :=
  body.toList.findIdx? fun i => i.offset = offset

/-- A search in front of an instruction. -/
structure Search where
  position : Nat
  /-- The items on the stack, the top one first. -/
  stack : List Item
  /-- The slots of the method. -/
  frame : Frame

/-- The number of items that a branch takes off the stack. -/
def operandsOf : Condition → Nat
  | .always | .leave => 0
  | .ifTrue | .ifFalse => 1
  | _ => 2

/-- Whether a branch may be taken, or not be taken, with these items on top. How it turns out is open but
for truth values. -/
def Turns : Condition → List Item → Bool → Prop
  | .always, _, taken | .leave, _, taken => taken = true
  | .ifTrue, .boolean b :: _, taken => taken = b
  | .ifFalse, .boolean b :: _, taken => taken = !b
  | _, _, _ => True

/-- The item that an operation pushes, if that is all it does. -/
def pushed? (frame : Frame) : Op → Option Item
  | .literal32 v => some (.integer (ofInt32 v))
  | .literal64 v => some (.integer (ofInt64 v))
  | .loadString text => some (.byteString (Text.utf8 text))
  | .load place index => (itemsOf frame place)[index.toNat]?
  | _ => none

/-- What the operations do that may stand in a region. -/
inductive Moves (body : Array Source.Instruction) (heap : Heap) : Search → Search → Prop
  | nop {position : Nat} {stack : List Item} {frame : Frame} (hop : opAt? body position = some .nop) :
    Moves body heap ⟨position, stack, frame⟩ ⟨position + 1, stack, frame⟩
  | push {position : Nat} {stack : List Item} {frame : Frame} {op : Op} {item : Item}
    (hop : opAt? body position = some op) (hitem : pushed? frame op = some item) :
    Moves body heap ⟨position, stack, frame⟩ ⟨position + 1, item :: stack, frame⟩
  | store {position : Nat} {stack : List Item} {frame : Frame} {place : Place} {index : UInt16}
    {item : Item} (hop : opAt? body position = some (.store place index)) :
    Moves body heap ⟨position, item :: stack, frame⟩ ⟨position + 1, stack,
      withItems frame place ((itemsOf frame place).setIfInBounds index.toNat item)⟩
  | convert {position : Nat} {stack : List Item} {frame : Frame} {conversion : Source.Conversion}
    {item item' : Item} (hop : opAt? body position = some (.convert conversion)) :
    Moves body heap ⟨position, item :: stack, frame⟩ ⟨position + 1, item' :: stack, frame⟩
  | equals {position : Nat} {stack : List Item} {frame : Frame} {a b : Item}
    (hop : opAt? body position = some (.call (.intrinsic .stringEquals))) :
    Moves body heap ⟨position, b :: a :: stack, frame⟩
      ⟨position + 1, .boolean (a.equals heap b) :: stack, frame⟩
  | pass {position : Nat} {stack : List Item} {frame : Frame} {condition : Condition} {target : UInt32}
    {operands : List Item} (hop : opAt? body position = some (.branch condition target))
    (hoperands : operands.length = operandsOf condition) (hturns : Turns condition operands false) :
    Moves body heap ⟨position, operands ++ stack, frame⟩ ⟨position + 1, stack, frame⟩
  | jump {position position' : Nat} {stack : List Item} {frame : Frame} {condition : Condition}
    {target : UInt32} {operands : List Item} (hop : opAt? body position = some (.branch condition target))
    (hoperands : operands.length = operandsOf condition) (hturns : Turns condition operands true)
    (htarget : positionOf? body target = some position') :
    Moves body heap ⟨position, operands ++ stack, frame⟩ ⟨position', stack, frame⟩

/-- A search at positions of a region, up to where it is. -/
inductive Searches (body : Array Source.Instruction) (heap : Heap) (contains : Nat → Prop) :
    Search → Search → Prop
  | here {s : Search} : Searches body heap contains s s
  | move {s s' t : Search} (hinside : contains s.position) (h : Moves body heap s s')
    (hrest : Searches body heap contains s' t) : Searches body heap contains s t

/-- The search behind the hash at a position leaves its region for a source offset. -/
def LeavesRegion (body : Array Source.Instruction) (position : Nat) (region : Region) (heap : Heap)
    (frame : Frame) (stack : List Item) (target : UInt32) (stack' : List Item) : Prop :=
  ∃ s, Searches body heap (region.Contains position) ⟨position + 1, stack, frame⟩ s
    ∧ ¬ region.Contains position s.position ∧ s.stack = stack'
    ∧ ∃ i, body[s.position]? = some i ∧ i.offset = target

/-! ## Tidy regions -/

/-- A position in a leaf, but not its first one. -/
def IsWithin (leaf : Leaf) (q : Nat) : Prop :=
  leaf.position < q ∧ q ≤ leaf.position + 3

/-- Whether control may go on behind an operation. -/
def goesOn : Op → Bool
  | .branch .always _ | .branch .leave _ => false
  | _ => true

/-- The positions that control may go to from an operation. -/
inductive LeadsTo (body : Array Source.Instruction) (position : Nat) : Op → Nat → Prop
  | next {op : Op} (h : goesOn op = true) : LeadsTo body position op (position + 1)
  | target {condition : Condition} {target : UInt32} {position' : Nat}
    (h : positionOf? body target = some position') :
    LeadsTo body position (.branch condition target) position'

/-- The number of items that an operation takes off the stack. -/
def takes : Op → Nat
  | .store _ _ | .convert _ => 1
  | .call (.intrinsic .stringEquals) => 2
  | .branch condition _ => operandsOf condition
  | _ => 0

/-- The number of items that an operation puts on the stack. -/
def gives : Op → Nat
  | .literal32 _ | .literal64 _ | .loadString _ | .load _ _ | .convert _
  | .call (.intrinsic .stringEquals) => 1
  | _ => 0

/-- The number of items that a search has on the stack, at each position: there is the hash at first, and
nothing behind the region. -/
structure Balances (body : Array Source.Instruction) (position : Nat) (region : Region)
    (depth : Nat → Nat) : Prop where
  start : depth (position + 1) = 1
  outside : ∀ q, ¬ region.Contains position q → depth q = 0
  balance : ∀ q op p, region.Contains position q → opAt? body q = some op → LeadsTo body q op p →
    takes op ≤ depth q ∧ depth p + takes op = depth q + gives op

/-- A search that leads nowhere but to its leaves and to its default target. -/
structure IsTidy (body : Array Source.Instruction) (position : Nat) (region : Region) : Prop where
  /-- Other branches than those of the leaves go to the default target, or to an instruction of the region
  that is not within a leaf. -/
  branches : ∀ q condition target, region.Contains position q →
    opAt? body q = some (.branch condition target) → (∀ leaf ∈ region.leaves, q ≠ leaf.position + 3) →
    target = region.defaultTarget ∨ ∃ p, positionOf? body target = some p ∧ region.Contains position p
      ∧ ∀ leaf ∈ region.leaves, ¬ IsWithin leaf p
  /-- Nothing is stored where a leaf looks. -/
  stores : ∀ q place index, region.Contains position q → opAt? body q = some (.store place index) →
    ∀ leaf ∈ region.leaves, leaf.place = place → leaf.index ≠ index
  /-- The number of items on the stack goes by positions. -/
  depths : ∃ depth, Balances body position region depth

/-- A switch over strings in a method whose region is tidy goes where the search goes that it stands for,
if that finds the leaf of every key. -/
def RegionsCollapse (program : Program) (method : PlacedMethod) (routine : Routine) : Prop :=
  ∀ position i, routine.scope.body[position]? = some i → i.op = .call (.intrinsic .stringHash) →
    ∃ before segment after region, routine.segments = before ++ segment :: after
      ∧ segment.position = position ∧ segment.source = i
      ∧ region.IsBehind routine.scope.body position
      ∧ (IsTidy routine.scope.body position region →
        ∀ ⦃s : State⦄ ⦃frame : Frame⦄ ⦃callers : List Frame⦄ ⦃hash hash' : Item⦄ ⦃rest stack' : List Item⦄
          ⦃target : UInt32⦄,
        InFrontOf program method routine before segment s → s.frames.toList = frame :: callers →
        (∀ leaf ∈ region.leaves, leaf.index.toNat < (itemsOf frame leaf.place).size) →
        s.memory.stack.toList = hash :: rest → rest.length + 2 ≤ s.limits.stack →
        LeavesRegion routine.scope.body position region s.memory.heap frame (hash' :: rest) target
          stack' →
        (∀ leaf ∈ region.leaves, isEqualToKey frame s.memory.heap leaf = true → target = leaf.target) →
        ∃ n address, n ≤ instructionCount segment.lowered.directives
          ∧ Advances n s { s with memory := ⟨.ofList stack', s.memory.heap⟩, address }
          ∧ ExitsAt program method routine before segment (some target) address)

/-! ## Moves -/

section

variable {body : Array Source.Instruction} {heap : Heap} {s s' : Search}

theorem goesOn_of_turns {condition : Condition} {target : UInt32} {operands : List Item}
    (h : Turns condition operands false) : goesOn (.branch condition target) = true := by
  cases condition <;> first | rfl | cases h

theorem of_pushed? {frame : Frame} {op : Op} {item : Item} (h : pushed? frame op = some item) :
    goesOn op = true ∧ takes op = 0 ∧ gives op = 1 := by
  unfold pushed? at h
  split at h
  case h_5 => cases h
  all_goals exact ⟨rfl, rfl, rfl⟩

/-- An operation takes items off the stack, puts others there, and leads to another position. -/
theorem Moves.effect (h : Moves body heap s s') : ∃ op taken given below,
    opAt? body s.position = some op ∧ LeadsTo body s.position op s'.position
      ∧ s.stack = taken ++ below ∧ s'.stack = given ++ below
      ∧ taken.length = takes op ∧ given.length = gives op := by
  cases h with
  | nop hop => exact ⟨_, [], [], _, hop, .next rfl, rfl, rfl, rfl, rfl⟩
  | @push _ _ _ _ item hop hitem =>
    obtain ⟨hgoesOn, htakes, hgives⟩ := of_pushed? hitem
    exact ⟨_, [], [item], _, hop, .next hgoesOn, rfl, rfl, htakes.symm, hgives.symm⟩
  | @store _ _ _ _ _ item hop => exact ⟨_, [item], [], _, hop, .next rfl, rfl, rfl, rfl, rfl⟩
  | @convert _ _ _ _ item item' hop => exact ⟨_, [item], [item'], _, hop, .next rfl, rfl, rfl, rfl, rfl⟩
  | @equals _ _ _ a b hop => exact ⟨_, [b, a], [_], _, hop, .next rfl, rfl, rfl, rfl, rfl⟩
  | pass hop hoperands hturns =>
    exact ⟨_, _, [], _, hop, .next (goesOn_of_turns hturns), rfl, rfl, hoperands, rfl⟩
  | jump hop hoperands _ htarget => exact ⟨_, _, [], _, hop, .target htarget, rfl, rfl, hoperands, rfl⟩

/-- The items above the first ones are as many as the depth of the position says. -/
theorem Moves.depth {rest above : List Item} {depth : Nat → Nat} (h : Moves body heap s s')
    (hdepth : ∀ op p, opAt? body s.position = some op → LeadsTo body s.position op p →
      takes op ≤ depth s.position ∧ depth p + takes op = depth s.position + gives op)
    (hstack : s.stack = above ++ rest) (habove : above.length = depth s.position) :
    ∃ above', s'.stack = above' ++ rest ∧ above'.length = depth s'.position := by
  obtain ⟨op, taken, given, below, hop, hleads, hbefore, hafter, htaken, hgiven⟩ := h.effect
  obtain ⟨hle, hbalance⟩ := hdepth op _ hop hleads
  obtain ⟨left, rfl, rfl⟩ : ∃ left, above = taken ++ left ∧ below = left ++ rest := by
    rcases List.append_eq_append_iff.mp (hbefore.symm.trans hstack) with
      ⟨left, rfl, rfl⟩ | ⟨extra, rfl, rfl⟩
    · exact ⟨left, rfl, rfl⟩
    · rw [List.length_append] at htaken
      have hnone : extra = [] := List.eq_nil_of_length_eq_zero (by omega)
      rw [hnone]
      exact ⟨[], by simp⟩
  refine ⟨given ++ left, by rw [hafter, List.append_assoc], ?_⟩
  rw [List.length_append] at habove ⊢
  omega

/-- Moves change no slot but those that are stored to. -/
theorem Moves.slot (h : Moves body heap s s') {place : Place} {index : UInt16}
    (hstores : ∀ index', opAt? body s.position = some (.store place index') → index ≠ index') :
    (itemsOf s'.frame place)[index.toNat]? = (itemsOf s.frame place)[index.toNat]? := by
  cases h with
  | @store _ _ frame place' index' _ hop =>
    by_cases hplace : place' = place
    · subst hplace
      have hne : index'.toNat ≠ index.toNat := fun h => hstores index' hop (UInt16.toNat_inj.mp h.symm)
      have hitems : ∀ items, itemsOf (withItems frame place' items) place' = items := by
        intro items
        cases place' <;> rfl
      dsimp only
      rw [hitems, Array.getElem?_setIfInBounds_ne hne]
    · dsimp only
      have hitems : ∀ items, itemsOf (withItems frame place' items) place = itemsOf frame place := by
        intro items
        cases place' <;> cases place <;> first | rfl | exact absurd rfl hplace
      rw [hitems]
  | nop | push | convert | equals | pass | jump => rfl

/-! ## Leaves -/

/-- The instructions of a leaf. -/
structure IsIn (body : Array Source.Instruction) (leaf : Leaf) : Prop where
  load : opAt? body leaf.position = some (.load leaf.place leaf.index)
  key : opAt? body (leaf.position + 1) = some (.loadString leaf.key)
  equals : opAt? body (leaf.position + 2) = some (.call (.intrinsic .stringEquals))
  test : opAt? body (leaf.position + 3) = some (.branch .ifTrue leaf.target)

theorem isIn_of_leafAt? {leaf : Leaf} {position : Nat} (h : leafAt? body position = some leaf) :
    IsIn body leaf := by
  have hget : ∀ k, body[position + k]? = (body.toList.drop position)[k]? := by
    intro k
    rw [List.getElem?_drop, Array.getElem?_toList]
  unfold leafAt? at h
  split at h
  · next hdrop =>
    cases h
    constructor
    all_goals
      unfold opAt?
      first | rw [hget, hdrop] | rw [← Nat.add_zero position, hget, hdrop]
      rfl
  · cases h

/-- What a search within a leaf has on top of the stack: the slot, the key above it, whether they are
equal. -/
structure HasSeen (frame : Frame) (heap : Heap) (leaf : Leaf) (s : Search) : Prop where
  slot : s.position = leaf.position + 1 → ∃ item below,
    (itemsOf frame leaf.place)[leaf.index.toNat]? = some item ∧ s.stack = item :: below
  key : s.position = leaf.position + 2 → ∃ item below,
    (itemsOf frame leaf.place)[leaf.index.toNat]? = some item
      ∧ s.stack = .byteString (Text.utf8 leaf.key) :: item :: below
  verdict : s.position = leaf.position + 3 → ∃ below,
    s.stack = .boolean (isEqualToKey frame heap leaf) :: below

theorem HasSeen.outside {frame : Frame} {leaf : Leaf} (h : ¬ IsWithin leaf s.position) :
    HasSeen frame heap leaf s := by
  unfold IsWithin at h
  constructor <;>
  · intro hposition
    omega

theorem Moves.of_push {op : Op} (h : Moves body heap s s') (hop : opAt? body s.position = some op)
    (htakes : takes op = 0) (hgives : gives op = 1) :
    ∃ item, pushed? s.frame op = some item ∧ s'.stack = item :: s.stack := by
  cases h with
  | push hop' hitem =>
    cases hop.symm.trans hop'
    exact ⟨_, hitem, rfl⟩
  | nop hop' | pass hop' | jump hop' =>
    cases hop.symm.trans hop'
    cases hgives
  | store hop' | convert hop' | equals hop' =>
    cases hop.symm.trans hop'
    cases htakes

theorem Moves.of_equals (h : Moves body heap s s')
    (hop : opAt? body s.position = some (.call (.intrinsic .stringEquals))) :
    ∃ a b below, s.stack = b :: a :: below ∧ s'.stack = .boolean (a.equals heap b) :: below := by
  cases h with
  | equals => exact ⟨_, _, _, rfl, rfl⟩
  | push hop' hitem =>
    cases hop.symm.trans hop'
    cases hitem
  | nop hop' | pass hop' | jump hop' | store hop' | convert hop' => cases hop.symm.trans hop'

/-- A search sees what a leaf compares, one instruction after another, if it enters the leaf at its first
one. -/
theorem Moves.hasSeen {frame : Frame} {leaf : Leaf} (h : Moves body heap s s') (hin : IsIn body leaf)
    (hslot : (itemsOf s.frame leaf.place)[leaf.index.toNat]?
      = (itemsOf frame leaf.place)[leaf.index.toNat]?)
    (hseen : HasSeen frame heap leaf s)
    (hentry : IsWithin leaf s'.position → s'.position = s.position + 1) :
    HasSeen frame heap leaf s' := by
  have hprevious : ∀ k < 3, s'.position = leaf.position + (k + 1) → s.position = leaf.position + k := by
    intro k hk hposition
    have hnext := hentry ⟨by omega, by omega⟩
    omega
  constructor
  · intro hposition
    have hthere : s.position = leaf.position := hprevious 0 (by decide) hposition
    have hop := hin.load
    rw [← hthere] at hop
    obtain ⟨item, hitem, hstack⟩ := h.of_push hop rfl rfl
    exact ⟨item, s.stack, hslot.symm.trans hitem, hstack⟩
  · intro hposition
    have hthere := hprevious 1 (by decide) hposition
    have hop := hin.key
    rw [← hthere] at hop
    obtain ⟨key, hkey, hstack⟩ := h.of_push hop rfl rfl
    cases hkey
    obtain ⟨item, below, hitem, hbelow⟩ := hseen.slot hthere
    exact ⟨item, below, hitem, by rw [hstack, hbelow]⟩
  · intro hposition
    have hthere := hprevious 2 (by decide) hposition
    have hop := hin.equals
    rw [← hthere] at hop
    obtain ⟨a, b, below, hstack, hstack'⟩ := h.of_equals hop
    obtain ⟨item, below', hitem, hbelow⟩ := hseen.key hthere
    cases hstack.symm.trans hbelow
    refine ⟨below, ?_⟩
    unfold isEqualToKey
    rw [hstack', hitem]
    rfl

/-- The branch of a leaf is taken if the slot is equal to the key. -/
theorem Moves.of_test {target : UInt32} {b : Bool} {below : List Item} (h : Moves body heap s s')
    (hop : opAt? body s.position = some (.branch .ifTrue target)) (hstack : s.stack = .boolean b :: below)
    (hjump : s'.position ≠ s.position + 1) :
    b = true ∧ positionOf? body target = some s'.position := by
  cases h with
  | @jump _ _ _ _ _ _ operands hop' hoperands hturns htarget =>
    cases hop.symm.trans hop'
    obtain ⟨top, rfl⟩ := List.length_eq_one_iff.mp hoperands
    cases hstack
    exact ⟨hturns.symm, htarget⟩
  | nop | push | store | convert | equals | pass => exact absurd rfl hjump

/-! ## Regions -/

variable {position : Nat} {region : Region} {frame : Frame} {rest : List Item} {depth : Nat → Nat}

theorem exists_of_positionOf? {target : UInt32} {q : Nat} (h : positionOf? body target = some q) :
    ∃ i, body[q]? = some i ∧ i.offset = target := by
  obtain ⟨hlt, hoffset, -⟩ := List.findIdx?_eq_some_iff_getElem.mp h
  exact ⟨_, Array.getElem?_eq_getElem hlt, of_decide_eq_true hoffset⟩

/-- The targets of a region are behind it. -/
theorem not_contains_of_target (hregion : region.IsBehind body position) {target : UInt32} {q : Nat}
    (h : positionOf? body target = some q)
    (htarget : target = region.defaultTarget ∨ ∃ leaf ∈ region.leaves, target = leaf.target) :
    ¬ region.Contains position q := by
  intro hcontains
  obtain ⟨i, hi, rfl⟩ := exists_of_positionOf? h
  obtain ⟨hdefault, hleaves⟩ := hregion.offset_lt q i hcontains hi
  rcases htarget with heq | ⟨leaf, hleaf, heq⟩
  · exact UInt32.lt_irrefl _ (heq ▸ hdefault)
  · exact UInt32.lt_irrefl _ (heq ▸ hleaves leaf hleaf)

theorem isIn_of_mem (hregion : region.IsBehind body position) {leaf : Leaf} (h : leaf ∈ region.leaves) :
    IsIn body leaf := by
  rw [hregion.leaves] at h
  exact isIn_of_leafAt? (mem_leavesIn h).2.2

/-- The last instruction of a region does not go on behind it. -/
theorem contains_next (hregion : region.IsBehind body position) {q : Nat} {op : Op}
    (hcontains : region.Contains position q) (hop : opAt? body q = some op) (hgoesOn : goesOn op = true) :
    region.Contains position (q + 1) := by
  obtain ⟨hlt, hle⟩ := hcontains
  rcases Nat.eq_or_lt_of_le hle with rfl | hlt'
  · obtain ⟨i, condition, hi, hlast, hcondition⟩ := hregion.last
    unfold opAt? at hop
    rw [hi] at hop
    cases hop
    have hgoesOn : goesOn i.op = true := hgoesOn
    rw [hlast] at hgoesOn
    rcases hcondition with rfl | rfl <;> cases hgoesOn
  · exact ⟨Nat.lt_succ_of_lt hlt, hlt'⟩

/-- From an instruction of a tidy region, control goes on behind it, or to another instruction that is not
within a leaf, or it leaves the region from the end of a leaf or for the default target. -/
theorem IsTidy.leadsTo (hregion : region.IsBehind body position) (htidy : IsTidy body position region)
    {q p : Nat} {op : Op} (hcontains : region.Contains position q) (hop : opAt? body q = some op)
    (h : LeadsTo body q op p) :
    (region.Contains position p ∧ (p = q + 1 ∨ ∀ leaf ∈ region.leaves, ¬ IsWithin leaf p))
      ∨ ¬ region.Contains position p ∧ (positionOf? body region.defaultTarget = some p
        ∨ ∃ leaf ∈ region.leaves, q = leaf.position + 3) := by
  cases h with
  | next hgoesOn => exact .inl ⟨contains_next hregion hcontains hop hgoesOn, .inl rfl⟩
  | @target condition target _ htarget =>
    by_cases hleaf : ∃ leaf ∈ region.leaves, q = leaf.position + 3
    · obtain ⟨leaf, hmem, rfl⟩ := hleaf
      cases hop.symm.trans (isIn_of_mem hregion hmem).test
      exact .inr ⟨not_contains_of_target hregion htarget (.inr ⟨leaf, hmem, rfl⟩), .inr ⟨leaf, hmem, rfl⟩⟩
    · rcases htidy.branches q condition target hcontains hop
        fun leaf hmem heq => hleaf ⟨leaf, hmem, heq⟩ with rfl | ⟨p', hp', hcontains', hwithin⟩
      · exact .inr ⟨not_contains_of_target hregion htarget (.inl rfl), .inl htarget⟩
      · cases htarget.symm.trans hp'
        exact .inl ⟨hcontains', .inr hwithin⟩

/-- A search in its region, with what it has seen and how many items it has on the stack. -/
structure Stays (body : Array Source.Instruction) (position : Nat) (region : Region) (heap : Heap)
    (frame : Frame) (rest : List Item) (depth : Nat → Nat) (s : Search) : Prop where
  contains : region.Contains position s.position
  stack : ∃ above, s.stack = above ++ rest ∧ above.length = depth s.position
  slots : ∀ leaf ∈ region.leaves, (itemsOf s.frame leaf.place)[leaf.index.toNat]?
    = (itemsOf frame leaf.place)[leaf.index.toNat]?
  seen : ∀ leaf ∈ region.leaves, HasSeen frame heap leaf s

/-- A search that has left its region for the default target, or for that of a leaf whose slot is equal to
its key. -/
def IsLeft (body : Array Source.Instruction) (region : Region) (heap : Heap) (frame : Frame)
    (rest : List Item) (s : Search) : Prop :=
  s.stack = rest ∧ (positionOf? body region.defaultTarget = some s.position
    ∨ ∃ leaf ∈ region.leaves, isEqualToKey frame heap leaf = true
      ∧ positionOf? body leaf.target = some s.position)

theorem Stays.move (h : Stays body position region heap frame rest depth s)
    (hregion : region.IsBehind body position) (htidy : IsTidy body position region)
    (hdepth : Balances body position region depth) (hmoves : Moves body heap s s') :
    Stays body position region heap frame rest depth s' ∨
      ¬ region.Contains position s'.position ∧ IsLeft body region heap frame rest s' := by
  obtain ⟨above, hstack, habove⟩ := h.stack
  obtain ⟨above', hstack', habove'⟩ := hmoves.depth (fun op p => hdepth.balance _ op p h.contains)
    hstack habove
  obtain ⟨op, -, -, -, hop, hleads, -⟩ := hmoves.effect
  rcases htidy.leadsTo hregion h.contains hop hleads with ⟨hcontains, hwhere⟩ | ⟨houtside, hwhere⟩
  · refine .inl ⟨hcontains, ⟨above', hstack', habove'⟩, fun leaf hleaf => ?_, fun leaf hleaf => ?_⟩
    · refine (hmoves.slot fun index hstore => ?_).trans (h.slots leaf hleaf)
      exact htidy.stores _ _ index h.contains hstore leaf hleaf rfl
    · refine hmoves.hasSeen (isIn_of_mem hregion hleaf) (h.slots leaf hleaf) (h.seen leaf hleaf) ?_
      intro hwithin
      exact hwhere.resolve_right fun hnone => hnone leaf hleaf hwithin
  · have hrest : s'.stack = rest := by
      rw [hdepth.outside _ houtside] at habove'
      rw [hstack', List.eq_nil_of_length_eq_zero habove', List.nil_append]
    refine .inr ⟨houtside, hrest, hwhere.imp id ?_⟩
    rintro ⟨leaf, hleaf, hposition⟩
    have htest := (isIn_of_mem hregion hleaf).test
    rw [← hposition] at htest
    obtain ⟨below, hverdict⟩ := (h.seen leaf hleaf).verdict hposition
    have hjump : s'.position ≠ s.position + 1 := fun heq =>
      houtside (heq ▸ contains_next hregion h.contains htest rfl)
    exact ⟨leaf, hleaf, hmoves.of_test htest hverdict hjump⟩

/-- A search that leaves a tidy region is left for the default target, or for that of a leaf whose slot is
equal to its key. -/
theorem isLeft_of_searches (hregion : region.IsBehind body position)
    (htidy : IsTidy body position region) (hdepth : Balances body position region depth)
    (hstays : Stays body position region heap frame rest depth s)
    (h : Searches body heap (region.Contains position) s s')
    (houtside : ¬ region.Contains position s'.position) : IsLeft body region heap frame rest s' := by
  induction h with
  | here => exact absurd hstays.contains houtside
  | move _ hmoves hrest ih =>
    rcases hstays.move hregion htidy hdepth hmoves with hstays' | ⟨hleft, hisLeft⟩
    · exact ih hstays' houtside
    · cases hrest with
      | here => exact hisLeft
      | move hinside => exact absurd hinside hleft

/-- Behind the hash, a search has seen nothing yet. -/
theorem stays_start (hregion : region.IsBehind body position)
    (hdepth : Balances body position region depth)
    (hcontains : region.Contains position (position + 1)) (hash : Item) :
    Stays body position region heap frame rest depth ⟨position + 1, hash :: rest, frame⟩ where
  contains := hcontains
  stack := ⟨[hash], rfl, hdepth.start.symm⟩
  slots := fun _ _ => rfl
  seen := by
    intro leaf hleaf
    rw [hregion.leaves] at hleaf
    have hfirst := (mem_leavesIn hleaf).1
    exact .outside fun hwithin => absurd hwithin.1 (Nat.not_lt_of_le hfirst)

theorem contains_start (hregion : region.IsBehind body position) {i : Source.Instruction}
    (hi : body[position]? = some i) (hop : i.op = .call (.intrinsic .stringHash)) :
    region.Contains position (position + 1) := by
  obtain ⟨last, condition, hlast, hbranch, -⟩ := hregion.last
  refine ⟨Nat.lt_succ_self _, Nat.add_le_add_left (Nat.pos_of_ne_zero fun hlength => ?_) position⟩
  rw [hlength, Nat.add_zero, hi] at hlast
  cases hlast
  rw [hop] at hbranch
  cases hbranch

/-- The search behind a hash that finds the leaf of every key leaves a tidy region for where the leaves
select. -/
theorem selected_of_leavesRegion (hregion : region.IsBehind body position)
    (htidy : IsTidy body position region) (hcontains : region.Contains position (position + 1))
    {hash : Item} {target : UInt32} {stack' : List Item}
    (h : LeavesRegion body position region heap frame (hash :: rest) target stack')
    (hroutes : ∀ leaf ∈ region.leaves, isEqualToKey frame heap leaf = true → target = leaf.target) :
    target = selected frame heap region.leaves region.defaultTarget ∧ stack' = rest := by
  obtain ⟨depth, hdepth⟩ := htidy.depths
  obtain ⟨s, hsearches, houtside, rfl, i, hi, rfl⟩ := h
  obtain ⟨hrest, hwhere⟩ := isLeft_of_searches hregion htidy hdepth
    (stays_start hregion hdepth hcontains hash) hsearches houtside
  refine ⟨?_, hrest⟩
  unfold selected
  cases hfind : region.leaves.find? (isEqualToKey frame heap) with
  | some leaf => exact hroutes leaf (List.mem_of_find?_eq_some hfind) (List.find?_some hfind)
  | none =>
    have hnone := List.find?_eq_none.mp hfind
    obtain hdefault | ⟨leaf, hleaf, hequal, -⟩ := hwhere
    · obtain ⟨j, hj, hoffset⟩ := exists_of_positionOf? hdefault
      cases hi.symm.trans hj
      exact hoffset
    · exact absurd hequal (hnone leaf hleaf)

end

/-! ## Accepted modules -/

theorem Image.At.collapses {limits : Compile.Limits} {module : Module} {program : Program}
    {image : Image limits module program} {routine : Routine} {method : PlacedMethod}
    (hat : image.At routine method) : RegionsCollapse program method routine := by
  intro position i hi hop
  obtain ⟨before, segment, after, region, hsegments, hposition, hsource, hregion, -, hselects⟩ :=
    hat.selects position i hi hop
  refine ⟨before, segment, after, region, hsegments, hposition, hsource, hregion, ?_⟩
  intro htidy s frame callers hash hash' rest stack' target hfront hframes hslots hstack hitems hleaves
    hroutes
  obtain ⟨rfl, rfl⟩ :=
    selected_of_leavesRegion hregion htidy (contains_start hregion hi hop) hleaves hroutes
  exact hselects hfront hframes hslots hstack hitems

/-- In an accepted module, a switch over strings whose region is tidy goes where the search goes that it
stands for, if that finds the leaf of every key. -/
theorem regionsCollapse_of_build {limits : Compile.Limits} {module : Module} {contract : Contract}
    (h : build limits module = .ok contract) :
    EveryMethod limits module contract.program (RegionsCollapse contract.program) :=
  everyMethod_of_build h fun _ => Image.At.collapses

/-- The region of the sample. -/
def sampleRegion : Region where
  leaves := [⟨8, 8, .locals, 0, "a", 18⟩, ⟨13, 13, .locals, 0, "b", 20⟩]
  defaultTarget := 22
  length := 14

theorem isTidy_sampleRegion : findRegion? sampleRoute.body.toArray 3 = some sampleRegion
    ∧ IsTidy sampleRoute.body.toArray 3 sampleRegion := by
  refine ⟨rfl, ?_, ?_, ?_⟩
  · rintro q condition target ⟨hq, hq'⟩ hop hleaf
    have hq' : q ≤ 17 := hq'
    interval_cases q <;> cases hop
    · refine .inr ⟨13, by decide, ⟨by decide, by decide⟩, ?_⟩
      simp [sampleRegion, IsWithin]
    · exact absurd rfl (hleaf _ (List.mem_cons_self ..))
    · exact .inl rfl
    · exact absurd rfl (hleaf _ (List.mem_cons_of_mem _ (List.mem_cons_self ..)))
    · exact .inl rfl
  · rintro q place index ⟨hq, hq'⟩ hop
    have hq' : q ≤ 17 := hq'
    interval_cases q <;> cases hop
    decide
  · refine ⟨fun q => [0, 0, 0, 0, 1, 0, 1, 2, 0, 1, 2, 1, 0, 0, 1, 2, 1].getD q 0, rfl, ?_, ?_⟩
    · intro q hq
      by_cases hlt : q ≤ 3
      · interval_cases q <;> rfl
      · have hbehind : ¬ (3 < q ∧ q ≤ 17) := hq
        rw [List.getD_eq_getElem?_getD, List.getElem?_eq_none]
        · rfl
        · show 17 ≤ q
          omega
    · rintro q op p ⟨hq, hq'⟩ hop hleads
      have hq' : q ≤ 17 := hq'
      interval_cases q <;> cases hop <;> rcases hleads with ⟨⟨⟩⟩ | ⟨⟨⟩⟩ <;> decide

/-- Goes by a string, to 1 for one key, and to 3 for any other string; the last branch of the search, to
2, is not reached. -/
def strayRoute : Source.Method where
  name := "T::stray"
  displayName := "stray"
  isPublic := true
  params := [⟨"s", .string⟩]
  returnType := .int32
  locals := [.uint32]
  body := [⟨0, .load .arguments 0⟩, ⟨1, .call (.intrinsic .stringHash)⟩, ⟨2, .store .locals 0⟩,
    ⟨3, .load .arguments 0⟩, ⟨4, .loadString "a"⟩, ⟨5, .call (.intrinsic .stringEquals)⟩,
    ⟨6, .branch .ifTrue 9⟩, ⟨7, .branch .always 13⟩, ⟨8, .branch .always 11⟩, ⟨9, .literal32 1⟩,
    ⟨10, .ret⟩, ⟨11, .literal32 2⟩, ⟨12, .ret⟩, ⟨13, .literal32 3⟩, ⟨14, .ret⟩]

/-- The region of that search. -/
def strayRegion : Region where
  leaves := [⟨3, 3, .arguments, 0, "a", 9⟩]
  defaultTarget := 11
  length := 7

/-- A region that is not tidy is accepted too: for a string that is not the key, this search goes to 13,
and the chain to 11, where only the branch goes that is not reached. -/
theorem leavesRegion_strayRegion : findRegion? strayRoute.body.toArray 1 = some strayRegion
    ∧ ∀ (heap : Heap) (frame : Frame) (text hash : Item), frame.arguments[0]? = some text →
      text.equals heap (.byteString (Text.utf8 "a")) = false →
      LeavesRegion strayRoute.body.toArray 1 strayRegion heap frame [hash] 13 []
        ∧ selected frame heap strayRegion.leaves strayRegion.defaultTarget = 11 := by
  refine ⟨rfl, fun heap frame text hash htext hother => ⟨?_, ?_⟩⟩
  · have hinside : ∀ q, 2 ≤ q → q ≤ 8 → strayRegion.Contains 1 q := fun _ hq hq' => ⟨hq, hq'⟩
    obtain ⟨frame', harguments, hstore⟩ : ∃ frame', frame'.arguments = frame.arguments
        ∧ Moves strayRoute.body.toArray heap ⟨2, [hash], frame⟩ ⟨3, [], frame'⟩ :=
      ⟨withItems frame .locals _, rfl, @Moves.store _ _ 2 [] frame .locals 0 hash rfl⟩
    rw [← harguments] at htext
    have hload : Moves strayRoute.body.toArray heap ⟨3, [], frame'⟩ ⟨4, [text], frame'⟩ :=
      .push rfl htext
    have hkey : Moves strayRoute.body.toArray heap ⟨4, [text], frame'⟩
        ⟨5, [.byteString (Text.utf8 "a"), text], frame'⟩ := .push rfl rfl
    have hequals : Moves strayRoute.body.toArray heap ⟨5, [.byteString (Text.utf8 "a"), text], frame'⟩
        ⟨6, [.boolean false], frame'⟩ := hother ▸ .equals rfl
    have hpass : Moves strayRoute.body.toArray heap ⟨6, [.boolean false], frame'⟩ ⟨7, [], frame'⟩ :=
      @Moves.pass _ _ 6 [] frame' .ifTrue 9 [.boolean false] rfl rfl rfl
    have hjump : Moves strayRoute.body.toArray heap ⟨7, [], frame'⟩ ⟨13, [], frame'⟩ :=
      @Moves.jump _ _ 7 13 [] frame' .always 13 [] rfl rfl rfl rfl
    have hsearches : Searches strayRoute.body.toArray heap (strayRegion.Contains 1) ⟨2, [hash], frame⟩
        ⟨13, [], frame'⟩ :=
      .move (hinside 2 (by decide) (by decide)) hstore <|
      .move (hinside 3 (by decide) (by decide)) hload <|
      .move (hinside 4 (by decide) (by decide)) hkey <|
      .move (hinside 5 (by decide) (by decide)) hequals <|
      .move (hinside 6 (by decide) (by decide)) hpass <|
      .move (hinside 7 (by decide) (by decide)) hjump .here
    exact ⟨_, hsearches, fun hcontains => absurd hcontains.2 (by decide : ¬ 13 ≤ 1 + 7), rfl, _, rfl, rfl⟩
  · have hother' : isEqualToKey frame heap ⟨3, 3, .arguments, 0, "a", 9⟩ = false := by
      unfold isEqualToKey
      show (frame.arguments[0]?).any _ = false
      rw [htext]
      exact hother
    unfold selected strayRegion
    rw [List.find?_cons, hother']
    rfl

end StackContract.Contract
