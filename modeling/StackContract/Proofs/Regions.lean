import StackContract.Proofs.Emission
/-!
# Instructions that are lowered together

The code for an instruction may cover some that follow it. Where it is a switch over strings, these are
the plumbing behind the hash, and its leaves are all windows of four instructions there that compare a
slot with a key and branch (`Region.IsBehind`).

An instruction that nothing covers has code of its own (`Lowers.exists_segment`).
-/

namespace StackContract.Lowering

open Assembly Compile
open Source (Op Condition)

/-! ## Leaves -/

/-- The leaf that starts at a position of a body, if one does. -/
def leafAt? (body : Array Source.Instruction) (position : Nat) : Option Leaf :=
  match body.toList.drop position with
  | ⟨offset, .load place index⟩ :: ⟨_, .loadString key⟩
      :: ⟨_, .call (.intrinsic .stringEquals)⟩ :: ⟨_, .branch .ifTrue target⟩ :: _ =>
    some ⟨position, offset, place, index, key, target⟩
  | _ => none

/-- The leaves that start at one of `count` positions from `first` on, in this order. -/
def leavesIn (body : Array Source.Instruction) (first count : Nat) : List Leaf :=
  (List.range' first count).filterMap (leafAt? body)

/-- Whether a position is one of the region behind the hash at `position`. -/
def Region.Contains (region : Region) (position q : Nat) : Prop :=
  position < q ∧ q ≤ position + region.length

/-- A region behind the hash at a position: every leaf in it, and the default target, to which its last
instruction always goes. The targets are behind the region. -/
structure Region.IsBehind (body : Array Source.Instruction) (position : Nat) (region : Region) :
    Prop where
  leaves : region.leaves = leavesIn body (position + 1) region.length
  plumbing : ∀ q, region.Contains position q → ∃ i, body[q]? = some i ∧ isPlumbing i.op = true
  offset_lt : ∀ q i, region.Contains position q → body[q]? = some i →
    i.offset < region.defaultTarget ∧ ∀ leaf ∈ region.leaves, i.offset < leaf.target
  last : ∃ i condition, body[position + region.length]? = some i
    ∧ i.op = .branch condition region.defaultTarget ∧ (condition = .always ∨ condition = .leave)

section

variable {body : Array Source.Instruction} {position : Nat}

theorem position_of_leafAt? {leaf : Leaf} (h : leafAt? body position = some leaf) :
    leaf.position = position := by
  unfold leafAt? at h
  split at h
  · cases h
    rfl
  · cases h

theorem leavesIn_succ (first count : Nat) : leavesIn body first (count + 1)
    = (leafAt? body first).toList ++ leavesIn body (first + 1) count := by
  unfold leavesIn
  rw [List.range'_succ, List.filterMap_cons]
  cases leafAt? body first <;> rfl

theorem leafAt?_eq_none {i : Source.Instruction} {rest : List Source.Instruction}
    (hrest : body.toList.drop position = i :: rest)
    (hi : ∀ place index, i.op ≠ .load place index) : leafAt? body position = none := by
  unfold leafAt?
  rw [hrest]
  split
  · next heq =>
    cases heq
    exact absurd rfl (hi _ _)
  · rfl

theorem drop_succ {i : Source.Instruction} {rest : List Source.Instruction}
    (h : body.toList.drop position = i :: rest) :
    body.toList.drop (position + 1) = rest ∧ body[position]? = some i := by
  constructor
  · rw [← List.drop_drop, h]
    rfl
  · rw [← Array.getElem?_toList, ← List.head?_drop, h]
    rfl

/-- What a scan from a position on finds: the leaves up to where it stops, with plumbing only. -/
structure Scanned (body : Array Source.Instruction) (position : Nat) (leaves : List Leaf) (stop : Nat) :
    Prop where
  le : position ≤ stop
  leaves : leaves = leavesIn body position (stop - position)
  plumbing : ∀ q, position ≤ q → q < stop → ∃ i, body[q]? = some i ∧ isPlumbing i.op = true

theorem Scanned.here (body : Array Source.Instruction) (position : Nat) :
    Scanned body position [] position where
  le := Nat.le_refl _
  leaves := by
    rw [Nat.sub_self]
    rfl
  plumbing := fun q hq hq' => absurd hq (Nat.not_le_of_lt hq')

theorem Scanned.cons {i : Source.Instruction} {leaves : List Leaf} {stop : Nat}
    (hi : body[position]? = some i) (hplumbing : isPlumbing i.op = true)
    (h : Scanned body (position + 1) leaves stop) :
    Scanned body position ((leafAt? body position).toList ++ leaves) stop where
  le := Nat.le_of_succ_le h.le
  leaves := by
    have hlt := h.le
    rw [show stop - position = stop - (position + 1) + 1 by omega, leavesIn_succ, h.leaves]
  plumbing := by
    intro q hq hq'
    rcases Nat.eq_or_lt_of_le hq with rfl | hlt
    · exact ⟨i, hi, hplumbing⟩
    · exact h.plumbing q hlt hq'

/-- The scan finds every leaf, and goes on as long as there is plumbing. -/
theorem scanned_scanLeaves {rest : List Source.Instruction} (hrest : body.toList.drop position = rest) :
    Scanned body position (scanLeaves position rest).1 (scanLeaves position rest).2 := by
  fun_induction scanLeaves position rest with
  | case1 position offset place index _ key _ _ target rest leaves stop hscan ih =>
    -- none of the three instructions behind its load starts a leaf itself
    obtain ⟨hrest₁, hat⟩ := drop_succ hrest
    obtain ⟨hrest₂, hat₁⟩ := drop_succ hrest₁
    obtain ⟨hrest₃, hat₂⟩ := drop_succ hrest₂
    obtain ⟨hrest₄, hat₃⟩ := drop_succ hrest₃
    have hbehind := ih hrest₄
    rw [hscan] at hbehind
    have hthree := ((hbehind.cons hat₃ rfl).cons hat₂ rfl).cons hat₁ rfl
    rw [leafAt?_eq_none hrest₁ nofun, leafAt?_eq_none hrest₂ nofun, leafAt?_eq_none hrest₃ nofun]
      at hthree
    have hleaf : leafAt? body position = some ⟨position, offset, place, index, key, target⟩ := by
      unfold leafAt?
      rw [hrest]
    have hfour := hthree.cons hat rfl
    rw [hleaf] at hfour
    exact hfour
  | case2 position i rest hother hplumbing ih =>
    obtain ⟨hnext, hi⟩ := drop_succ hrest
    have hnone : leafAt? body position = none := by
      unfold leafAt?
      rw [hrest]
      split
      · next heq =>
        cases heq
        exact (hother _ _ _ _ _ _ _ _ _ rfl rfl).elim
      · rfl
    have hcons := (ih hnext).cons hi hplumbing
    rw [hnone] at hcons
    exact hcons
  | case3 position i rest _ _ => exact .here body position
  | case4 position => exact .here body position

theorem mem_leavesIn {leaf : Leaf} {first count : Nat} (h : leaf ∈ leavesIn body first count) :
    first ≤ leaf.position ∧ leaf.position < first + count
      ∧ leafAt? body leaf.position = some leaf := by
  obtain ⟨position, hrange, hleaf⟩ := List.mem_filterMap.mp h
  rw [position_of_leafAt? hleaf]
  exact ⟨(List.mem_range'_1.mp hrange).1, (List.mem_range'_1.mp hrange).2, hleaf⟩

/-- Of the leaves at positions from `first` on, those in front of a position are the leaves up to it. -/
theorem filter_leavesIn (first : Nat) {count count' : Nat} (h : count ≤ count') :
    (leavesIn body first count').filter (fun leaf => leaf.position < first + count)
      = leavesIn body first count := by
  have hsplit : leavesIn body first count'
      = leavesIn body first count ++ leavesIn body (first + count) (count' - count) := by
    unfold leavesIn
    rw [← List.filterMap_append, List.range'_append_1, Nat.add_sub_cancel' h]
  rw [hsplit, List.filter_append, List.filter_eq_self.mpr, List.filter_eq_nil_iff.mpr, List.append_nil]
  · intro leaf hleaf
    rw [decide_eq_true_eq]
    exact Nat.not_lt_of_le (mem_leavesIn hleaf).1
  · intro leaf hleaf
    exact decide_eq_true (mem_leavesIn hleaf).2.1

theorem defaultTarget?_eq_some {limit : Nat} {op : Op} {target : UInt32}
    (h : defaultTarget? limit op = some target) :
    limit ≤ target.toNat
      ∧ ∃ condition, op = .branch condition target ∧ (condition = .always ∨ condition = .leave) := by
  unfold defaultTarget? at h
  split at h
  · split at h <;> cases h
    exact ⟨‹_›, _, rfl, .inl rfl⟩
  · split at h <;> cases h
    exact ⟨‹_›, _, rfl, .inr rfl⟩
  · cases h

/-- In front of the first instruction whose offset is not below a limit, all offsets are below it. -/
theorem offset_lt_of_findIdx? {rest : List Source.Instruction} {limit k : Nat} {i : Source.Instruction}
    (hk : k < (rest.findIdx? fun i => limit ≤ i.offset.toNat).getD rest.length)
    (hi : rest[k]? = some i) : i.offset.toNat < limit := by
  obtain ⟨hlt, rfl⟩ := List.getElem?_eq_some_iff.mp hi
  cases hfind : rest.findIdx? fun i => limit ≤ i.offset.toNat with
  | none => simpa using List.findIdx?_eq_none_iff.mp hfind _ (List.getElem_mem hlt)
  | some first =>
    rw [hfind] at hk
    obtain ⟨_, -, hbefore⟩ := List.findIdx?_eq_some_iff_getElem.mp hfind
    simpa using hbefore k hk

/-- A region that is recognized is one. -/
theorem isBehind_of_findRegion? {region : Region} (h : findRegion? body position = some region) :
    region.IsBehind body position := by
  have hscan : Scanned body (position + 1) _ _ := scanned_scanLeaves rfl
  unfold findRegion? at h
  dsimp only at h
  generalize scanLeaves (position + 1) (body.toList.drop (position + 1)) = found at h hscan
  obtain ⟨leaves, stop⟩ := found
  dsimp only at h hscan
  split at h
  · cases h
  · next limit hlimit =>
    have hoffsets : ∀ (k : Nat) (i : Source.Instruction), _ →
        (body.toList.drop (position + 1))[k]? = some i → i.offset.toNat < limit :=
      fun _ _ => offset_lt_of_findIdx?
    generalize (List.findIdx? _ _).getD _ = length at h hoffsets
    split at h
    · cases h
    · next hlength =>
      rw [not_or, Nat.not_lt] at hlength
      obtain ⟨last, hlast, h⟩ := Option.bind_eq_some_iff.mp h
      obtain ⟨target, htarget, h⟩ := Option.bind_eq_some_iff.mp h
      cases h
      obtain ⟨hle, condition, hop, hcondition⟩ := defaultTarget?_eq_some htarget
      refine ⟨?_, ?_, ?_, last, condition, ?_, hop, hcondition⟩
      · rw [hscan.leaves]
        exact filter_leavesIn _ (by omega)
      · rintro q ⟨hq, hq'⟩
        have hlast : q ≤ position + length := hq'
        exact hscan.plumbing q hq (by omega)
      · rintro q i ⟨hq, hq'⟩ hi
        have hlast : q ≤ position + length := hq'
        have hlt : i.offset.toNat < limit := by
          refine hoffsets (q - (position + 1)) i (by omega) ?_
          have hposition : position + 1 + (q - (position + 1)) = q := by omega
          rw [List.getElem?_drop, Array.getElem?_toList, hposition]
          exact hi
        refine ⟨UInt32.lt_iff_toNat_lt.mpr (Nat.lt_of_lt_of_le hlt hle), fun leaf hleaf => ?_⟩
        have hmem : leaf.target.toNat ∈ leaves.map fun leaf => leaf.target.toNat :=
          List.mem_map_of_mem (List.mem_of_mem_filter hleaf)
        have hmin := (List.min?_eq_some_iff.mp hlimit).2 _ hmem
        exact UInt32.lt_iff_toNat_lt.mpr (Nat.lt_of_lt_of_le hlt hmin)
      · have hposition : position + 1 + (length - 1) = position + length := by omega
        rw [List.getElem?_drop, Array.getElem?_toList, hposition] at hlast
        exact hlast

end

/-! ## Covered instructions -/

/-- The operations whose instructions may be covered by the code of one in front of them. -/
def isCovered : Op → Bool
  | .dup | .initArray _ | .newDelegate | .compare .equal => true
  | op => isPlumbing op

section

variable {scope : Scope} {position : Nat} {carry carry' : Carry} {lowered : Lowered}

theorem inline?_eq_some_iff {op : Op} : scope.inline? position = some op
    ↔ ∃ i, scope.body[position]? = some i ∧ scope.isTarget i.offset = false ∧ i.op = op := by
  unfold Scope.inline?
  cases scope.body[position]? with
  | none => simp
  | some i => cases scope.isTarget i.offset <;> simp

/-- What the code of an instruction covers behind it are instructions that may be covered. -/
def Covers (scope : Scope) (position : Nat) (lowered : Lowered) : Prop :=
  ∀ q, position < q → q < position + 1 + lowered.consumed →
    ∃ i, scope.body[q]? = some i ∧ isCovered i.op = true

theorem covers_code (directives : List Directive) : Covers scope position (.code directives) :=
  fun _ hq hq' => absurd hq (Nat.not_lt_of_le (Nat.le_of_lt_succ hq'))

theorem covers_one {directives : List Directive} {op : Op} (h : scope.inline? (position + 1) = some op)
    (hop : isCovered op = true) : Covers scope position ⟨directives, 1⟩ := by
  intro q hq hq'
  obtain rfl : q = position + 1 := Nat.le_antisymm (Nat.le_of_lt_succ hq') hq
  obtain ⟨i, hi, -, rfl⟩ := inline?_eq_some_iff.mp h
  exact ⟨i, hi, hop⟩

theorem covers_two {directives : List Directive} {op op' : Op}
    (h : scope.inline? (position + 1) = some op) (hop : isCovered op = true)
    (h' : scope.inline? (position + 2) = some op') (hop' : isCovered op' = true) :
    Covers scope position ⟨directives, 2⟩ := by
  intro q hq hq'
  by_cases hone : q < position + 2
  · have hfirst : Covers scope position ⟨directives, 1⟩ := covers_one h hop
    exact hfirst q hq hone
  · obtain rfl : q = position + 2 := Nat.le_antisymm (Nat.le_of_lt_succ hq') (Nat.le_of_not_lt hone)
    obtain ⟨i, hi, -, rfl⟩ := inline?_eq_some_iff.mp h'
    exact ⟨i, hi, hop'⟩

theorem covers_lowerLiteral (v : Number.Int128) (bits : Nat) :
    Covers scope position (lowerLiteral scope position v bits) := by
  unfold lowerLiteral
  split
  · next h => exact covers_one h rfl
  · exact covers_code _

theorem covers_lowerComparison (comparison : Source.Comparison) :
    Covers scope position (lowerComparison scope position comparison) := by
  unfold lowerComparison
  dsimp only
  split
  · next hnegated =>
    unfold isNegated at hnegated
    split at hnegated
    · next h h' => exact covers_two h rfl h' rfl
    · cases hnegated
  · exact covers_code _

theorem covers_lowerNewArray {offset : UInt32} {element : Source.ValueType}
    (h : lowerNewArray scope position offset element = .ok lowered) : Covers scope position lowered := by
  unfold lowerNewArray at h
  split at h
  · next hdup hdata _ =>
    obtain ⟨directives, -, hpure⟩ := exceptBind_eq_ok h
    cases hpure
    exact covers_two hdup rfl hdata rfl
  · cases h
    exact covers_code _

theorem covers_lowerNewObject {i : Source.Instruction} {fields : List Source.ValueType}
    {ctorArgs : UInt16} (h : lowerNewObject scope i fields ctorArgs = .ok lowered) :
    Covers scope position lowered := by
  unfold lowerNewObject at h
  dsimp only at h
  split at h
  · cases h
  · split at h <;> cases h <;> exact covers_code _

theorem covers_lowerFunction {i : Source.Instruction} {name : String}
    (h : lowerFunction scope position i name = .ok lowered) : Covers scope position lowered := by
  unfold lowerFunction at h
  split at h
  · next hdelegate =>
    split at h <;> cases h
    exact covers_one hdelegate rfl
  · cases h

theorem covers_lowerStringSwitch {i : Source.Instruction}
    (h : lowerStringSwitch scope position i = .ok lowered) : Covers scope position lowered := by
  unfold lowerStringSwitch at h
  split at h
  · cases h
  · next region hregion =>
    obtain ⟨tests, -, hpure⟩ := exceptBind_eq_ok h
    cases hpure
    intro q hq hq'
    have hlast : q < position + 1 + region.length := hq'
    obtain ⟨j, hj, hplumbing⟩ := (isBehind_of_findRegion? hregion).plumbing q ⟨hq, by omega⟩
    refine ⟨j, hj, ?_⟩
    unfold isCovered
    split <;> first | rfl | exact hplumbing

theorem covers_lowerLoadStatic {field : Source.FieldRef}
    (h : (lowerLoadStatic scope field).run carry = .ok (lowered, carry')) :
    Covers scope position lowered := by
  unfold lowerLoadStatic at h
  split at h
  · cases h
    exact covers_code _
  · split at h
    · cases h
      exact covers_code _
    · split at h <;> cases h
      exact covers_code _

theorem covers_lowerStoreStatic {field : Source.FieldRef}
    (h : lowerStoreStatic scope field = .ok lowered) : Covers scope position lowered := by
  unfold lowerStoreStatic at h
  dsimp only at h
  split at h
  · cases h
    exact covers_code _
  · split at h <;> cases h

theorem covers_lowerCall {i : Source.Instruction} {callee : Source.Callee}
    (h : (lowerCall scope position i callee).run carry = .ok (lowered, carry')) :
    Covers scope position lowered := by
  cases callee with
  | method name =>
    obtain ⟨_, _, -, hrest⟩ := run_bind_eq_ok h
    cases hrest
    exact covers_code _
  | intrinsic intrinsic =>
    cases intrinsic
    case stringHash => exact covers_lowerStringSwitch (run_liftM_eq_ok h).1
    all_goals
      cases h
      exact covers_code _
  | event =>
    obtain ⟨_, _, -, hrest⟩ := run_bind_eq_ok h
    cases hrest
    exact covers_code _
  | delegate args =>
    cases h
    exact covers_code _

theorem covers_of_lower {i : Source.Instruction}
    (h : (lower scope position i).run carry = .ok (lowered, carry')) : Covers scope position lowered := by
  obtain ⟨offset, op⟩ := i
  cases op
  case literal32 | literal64 =>
    cases h
    exact covers_lowerLiteral _ _
  case compare comparison =>
    cases h
    exact covers_lowerComparison comparison
  case load | store | address =>
    obtain ⟨_, _, -, hrest⟩ := run_bind_eq_ok h
    cases hrest
    exact covers_code _
  case loadStatic => exact covers_lowerLoadStatic h
  case storeStatic => exact covers_lowerStoreStatic (run_liftM_eq_ok h).1
  case newArray => exact covers_lowerNewArray (run_liftM_eq_ok h).1
  case newObject => exact covers_lowerNewObject (run_liftM_eq_ok h).1
  case initObject =>
    obtain ⟨addressOf, waiting⟩ := carry
    cases addressOf <;> cases h
    exact covers_code _
  case call => exact covers_lowerCall h
  case loadFunction => exact covers_lowerFunction (run_liftM_eq_ok h).1
  case box | unbox | unboxAny =>
    unfold lower at h
    dsimp only at h
    split at h <;> cases h
    exact covers_code _
  case initArray | newDelegate | pointerOp => cases h
  all_goals
    cases h
    exact covers_code _

/-- The first segment of a body. -/
theorem Lowers.uncons {segment : Segment} {rest : List Segment}
    (h : Lowers scope position carry (segment :: rest)) :
    segment.position = position ∧ scope.body[position]? = some segment.source
      ∧ ∃ carry', (lower scope position segment.source).run carry = .ok (segment.lowered, carry')
        ∧ Lowers scope (position + 1 + segment.lowered.consumed) carry' rest := by
  cases h with
  | next hposition hlower hrest =>
    exact ⟨rfl, Array.getElem?_eq_getElem hposition, _, hlower, hrest⟩

theorem Lowers.exists_cons {segments : List Segment} {i : Source.Instruction}
    (h : Lowers scope position carry segments) (hi : scope.body[position]? = some i) :
    ∃ segment rest, segments = segment :: rest ∧ segment.source = i := by
  cases h with
  | finish hfinish =>
    obtain ⟨hlt, -⟩ := Array.getElem?_eq_some_iff.mp hi
    exact absurd hlt (Nat.not_lt_of_le hfinish)
  | @next _ _ _ lowered rest hposition _ _ =>
    exact ⟨_, rest, rfl, Option.some.inj ((Array.getElem?_eq_getElem hposition).symm.trans hi)⟩

theorem Lowers.behind {before after : List Segment} (h : Lowers scope position carry (before ++ after)) :
    ∃ position carry, Lowers scope position carry after := by
  induction before generalizing position carry with
  | nil => exact ⟨position, carry, h⟩
  | cons first before ih =>
    obtain ⟨-, -, carry', -, hrest⟩ := h.uncons
    exact ih hrest

/-- A segment of a body is the lowering of an instruction. -/
theorem Lowers.exists_lower {segments : List Segment} (h : Lowers scope position carry segments)
    {segment : Segment} (hmem : segment ∈ segments) : scope.body[segment.position]? = some segment.source
      ∧ ∃ carry carry',
        (lower scope segment.position segment.source).run carry = .ok (segment.lowered, carry') := by
  induction h with
  | finish _ => cases hmem
  | next hposition hlower _ ih =>
    rcases List.mem_cons.mp hmem with rfl | hmem
    · exact ⟨Array.getElem?_eq_getElem hposition, _, _, hlower⟩
    · exact ih hmem

/-- An instruction has a segment of its own, behind those of instructions in front of it, or the code for
one in front of it covers it. -/
theorem Lowers.own_or_covered {segments : List Segment} {q : Nat} {i : Source.Instruction}
    (h : Lowers scope position carry segments) (hq : position ≤ q) (hi : scope.body[q]? = some i) :
    (∃ before segment after, segments = before ++ segment :: after ∧ segment.position = q
        ∧ segment.source = i ∧ ∀ earlier ∈ before, earlier.position < q)
      ∨ ∃ before segment after, segments = before ++ segment :: after ∧ segment.position < q
        ∧ q < segment.position + 1 + segment.lowered.consumed := by
  induction h with
  | finish hfinish =>
    obtain ⟨hlt, -⟩ := Array.getElem?_eq_some_iff.mp hi
    omega
  | @next position carry carry' lowered rest hposition hlower _ ih =>
    rcases Nat.eq_or_lt_of_le hq with rfl | hlt
    · rw [Array.getElem?_eq_getElem hposition] at hi
      cases hi
      exact .inl ⟨[], _, rest, rfl, rfl, rfl, nofun⟩
    · by_cases hcovered : q < position + 1 + lowered.consumed
      · exact .inr ⟨[], _, rest, rfl, hlt, hcovered⟩
      · rcases ih (Nat.le_of_not_lt hcovered) with
          ⟨before, segment, after, rfl, hat, hsource, hbefore⟩ | ⟨before, segment, after, rfl, hcovers⟩
        · refine .inl ⟨_ :: before, segment, after, rfl, hat, hsource, ?_⟩
          intro earlier hearlier
          rcases List.mem_cons.mp hearlier with rfl | hearlier
          · exact hlt
          · exact hbefore earlier hearlier
        · exact .inr ⟨_ :: before, segment, after, rfl, hcovers⟩

/-- Code that is written for a body has a segment for every instruction that is not covered. -/
theorem Lowers.exists_segment {segments : List Segment} {i : Source.Instruction} {q : Nat}
    (h : Lowers scope position carry segments) (hq : position ≤ q) (hi : scope.body[q]? = some i)
    (hown : isCovered i.op = false) :
    ∃ before segment after, segments = before ++ segment :: after ∧ segment.position = q
      ∧ segment.source = i ∧ ∃ carry carry',
        (lower scope q i).run carry = .ok (segment.lowered, carry') := by
  rcases h.own_or_covered hq hi with
    ⟨before, segment, after, rfl, rfl, rfl, -⟩ | ⟨before, segment, after, rfl, hlt, hcovered⟩
  · obtain ⟨-, hlower⟩ := h.exists_lower (List.mem_append_right _ (List.mem_cons_self ..))
    exact ⟨before, segment, after, rfl, rfl, rfl, hlower⟩
  · obtain ⟨-, _, _, hlower⟩ := h.exists_lower (List.mem_append_right _ (List.mem_cons_self ..))
    obtain ⟨j, hj, htrue⟩ := covers_of_lower hlower q hlt hcovered
    rw [hi] at hj
    cases hj
    rw [hown] at htrue
    cases htrue

/-- A body is rejected for an instruction that cannot be lowered. -/
theorem exists_error_of_lower {i : Source.Instruction} (hi : scope.body[position]? = some i)
    (hown : isCovered i.op = false)
    (hfails : ∀ carry lowered carry', (lower scope position i).run carry ≠ .ok (lowered, carry'))
    (prologue : List Directive) : ∃ e, lowerBody scope prologue = .error e := by
  cases h : lowerBody scope prologue with
  | error e => exact ⟨e, rfl⟩
  | ok directives =>
    obtain ⟨segments, hlowers, -⟩ := lowerBody_spec h
    obtain ⟨_, _, _, -, -, -, _, _, hlower⟩ := hlowers.exists_segment (Nat.zero_le _) hi hown
    exact absurd hlower (hfails _ _ _)

end

end StackContract.Lowering
