import StackContract.Proofs.FoldingSteps
import StackContract.Proofs.Image
/-!
# What is written for folded code

Code that folds has no branches, so that every group of instructions that is lowered as one is found.
What is written for it, up to the return that ends the body, does to the memory what folding does to its
state (`mimics_of_lowers`).
-/

namespace StackContract.Contract

open Assembly Compile Script Lowering Machine Number
open Compile.Folding (Value Elements)
open Source (Conversion ValueType Op)

/-! ## Code that folds -/

/-- Carries out instructions one after the other. -/
abbrev foldAll (code : List Source.Instruction) (state : Folding.State) :
    Folding.Result Folding.State :=
  code.foldlM (fun state i => Folding.step state i.op) state

theorem foldAll_cons {i : Source.Instruction} {code : List Source.Instruction}
    {before after : Folding.State} (h : foldAll (i :: code) before = .ok after) :
    ∃ state, Folding.step before i.op = .ok state ∧ foldAll code state = .ok after := by
  rw [foldAll, List.foldlM_cons] at h
  exact exceptBind_eq_ok h

/-- No branch can be folded. -/
theorem targets_of_step {before after : Folding.State} {op : Op}
    (h : Folding.step before op = .ok after) : op.targets = [] := by
  cases op <;> first | rfl | cases h

theorem targets_of_foldAll {code : List Source.Instruction} {before after : Folding.State}
    (h : foldAll code before = .ok after) : ∀ i ∈ code, i.op.targets = [] := by
  induction code generalizing before with
  | nil => exact nofun
  | cons i code ih =>
    obtain ⟨state, hstep, hrest⟩ := foldAll_cons h
    intro j hj
    rcases List.mem_cons.mp hj with rfl | hj
    · exact targets_of_step hstep
    · exact ih hrest j hj

/-- From a position on, a body without branches is code and a return. -/
structure Ahead (scope : Scope) (position : Nat) (rest : List Source.Instruction) (offset : UInt32) :
    Prop where
  targets : ∀ i ∈ scope.body, i.op.targets = []
  body : scope.body.toList.drop position = rest ++ [(⟨offset, .ret⟩ : Source.Instruction)]

namespace Ahead

variable {scope : Scope} {position : Nat} {i : Source.Instruction} {rest : List Source.Instruction}
  {offset : UInt32}

/-- Every instruction can be lowered together with those in front of it. -/
theorem inline? (h : Ahead scope position rest offset) (n : Nat) : scope.inline? (position + n)
    = ((rest ++ [(⟨offset, .ret⟩ : Source.Instruction)])[n]?).map (·.op) := by
  have htarget : ∀ target, scope.isTarget target = false := by
    intro target
    unfold Scope.isTarget
    rw [Array.any_eq_false']
    intro i hi
    rw [h.targets i hi]
    exact Bool.false_ne_true
  have hget : scope.body[position + n]? = (rest ++ [(⟨offset, .ret⟩ : Source.Instruction)])[n]? := by
    rw [← h.body, List.getElem?_drop, Array.getElem?_toList]
  unfold Scope.inline?
  rw [hget]
  cases (rest ++ [(⟨offset, .ret⟩ : Source.Instruction)])[n]? with
  | none => rfl
  | some i =>
    dsimp only
    rw [htarget]
    rfl

theorem drop (h : Ahead scope position rest offset) {n : Nat} (hn : n ≤ rest.length) :
    Ahead scope (position + n) (rest.drop n) offset := by
  refine ⟨h.targets, ?_⟩
  rw [← List.drop_drop, h.body, List.drop_append_of_le_length hn]

theorem next (h : Ahead scope position (i :: rest) offset) : Ahead scope (position + 1) rest offset :=
  h.drop (Nat.le_add_left ..)

end Ahead

/-! ## Groups of instructions -/

/-- No conversion follows that would change the literal pushed last. -/
def Settled (state : Folding.State) (rest : List Source.Instruction) : Prop :=
  state.literalBits = none ∨ ∀ conversion, rest.head?.map (·.op) ≠ some (.convert conversion)

/-- Code does what the folding of the first instructions ahead does. -/
def Covers (lowered : Lowered) (rest : List Source.Instruction) (before after : Folding.State) : Prop :=
  ∃ state, Mimics lowered.directives before state ∧ lowered.consumed ≤ rest.length
    ∧ foldAll (rest.drop lowered.consumed) state = .ok after
    ∧ Settled state (rest.drop lowered.consumed)

section

variable {scope : Scope} {rest : List Source.Instruction} {offset : UInt32} {position : Nat}
  {before after state : Folding.State}

/-- Code for a single instruction that is no literal. -/
theorem Covers.single {directives : List Directive} (hmimics : Mimics directives before state)
    (hwidth : state.literalBits = none) (hfold : foldAll rest state = .ok after) :
    Covers (.code directives) rest before after :=
  ⟨state, hmimics, Nat.zero_le _, hfold, .inl hwidth⟩

/-- A literal, and the conversion that changes it. -/
theorem covers_literal (h : Ahead scope (position + 1) rest offset) {v : Int128} {bits : Nat}
    (hv : v.val < 2 ^ 64)
    (hreinterpret : ∀ conversion : Conversion, (conversion.reinterpret v bits).val < 2 ^ 64)
    (hfold : foldAll rest { Folding.push before (.integer v) with literalBits := some bits }
      = .ok after) : Covers (lowerLiteral scope position v bits) rest before after := by
  have hplain : (∀ conversion, rest.head?.map (·.op) ≠ some (.convert conversion)) →
      Covers (.code [.pushInteger v]) rest before after := fun hnone =>
    ⟨_, (Mimics.integer hv).withBits before.literalBits (some bits), Nat.zero_le _, hfold, .inr hnone⟩
  unfold lowerLiteral
  cases rest with
  | nil =>
    have hinline : scope.inline? (position + 1) = some .ret := h.inline? 0
    rw [hinline]
    exact hplain nofun
  | cons i rest =>
    have hinline : scope.inline? (position + 1) = some i.op := h.inline? 0
    rw [hinline]
    by_cases hconvert : ∃ conversion, i.op = .convert conversion
    · obtain ⟨conversion, hop⟩ := hconvert
      obtain ⟨state, hstep, hfold⟩ := foldAll_cons hfold
      rw [hop] at hstep
      cases hstep
      rw [hop]
      exact ⟨_, (Mimics.integer (hreinterpret conversion)).withBits before.literalBits none,
        Nat.le_add_left .., hfold, .inl rfl⟩
    · split
      · next conversion hop => exact absurd ⟨conversion, Option.some.inj hop⟩ hconvert
      · exact hplain fun conversion hop => hconvert ⟨conversion, Option.some.inj hop⟩

/-- Behind a new array, the copy of it and its contents are the next instructions of the code. -/
theorem Ahead.initialized (h : Ahead scope position rest offset) {data : List UInt8}
    (hdup : scope.inline? position = some .dup)
    (hdata : scope.inline? (position + 1) = some (.initArray data)) :
    ∃ i j others, rest = i :: j :: others ∧ i.op = .dup ∧ j.op = .initArray data := by
  have hfirst := hdup.symm.trans (h.inline? 0)
  have hsecond := hdata.symm.trans (h.inline? 1)
  rcases rest with _ | ⟨i, _ | ⟨j, others⟩⟩
  · cases hfirst
  · cases hsecond
  · exact ⟨i, j, others, rfl, (Option.some.inj hfirst).symm, (Option.some.inj hsecond).symm⟩

/-- Arrays of bytes and of strings fold, and no others. -/
theorem newArray_eq_ok {element : ValueType} {n : Nat}
    (h : Folding.newArray state element n = .ok after) : ∃ elements,
      (element = .byte ∧ elements = .bytes (List.replicate n 0)
        ∨ element = .string ∧ elements = .strings (List.replicate n none))
      ∧ after = Folding.push { state with arrays := state.arrays ++ [elements] }
        (.array state.arrays.length) := by
  cases element
  case byte =>
    cases h
    exact ⟨_, .inl ⟨rfl, rfl⟩, rfl⟩
  case string =>
    cases h
    exact ⟨_, .inr ⟨rfl, rfl⟩, rfl⟩
  all_goals cases h

/-- The contents of an array that was just made are those given. -/
theorem initArray_newest (state : Folding.State) {elements data : List UInt8}
    (h : Folding.initArray { state with arrays := state.arrays ++ [.bytes elements] }
      state.arrays.length data = .ok after) :
    after = { state with arrays := state.arrays ++ [.bytes data] } := by
  have hnewest : Folding.elements { state with arrays := state.arrays ++ [.bytes elements] }
      state.arrays.length = .bytes elements := by
    unfold Folding.elements
    rw [List.getD_append_right _ _ _ _ (Nat.le_refl _), Nat.sub_self]
    rfl
  unfold Folding.initArray at h
  rw [hnewest] at h
  dsimp only at h
  split at h
  · cases h
    rw [List.set_append_right _ _ (Nat.le_refl _), Nat.sub_self]
    rfl
  · cases h

/-- A new array, with the contents that follow it. -/
theorem covers_newArray (h : Ahead scope (position + 1) rest offset) {source : UInt32}
    {element : ValueType} {length : Int128} {lowered : Lowered}
    (hlower : lowerNewArray scope position source element = .ok lowered) (hlength : 0 ≤ length.val)
    (hnew : Folding.newArray state element length.val.toNat = .ok before)
    (hwidth : state.literalBits = none) (hfold : foldAll rest before = .ok after) :
    Covers lowered rest (Folding.push state (.integer length)) after := by
  obtain ⟨elements, helements, rfl⟩ := newArray_eq_ok hnew
  unfold lowerNewArray at hlower
  split at hlower
  · next data initializer hdup hdata _ =>
    obtain ⟨directives, hliteral, hpure⟩ := exceptBind_eq_ok hlower
    cases hpure
    obtain ⟨i, j, others, rfl, hi, hj⟩ := h.initialized hdup hdata
    obtain ⟨copied, hcopied, hfold⟩ := foldAll_cons hfold
    obtain ⟨filled, hfilled, hfold⟩ := foldAll_cons hfold
    rw [hi] at hcopied
    rw [hj] at hfilled
    rcases helements with ⟨rfl, rfl⟩ | ⟨rfl, rfl⟩
    · cases hliteral
      cases hcopied
      obtain rfl := initArray_newest
        { Folding.push state (.array state.arrays.length) with literalBits := none } hfilled
      exact ⟨_, (Mimics.literal length data).withBits state.literalBits none, Nat.le_add_left .., hfold,
        .inl rfl⟩
    · cases hliteral
  · cases hlower
    rcases helements with ⟨rfl, rfl⟩ | ⟨rfl, rfl⟩
    · exact .single (.newBytes hlength) hwidth hfold
    · exact .single (.newStrings hlength) hwidth hfold

/-- What is stored leaves the rest of the state as it is. -/
theorem literalBits_of_storeElement {id : Nat} {index : Int} {value : Value}
    (h : Folding.storeElement before id index value = .ok state) :
    state.literalBits = before.literalBits := by
  unfold Folding.storeElement at h
  split at h
  · split at h
    · cases h
    · obtain ⟨_, -, hset⟩ := exceptBind_eq_ok h
      cases hset
      rfl
  · obtain ⟨_, -, hset⟩ := exceptBind_eq_ok h
    cases hset
    rfl
  · cases h

theorem val_getD_ofInt?_lt {v : Int} (hv : v < 2 ^ 64) :
    ((Int128.ofInt? v).getD default).val < 2 ^ 64 := by
  cases h : Int128.ofInt? v with
  | none => decide
  | some w =>
    rw [Option.getD_some, Int128.ofInt?_eq_some_iff.mp h]
    exact hv

theorem reinterpret_lt {v : Int128} (hv : v.val < 2 ^ 64) (conversion : Conversion) (bits : Nat) :
    (conversion.reinterpret v bits).val < 2 ^ 64 := by
  unfold Conversion.reinterpret
  split
  · exact hv
  · next width hwidth =>
    have hle : min bits width ≤ 64 :=
      Nat.le_trans (Nat.min_le_right ..) (Conversion.unsignedBits?_le hwidth)
    have hlt := Nat.lt_of_lt_of_le (BitVec.ofInt (min bits width) v.val).isLt
      (Nat.pow_le_pow_right (by decide) hle)
    show ((BitVec.ofInt (min bits width) v.val).toNat : Int) < 2 ^ 64
    omega

/-- The code for an instruction that folds does what folding does, perhaps for more of them. -/
theorem covers_lower {i : Source.Instruction} (h : Ahead scope position (i :: rest) offset)
    {lowered : Lowered} {carry carry' : Carry}
    (hlower : (lower scope position i).run carry = .ok (lowered, carry'))
    (hsettled : Settled before (i :: rest)) (hstep : Folding.step before i.op = .ok state)
    (hfold : foldAll rest state = .ok after) : Covers lowered rest before after := by
  obtain ⟨source, op⟩ := i
  cases op
  case nop =>
    cases hstep
    cases hlower
    exact .single (Mimics.nil.withBits before.literalBits none) rfl hfold
  case convert conversion =>
    cases hlower
    have hnone : before.literalBits = none :=
      hsettled.resolve_right fun hne => hne conversion rfl
    have hsame : Folding.step before (.convert conversion) = .ok { before with literalBits := none } := by
      unfold Folding.step
      rw [hnone]
      rfl
    cases hsame.symm.trans hstep
    exact .single (Mimics.nil.withBits before.literalBits none) rfl hfold
  case literal32 v =>
    cases hstep
    cases hlower
    have hv : (Compile.ofInt32 v).val < 2 ^ 64 :=
      val_getD_ofInt?_lt (Int.lt_trans v.toInt_lt (by decide))
    exact covers_literal h.next hv (fun conversion => reinterpret_lt hv conversion 32) hfold
  case literal64 v =>
    cases hstep
    cases hlower
    have hv : (Compile.ofInt64 v).val < 2 ^ 64 :=
      val_getD_ofInt?_lt (Int.lt_trans v.toInt_lt (by decide))
    exact covers_literal h.next hv (fun conversion => reinterpret_lt hv conversion 64) hfold
  case loadString s =>
    cases hstep
    cases hlower
    exact .single ((Mimics.string s).withBits before.literalBits none) rfl hfold
  case dup =>
    cases hlower
    obtain ⟨_ | ⟨value, stack⟩, arrays, bits⟩ := before
    · cases hstep
    · cases hstep
      have hmimics : Mimics [.op .dup] (Folding.push ⟨stack, arrays, none⟩ value) _ := .dup value
      exact .single (hmimics.withBits bits none) rfl hfold
  case newArray element =>
    obtain ⟨hnew, -⟩ := run_liftM_eq_ok hlower
    obtain ⟨⟨length, popped⟩, hpop, hmake⟩ := exceptBind_eq_ok hstep
    have hbefore := popInteger_eq_ok hpop
    have hnone : popped.literalBits = none := (congrArg Folding.State.literalBits hbefore).symm
    dsimp only at hmake
    split at hmake
    · cases hmake
    · next hlength =>
      obtain ⟨final, hmimics, hinside, hrest, hwidth⟩ :=
        covers_newArray h.next hnew (by omega) hmake hnone hfold
      rw [← hbefore] at hmimics
      exact ⟨final, hmimics.withBits before.literalBits final.literalBits, hinside, hrest, hwidth⟩
  case storeElement =>
    cases hlower
    obtain ⟨⟨value, below⟩, hvalue, hstep⟩ := exceptBind_eq_ok hstep
    obtain ⟨⟨index, below'⟩, hindex, hstep⟩ := exceptBind_eq_ok hstep
    obtain ⟨⟨id, popped⟩, hid, hstore⟩ := exceptBind_eq_ok hstep
    obtain rfl := popInteger_eq_ok hindex
    obtain rfl := popArray_eq_ok hid
    have hbefore := pop_eq_ok hvalue
    have hnone : popped.literalBits = none := (congrArg Folding.State.literalBits hbefore).symm
    have hmimics := Mimics.storeElement hstore
    rw [← hbefore] at hmimics
    exact .single (hmimics.withBits before.literalBits state.literalBits)
      ((literalBits_of_storeElement hstore).trans hnone) hfold
  case call callee =>
    rcases callee with _ | intrinsic | _ | _
    case intrinsic =>
      cases intrinsic
      case stringConcat =>
        cases hlower
        obtain ⟨⟨right, below⟩, hright, hstep⟩ := exceptBind_eq_ok hstep
        obtain ⟨⟨left, popped⟩, hleft, hpush⟩ := exceptBind_eq_ok hstep
        cases hpush
        obtain rfl := popString_eq_ok hleft
        have hbefore := popString_eq_ok hright
        have hnone : popped.literalBits = none := (congrArg Folding.State.literalBits hbefore).symm
        have hmimics := Mimics.concat popped left right
        rw [← hbefore] at hmimics
        exact .single (hmimics.withBits before.literalBits popped.literalBits) hnone hfold
      all_goals cases hstep
    all_goals cases hstep
  case initArray => cases hlower
  all_goals cases hstep

end

/-! ## Whole bodies -/

/-- What is written for code that folds, up to the return behind it, does what folding does. -/
theorem mimics_of_lowers {scope : Scope} {position : Nat} {carry : Carry} {segments : List Segment}
    {rest : List Source.Instruction} {offset : UInt32} {before after : Folding.State}
    (hlowers : Lowers scope position carry segments) (h : Ahead scope position rest offset)
    (hfold : foldAll rest before = .ok after) (hsettled : Settled before rest) :
    ∃ first, segments.flatMap Segment.code = first ++ [.op .ret] ∧ Mimics first before after := by
  induction hlowers generalizing rest before with
  | @finish position carry hend =>
    have hbody := congrArg List.length h.body
    rw [List.length_drop, Array.length_toList, List.length_append, List.length_singleton] at hbody
    omega
  | @next position carry carry' lowered segments hposition hlower hrest ih =>
    have hhead := h.body
    rw [List.drop_eq_getElem_cons (by rwa [Array.length_toList]), Array.getElem_toList] at hhead
    rw [List.flatMap_cons]
    cases rest with
    | nil =>
      -- the return is the last instruction of the body
      obtain ⟨hsource, hdrop⟩ := List.cons.inj hhead
      rw [hsource] at hlower ⊢
      cases hlower
      cases hfold
      have hend : segments = [] := by
        cases hrest with
        | finish => rfl
        | next hlt =>
          have hlength := List.drop_eq_nil_iff.mp hdrop
          rw [Array.length_toList] at hlength
          exact absurd hlt (Nat.not_lt_of_le hlength)
      rw [hend]
      exact ⟨[.mark offset], rfl, .mark offset⟩
    | cons i rest =>
      obtain ⟨hsource, -⟩ := List.cons.inj hhead
      rw [hsource] at hlower ⊢
      obtain ⟨state, hstep, hfold⟩ := foldAll_cons hfold
      obtain ⟨state', hmimics, hinside, hfold, hsettled⟩ := covers_lower h hlower hsettled hstep hfold
      obtain ⟨first, hcode, hmimics'⟩ := ih (h.next.drop hinside) hfold hsettled
      refine ⟨(.mark i.offset :: lowered.directives) ++ first, ?_,
        ((Mimics.mark i.offset).append hmimics).append hmimics'⟩
      rw [hcode, List.append_assoc]
      rfl

end StackContract.Contract
