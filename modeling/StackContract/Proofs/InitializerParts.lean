import Mathlib.Algebra.GroupWithZero.Nat
import Mathlib.Data.List.Pairwise
import StackContract.Proofs.StaticFields
/-!
# Parts of the initializer

The initializer is one body for all types. Each type has a part of it: the instructions of its own
initializer that are kept, moved up by the number of offsets that the initializers in front take up
(`keptInit_eq_parts`). Whether an instruction is kept depends on the field that its statement assigns
(`keptCode_eq_keptOf`). The offsets of folded statements are taken up all the same.

Where offsets go up in every initializer and no branch leads beyond its end, a part has all its offsets
and targets between its base and the base of the next one (`Joinable.holds_of_mem`), so that a target is
looked up in its own part only (`Joinable.find?_add_shift`).
-/

namespace StackContract.Compile

open Source (Field FieldRef TypeDecl Module)

/-! ## What is kept of an initializer -/

/-- The field that an instruction stores to, which ends a statement. -/
def storedField? (i : Source.Instruction) : Option FieldRef :=
  match i.op with
  | .storeStatic target => some target
  | _ => none

/-- Whether the instruction in front of `rest` is kept. In a statement it is, unless the field that the
statement assigns is readonly, and behind the last statement, unless it returns or does nothing. -/
def isKept (fields : Table String Field) (i : Source.Instruction) (rest : List Source.Instruction) :
    Bool :=
  match (i :: rest).findSome? storedField? with
  | some target => !isReadonlyKey fields target.key
  | none => isKeptBehind i

/-- The instructions of an initializer that are kept, in their order. -/
def keptOf (fields : Table String Field) : List Source.Instruction → List Source.Instruction
  | [] => []
  | i :: rest => if isKept fields i rest then i :: keptOf fields rest else keptOf fields rest

section

variable (fields : Table String Field) {code : List Source.Instruction}

theorem keptOf_sublist (code : List Source.Instruction) : (keptOf fields code).Sublist code := by
  induction code with
  | nil => exact .slnil
  | cons i rest ih =>
    unfold keptOf
    split
    · exact ih.cons_cons i
    · exact ih.cons i

theorem isKept_append_store {i store : Source.Instruction} {target : FieldRef}
    (hcode : ∀ j ∈ i :: code, storedField? j = none) (hstore : storedField? store = some target)
    (rest : List Source.Instruction) :
    isKept fields i (code ++ store :: rest) = !isReadonlyKey fields target.key := by
  have hnone : (i :: code).findSome? storedField? = none := List.findSome?_eq_none_iff.mpr hcode
  unfold isKept
  rw [← List.cons_append, List.findSome?_append, hnone, Option.none_or, List.findSome?_cons, hstore]

/-- A statement is kept as a whole, or nothing of it is. -/
theorem keptOf_statement {store : Source.Instruction} {target : FieldRef}
    (hcode : ∀ j ∈ code, storedField? j = none) (hstore : storedField? store = some target)
    (rest : List Source.Instruction) : keptOf fields (code ++ store :: rest)
      = (if isReadonlyKey fields target.key then [] else code ++ [store]) ++ keptOf fields rest := by
  induction code with
  | nil =>
    have hkept : isKept fields store rest = !isReadonlyKey fields target.key := by
      unfold isKept
      rw [List.findSome?_cons, hstore]
    rw [List.nil_append, keptOf, hkept]
    cases isReadonlyKey fields target.key <;> rfl
  | cons i code ih =>
    rw [List.cons_append, keptOf, isKept_append_store fields hcode hstore,
      ih fun j hj => hcode j (List.mem_cons_of_mem _ hj)]
    cases isReadonlyKey fields target.key <;> rfl

/-- Behind the last statement only returns and what does nothing are left out. -/
theorem keptOf_of_noStore (hcode : ∀ j ∈ code, storedField? j = none) :
    keptOf fields code = code.filter isKeptBehind := by
  induction code with
  | nil => rfl
  | cons i rest ih =>
    have hkept : isKept fields i rest = isKeptBehind i := by
      unfold isKept
      rw [List.findSome?_eq_none_iff.mpr hcode]
    rw [keptOf, hkept, ih fun j hj => hcode j (List.mem_cons_of_mem _ hj), List.filter_cons]

theorem keptOf_splitStatements (hcode : ∀ j ∈ code, storedField? j = none)
    (body : List Source.Instruction) :
    ((splitStatements code body).1.filter fun s => !isReadonlyKey fields s.target.key).flatMap
        Statement.instructions ++ (splitStatements code body).2.filter isKeptBehind
      = keptOf fields (code.reverse ++ body) := by
  -- on the body behind `code`, which has been passed since the last store
  induction body generalizing code with
  | nil =>
    rw [List.append_nil, keptOf_of_noStore fields fun j hj => hcode j (List.mem_reverse.mp hj)]
    rfl
  | cons i rest ih =>
    unfold splitStatements
    split
    · next target hop =>
      have hstore : storedField? i = some target := by
        unfold storedField?
        rw [hop]
      rw [keptOf_statement fields (fun j hj => hcode j (List.mem_reverse.mp hj)) hstore,
        ← List.nil_append rest, ← List.reverse_nil, ← ih (List.forall_mem_nil _), List.filter_cons]
      cases isReadonlyKey fields target.key with
      | true => simp
      | false => simp [Statement.instructions]
    · next hother =>
      have hnone : storedField? i = none := by
        unfold storedField?
        split
        · next target hop => exact absurd hop (hother target)
        · rfl
      rw [ih (List.forall_mem_cons.mpr ⟨hnone, hcode⟩), List.reverse_cons, List.append_assoc]
      rfl

/-- What is kept of a type, statement by statement, is what is kept instruction by instruction. -/
theorem keptCode_eq_keptOf (type : TypeDecl) : keptCode fields type = keptOf fields type.staticInit :=
  keptOf_splitStatements fields (List.forall_mem_nil _) type.staticInit

end

/-! ## Parts -/

/-- The number of offsets that an initializer takes up. -/
def spanOf (type : TypeDecl) : Nat :=
  match type.staticInit.getLast? with
  | some last => last.offset.toNat + 1
  | none => 0

/-- The initializer of a type as a part of a body. -/
structure Part where
  /-- The number of offsets that the initializers in front take up. -/
  base : Nat
  type : TypeDecl

/-- The parts that initializers become one behind the other. -/
def parts (base : Nat) : List TypeDecl → List Part
  | [] => []
  | type :: rest => ⟨base, type⟩ :: parts (base + spanOf type) rest

namespace Part

def shift (part : Part) : UInt32 :=
  UInt32.ofNat part.base

/-- The instructions that are kept, as the type has them. -/
def kept (fields : Table String Field) (part : Part) : List Source.Instruction :=
  keptOf fields part.type.staticInit

/-- The instructions that are kept, as the body has them. -/
def code (fields : Table String Field) (part : Part) : List Source.Instruction :=
  (part.kept fields).map (·.shift part.shift)

/-- Whether an offset of the body is one of those that the part takes up. -/
def Holds (part : Part) (offset : UInt32) : Prop :=
  part.base ≤ offset.toNat ∧ offset.toNat < part.base + spanOf part.type

theorem find?_code (part : Part) (fields : Table String Field) (source : UInt32) :
    (part.code fields).find? (fun j => j.offset = source + part.shift)
      = ((part.kept fields).find? fun j => j.offset = source).map (·.shift part.shift) := by
  unfold code
  rw [List.find?_map]
  congr 2
  funext j
  exact decide_eq_decide.mpr (UInt32.add_left_inj part.shift)

end Part

/-- The parts of the initializer of a module. -/
def partsOf (module : Module) : List Part :=
  parts 0 module.compiledTypes

/-- The shift behind an initializer is the base of the next part. -/
theorem shiftBehind_ofNat (base : Nat) (type : TypeDecl) :
    shiftBehind (UInt32.ofNat base) type = UInt32.ofNat (base + spanOf type) := by
  unfold shiftBehind spanOf
  cases type.staticInit.getLast? with
  | none => rfl
  | some last =>
    simp only [← Nat.add_assoc, UInt32.ofNat_add, UInt32.ofNat_toNat]
    rfl

theorem keptInit_eq_parts (fields : Table String Field) (base : Nat) (types : List TypeDecl) :
    keptInit fields (UInt32.ofNat base) types = (parts base types).flatMap (Part.code fields) := by
  induction types generalizing base with
  | nil => rfl
  | cons type rest ih =>
    rw [keptInit, shiftBehind_ofNat, ih, keptCode_eq_keptOf]
    rfl

/-! ## Ascending initializers -/

/-- An initializer whose offsets go up, and whose branches lead to offsets up to the last one. -/
structure Ascends (code : List Source.Instruction) : Prop where
  increasing : code.Pairwise fun i j => i.offset < j.offset
  bounded : ∀ i ∈ code, ∀ target ∈ i.op.targets, ∀ last ∈ code.getLast?, target ≤ last.offset

instance (code : List Source.Instruction) : Decidable (Ascends code) :=
  -- the targets of an instruction are gone through, and not all numbers of 32 bits
  letI (i : Source.Instruction) :
      Decidable (∀ target ∈ i.op.targets, ∀ last ∈ code.getLast?, target ≤ last.offset) :=
    List.decidableBAll _ _
  decidable_of_iff (code.Pairwise (fun i j => i.offset < j.offset)
      ∧ ∀ i ∈ code, ∀ target ∈ i.op.targets, ∀ last ∈ code.getLast?, target ≤ last.offset)
    ⟨fun h => ⟨h.1, h.2⟩, fun h => ⟨h.1, h.2⟩⟩

/-- Initializers that ascend, with room for all of them in one body. -/
structure Joinable (types : List TypeDecl) : Prop where
  ascends : ∀ type ∈ types, Ascends type.staticInit
  room : (types.map spanOf).sum ≤ 0x1_0000_0000

instance (types : List TypeDecl) : Decidable (Joinable types) :=
  decidable_of_iff ((∀ type ∈ types, Ascends type.staticInit) ∧ (types.map spanOf).sum ≤ 0x1_0000_0000)
    ⟨fun h => ⟨h.1, h.2⟩, fun h => ⟨h.1, h.2⟩⟩

/-- All offsets and targets of an initializer that ascends are ones that it takes up. -/
theorem Ascends.lt_span {type : TypeDecl} (h : Ascends type.staticInit) {i : Source.Instruction}
    (hi : i ∈ type.staticInit) : i.offset.toNat < spanOf type
      ∧ ∀ target ∈ i.op.targets, target.toNat < spanOf type := by
  cases hlast : type.staticInit.getLast? with
  | none =>
    rw [List.getLast?_eq_none_iff.mp hlast] at hi
    cases hi
  | some last =>
    have hspan : spanOf type = last.offset.toNat + 1 := by
      unfold spanOf
      rw [hlast]
    obtain ⟨front, hfront⟩ := List.getLast?_eq_some_iff.mp hlast
    have hincreasing := h.increasing
    rw [hfront] at hi hincreasing
    rw [hspan]
    constructor
    · rcases List.mem_append.mp hi with hi | hi
      · -- the last offset is above those in front of it
        have hlt := (List.pairwise_append.mp hincreasing).2.2 i hi last (List.mem_singleton.mpr rfl)
        rw [UInt32.lt_iff_toNat_lt] at hlt
        omega
      · rw [List.mem_singleton.mp hi]
        omega
    · intro target htarget
      rw [← hfront] at hi
      have hle := h.bounded i hi target htarget last hlast
      rw [UInt32.le_iff_toNat_le] at hle
      omega

section

variable {types : List TypeDecl} {base : Nat} {part : Part}

theorem mem_parts (h : part ∈ parts base types) : part.type ∈ types ∧ base ≤ part.base
    ∧ part.base + spanOf part.type ≤ base + (types.map spanOf).sum := by
  induction types generalizing base with
  | nil => cases h
  | cons type rest ih =>
    rw [List.map_cons, List.sum_cons]
    rcases List.mem_cons.mp h with rfl | h
    · exact ⟨List.mem_cons_self .., Nat.le_refl _, by dsimp only; omega⟩
    · obtain ⟨htype, hbase, hend⟩ := ih h
      exact ⟨List.mem_cons_of_mem _ htype, by omega, by omega⟩

/-- A part ends where the next one starts, or in front of it. -/
theorem pairwise_parts (base : Nat) (types : List TypeDecl) :
    (parts base types).Pairwise fun first second => first.base + spanOf first.type ≤ second.base := by
  induction types generalizing base with
  | nil => exact .nil
  | cons type rest ih => exact .cons (fun second hsecond => (mem_parts hsecond).2.1) (ih _)

/-- No offset is taken up by two parts. -/
theorem pairwise_holds (base : Nat) (types : List TypeDecl) :
    (parts base types).Pairwise fun first second => ∀ n, ¬ (first.Holds n ∧ second.Holds n) := by
  apply (pairwise_parts base types).imp
  rintro first second hle n ⟨⟨-, hbelow⟩, habove, -⟩
  omega

theorem eq_of_holds {part' : Part} (hpart : part ∈ parts base types) (hpart' : part' ∈ parts base types)
    {n : UInt32} (h : part.Holds n) (h' : part'.Holds n) : part = part' := by
  have : Std.Symm fun first second : Part => ∀ n, ¬ (first.Holds n ∧ second.Holds n) :=
    ⟨fun _ _ hapart n hn => hapart n hn.symm⟩
  by_contra hne
  exact (pairwise_holds base types).forall hpart hpart' hne n ⟨h, h'⟩

namespace Joinable

variable (h : Joinable types)

include h

/-- Within a part nothing wraps around. -/
theorem toNat_add_shift (hpart : part ∈ parts 0 types) {n : UInt32} (hn : n.toNat < spanOf part.type) :
    (n + part.shift).toNat = part.base + n.toNat := by
  -- the part ends within the room, so that the sum is below 2^32
  have hend := (mem_parts hpart).2.2
  have hroom := h.room
  unfold Part.shift
  rw [UInt32.toNat_add, UInt32.toNat_ofNat']
  omega

theorem holds_add_shift (hpart : part ∈ parts 0 types) {n : UInt32} (hn : n.toNat < spanOf part.type) :
    part.Holds (n + part.shift) := by
  unfold Part.Holds
  rw [h.toNat_add_shift hpart hn]
  omega

theorem lt_span (hpart : part ∈ parts 0 types) {fields : Table String Field} {i : Source.Instruction}
    (hi : i ∈ part.kept fields) : i.offset.toNat < spanOf part.type
      ∧ ∀ target ∈ i.op.targets, target.toNat < spanOf part.type :=
  (h.ascends _ (mem_parts hpart).1).lt_span ((keptOf_sublist fields _).subset hi)

/-- All offsets and targets in the code of a part are ones that it takes up. -/
theorem holds_of_mem (hpart : part ∈ parts 0 types) {fields : Table String Field}
    {i : Source.Instruction} (hi : i ∈ part.code fields) :
    part.Holds i.offset ∧ ∀ target ∈ i.op.targets, part.Holds target := by
  obtain ⟨j, hj, rfl⟩ := List.mem_map.mp hi
  obtain ⟨hoffset, htargets⟩ := h.lt_span hpart hj
  refine ⟨h.holds_add_shift hpart hoffset, fun target htarget => ?_⟩
  have hmoved : target ∈ (j.op.shiftTargets part.shift).targets := htarget
  rw [Source.Op.targets_shiftTargets] at hmoved
  obtain ⟨source, hsource, rfl⟩ := List.mem_map.mp hmoved
  exact h.holds_add_shift hpart (htargets source hsource)

/-- What is kept of a part goes up, and so does its code. -/
theorem pairwise_code (hpart : part ∈ parts 0 types) (fields : Table String Field) :
    (part.code fields).Pairwise fun i j => i.offset < j.offset := by
  have hkept : (part.kept fields).Pairwise fun i j => i.offset < j.offset :=
    (h.ascends _ (mem_parts hpart).1).increasing.sublist (keptOf_sublist fields _)
  unfold Part.code
  rw [List.pairwise_map]
  apply hkept.imp_of_mem
  intro i j hi hj hlt
  show i.offset + part.shift < j.offset + part.shift
  rw [UInt32.lt_iff_toNat_lt] at hlt ⊢
  rw [h.toNat_add_shift hpart (h.lt_span hpart hi).1, h.toNat_add_shift hpart (h.lt_span hpart hj).1]
  omega

/-- The offsets of a body of such initializers go up. -/
theorem pairwise_flatMap_code (fields : Table String Field) :
    ((parts 0 types).flatMap (Part.code fields)).Pairwise fun i j => i.offset < j.offset := by
  rw [List.pairwise_flatMap]
  refine ⟨fun part hpart => h.pairwise_code hpart fields, ?_⟩
  apply (pairwise_parts 0 types).imp_of_mem
  intro first second hfirst hsecond hle i hi j hj
  obtain ⟨-, hbelow⟩ := (h.holds_of_mem hfirst hi).1
  obtain ⟨habove, -⟩ := (h.holds_of_mem hsecond hj).1
  rw [UInt32.lt_iff_toNat_lt]
  omega

/-- Parts that do not take up an offset have no instruction there. -/
theorem find?_eq_none {others : List Part} (hothers : ∀ other ∈ others, other ∈ parts 0 types)
    (fields : Table String Field) {n : UInt32} (hn : ∀ other ∈ others, ¬ other.Holds n) :
    (others.flatMap (Part.code fields)).find? (fun j => j.offset = n) = none := by
  rw [List.find?_eq_none]
  intro j hj hoffset
  obtain ⟨other, hother, hj⟩ := List.mem_flatMap.mp hj
  apply hn other hother
  rw [← of_decide_eq_true hoffset]
  exact (h.holds_of_mem (hothers other hother) hj).1

/-- An offset that a part takes up is looked up among the instructions of the part. -/
theorem find?_add_shift (hpart : part ∈ parts 0 types) (fields : Table String Field) {source : UInt32}
    (hsource : source.toNat < spanOf part.type) :
    ((parts 0 types).flatMap (Part.code fields)).find? (fun j => j.offset = source + part.shift)
      = ((part.kept fields).find? fun j => j.offset = source).map (·.shift part.shift) := by
  have hholds := h.holds_add_shift hpart hsource
  have hpairwise := pairwise_holds 0 types
  obtain ⟨before, after, hparts⟩ := List.append_of_mem hpart
  rw [hparts] at hpairwise
  obtain ⟨-, hbehind, hacross⟩ := List.pairwise_append.mp hpairwise
  -- no part in front takes the target up, and none behind
  have hbefore : ∀ other ∈ before, ¬ other.Holds (source + part.shift) :=
    fun other hother hn => hacross other hother part (List.mem_cons_self ..) _ ⟨hn, hholds⟩
  have hafter : ∀ other ∈ after, ¬ other.Holds (source + part.shift) :=
    fun other hother hn => (List.pairwise_cons.mp hbehind).1 other hother _ ⟨hholds, hn⟩
  have hmem : ∀ other ∈ before ++ part :: after, other ∈ parts 0 types :=
    fun other hother => hparts ▸ hother
  rw [hparts, List.flatMap_append, List.flatMap_cons, List.find?_append, List.find?_append,
    h.find?_eq_none (fun other hother => hmem other (List.mem_append_left _ hother)) fields hbefore,
    h.find?_eq_none (fun other hother => hmem other (List.mem_append_right _ (List.mem_cons_of_mem _ hother)))
      fields hafter,
    part.find?_code, Option.none_or, Option.or_none]

end Joinable

end

end StackContract.Compile
