import StackContract.Proofs.Numbers
import StackContract.Script.Constant
import StackContract.Script.ItemKind
import StackContract.Script.Service
import StackContract.Script.Slot
/-!
# Reading instructions back

An instruction whose operand fits its opcode is read from any place of a script where its encoding
stands (`decode_encode`), and a script of such instructions is read from front to back
(`disassemble_flatMap`). The constructors of instructions fit, and say what they hold.
-/

namespace StackContract.Script

open Number

/-! ## Decoding -/

private theorem extract_toArray (before middle after : List UInt8) :
    ((before ++ (middle ++ after)).toArray.extract before.length
      (before.length + middle.length)).toList = middle := by
  rw [Array.toList_extract, List.extract_eq_take_drop, List.drop_left, Nat.add_sub_cancel_left,
    List.take_left]

/-- The length of an operand that fits is found from the bytes that start with it. -/
private theorem operandLength?_of_fits (before after : List UInt8) (i : Instruction)
    (h : i.fits = true) :
    operandLength? (before ++ (i.operand ++ after)).toArray before.length i.opcode
      = some i.operand.length := by
  unfold Instruction.fits at h
  unfold operandLength?
  cases hoperand : i.opcode.operand with
  | none =>
    rw [hoperand] at h
    rw [List.isEmpty_iff.mp h]
    rfl
  | fixed size =>
    rw [hoperand] at h
    exact congrArg some (of_decide_eq_true h).symm
  | prefixed width =>
    rw [hoperand] at h
    obtain ⟨hwidth, hlength⟩ := of_decide_eq_true h
    have hsize : before.length + width ≤ (before ++ (i.operand ++ after)).toArray.size := by
      rw [List.size_toArray, List.length_append, List.length_append]
      omega
    have htake : ((before ++ (i.operand ++ after)).toArray.extract before.length
        (before.length + width)).toList = i.operand.take width := by
      rw [Array.toList_extract, List.extract_eq_take_drop, List.drop_left, Nat.add_sub_cancel_left,
        List.take_append_of_le_length hwidth]
    show (if _ then some (width + _) else none) = _
    rw [if_pos hsize, htake, hlength]
    exact congrArg some (by omega)

/-- An instruction that fits is read where its encoding stands. -/
theorem decode_encode (before after : List UInt8) (i : Instruction) (h : i.fits = true) :
    decode (before ++ (i.encode ++ after)).toArray before.length = .ok ⟨i, before.length⟩ := by
  have hscript : before ++ (i.encode ++ after)
      = (before ++ [i.opcode.byte]) ++ (i.operand ++ after) := by
    rw [Instruction.encode, List.append_assoc]
    rfl
  have hlength : (before ++ [i.opcode.byte]).length = before.length + 1 := by
    rw [List.length_append, List.length_singleton]
  have hbyte : (before ++ (i.encode ++ after)).toArray[before.length]? = some i.opcode.byte := by
    rw [List.getElem?_toArray, List.getElem?_append_right (Nat.le_refl _), Nat.sub_self]
    rfl
  have hoperand : operandLength? (before ++ (i.encode ++ after)).toArray (before.length + 1) i.opcode
      = some i.operand.length := by
    rw [hscript, ← hlength]
    exact operandLength?_of_fits _ after i h
  have hextract : ((before ++ (i.encode ++ after)).toArray.extract (before.length + 1)
      (before.length + 1 + i.operand.length)).toList = i.operand := by
    rw [hscript, ← hlength]
    exact extract_toArray _ i.operand after
  have hsize : before.length + 1 + i.operand.length
      ≤ (before ++ (i.encode ++ after)).toArray.size := by
    rw [List.size_toArray, List.length_append, List.length_append, Instruction.length_encode,
      Instruction.size]
    omega
  unfold decode
  simp only [hbyte, Opcode.ofByte?_byte, hoperand, if_pos hsize, hextract]

/-- Instructions with their offsets when the first is at `offset`. -/
def locate (offset : Nat) : List Instruction → List Located
  | [] => []
  | i :: rest => ⟨i, offset⟩ :: locate (offset + i.size) rest

theorem locate_append (offset : Nat) (first second : List Instruction) :
    locate offset (first ++ second)
      = locate offset first ++ locate (offset + (first.flatMap Instruction.encode).length) second := by
  induction first generalizing offset with
  | nil => rfl
  | cons i first ih =>
    rw [List.cons_append, locate, locate, ih, List.flatMap_cons, List.length_append,
      Instruction.length_encode, List.cons_append, Nat.add_assoc]

private theorem disassembleFrom_flatMap (before : List UInt8) (done : Array Located)
    (code : List Instruction) (h : ∀ i ∈ code, i.fits = true) :
    disassembleFrom (before ++ code.flatMap Instruction.encode).toArray before.length done
      = (done ++ (locate before.length code).toArray, none) := by
  -- on the instructions, those that were read being part of `before`
  induction code generalizing before done with
  | nil =>
    unfold disassembleFrom
    rw [if_neg]
    · simp [locate]
    · simp
  | cons i rest ih =>
    have hdecode : decode (before ++ (i :: rest).flatMap Instruction.encode).toArray before.length
        = .ok ⟨i, before.length⟩ := by
      rw [List.flatMap_cons]
      exact decode_encode before _ i (h i (List.mem_cons_self ..))
    have hinside : before.length < (before ++ (i :: rest).flatMap Instruction.encode).toArray.size := by
      rw [List.size_toArray, List.length_append, List.flatMap_cons, List.length_append,
        Instruction.length_encode, Instruction.size]
      omega
    have hnext : (before ++ i.encode).length = before.length + i.size := by
      rw [List.length_append, Instruction.length_encode]
    have hrest := ih (before ++ i.encode) (done.push ⟨i, before.length⟩)
      (fun j hj => h j (List.mem_cons_of_mem _ hj))
    rw [List.append_assoc, ← List.flatMap_cons, hnext] at hrest
    unfold disassembleFrom
    rw [if_pos hinside]
    split
    · next e he =>
      rw [hdecode] at he
      cases he
    · next j hj =>
      rw [hdecode] at hj
      cases hj
      show disassembleFrom _ (before.length + i.size) _ = _
      rw [hrest, locate]
      simp

/-- A script of instructions that fit is read from front to back. -/
theorem disassemble_flatMap (code : List Instruction) (h : ∀ i ∈ code, i.fits = true) :
    disassemble (code.flatMap Instruction.encode).toArray = ((locate 0 code).toArray, none) := by
  have := disassembleFrom_flatMap [] #[] code h
  rw [List.nil_append, Array.empty_append] at this
  exact this

/-! ## What the constructors hold -/

namespace Instruction

theorem fits_plain {op : Opcode} (h : op.operand = .none) : (Instruction.mk op []).fits = true := by
  unfold fits
  rw [h]
  rfl

theorem fits_fixed {op : Opcode} {operand : List UInt8} (h : op.operand = .fixed operand.length) :
    (Instruction.mk op operand).fits = true := by
  unfold fits
  rw [h]
  exact decide_eq_true rfl

/-! ### Integers -/

/-- The numbers with opcodes of their own. -/
private theorem ofSmall?_cases (v : Int) :
    Opcode.ofSmall? v = none ∨ ∃ op, Opcode.ofSmall? v = some op ∧ op.operand = .none
      ∧ op.small? = some v := by
  by_cases hrange : -1 ≤ v ∧ v ≤ 16
  · right
    -- all eighteen of them
    have hsmall : ∀ n : Fin 18, ∃ op, Opcode.ofSmall? ((n.val : Int) - 1) = some op
        ∧ op.operand = .none ∧ op.small? = some ((n.val : Int) - 1) := by
      unfold Opcode.ofSmall?
      simp only [Opcode.ofByte?_eq_find?]
      decide +kernel
    have := hsmall ⟨(v + 1).toNat, by omega⟩
    rwa [show (((v + 1).toNat : Nat) : Int) - 1 = v by omega] at this
  · left
    unfold Opcode.ofSmall?
    rw [if_neg (by omega), if_neg (by omega)]

/-- The form for an integer of `length` significant bytes is at least as wide. -/
private theorem integerForm_spec {length : Nat} (h : length ≤ 16) :
    length ≤ (integerForm length).2 ∧ (integerForm length).1.operand = .fixed (integerForm length).2
      ∧ (integerForm length).1.small? = none
      ∧ (integerForm length).1 ∈
        [.pushInt8, .pushInt16, .pushInt32, .pushInt64, Opcode.pushInt128] := by
  unfold integerForm
  repeat' split
  all_goals exact ⟨by omega, rfl, rfl, by decide⟩

/-- The opcodes that push an integer. -/
theorem opcode_pushInteger (v : Int128) : (∃ n, Opcode.ofSmall? n = some (pushInteger v).opcode)
    ∨ (pushInteger v).opcode ∈ [.pushInt8, .pushInt16, .pushInt32, .pushInt64, Opcode.pushInt128] := by
  unfold pushInteger
  rcases ofSmall?_cases v.val with hsmall | ⟨op, hsmall, -⟩
  · rw [hsmall]
    obtain ⟨-, -, -, hmem⟩ := integerForm_spec v.length_minimalBytes
    exact .inr hmem
  · rw [hsmall]
    exact .inl ⟨_, hsmall⟩

theorem fits_pushInteger (v : Int128) : (pushInteger v).fits = true := by
  unfold pushInteger
  rcases ofSmall?_cases v.val with hsmall | ⟨op, hsmall, hoperand, -⟩
  · rw [hsmall]
    obtain ⟨hle, hoperand, -⟩ := integerForm_spec v.length_minimalBytes
    refine fits_fixed ?_
    rw [List.length_rightpad, hoperand, Nat.max_eq_left hle]
  · rw [hsmall]
    exact fits_plain hoperand

/-- The instruction that pushes an integer pushes that integer. -/
theorem integer?_pushInteger (v : Int128) : (pushInteger v).integer? = some v := by
  unfold pushInteger
  rcases ofSmall?_cases v.val with hsmall | ⟨op, hsmall, -, hvalue⟩
  · rw [hsmall]
    obtain ⟨-, -, hnone, hmem⟩ := integerForm_spec v.length_minimalBytes
    have hread := v.ofBytes?_rightpad_minimalBytes (integerForm v.minimalBytes.length).2
    unfold integer?
    simp only [hnone]
    simp only [List.mem_cons, List.not_mem_nil, or_false] at hmem
    rcases hmem with h | h | h | h | h <;> rw [h] <;> exact hread
  · rw [hsmall]
    unfold integer?
    simp only [hvalue]
    exact Int128.ofInt?_val v

/-! ### Data -/

private theorem dataForm_spec {length : Nat} (h : length < 256 ^ 4) :
    (dataForm length).1.operand = .prefixed (dataForm length).2 ∧ length < 256 ^ (dataForm length).2 := by
  unfold dataForm
  split
  · exact ⟨rfl, by omega⟩
  · split
    · exact ⟨rfl, by omega⟩
    · exact ⟨rfl, h⟩

theorem opcode_pushData (data : List UInt8) :
    (pushData data).opcode ∈ [.pushData1, .pushData2, Opcode.pushData4] := by
  unfold pushData dataForm
  simp only
  repeat' split
  · exact List.mem_cons_self ..
  · exact List.mem_cons_of_mem _ (List.mem_cons_self ..)
  · exact List.mem_cons_of_mem _ (List.mem_cons_of_mem _ (List.mem_cons_self ..))

theorem fits_pushData {data : List UInt8} (h : data.length < 256 ^ 4) :
    (pushData data).fits = true := by
  obtain ⟨hoperand, hlength⟩ := dataForm_spec h
  unfold fits pushData
  rw [hoperand]
  refine decide_eq_true ?_
  rw [List.length_append, length_bytesOfNat,
    List.take_left' (length_bytesOfNat _ data.length), natOfBytes_bytesOfNat _ _ hlength]
  omega

/-- The instruction that pushes data holds those data. -/
theorem data_pushData {data : List UInt8} (h : data.length < 256 ^ 4) :
    (pushData data).data = data := by
  obtain ⟨hoperand, -⟩ := dataForm_spec h
  unfold Instruction.data pushData
  rw [hoperand]
  exact List.drop_left' (length_bytesOfNat _ data.length)

theorem size_pushData (data : List UInt8) : data.length < (pushData data).size := by
  unfold size pushData
  rw [List.length_append]
  omega

/-! ### Relative operands -/

/-- A relative instruction leads as far as its operand says. -/
theorem target?_relative {op : Opcode} {address target : Nat} {displacement : Int}
    (hrelative : op.isRelative = true) (lower : -0x8000_0000 ≤ displacement)
    (upper : displacement < 0x8000_0000) (htarget : (address : Int) + displacement = target) :
    Located.target? ⟨⟨op, bytesOfInt 4 displacement⟩, address⟩ = some target := by
  have hread : signedOfBytes (bytesOfInt 4 displacement) = displacement :=
    signedOfBytes_bytesOfInt 3 displacement (by omega) (by omega)
  unfold Located.target? displacement?
  rw [if_pos hrelative]
  show (if 0 ≤ (address : Int) + signedOfBytes (bytesOfInt 4 displacement)
    then some ((address : Int) + signedOfBytes (bytesOfInt 4 displacement)).toNat else none) = _
  rw [hread, htarget, if_pos (Int.natCast_nonneg target), Int.toNat_natCast]

end Instruction

/-! ### Slot accesses -/

/-- An access is a slot instruction, with the index as operand or none. -/
theorem Access.instruction_spec (access : Access) :
    access.instruction.fits = true ∧ access.instruction.access? = some access
      ∧ access.instruction.opcode.slotArea? = some (access.area, access.isLoad) := by
  obtain ⟨area, isLoad, index⟩ := access
  by_cases h : index ≤ 6
  · have hindex : ∀ n : Fin 7, ∀ area isLoad,
        (Access.mk area isLoad (UInt8.ofNat n.val)).instruction.fits = true
        ∧ (Access.mk area isLoad (UInt8.ofNat n.val)).instruction.access?
          = some ⟨area, isLoad, UInt8.ofNat n.val⟩
        ∧ (Access.mk area isLoad (UInt8.ofNat n.val)).instruction.opcode.slotArea?
          = some (area, isLoad) := by
      intro n area isLoad
      unfold Access.instruction
      simp only [Opcode.ofByte?_eq_find?]
      revert n
      cases area <;> cases isLoad <;> decide +kernel
    have hlt : index.toNat < 7 := by
      rw [UInt8.le_iff_toNat_le] at h
      exact Nat.lt_succ_of_le h
    have := hindex ⟨index.toNat, hlt⟩ area isLoad
    rwa [UInt8.ofNat_toNat] at this
  · unfold Access.instruction
    simp only [if_neg h]
    cases area <;> cases isLoad <;> exact ⟨rfl, rfl, rfl⟩

theorem length_serviceIdBytes (name : String) : (serviceIdBytes name).length = 4 := by
  unfold serviceIdBytes
  rw [List.length_take, Digest.length_sha256]
  rfl

end StackContract.Script
