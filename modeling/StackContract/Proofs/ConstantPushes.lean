import StackContract.Proofs.Encoding
import StackContract.Proofs.TwosComplement
/-!
# Constants in scripts

Which instructions push an integer (`EncodesInteger`) or a byte string (`EncodesData`), said by their
opcodes and operands. An instruction pushes the integer that it is read as (`integer?_eq_some_iff`).

The instructions that are written for constants are read back from any place of a script, hold their
constant, and are as short as any that push it (`constantPushes_exact`).
-/

namespace StackContract.Script

open Number

/-- The opcodes that push the numbers from zero up, without an operand. -/
def smallPushes : List Opcode :=
  [.push0, .push1, .push2, .push3, .push4, .push5, .push6, .push7, .push8, .push9, .push10, .push11,
    .push12, .push13, .push14, .push15, .push16]

/-- The opcodes that push their operand in two's complement, with its width. -/
def widePushes : List (Opcode × ℕ) :=
  [(.pushInt8, 1), (.pushInt16, 2), (.pushInt32, 4), (.pushInt64, 8), (.pushInt128, 16), (.pushInt256, 32)]

/-- The opcodes that push data, with the width of the length in front of them. -/
def dataPushes : List (Opcode × ℕ) :=
  [(.pushData1, 1), (.pushData2, 2), (.pushData4, 4)]

theorem Opcode.mem_all (op : Opcode) : op ∈ all :=
  List.mem_of_find?_eq_some ((ofByte?_eq_find? _).symm.trans (ofByte?_byte op))

namespace Instruction

/-- The instructions that push an integer. -/
inductive EncodesInteger : Instruction → ℤ → Prop
  | minusOne : EncodesInteger ⟨.pushM1, []⟩ (-1)
  | small {op : Opcode} {n : ℕ} (hop : smallPushes[n]? = some op) : EncodesInteger ⟨op, []⟩ n
  | wide {op : Opcode} {operand : List UInt8} (hop : (op, operand.length) ∈ widePushes) :
    EncodesInteger ⟨op, operand⟩ (twosComplement operand)

/-- The instructions that push data: the operand is their length, least significant byte first, and the
data behind it. -/
inductive EncodesData : Instruction → List UInt8 → Prop
  | mk {op : Opcode} {lengthBytes data : List UInt8} (hop : (op, lengthBytes.length) ∈ dataPushes)
    (hlength : Nat.ofDigits 256 (lengthBytes.map UInt8.toNat) = data.length) :
    EncodesData ⟨op, lengthBytes ++ data⟩ data

/-! ## Integers -/

/-- The opcodes without an operand push minus one or the number of their place. -/
theorem small?_eq_some_iff {op : Opcode} {n : ℤ} : op.small? = some n
    ↔ op = .pushM1 ∧ n = -1 ∨ ∃ k : ℕ, smallPushes[k]? = some op ∧ n = k := by
  constructor
  · intro h
    -- the opcodes one by one
    have hcases : ∀ op ∈ Opcode.all, op.small? = none ∨ op = .pushM1 ∧ op.small? = some (-1)
        ∨ ∃ k : Fin 17, smallPushes[k.val]? = some op ∧ op.small? = some (k.val : ℤ) := by
      decide +kernel
    rcases hcases op op.mem_all with hnone | ⟨rfl, hsome⟩ | ⟨k, hk, hsome⟩
    · rw [hnone] at h
      cases h
    · exact .inl ⟨rfl, Option.some.inj (h.symm.trans hsome)⟩
    · exact .inr ⟨k, hk, Option.some.inj (h.symm.trans hsome)⟩
  · rintro (⟨rfl, rfl⟩ | ⟨k, hk, rfl⟩)
    · rfl
    · have hlt : k < 17 := (List.getElem?_eq_some_iff.mp hk).1
      have hall : ∀ k : Fin 17, ∀ op ∈ smallPushes[k.val]?, op.small? = some (k.val : ℤ) := by
        decide +kernel
      exact hall ⟨k, hlt⟩ op hk

theorem operand_of_small? {op : Opcode} (h : op.small?.isSome) : op.operand = .none := by
  have hall : ∀ op ∈ Opcode.all, op.small?.isSome → op.operand = .none := by decide +kernel
  exact hall op op.mem_all h

theorem integer?_of_small? {i : Instruction} {n : ℤ} (h : i.opcode.small? = some n) :
    i.integer? = Int128.ofInt? n := by
  unfold integer?
  rw [h]

/-- The wide opcodes are those whose operand is read as an integer. -/
theorem integer?_of_wide {op : Opcode} {operand : List UInt8} (h : (op, operand.length) ∈ widePushes) :
    (Instruction.mk op operand).integer? = Int128.ofBytes? operand := by
  simp only [widePushes, List.mem_cons, Prod.mk.injEq, List.not_mem_nil, or_false] at h
  rcases h with ⟨rfl, -⟩ | ⟨rfl, -⟩ | ⟨rfl, -⟩ | ⟨rfl, -⟩ | ⟨rfl, -⟩ | ⟨rfl, -⟩ <;> rfl

theorem mem_widePushes {i : Instruction} (h : i.fits = true) (hnone : i.opcode.small? = none)
    (hsome : i.integer?.isSome) : (i.opcode, i.operand.length) ∈ widePushes := by
  obtain ⟨op, operand⟩ := i
  unfold integer? at hsome
  simp only [hnone] at hsome
  split at hsome <;> simp_all [fits, Opcode.operand, widePushes]

/-- An instruction is read as the integer that it pushes, if that fits 128 bits. -/
theorem integer?_eq_some_iff {i : Instruction} (h : i.fits = true) {v : Int128} :
    i.integer? = some v ↔ i.EncodesInteger v.val := by
  constructor
  · intro hread
    cases hsmall : i.opcode.small? with
    | some n =>
      rw [integer?_of_small? hsmall, Int128.ofInt?_eq_some_iff] at hread
      have hoperand := operand_of_small? (Option.isSome_of_eq_some hsmall)
      obtain ⟨op, operand⟩ := i
      obtain rfl : operand = [] := by simpa [fits, hoperand] using h
      rw [hread]
      rcases small?_eq_some_iff.mp hsmall with ⟨rfl, rfl⟩ | ⟨k, hk, rfl⟩
      · exact .minusOne
      · exact .small hk
    | none =>
      have hwide := mem_widePushes h hsmall (Option.isSome_of_eq_some hread)
      rw [integer?_of_wide hwide, Int128.ofBytes?_iff_twosComplement] at hread
      rw [← hread]
      exact .wide hwide
  · generalize hn : v.val = n
    rintro (_ | ⟨hop⟩ | ⟨hop⟩)
    · rw [integer?_of_small? (small?_eq_some_iff.mpr (.inl ⟨rfl, rfl⟩)), Int128.ofInt?_eq_some_iff, hn]
    · rw [integer?_of_small? (small?_eq_some_iff.mpr (.inr ⟨_, hop, rfl⟩)), Int128.ofInt?_eq_some_iff, hn]
    · rw [integer?_of_wide hop, Int128.ofBytes?_iff_twosComplement, hn]

/-- The form for a number of significant bytes is no wider than any opcode that has room for them. -/
theorem integerForm_le {op : Opcode} {width length : ℕ} (hop : (op, width) ∈ widePushes)
    (h : length ≤ width) : (integerForm length).2 ≤ width := by
  simp only [widePushes, List.mem_cons, Prod.mk.injEq, List.not_mem_nil, or_false] at hop
  unfold integerForm
  split_ifs <;> omega

theorem isSome_ofSmall? {n : ℕ} {op : Opcode} (h : smallPushes[n]? = some op) :
    (Opcode.ofSmall? n).isSome := by
  have hall : ∀ k : Fin 17, (Opcode.ofSmall? (k.val : ℤ)).isSome := by
    unfold Opcode.ofSmall?
    simp only [Opcode.ofByte?_eq_find?]
    decide +kernel
  exact hall ⟨n, (List.getElem?_eq_some_iff.mp h).1⟩

theorem ne_nil_of_wide {op : Opcode} {operand : List UInt8} (h : (op, operand.length) ∈ widePushes) :
    operand ≠ [] := by
  rintro rfl
  simp [widePushes] at h

/-- No instruction that pushes an integer is shorter than the one that is written for it. -/
theorem size_pushInteger_le {v : Int128} {i : Instruction} (h : i.EncodesInteger v.val) :
    (pushInteger v).size ≤ i.size := by
  unfold pushInteger
  cases hsmall : Opcode.ofSmall? v.val with
  | some op => exact i.size_pos
  | none =>
    generalize hn : v.val = n at h
    cases h with
    | minusOne =>
      rw [hn, Opcode.ofSmall?, if_pos rfl] at hsmall
      cases hsmall
    | small hop =>
      have hsome := isSome_ofSmall? hop
      rw [← hn, hsmall] at hsome
      cases hsome
    | @wide op operand hop =>
      -- any wide operand has room for the shortest form, and so for the form that is taken
      have hle : v.minimalBytes.length ≤ operand.length :=
        Int128.length_minimalBytes_le (ne_nil_of_wide hop) ((twosComplement_eq operand).symm.trans hn.symm)
      have hform := integerForm_le hop hle
      simp only [size, List.length_rightpad]
      omega

/-! ## Data -/

/-- The form for data is no wider than any opcode whose length prefix has room for their length. -/
theorem dataForm_le {op : Opcode} {width length : ℕ} (hop : (op, width) ∈ dataPushes)
    (h : length < 256 ^ width) : (dataForm length).2 ≤ width := by
  simp only [dataPushes, List.mem_cons, Prod.mk.injEq, List.not_mem_nil, or_false] at hop
  unfold dataForm
  rcases hop with ⟨-, rfl⟩ | ⟨-, rfl⟩ | ⟨-, rfl⟩ <;> split_ifs <;> omega

theorem encodesData_pushData {data : List UInt8} (h : data.length < 256 ^ 4) :
    (pushData data).EncodesData data := by
  refine .mk ?_ ?_
  · rw [length_bytesOfNat]
    unfold dataForm
    split_ifs <;> decide
  · rw [← natOfBytes_eq_ofDigits, natOfBytes_bytesOfNat]
    unfold dataForm
    split_ifs <;> omega

/-- No instruction that pushes data is shorter than the one that is written for them. -/
theorem size_pushData_le {data : List UInt8} {i : Instruction} (h : i.EncodesData data) :
    (pushData data).size ≤ i.size := by
  cases h with
  | @mk op lengthBytes data hop hlength =>
    have hlt : data.length < 256 ^ lengthBytes.length := by
      rw [← hlength, ← natOfBytes_eq_ofDigits]
      exact natOfBytes_lt lengthBytes
    have hform := dataForm_le hop hlt
    simp only [pushData, size, List.length_append, length_bytesOfNat]
    omega

/-! ## Both -/

/-- Wherever it stands in a script, an instruction is read as it is. -/
def ReadEverywhere (i : Instruction) : Prop :=
  ∀ before after : List UInt8,
    decode (before ++ (i.encode ++ after)).toArray before.length = .ok ⟨i, before.length⟩

/-- An instruction pushes an integer, wherever it stands, and none that pushes it is shorter. -/
structure PushesInteger (i : Instruction) (v : Int128) : Prop where
  read : i.ReadEverywhere
  holds : i.integer? = some v
  encodes : i.EncodesInteger v.val
  shortest : ∀ other : Instruction, other.EncodesInteger v.val → i.size ≤ other.size

/-- An instruction pushes data, wherever it stands, and none that pushes them is shorter. -/
structure PushesData (i : Instruction) (data : List UInt8) : Prop where
  read : i.ReadEverywhere
  holds : i.data = data
  encodes : i.EncodesData data
  shortest : ∀ other : Instruction, other.EncodesData data → i.size ≤ other.size

/-- The instructions that are written for constants push them, and none do in fewer bytes. -/
theorem constantPushes_exact :
    (∀ v : Int128, (pushInteger v).PushesInteger v)
    ∧ ∀ data : List UInt8, data.length < 2 ^ 32 → (pushData data).PushesData data := by
  refine ⟨fun v => ?_, fun data hlength => ?_⟩
  · have hfits := fits_pushInteger v
    have hread := integer?_pushInteger v
    exact ⟨fun before after => decode_encode before after _ hfits, hread,
      (integer?_eq_some_iff hfits).mp hread, fun _ => size_pushInteger_le⟩
  · have hlength : data.length < 256 ^ 4 := hlength
    exact ⟨fun before after => decode_encode before after _ (fits_pushData hlength),
      data_pushData hlength, encodesData_pushData hlength, fun _ => size_pushData_le⟩

/-- The first integer below those of one byte, and the first length above those of one byte. -/
theorem constantPushes_boundary :
    (pushInteger ⟨-129, by decide, by decide⟩).PushesInteger ⟨-129, by decide, by decide⟩
    ∧ (List.replicate 256 (7 : UInt8)).length < 2 ^ 32
    ∧ (pushData (List.replicate 256 7)).PushesData (List.replicate 256 7) := by
  have hlength : (List.replicate 256 (7 : UInt8)).length < 2 ^ 32 := by
    rw [List.length_replicate]
    decide
  exact ⟨constantPushes_exact.1 _, hlength, constantPushes_exact.2 _ hlength⟩

end Instruction

end StackContract.Script
