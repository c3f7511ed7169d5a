import Mathlib.Algebra.Group.Int.Defs
import Mathlib.Algebra.Group.Nat.Defs
import Mathlib.Data.Nat.Digits.Lemmas
import Mathlib.Tactic.Linarith
import Mathlib.Tactic.Ring
import StackContract.Number.Int128
/-!
# Reading numbers back

The little-endian bytes of a number read as that number: `natOfBytes_bytesOfNat` for natural numbers,
`signedOfBytes_bytesOfInt` in two's complement. The two readings of the same bytes differ by a power of
256 where the sign is set (`natOfBytes_eq_signed`).

A 128-bit integer is read from just the bytes that denote it (`ofBytes?_eq_some_iff`). Its shortest form
denotes it and no fewer bytes do (`signedOfBytes_minimalBytes`, `length_minimalBytes_le`); filled up with
the sign it is still read as that integer (`ofBytes?_rightpad_minimalBytes`).
-/

namespace StackContract.Number

/-! ## Little-endian bytes -/

theorem natOfBytes_bytesOfNat (width n : Nat) (h : n < 256 ^ width) :
    natOfBytes (bytesOfNat width n) = n := by
  induction width generalizing n with
  | zero =>
    rw [Nat.pow_zero] at h
    show 0 = n
    omega
  | succ width ih =>
    have hrest : n / 256 < 256 ^ width := by
      rw [Nat.pow_succ] at h
      omega
    show (UInt8.ofNat n).toNat + 256 * natOfBytes (bytesOfNat width (n / 256)) = n
    rw [ih _ hrest, UInt8.toNat_ofNat']
    omega

/-- A byte that holds the remainder of a number by 256. -/
private theorem toNat_ofNat_emod (v : Int) : ((UInt8.ofNat (v % 256).toNat).toNat : Int) = v % 256 := by
  rw [UInt8.toNat_ofNat']
  omega

theorem signedOfBytes_singleton (b : UInt8) :
    signedOfBytes [b] = if 128 ≤ b.toNat then (b.toNat : Int) - 256 else b.toNat := by
  show b.toBitVec.toInt = _
  rw [BitVec.toInt_eq_toNat_cond]
  show (if 2 * b.toNat < 2 ^ 8 then (b.toNat : Int) else (b.toNat : Int) - (2 ^ 8 : Nat)) = _
  split <;> split <;> omega

/-- The signed reading of a byte that holds a number from -128 to 127. -/
private theorem signedOfBytes_emod (v : Int) (lower : -128 ≤ v) (upper : v < 128) :
    signedOfBytes [UInt8.ofNat (v % 256).toNat] = v := by
  have hbyte := toNat_ofNat_emod v
  rw [signedOfBytes_singleton]
  split <;> omega

theorem signedOfBytes_cons_cons (b next : UInt8) (rest : List UInt8) :
    signedOfBytes (b :: next :: rest) = b.toNat + 256 * signedOfBytes (next :: rest) := rfl

/-- A number that fits `width + 1` bytes is the signed reading of those bytes. -/
theorem signedOfBytes_bytesOfInt (width : Nat) (v : Int) (lower : -(128 * 256 ^ width) ≤ v)
    (upper : v < 128 * 256 ^ width) : signedOfBytes (bytesOfInt (width + 1) v) = v := by
  induction width generalizing v with
  | zero => exact signedOfBytes_emod v (by omega) (by omega)
  | succ width ih =>
    have hrest := ih (v / 256) (by rw [Int.pow_succ] at lower; omega)
      (by rw [Int.pow_succ] at upper; omega)
    show signedOfBytes (_ :: UInt8.ofNat (v / 256 % 256).toNat :: bytesOfInt width (v / 256 / 256)) = v
    rw [signedOfBytes_cons_cons]
    show _ + 256 * signedOfBytes (bytesOfInt (width + 1) (v / 256)) = v
    rw [hrest, toNat_ofNat_emod]
    omega

/-- A number that `width` bytes hold without a sign is their reading. -/
theorem natOfBytes_bytesOfInt (width : Nat) (v : Int) (lower : 0 ≤ v) (upper : v < 256 ^ width) :
    (natOfBytes (bytesOfInt width v) : Int) = v := by
  induction width generalizing v with
  | zero =>
    rw [Int.pow_zero] at upper
    show (0 : Int) = v
    omega
  | succ width ih =>
    have hrest := ih (v / 256) (by omega) (by rw [Int.pow_succ] at upper; omega)
    show (((UInt8.ofNat (v % 256).toNat).toNat + 256 * natOfBytes (bytesOfInt width (v / 256)) : Nat)
      : Int) = v
    rw [Int.natCast_add, Int.natCast_mul, hrest, toNat_ofNat_emod]
    omega

/-! ## The two readings of the same bytes -/

/-- The unsigned reading has the bytes as its digits. -/
theorem natOfBytes_eq_ofDigits (bytes : List UInt8) :
    natOfBytes bytes = Nat.ofDigits 256 (bytes.map UInt8.toNat) := by
  induction bytes with
  | nil => rfl
  | cons b rest ih =>
    rw [List.map_cons, Nat.ofDigits_cons, ← ih]
    rfl

theorem digit_lt {bytes : List UInt8} : ∀ digit ∈ bytes.map UInt8.toNat, digit < 256 := by
  simp only [List.mem_map, forall_exists_index, and_imp, forall_apply_eq_imp_iff₂]
  exact fun b _ => b.toNat_lt

theorem natOfBytes_lt (bytes : List UInt8) : natOfBytes bytes < 256 ^ bytes.length := by
  rw [natOfBytes_eq_ofDigits]
  simpa using Nat.ofDigits_lt_base_pow_length (by decide) (@digit_lt bytes)

theorem signedOfBytes_cons {b : UInt8} {rest : List UInt8} (h : rest ≠ []) :
    signedOfBytes (b :: rest) = b.toNat + 256 * signedOfBytes rest := by
  cases rest with
  | nil => exact absurd rfl h
  | cons next rest => rfl

theorem isNegative_cons_cons (b next : UInt8) (rest : List UInt8) :
    isNegative (b :: next :: rest) = isNegative (next :: rest) := by
  unfold isNegative
  rw [List.getLast?_cons_cons]

theorem isNegative_append (low : List UInt8) {high : List UInt8} (h : high ≠ []) :
    isNegative (low ++ high) = isNegative high := by
  unfold isNegative
  rw [List.getLast?_append, List.getLast?_eq_some_getLast h, Option.some_or]

/-- The unsigned reading exceeds the signed one by a power of 256 where the sign is set. -/
theorem natOfBytes_eq_signed (bytes : List UInt8) : (natOfBytes bytes : Int)
    = signedOfBytes bytes + if isNegative bytes then 256 ^ bytes.length else 0 := by
  induction bytes with
  | nil => rfl
  | cons b rest ih =>
    cases rest with
    | nil =>
      have hnegative : isNegative [b] = decide (128 ≤ b.toNat) := rfl
      show ((b.toNat + 256 * 0 : Nat) : Int) = _
      rw [signedOfBytes_singleton, hnegative]
      simp only [decide_eq_true_eq, List.length_singleton, pow_one]
      split <;> omega
    | cons next rest =>
      show ((b.toNat + 256 * natOfBytes (next :: rest) : Nat) : Int) = _
      rw [signedOfBytes_cons_cons, isNegative_cons_cons, Int.natCast_add, Int.natCast_mul, ih,
        List.length_cons (a := b), pow_succ]
      split <;> omega

theorem isNegative_iff (bytes : List UInt8) : isNegative bytes = true ↔ signedOfBytes bytes < 0 := by
  induction bytes with
  | nil => decide
  | cons b rest ih =>
    have := b.toNat_lt
    cases rest with
    | nil =>
      have hnegative : isNegative [b] = true ↔ 128 ≤ b.toNat := decide_eq_true_iff
      rw [hnegative, signedOfBytes_singleton]
      split <;> omega
    | cons next rest =>
      rw [signedOfBytes_cons_cons, isNegative_cons_cons, ih]
      omega

/-- The bounds of the signed reading by the number of bytes. -/
theorem signedOfBytes_bounds {bytes : List UInt8} {width : Nat} (h : bytes.length = width + 1) :
    -(128 * 256 ^ width) ≤ signedOfBytes bytes ∧ signedOfBytes bytes < 128 * 256 ^ width := by
  induction width generalizing bytes with
  | zero =>
    obtain ⟨b, rfl⟩ := List.length_eq_one_iff.mp h
    have := b.toNat_lt
    rw [signedOfBytes_singleton, pow_zero]
    split <;> omega
  | succ width ih =>
    match bytes, h with
    | b :: next :: rest, h =>
      obtain ⟨lower, upper⟩ := ih (Nat.succ.inj h)
      have := b.toNat_lt
      rw [signedOfBytes_cons_cons, pow_succ]
      omega

theorem signedOfBytes_append (low : List UInt8) {high : List UInt8} (h : high ≠ []) :
    signedOfBytes (low ++ high) = natOfBytes low + 256 ^ low.length * signedOfBytes high := by
  induction low with
  | nil => simp [natOfBytes]
  | cons b low ih =>
    rw [List.cons_append, signedOfBytes_cons (by simp [h]), ih, List.length_cons, pow_succ]
    show _ = ((b.toNat + 256 * natOfBytes low : Nat) : Int) + _
    push_cast
    ring

/-- As many bytes with the same signed reading are the same. -/
theorem eq_of_signedOfBytes {bytes other : List UInt8} (hlength : bytes.length = other.length)
    (h : signedOfBytes bytes = signedOfBytes other) : bytes = other := by
  have hsign : isNegative bytes = isNegative other := by
    rw [Bool.eq_iff_iff, isNegative_iff, isNegative_iff, h]
  have hnat : natOfBytes bytes = natOfBytes other := by
    have hbytes := natOfBytes_eq_signed bytes
    rw [h, hlength, hsign, ← natOfBytes_eq_signed] at hbytes
    exact_mod_cast hbytes
  rw [natOfBytes_eq_ofDigits, natOfBytes_eq_ofDigits] at hnat
  refine List.map_injective_iff.mpr (fun _ _ => UInt8.toNat_inj.mp) ?_
  exact Nat.ofDigits_inj_of_len_eq (by decide) (by simpa using hlength) digit_lt digit_lt hnat

/-- The byte that repeats the sign of bytes. -/
def signByte (bytes : List UInt8) : UInt8 :=
  if isNegative bytes then 255 else 0

/-- Just the bytes that all repeat their sign denote zero or minus one. -/
theorem forall_eq_signByte_iff (bytes : List UInt8) : (∀ b ∈ bytes, b = signByte bytes)
    ↔ signedOfBytes bytes = if isNegative bytes then -1 else 0 := by
  unfold signByte
  induction bytes with
  | nil => simp [isNegative, signedOfBytes]
  | cons b rest ih =>
    have := b.toNat_lt
    cases rest with
    | nil =>
      have hnegative : isNegative [b] = decide (128 ≤ b.toNat) := rfl
      rw [signedOfBytes_singleton, hnegative]
      simp only [List.forall_mem_singleton, decide_eq_true_eq, ← UInt8.toNat_inj]
      split
      · show b.toNat = 255 ↔ _
        omega
      · show b.toNat = 0 ↔ _
        omega
    | cons next rest =>
      rw [signedOfBytes_cons_cons, isNegative_cons_cons, List.forall_mem_cons, ih, ← UInt8.toNat_inj]
      split
      · show b.toNat = 255 ∧ _ ↔ _
        omega
      · show b.toNat = 0 ∧ _ ↔ _
        omega

/-- Repeating the sign behind bytes leaves what they denote. -/
theorem signedOfBytes_append_sign (bytes : List UInt8) (n : Nat) :
    signedOfBytes (bytes ++ List.replicate n (signByte bytes)) = signedOfBytes bytes := by
  cases n with
  | zero => rw [List.replicate_zero, List.append_nil]
  | succ n =>
    have hne : List.replicate (n + 1) (signByte bytes) ≠ [] := by simp
    have hnegative : isNegative (List.replicate (n + 1) (signByte bytes)) = isNegative bytes := by
      have hlast : isNegative (List.replicate (n + 1) (signByte bytes))
          = decide (128 ≤ (signByte bytes).toNat) := by
        unfold isNegative
        rw [List.getLast?_replicate, if_neg (Nat.succ_ne_zero n)]
      rw [hlast]
      unfold signByte
      cases isNegative bytes <;> decide
    have hsign := (forall_eq_signByte_iff (List.replicate (n + 1) (signByte bytes))).mp (by
      intro b hb
      rw [List.eq_of_mem_replicate hb]
      exact congrArg (fun negative : Bool => if negative then 255 else 0) hnegative.symm)
    rw [signedOfBytes_append bytes hne, hsign, hnegative, natOfBytes_eq_signed]
    split <;> ring

/-! ## 128-bit integers -/

namespace Int128

/-- Sixteen bytes are a word. -/
theorem ofWord_natOfBytes {bytes : List UInt8} (h : bytes.length = 16) :
    (ofWord (BitVec.ofNat 128 (natOfBytes bytes))).val = signedOfBytes bytes := by
  obtain ⟨lower, upper⟩ := signedOfBytes_bounds h
  show (BitVec.ofNat 128 _).toInt = _
  rw [BitVec.toInt_ofNat', natOfBytes_eq_signed, h]
  split
  · rw [show (256 : Int) ^ 16 = ((2 ^ 128 : Nat) : Int) by rfl, Int.add_bmod_right]
    exact Int.bmod_eq_of_le (by omega) (by omega)
  · rw [Int.add_zero]
    exact Int.bmod_eq_of_le (by omega) (by omega)

/-- Bytes are read as their first sixteen are, filled up with the sign: those behind them are to repeat
the sign, and so is the word. -/
private theorem ofBytes?_iff {bytes : List UInt8} {v : Int128} : ofBytes? bytes = some v
    ↔ (∀ b ∈ bytes.drop 16, b = signByte bytes)
      ∧ signedOfBytes (bytes.take 16 ++ List.replicate (16 - bytes.length) (signByte bytes)) = v.val
      ∧ (v.val < 0 ↔ isNegative bytes = true) := by
  have hlength : (bytes.take 16 ++ List.replicate (16 - bytes.length) (signByte bytes)).length = 16 := by
    rw [List.length_append, List.length_replicate, List.length_take]
    omega
  have hvalue := ofWord_natOfBytes hlength
  generalize hword : bytes.take 16 ++ List.replicate (16 - bytes.length) (signByte bytes) = word at hvalue ⊢
  have hunfold : ofBytes? bytes = if (bytes.drop 16).all (· = signByte bytes) then
      if ((ofWord (BitVec.ofNat 128 (natOfBytes word))).val < 0) = isNegative bytes then
        some (ofWord (BitVec.ofNat 128 (natOfBytes word))) else none else none := by
    rw [← hword]
    rfl
  rw [hunfold]
  simp only [List.all_eq_true, decide_eq_true_eq, eq_iff_iff, hvalue,
    Option.ite_none_right_eq_some, Option.some.injEq, Int128.ext_iff]
  constructor
  · rintro ⟨hall, hsign, hv⟩
    exact ⟨hall, hv, hv ▸ hsign⟩
  · rintro ⟨hall, hv, hsign⟩
    exact ⟨hall, hv ▸ hsign, hv⟩

/-- Bytes of any number are read as the integer that they denote in two's complement, if that fits. -/
theorem ofBytes?_eq_some_iff {bytes : List UInt8} {v : Int128} :
    ofBytes? bytes = some v ↔ signedOfBytes bytes = v.val := by
  rw [ofBytes?_iff, isNegative_iff]
  by_cases h : bytes.length ≤ 16
  · rw [List.drop_eq_nil_of_le h, List.take_of_length_le h, signedOfBytes_append_sign]
    constructor
    · rintro ⟨-, hv, -⟩
      exact hv
    · intro hv
      exact ⟨by simp, hv, by rw [hv]⟩
  · -- the word and the bytes behind it are compared by what both denote
    have hlow : (bytes.take 16).length = 16 := by
      rw [List.length_take]
      omega
    have hhigh : bytes.drop 16 ≠ [] := by simpa using h
    have hbytes := signedOfBytes_append (bytes.take 16) hhigh
    have hsign := isNegative_append (bytes.take 16) hhigh
    have hnat := natOfBytes_eq_signed (bytes.take 16)
    obtain ⟨lower, upper⟩ := signedOfBytes_bounds hlow
    have hlt := natOfBytes_lt (bytes.take 16)
    rw [List.take_append_drop] at hbytes hsign
    rw [hlow] at hbytes hnat hlt
    simp only [isNegative_iff] at hnat
    have hfill : signByte bytes = signByte (bytes.drop 16) := by rw [signByte, signByte, hsign]
    have := v.lower
    have := v.upper
    rw [hfill, forall_eq_signByte_iff, Nat.sub_eq_zero_of_le (Nat.le_of_not_le h), List.replicate_zero,
      List.append_nil]
    simp only [isNegative_iff]
    split <;> split at hnat <;> omega

/-! ### Shortest forms -/

/-- A last byte that is redundant adds nothing to the byte in front of it; with any other one, the two
denote what no single byte does. -/
private theorem isRedundant_cases (previous last : UInt8) :
    isRedundant previous last = true ∧ signedOfBytes [previous, last] = signedOfBytes [previous]
      ∨ isRedundant previous last = false
        ∧ (signedOfBytes [previous, last] < -128 ∨ 128 ≤ signedOfBytes [previous, last]) := by
  have hprevious := previous.toNat_lt
  have hlast := last.toNat_lt
  have h128 : (128 : UInt8).toNat = 128 := rfl
  have h255 : (255 : UInt8).toNat = 255 := rfl
  have h0 : (0 : UInt8).toNat = 0 := rfl
  rw [signedOfBytes_cons_cons, signedOfBytes_singleton, signedOfBytes_singleton, isRedundant,
    Bool.or_eq_true, Bool.or_eq_false_iff]
  simp only [Bool.and_eq_true, Bool.and_eq_false_iff, decide_eq_true_eq, decide_eq_false_iff_not,
    UInt8.lt_iff_toNat_lt, UInt8.le_iff_toNat_le, ← UInt8.toNat_inj, h128, h255, h0]
  split <;> split <;> omega

/-- Behind bytes, what no single byte denotes takes more than one byte. -/
private theorem length_lt_of_wide {low high other : List UInt8} (hhigh : high ≠ [])
    (hwide : signedOfBytes high < -128 ∨ 128 ≤ signedOfBytes high) (hother : other ≠ [])
    (h : signedOfBytes other = signedOfBytes (low ++ high)) : low.length + 1 < other.length := by
  by_contra hle
  obtain ⟨width, hwidth⟩ := Nat.exists_eq_succ_of_ne_zero (mt List.eq_nil_of_length_eq_zero hother)
  obtain ⟨lower, upper⟩ := signedOfBytes_bounds hwidth
  have hlow : (natOfBytes low : Int) < 256 ^ low.length := by exact_mod_cast natOfBytes_lt low
  have hpow : (256 : Int) ^ width ≤ 256 ^ low.length := by
    exact_mod_cast Nat.pow_le_pow_right (by decide : 0 < 256) (by omega : width ≤ low.length)
  have hpos : (0 : Int) < 256 ^ low.length := by positivity
  rw [h, signedOfBytes_append low hhigh] at lower upper
  -- the bytes in `low` are too few to bring it back within the bounds of as many bytes
  rcases hwide with hwide | hwide
  · have := mul_le_mul_of_nonneg_left (Int.add_one_le_of_lt hwide) hpos.le
    linarith
  · have := mul_le_mul_of_nonneg_left hwide hpos.le
    omega

/-- Dropping redundant bytes leaves at least one byte and the signed reading as it is, and no fewer bytes
have that reading. -/
private theorem dropRedundant_spec (bytes : List UInt8) (h : bytes ≠ []) :
    dropRedundant bytes ≠ [] ∧ signedOfBytes (dropRedundant bytes).reverse = signedOfBytes bytes.reverse
      ∧ ∀ other, other ≠ [] → signedOfBytes other = signedOfBytes bytes.reverse →
        (dropRedundant bytes).length ≤ other.length := by
  fun_induction dropRedundant bytes with
  | case1 last previous rest hredundant ih =>
    obtain ⟨hne, hsigned, hleast⟩ := ih (by simp)
    have hsame : signedOfBytes (last :: previous :: rest).reverse
        = signedOfBytes (previous :: rest).reverse := by
      rcases isRedundant_cases previous last with ⟨-, hequal⟩ | ⟨hnot, -⟩
      · rw [List.reverse_cons, List.reverse_cons, List.append_assoc, List.singleton_append,
          signedOfBytes_append _ (by simp), signedOfBytes_append _ (by simp), hequal]
      · rw [hredundant] at hnot
        cases hnot
    rw [hsame]
    exact ⟨hne, hsigned, hleast⟩
  | case2 last previous rest hredundant =>
    refine ⟨h, rfl, fun other hother hsigned => ?_⟩
    rcases isRedundant_cases previous last with ⟨hnot, -⟩ | ⟨-, hwide⟩
    · exact absurd hnot hredundant
    · rw [List.reverse_cons, List.reverse_cons, List.append_assoc, List.singleton_append] at hsigned
      have := length_lt_of_wide (by simp) hwide hother hsigned
      rw [List.length_reverse] at this
      exact this
  | case3 bytes hshort =>
    refine ⟨h, rfl, fun other hother _ => ?_⟩
    match bytes, h with
    | [b], _ => exact List.length_pos_iff.mpr hother
    | last :: previous :: rest, _ => exact absurd rfl (hshort last previous rest)

theorem minimalBytes_ne_nil (v : Int128) : v.minimalBytes ≠ [] := by
  have hne : (bytesOfInt 16 v.val).reverse ≠ [] := by simp [bytesOfInt]
  simpa [minimalBytes] using (dropRedundant_spec _ hne).1

/-- The bytes of an integer at the width of a word. -/
private theorem signedOfBytes_word (v : Int128) : signedOfBytes (bytesOfInt 16 v.val) = v.val := by
  have := v.lower
  have := v.upper
  exact signedOfBytes_bytesOfInt 15 v.val (by omega) (by omega)

theorem signedOfBytes_minimalBytes (v : Int128) : signedOfBytes v.minimalBytes = v.val := by
  have hne : (bytesOfInt 16 v.val).reverse ≠ [] := by simp [bytesOfInt]
  unfold minimalBytes
  rw [(dropRedundant_spec _ hne).2.1, List.reverse_reverse, signedOfBytes_word]

/-- Filled up with the sign, the shortest form is read as the integer. -/
theorem ofBytes?_rightpad_minimalBytes (v : Int128) (width : Nat) :
    ofBytes? (v.minimalBytes.rightpad width (if v.val < 0 then 255 else 0)) = some v := by
  have hfill : (if v.val < 0 then 255 else 0) = signByte v.minimalBytes := by
    simp only [signByte, isNegative_iff, signedOfBytes_minimalBytes]
  rw [ofBytes?_eq_some_iff, List.rightpad, hfill, signedOfBytes_append_sign, signedOfBytes_minimalBytes]

/-- No fewer bytes denote an integer than its shortest form, if there are any. -/
theorem length_minimalBytes_le {v : Int128} {bytes : List UInt8} (hne : bytes ≠ [])
    (h : signedOfBytes bytes = v.val) : v.minimalBytes.length ≤ bytes.length := by
  have hword : (bytesOfInt 16 v.val).reverse ≠ [] := by simp [bytesOfInt]
  unfold minimalBytes
  rw [List.length_reverse]
  refine (dropRedundant_spec _ hword).2.2 bytes hne ?_
  rw [List.reverse_reverse, signedOfBytes_word, h]

/-- The shortest form is no longer than a word. -/
theorem length_minimalBytes (v : Int128) : v.minimalBytes.length ≤ 16 := by
  have hle := length_minimalBytes_le (by simp [bytesOfInt]) (signedOfBytes_word v)
  rwa [length_bytesOfInt] at hle

end Int128

end StackContract.Number
