import StackContract.Proofs.ExactArithmetic
/-!
# Exact shifts

A shift to the left multiplies by a power of two and a shift to the right divides by one, rounding down
(`shifts_exact`). The shift to the left refuses a count of 127 for every operand but zero, where minus one
still has a result: `not_computes_shift_of_minusOne`.
-/

namespace StackContract.Number

/-! ## To the left -/

/-- Multiples of high powers of two do not fit, but for the least integer itself. -/
theorem not_fits_mul_power {a : ℤ} {n : ℕ} (ha : a ≠ 0) (hn : 127 ≤ n) (h : ¬ (a = -1 ∧ n = 127)) :
    ¬ Fits (a * 2 ^ n) := by
  have hpower : (2 : ℤ) ^ n = 2 ^ 127 * 2 ^ (n - 127) := by
    rw [← pow_add, Nat.add_sub_cancel' hn]
  have hrest : (1 : ℤ) ≤ 2 ^ (n - 127) := one_le_pow₀ (by decide)
  unfold Fits
  rcases lt_or_gt_of_ne ha with hneg | hpos
  · by_cases hone : a = -1
    · -- the power is at least 2^128
      obtain ⟨rest, hcount⟩ : ∃ rest, n - 127 = rest + 1 := ⟨n - 128, by omega⟩
      have hdouble : (1 : ℤ) ≤ 2 ^ rest := one_le_pow₀ (by decide)
      rw [hcount, pow_succ] at hpower
      rw [hone]
      omega
    · have hproduct : a * 2 ^ n ≤ -2 * 2 ^ n :=
        mul_le_mul_of_nonneg_right (by omega) (by positivity)
      omega
  · have hproduct : 1 * 2 ^ n ≤ a * 2 ^ n := mul_le_mul_of_nonneg_right hpos (by positivity)
    omega

/-- A shifted word is the product reduced to 128 bits. -/
theorem toInt_shiftLeft_toWord (a : Int128) {n : ℕ} (hn : n < 127) :
    (a.toWord <<< n).toInt = (a.val * 2 ^ n).bmod (2 ^ 128) := by
  have hword : a.toWord.toInt = a.val := congrArg Int128.val a.ofWord_toWord
  have hpower : (BitVec.twoPow 128 n).toInt = 2 ^ n := by
    rw [BitVec.toInt_twoPow, if_neg (by omega), if_neg (by omega)]
  rw [BitVec.shiftLeft_eq_mul_twoPow, BitVec.toInt_mul, hword, hpower]

/-- Shifting a word back gives the operand again where nothing was lost, and only there. -/
theorem sshiftRight_shiftLeft_toWord_iff (a : Int128) {n : ℕ} (hn : n < 127) :
    (a.toWord <<< n).sshiftRight n = a.toWord ↔ Fits (a.val * 2 ^ n) := by
  have hword : a.toWord.toInt = a.val := congrArg Int128.val a.ofWord_toWord
  have hshifted := toInt_shiftLeft_toWord a hn
  have hback : ((a.toWord <<< n).sshiftRight n).toInt = (a.toWord <<< n).toInt / 2 ^ n := by
    rw [BitVec.toInt_sshiftRight, Int.shiftRight_eq_div_pow, Nat.cast_pow, Nat.cast_ofNat]
  have hpos : (2 : ℤ) ^ n ≠ 0 := by positivity
  constructor
  · intro h
    -- what the word was reduced by is a multiple of the power, and so is the shifted word
    have hreduced : ((2 ^ 128 : ℕ) : ℤ) ∣ (a.toWord <<< n).toInt - a.val * 2 ^ n := by
      rw [hshifted]
      exact Int.dvd_bmod_sub_self
    have hpowers : (2 : ℤ) ^ n ∣ (2 ^ 128 : ℕ) := by
      exact_mod_cast pow_dvd_pow 2 (by omega : n ≤ 128)
    have hdvd : (2 : ℤ) ^ n ∣ (a.toWord <<< n).toInt :=
      (dvd_iff_dvd_of_dvd_sub (hpowers.trans hreduced)).mpr (Dvd.intro_left _ rfl)
    have hexact : (a.toWord <<< n).toInt = a.val * 2 ^ n := by
      rw [← Int.ediv_mul_cancel hdvd, ← hback, h, hword]
    rw [← hexact]
    exact (Int128.ofWord _).fits
  · intro h
    apply BitVec.eq_of_toInt_eq
    unfold Fits at h
    rw [hback, hshifted, Int.bmod_eq_of_le (by omega) (by omega), Int.mul_ediv_cancel _ hpos, hword]

theorem Int128.shiftLeft?_eq {a count : Int128} (hcount : 0 ≤ count.val)
    (h : ¬ (a.val = -1 ∧ count.val = 127)) :
    a.shiftLeft? count = Int128.ofInt? (a.val * 2 ^ count.val.toNat) := by
  obtain ⟨n, hn⟩ := Int.eq_ofNat_of_zero_le hcount
  unfold Int128.shiftLeft?
  rw [if_neg (by omega)]
  split
  · next hzero =>
    refine (Int128.ofInt?_eq_some_iff.mpr ?_).symm
    rcases hzero with hzero | hzero
    · rw [hzero, zero_mul]
    · rw [hzero, Int.toNat_zero, pow_zero, mul_one]
  · next hzero =>
    rw [hn, Int.toNat_natCast]
    split
    · exact (Int128.ofInt?_eq_none_iff.mpr (not_fits_mul_power (by omega) (by omega) (by omega))).symm
    · have hsmall : n < 127 := by omega
      have hback := sshiftRight_shiftLeft_toWord_iff a hsmall
      show (if _ then _ else _) = _
      split
      · next hlossless =>
        have hfits := hback.mp hlossless
        unfold Fits at hfits
        refine (Int128.ofInt?_eq_some_iff.mpr ?_).symm
        show (a.toWord <<< n).toInt = _
        rw [toInt_shiftLeft_toWord a hsmall, Int.bmod_eq_of_le (by omega) (by omega)]
      · next hlossy =>
        exact (Int128.ofInt?_eq_none_iff.mpr fun hfits => hlossy (hback.mpr hfits)).symm

/-! ## To the right -/

theorem Int128.exists_shiftRight? {a count : Int128} (hcount : 0 ≤ count.val) :
    ∃ r : Int128, a.shiftRight? count = some r ∧ r.val = ⌊(a.val / 2 ^ count.val.toNat : ℚ)⌋ := by
  obtain ⟨n, hn⟩ := Int.eq_ofNat_of_zero_le hcount
  have hfloor : ⌊(a.val / 2 ^ count.val.toNat : ℚ)⌋ = a.val / 2 ^ n := by
    rw [hn, Int.toNat_natCast]
    exact_mod_cast Rat.floor_intCast_div_natCast a.val (2 ^ n)
  rw [hfloor]
  unfold Int128.shiftRight?
  rw [if_neg (by omega)]
  split
  · refine ⟨_, rfl, ?_⟩
    -- the power exceeds the operand, so that the quotient is the sign
    have hlarge : (2 : ℤ) ^ 128 ≤ 2 ^ n := pow_le_pow_right₀ (by decide) (by omega)
    have := a.fits
    unfold Fits at this
    split
    · next hneg => exact (Int.ediv_eq_neg_one_of_neg_of_le hneg (by omega)).symm
    · exact (Int.ediv_eq_zero_of_lt (by omega) (by omega)).symm
  · refine ⟨_, rfl, ?_⟩
    have hword : a.toWord.toInt = a.val := congrArg Int128.val a.ofWord_toWord
    show (a.toWord.sshiftRight count.val.toNat).toInt = _
    rw [BitVec.toInt_sshiftRight, Int.shiftRight_eq_div_pow, hword, hn, Int.toNat_natCast, Nat.cast_pow,
      Nat.cast_ofNat]

end StackContract.Number

namespace StackContract.Machine

open Script Number

/-- What the shifts make of an integer and a count. -/
structure ShiftExact (i : Located) (s : State) (below : Stack Item) (a count : ℤ) : Prop where
  left : i.opcode = .shl → 0 ≤ count → ¬ (a = -1 ∧ count = 127) →
    Computes i s below (a * 2 ^ count.toNat)
  refused : i.opcode = .shl → a = -1 → count = 127 →
    execute i s = .error .overflow (s.withStack below)
  right : i.opcode = .shr → 0 ≤ count → ∃ r : Int128, r.val = ⌊(a / 2 ^ count.toNat : ℚ)⌋
    ∧ execute i s = .ok .next (s.withStack (below.push (.integer r)))
  negative : i.opcode = .shl ∨ i.opcode = .shr → count < 0 →
    execute i s = .error .overflow (s.withStack below)

variable {i j : Located} {s s' : State} {below : Stack Item} {a count : Int128}

/-- Shifts are exact on all integers of 128 bits and all counts, or fault. -/
theorem shifts_exact (h : s.HasIntegers a count below) : ShiftExact i s below a.val count.val where
  left hop hcount hmost := by
    refine computes_binary .shl (by rw [hop]; rfl) ?_ h
    show orOverflow (a.shiftLeft? count) = _
    rw [Int128.shiftLeft?_eq hcount hmost]
  refused hop ha hcount := by
    refine error_of_apply .shl (by rw [hop]; rfl) ?_ h
    have hnone : a.shiftLeft? count = none := by
      unfold Int128.shiftLeft?
      rw [if_neg (by omega), if_neg (by omega), if_pos (by omega)]
    show orOverflow (a.shiftLeft? count) = _
    rw [hnone]
    rfl
  right hop hcount := by
    obtain ⟨r, hr, hval⟩ := Int128.exists_shiftRight? (a := a) hcount
    refine ⟨r, hval, ?_⟩
    rw [execute_binary .shr (by rw [hop]; rfl) h]
    show s.result below ((orOverflow (a.shiftRight? count)).map .integer) = _
    rw [hr]
    rfl
  negative hop hcount := by
    rcases hop with hop | hop
    · refine error_of_apply .shl (by rw [hop]; rfl) ?_ h
      exact congrArg orOverflow (if_pos hcount)
    · refine error_of_apply .shr (by rw [hop]; rfl) ?_ h
      exact congrArg orOverflow (if_pos hcount)

/-- Where a shift to the left succeeds, the shift to the right by the same count undoes it. -/
theorem shift_back (hleft : i.opcode = .shl) (hright : j.opcode = .shr)
    (h : s.HasIntegers a count below) (hshift : execute i s = .ok .next s') :
    ∃ r : Int128, s' = s.withStack (below.push (.integer r))
      ∧ execute j (s'.withStack ((below.push (.integer r)).push (.integer count)))
        = .ok .next (s.withStack (below.push (.integer a))) := by
  have hexact := shifts_exact (i := i) h
  have hcount : 0 ≤ count.val := by
    by_contra hneg
    rw [hexact.negative (.inl hleft) (by omega)] at hshift
    cases hshift
  have hmost : ¬ (a.val = -1 ∧ count.val = 127) := by
    rintro ⟨ha, hmost⟩
    rw [hexact.refused hleft ha hmost] at hshift
    cases hshift
  have hproduct := hexact.left hleft hcount hmost
  have hfits : Fits (a.val * 2 ^ count.val.toNat) := by
    by_contra hfits
    rw [hproduct.overflows hfits] at hshift
    cases hshift
  obtain ⟨r, hr⟩ := Int128.exists_of_fits hfits
  rw [hproduct.pushes r hr, EStateM.Result.ok.injEq] at hshift
  obtain ⟨-, rfl⟩ := hshift
  refine ⟨r, rfl, ?_⟩
  have hback := s.hasIntegers_withStack r count below
  obtain ⟨q, hq, hexecute⟩ := (shifts_exact (i := j) hback).right hright hcount
  -- the quotient of the product is the operand again
  have hquotient : (r.val / 2 ^ count.val.toNat : ℚ) = a.val := by
    rw [hr, Int.cast_mul, Int.cast_pow, Int.cast_ofNat]
    exact mul_div_cancel_right₀ _ (by positivity)
  rw [hquotient, Int.floor_intCast] at hq
  rw [Int128.ext hq] at hexecute
  exact hexecute

/-- Minus one is not shifted by 127 places, although its product is the least integer. -/
theorem not_computes_shift_of_minusOne : Fits (-1 * 2 ^ 127)
    ∧ ¬ Computes ⟨⟨.shl, []⟩, 0⟩ (holding .minusOne (.ofNat 127)) .empty (-1 * 2 ^ 127) := by
  refine ⟨by decide, fun h => ?_⟩
  have hpushes := h.pushes least (by decide)
  rw [(shifts_exact (hasIntegers_holding ..)).refused rfl rfl rfl] at hpushes
  cases hpushes

end StackContract.Machine
