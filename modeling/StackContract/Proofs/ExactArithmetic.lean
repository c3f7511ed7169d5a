import Mathlib.Data.Rat.Floor
import StackContract.Proofs.Operands
/-!
# Exact arithmetic

An arithmetic instruction pushes what the operation on the integers gives, or the machine overflows
where that does not fit 128 bits: nothing wraps (`arithmetic_exact`). A division rounds toward zero.

There are two places where the machine overflows although the result would fit: a remainder has none
where the quotient has none, and a power has no exponent of more than 32 bits, whatever the base.
-/

namespace StackContract.Number

/-- The integers of 128 bits with a sign. -/
def Fits (v : ℤ) : Prop :=
  -2 ^ 127 ≤ v ∧ v < 2 ^ 127

instance (v : ℤ) : Decidable (Fits v) := by
  unfold Fits
  infer_instance

theorem Int128.fits (a : Int128) : Fits a.val := by
  have := a.lower
  have := a.upper
  unfold Fits
  omega

theorem Int128.ofInt?_eq_none_iff {v : ℤ} : Int128.ofInt? v = none ↔ ¬ Fits v := by
  unfold Int128.ofInt? Fits
  split <;> simp <;> omega

theorem Int128.exists_of_fits {v : ℤ} (h : Fits v) : ∃ r : Int128, r.val = v := by
  cases hresult : Int128.ofInt? v with
  | none => exact absurd h (Int128.ofInt?_eq_none_iff.mp hresult)
  | some r => exact ⟨r, Int128.ofInt?_eq_some_iff.mp hresult⟩

/-! ## Quotients -/

/-- The quotient of two integers without its fraction. -/
def truncated (x y : ℤ) : ℤ :=
  if (0 : ℚ) ≤ x / y then ⌊(x / y : ℚ)⌋ else ⌈(x / y : ℚ)⌉

theorem truncated_neg_neg (x y : ℤ) : truncated (-x) (-y) = truncated x y := by
  unfold truncated
  rw [Int.cast_neg, Int.cast_neg, neg_div_neg_eq]

theorem truncated_natCast (x : ℤ) (n : ℕ) : truncated x n = Int.tdiv x n := by
  unfold truncated
  rw [Int.cast_natCast, Rat.floor_intCast_div_natCast, Rat.ceil_intCast_div_natCast]
  rcases Int.le_total 0 x with hx | hx
  · have hquotient : (0 : ℚ) ≤ x / n := by positivity
    rw [if_pos hquotient, Int.tdiv_eq_ediv_of_nonneg hx]
  · have hneg : -Int.tdiv x n = -x / n := by
      rw [← Int.neg_tdiv, Int.tdiv_eq_ediv_of_nonneg (by omega)]
    have hnonpos : (x / n : ℚ) ≤ 0 :=
      div_nonpos_of_nonpos_of_nonneg (by exact_mod_cast hx) (by positivity)
    split
    · next hquotient =>
      -- only zero is neither above nor below zero
      have hzero : (x : ℚ) / n = 0 := le_antisymm hnonpos hquotient
      have hfloor : ((x / n : ℤ) : ℚ) = 0 := by
        rw [← Rat.floor_intCast_div_natCast, hzero, Int.floor_zero, Int.cast_zero]
      have hceil : -(-x / n) = 0 := by
        rw [← Rat.ceil_intCast_div_natCast, hzero, Int.ceil_zero]
      have : x / n = 0 := by exact_mod_cast hfloor
      omega
    · omega

/-- Dropping the fraction rounds toward zero. -/
theorem truncated_eq_tdiv (x y : ℤ) : truncated x y = Int.tdiv x y := by
  obtain ⟨n, rfl | rfl⟩ := y.eq_nat_or_neg
  · exact truncated_natCast x n
  · rw [← neg_neg x, truncated_neg_neg, truncated_natCast, Int.neg_tdiv_neg]

/-- Only the least integer has a quotient that does not fit, that by minus one. -/
theorem Int128.fits_truncated (x y : Int128) (h : ¬ (x.val = -2 ^ 127 ∧ y.val = -1)) :
    Fits (truncated x.val y.val) := by
  rw [truncated_eq_tdiv]
  have hx := x.fits
  have habs : (Int.tdiv x.val y.val).natAbs = x.val.natAbs / y.val.natAbs := Int.natAbs_tdiv ..
  have hle : x.val.natAbs / y.val.natAbs ≤ x.val.natAbs := Nat.div_le_self ..
  unfold Fits at hx ⊢
  by_cases hleast : x.val = -2 ^ 127
  · by_cases hone : y.val.natAbs = 1
    · have hy : y.val = 1 := by omega
      rw [hy, Int.tdiv_one]
      omega
    · -- the quotient is at most half as large
      have hhalf : x.val.natAbs / y.val.natAbs ≤ x.val.natAbs / 2 := by
        rcases Nat.eq_zero_or_pos y.val.natAbs with hzero | hpos
        · rw [hzero, Nat.div_zero]
          exact Nat.zero_le _
        · exact Nat.div_le_div_left (by omega) (by decide)
      omega
  · omega

/-! ## Remainders and powers -/

theorem Int128.rem?_eq {x y : Int128} (h : ¬ (x.val = -2 ^ 127 ∧ y.val = -1)) :
    x.rem? y = Int128.ofInt? (x.val - y.val * truncated x.val y.val) := by
  obtain ⟨q, hq⟩ := Int128.exists_of_fits (Int128.fits_truncated x y h)
  rw [truncated_eq_tdiv] at hq ⊢
  rw [← Int.tmod_def]
  unfold Int128.rem? Int128.quot?
  rw [Int128.ofInt?_eq_some_iff.mpr hq]
  rfl

/-- A remainder has no value where the quotient has none. -/
theorem Int128.rem?_eq_none {x y : Int128} (hx : x.val = -2 ^ 127) (hy : y.val = -1) :
    x.rem? y = none := by
  have hquotient : ¬ Fits (Int.tdiv x.val y.val) := by
    rw [hx, hy, Int.tdiv_neg, Int.tdiv_one]
    unfold Fits
    omega
  unfold Int128.rem? Int128.quot?
  rw [Int128.ofInt?_eq_none_iff.mpr hquotient]
  rfl

/-- Powers of zero, of one and of minus one. -/
theorem small_power {b : ℤ} (hb : b.natAbs ≤ 1) (n : ℕ) :
    b ^ n = if n = 0 then 1 else if n % 2 = 0 then b * b else b := by
  have hcases : b = -1 ∨ b = 0 ∨ b = 1 := by omega
  by_cases hzero : n = 0
  · rw [hzero, if_pos rfl, pow_zero]
  rw [if_neg hzero]
  rcases hcases with rfl | rfl | rfl
  · split
    · next heven => rw [(Nat.even_iff.mpr heven).neg_one_pow, neg_one_mul, neg_neg]
    · next hodd => rw [(Nat.odd_iff.mpr (by omega)).neg_one_pow]
  · rw [zero_pow hzero]
    simp
  · rw [one_pow]
    simp

/-- A power of two or more grows beyond 128 bits. -/
theorem not_fits_power {b : ℤ} (hb : 1 < b.natAbs) {n : ℕ} (hn : 127 < n) : ¬ Fits (b ^ n) := by
  have hgrows : 2 ^ 128 ≤ b.natAbs ^ n :=
    calc 2 ^ 128 ≤ 2 ^ n := Nat.pow_le_pow_right (by decide) hn
      _ ≤ b.natAbs ^ n := Nat.pow_le_pow_left hb n
  rw [← Int.natAbs_pow] at hgrows
  unfold Fits
  omega

theorem Int128.pow?_eq {base exponent : Int128} (hnonneg : 0 ≤ exponent.val)
    (hsmall : exponent.val < 2 ^ 32) :
    base.pow? exponent = Int128.ofInt? (base.val ^ exponent.val.toNat) := by
  obtain ⟨n, hn⟩ := Int.eq_ofNat_of_zero_le hnonneg
  have hguard : ¬ (exponent.val < 0 ∨ 0x1_0000_0000 ≤ exponent.val) := by omega
  unfold Int128.pow?
  rw [if_neg hguard, hn, Int.toNat_natCast]
  by_cases hbase : base.val.natAbs ≤ 1
  · rw [if_pos hbase, small_power hbase]
    congr 1
    norm_cast
  · rw [if_neg hbase]
    by_cases hlarge : 127 < n
    · have hnone := Int128.ofInt?_eq_none_iff.mpr (not_fits_power (Nat.lt_of_not_le hbase) hlarge)
      rw [if_pos (by omega), hnone]
    · rw [if_neg (by omega)]
      rfl

theorem Int128.pow?_eq_none {base exponent : Int128} (hlarge : 2 ^ 32 ≤ exponent.val) :
    base.pow? exponent = none := by
  unfold Int128.pow?
  exact if_pos (.inr (by omega))

theorem Int128.exists_sqrt? {a : Int128} (h : 0 ≤ a.val) :
    ∃ r : Int128, a.sqrt? = some r ∧ r.val * r.val ≤ a.val ∧ a.val < (r.val + 1) * (r.val + 1) := by
  obtain ⟨n, hn⟩ := Int.eq_ofNat_of_zero_le h
  obtain ⟨hlow, hhigh⟩ := sqrt_spec n
  have hle : Number.sqrt n ≤ n := Nat.le_trans (Nat.le_mul_self _) hlow
  have hfits : Fits (Number.sqrt n : ℤ) := by
    have hbound := a.fits
    unfold Fits at hbound ⊢
    omega
  obtain ⟨r, hr⟩ := Int128.exists_of_fits hfits
  refine ⟨r, ?_, ?_, ?_⟩
  · unfold Int128.sqrt?
    rw [if_neg (by omega), hn, Int.toNat_natCast]
    exact Int128.ofInt?_eq_some_iff.mpr hr
  · rw [hr, hn]
    exact_mod_cast hlow
  · rw [hr, hn]
    exact_mod_cast hhigh

end StackContract.Number

namespace StackContract.Machine

open Script Number

/-- An instruction pushes an integer in the place of its operands, which lie on `below`, and the machine
overflows if the integer does not fit. -/
structure Computes (i : Located) (s : State) (below : Stack Item) (v : ℤ) : Prop where
  pushes : ∀ r : Int128, r.val = v → execute i s = .ok .next (s.withStack (below.push (.integer r)))
  overflows : ¬ Fits v → execute i s = .error .overflow (s.withStack below)

variable {i : Located} {s : State} {below : Stack Item} {x y : Int128} {v : ℤ}

theorem computes_of_execute
    (h : execute i s = s.result below ((orOverflow (Int128.ofInt? v)).map .integer)) :
    Computes i s below v where
  pushes r hr := by rw [h, Int128.ofInt?_eq_some_iff.mpr hr]; rfl
  overflows hfits := by rw [h, Int128.ofInt?_eq_none_iff.mpr hfits]; rfl

/-- What arithmetic instructions make of one integer. -/
structure UnaryExact (i : Located) (s : State) (below : Stack Item) (x : ℤ) : Prop where
  increment : i.opcode = .inc → Computes i s below (x + 1)
  decrement : i.opcode = .dec → Computes i s below (x - 1)
  negation : i.opcode = .negate → Computes i s below (-x)
  magnitude : i.opcode = .abs → Computes i s below |x|
  root : i.opcode = .sqrt → 0 ≤ x → ∃ r : Int128, r.val * r.val ≤ x ∧ x < (r.val + 1) * (r.val + 1)
    ∧ execute i s = .ok .next (s.withStack (below.push (.integer r)))

/-- What arithmetic instructions make of two integers. -/
structure BinaryExact (i : Located) (s : State) (below : Stack Item) (x y : ℤ) : Prop where
  sum : i.opcode = .add → Computes i s below (x + y)
  difference : i.opcode = .sub → Computes i s below (x - y)
  product : i.opcode = .mul → Computes i s below (x * y)
  quotient : i.opcode = .div → y ≠ 0 → Computes i s below (truncated x y)
  remainder : i.opcode = .mod → y ≠ 0 → ¬ (x = -2 ^ 127 ∧ y = -1) →
    Computes i s below (x - y * truncated x y)
  noQuotient : i.opcode = .mod → x = -2 ^ 127 → y = -1 →
    execute i s = .error .overflow (s.withStack below)
  byZero : i.opcode = .div ∨ i.opcode = .mod → y = 0 →
    execute i s = .error .divideByZero (s.withStack below)
  power : i.opcode = .pow → 0 ≤ y → y < 2 ^ 32 → Computes i s below (x ^ y.toNat)
  highPower : i.opcode = .pow → 2 ^ 32 ≤ y → execute i s = .error .overflow (s.withStack below)

theorem computes_unary (op : UnaryOp) (hop : operation i.opcode = .simple (.unary op))
    (happly : op.apply x = orOverflow (Int128.ofInt? v)) (h : s.HasInteger x below) :
    Computes i s below v :=
  computes_of_execute (happly ▸ execute_unary op hop h)

theorem computes_binary (op : BinaryOp) (hop : operation i.opcode = .simple (.binary op))
    (happly : op.apply x y = orOverflow (Int128.ofInt? v)) (h : s.HasIntegers x y below) :
    Computes i s below v :=
  computes_of_execute (happly ▸ execute_binary op hop h)

theorem error_of_apply (op : BinaryOp) {fault : Fault} (hop : operation i.opcode = .simple (.binary op))
    (happly : op.apply x y = .error fault) (h : s.HasIntegers x y below) :
    execute i s = .error fault (s.withStack below) := by
  rw [execute_binary op hop h, happly]
  rfl

theorem unaryExact (h : s.HasInteger x below) : UnaryExact i s below x.val where
  increment hop := computes_unary .increment (by rw [hop]; rfl) rfl h
  decrement hop := computes_unary .decrement (by rw [hop]; rfl) rfl h
  negation hop := computes_unary .negate (by rw [hop]; rfl) rfl h
  magnitude hop := by
    refine computes_unary .abs (by rw [hop]; rfl) ?_ h
    rw [Int.abs_eq_natAbs]
    rfl
  root hop hnonneg := by
    obtain ⟨r, hr, hlow, hhigh⟩ := Int128.exists_sqrt? hnonneg
    refine ⟨r, hlow, hhigh, ?_⟩
    rw [execute_unary .sqrt (by rw [hop]; rfl) h]
    show s.result below ((orOverflow x.sqrt?).map .integer) = _
    rw [hr]
    rfl

theorem binaryExact (h : s.HasIntegers x y below) : BinaryExact i s below x.val y.val where
  sum hop := computes_binary .add (by rw [hop]; rfl) rfl h
  difference hop := computes_binary .sub (by rw [hop]; rfl) rfl h
  product hop := computes_binary .mul (by rw [hop]; rfl) rfl h
  quotient hop hy := by
    refine computes_binary .div (by rw [hop]; rfl) ?_ h
    rw [truncated_eq_tdiv]
    exact if_neg hy
  remainder hop hy hquotient := by
    refine computes_binary .mod (by rw [hop]; rfl) ?_ h
    show (if y.val = 0 then _ else orOverflow (x.rem? y)) = _
    rw [if_neg hy, Int128.rem?_eq hquotient]
  noQuotient hop hx hy := by
    refine error_of_apply .mod (by rw [hop]; rfl) ?_ h
    show (if y.val = 0 then _ else orOverflow (x.rem? y)) = _
    rw [if_neg (by omega), Int128.rem?_eq_none hx hy]
    rfl
  byZero hop hy := by
    rcases hop with hop | hop
    · exact error_of_apply .div (by rw [hop]; rfl) (if_pos hy) h
    · exact error_of_apply .mod (by rw [hop]; rfl) (if_pos hy) h
  power hop hnonneg hsmall := by
    refine computes_binary .pow (by rw [hop]; rfl) ?_ h
    show orOverflow (x.pow? y) = _
    rw [Int128.pow?_eq hnonneg hsmall]
  highPower hop hlarge := by
    refine error_of_apply .pow (by rw [hop]; rfl) ?_ h
    show orOverflow (x.pow? y) = _
    rw [Int128.pow?_eq_none hlarge]
    rfl

/-- Arithmetic is exact on all integers of 128 bits, or faults. -/
theorem arithmetic_exact (i : Located) (s : State) (below : Stack Item) :
    (∀ x, s.HasInteger x below → UnaryExact i s below x.val)
      ∧ ∀ x y, s.HasIntegers x y below → BinaryExact i s below x.val y.val :=
  ⟨fun _ h => unaryExact h, fun _ _ h => binaryExact h⟩

/-- A machine with two integers on its stack. -/
def holding (x y : Int128) : State :=
  State.withStack { script := #[] } ((Stack.empty.push (.integer x)).push (.integer y))

theorem hasIntegers_holding (x y : Int128) : (holding x y).HasIntegers x y .empty :=
  State.hasIntegers_withStack ..

/-- The least integer of 128 bits. -/
def least : Int128 := ⟨-0x8000_0000_0000_0000_0000_0000_0000_0000, by decide, by decide⟩

/-- The integer above the least one. -/
def nextLeast : Int128 := ⟨-0x7fff_ffff_ffff_ffff_ffff_ffff_ffff_ffff, by decide, by decide⟩

/-- The least exponent of more than 32 bits. -/
def highExponent : Int128 := ⟨0x1_0000_0000, by decide, by decide⟩

/-- The least integer has no quotient by minus one and no negation, but minus one can be taken from it. -/
theorem arithmetic_exact_least :
    ((holding least .minusOne).HasIntegers least .minusOne .empty
      ∧ execute ⟨⟨.div, []⟩, 0⟩ (holding least .minusOne)
        = .error .overflow ((holding least .minusOne).withStack .empty)
      ∧ execute ⟨⟨.sub, []⟩, 0⟩ (holding least .minusOne)
        = .ok .next ((holding least .minusOne).withStack (Stack.empty.push (.integer nextLeast))))
    ∧ (holding .one least).HasInteger least (Stack.empty.push (.integer .one))
      ∧ execute ⟨⟨.negate, []⟩, 0⟩ (holding .one least)
        = .error .overflow ((holding .one least).withStack (Stack.empty.push (.integer .one))) := by
  have hholding := hasIntegers_holding least .minusOne
  have hquotient := ((arithmetic_exact ⟨⟨.div, []⟩, 0⟩ _ _).2 _ _ hholding).quotient rfl (by decide)
  have hdifference := ((arithmetic_exact ⟨⟨.sub, []⟩, 0⟩ _ _).2 _ _ hholding).difference rfl
  have htop : (holding .one least).HasInteger least (Stack.empty.push (.integer .one)) :=
    State.hasInteger_withStack ..
  have hnegation := ((arithmetic_exact ⟨⟨.negate, []⟩, 0⟩ _ _).1 _ htop).negation rfl
  refine ⟨⟨hholding, hquotient.overflows ?_, hdifference.pushes _ rfl⟩, htop, hnegation.overflows ?_⟩
  · rw [truncated_eq_tdiv]
    decide
  · decide

/-- One to any power is one, and a remainder by minus one is zero. Neither is always pushed. -/
theorem not_computes_power_of_one :
    ((holding .one highExponent).HasIntegers .one highExponent .empty ∧ Fits ((1 : ℤ) ^ 2 ^ 32)
      ∧ ¬ Computes ⟨⟨.pow, []⟩, 0⟩ (holding .one highExponent) .empty ((1 : ℤ) ^ 2 ^ 32))
    ∧ ((holding least .minusOne).HasIntegers least .minusOne .empty
      ∧ Fits (least.val - -1 * truncated least.val (-1))
      ∧ ¬ Computes ⟨⟨.mod, []⟩, 0⟩ (holding least .minusOne) .empty
        (least.val - -1 * truncated least.val (-1))) := by
  refine ⟨⟨hasIntegers_holding .., ?_, fun h => ?_⟩, hasIntegers_holding .., ?_, fun h => ?_⟩
  · rw [one_pow]
    decide
  · have hpushes := h.pushes .one (one_pow _).symm
    rw [(binaryExact (hasIntegers_holding ..)).highPower rfl (by decide)] at hpushes
    cases hpushes
  · rw [truncated_eq_tdiv]
    decide
  · have hpushes := h.pushes .zero (by rw [truncated_eq_tdiv]; decide)
    rw [(binaryExact (hasIntegers_holding ..)).noQuotient rfl rfl rfl] at hpushes
    cases hpushes

end StackContract.Machine
