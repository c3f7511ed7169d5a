import StackContract.Proofs.ExactArithmetic
import StackContract.Proofs.Numbers
/-!
# Two's complement

Bytes of any number denote an integer in two's complement (`twosComplement`), and a 128-bit integer is
read from just the bytes that denote one. The bytes that are written for an integer denote it, and of all
byte strings that do, the empty one apart, they are the only shortest (`byteCodec_exact`).

With the empty byte string for zero, the same is true among all byte strings (`isShortest_bytes`).
-/

namespace StackContract.Number

/-- The integer that bytes denote in two's complement, the least significant first: of `n` bytes, the
numbers from half of `256 ^ n` on stand for the negative integers. -/
def twosComplement (bytes : List UInt8) : ℤ :=
  let unsigned : ℕ := Nat.ofDigits 256 (bytes.map UInt8.toNat)
  if 2 * unsigned < 256 ^ bytes.length then unsigned else unsigned - 256 ^ bytes.length

/-- The only shortest byte string with a property. -/
structure IsShortest (p : List UInt8 → Prop) (bytes : List UInt8) : Prop where
  holds : p bytes
  length_lt : ∀ other, p other → other ≠ bytes → bytes.length < other.length

theorem twosComplement_nil : twosComplement [] = 0 := by
  simp [twosComplement]

/-- The upper half of the numbers is where the last byte carries a sign. -/
theorem twosComplement_eq (bytes : List UInt8) : twosComplement bytes = signedOfBytes bytes := by
  cases bytes with
  | nil => exact twosComplement_nil
  | cons b rest =>
    have hbounds := signedOfBytes_bounds (show (b :: rest).length = rest.length + 1 from rfl)
    have hnat := natOfBytes_eq_signed (b :: rest)
    have hpow : (256 : ℤ) ^ rest.length = ((256 ^ rest.length : ℕ) : ℤ) := by push_cast; rfl
    simp only [twosComplement, ← natOfBytes_eq_ofDigits, List.length_cons, pow_succ]
    simp only [List.length_cons, pow_succ, isNegative_iff, hpow] at hnat
    simp only [hpow] at hbounds ⊢
    generalize 256 ^ rest.length = power at *
    split at hnat <;> split <;> omega

namespace Int128

theorem ofBytes?_iff_twosComplement {bytes : List UInt8} {v : Int128} :
    ofBytes? bytes = some v ↔ twosComplement bytes = v.val := by
  rw [twosComplement_eq, ofBytes?_eq_some_iff]

theorem isShortest_minimalBytes (v : Int128) :
    IsShortest (fun bytes => bytes ≠ [] ∧ twosComplement bytes = v.val) v.minimalBytes := by
  have hvalue := v.signedOfBytes_minimalBytes
  refine ⟨⟨v.minimalBytes_ne_nil, by rw [twosComplement_eq, hvalue]⟩, ?_⟩
  rintro other ⟨hne, hother⟩ hdiffers
  rw [twosComplement_eq] at hother
  -- as many bytes with the same value would be the same bytes
  have hlength : other.length ≠ v.minimalBytes.length := fun hlength =>
    hdiffers (eq_of_signedOfBytes hlength (hother.trans hvalue.symm))
  have hle := length_minimalBytes_le hne hother
  omega

/-- Zero has no bytes at all. -/
theorem isShortest_bytes (v : Int128) : IsShortest (fun bytes => twosComplement bytes = v.val)
    (if v.val = 0 then [] else v.minimalBytes) := by
  by_cases hzero : v.val = 0
  · rw [if_pos hzero, hzero]
    exact ⟨twosComplement_nil, fun other _ hne => List.length_pos_iff.mpr hne⟩
  · rw [if_neg hzero]
    have hshortest := v.isShortest_minimalBytes
    refine ⟨hshortest.holds.2, fun other hother hdiffers => hshortest.length_lt other ⟨?_, hother⟩ hdiffers⟩
    rintro rfl
    exact hzero (hother.symm.trans twosComplement_nil)

end Int128

/-- Reading bytes gives the integer that they denote, if it fits 128 bits, and the bytes that are written
for an integer are the shortest that are read back as it. -/
theorem byteCodec_exact :
    (∀ bytes : List UInt8, (∃ v, Int128.ofBytes? bytes = some v) ↔ Fits (twosComplement bytes))
    ∧ (∀ (bytes : List UInt8) (v : Int128),
      Int128.ofBytes? bytes = some v ↔ twosComplement bytes = v.val)
    ∧ ∀ v : Int128, Int128.ofBytes? v.minimalBytes = some v
      ∧ IsShortest (fun bytes => bytes ≠ [] ∧ twosComplement bytes = v.val) v.minimalBytes := by
  refine ⟨fun bytes => ⟨?_, ?_⟩, fun _ _ => Int128.ofBytes?_iff_twosComplement, fun v => ⟨?_, ?_⟩⟩
  · rintro ⟨v, hv⟩
    rw [Int128.ofBytes?_iff_twosComplement.mp hv]
    exact v.fits
  · intro hfits
    obtain ⟨v, hv⟩ := Int128.exists_of_fits hfits
    exact ⟨v, Int128.ofBytes?_iff_twosComplement.mpr hv.symm⟩
  · exact Int128.ofBytes?_eq_some_iff.mpr v.signedOfBytes_minimalBytes
  · exact v.isShortest_minimalBytes

end StackContract.Number
