import Mathlib.Data.List.Basic
import StackContract.Script.Hash
/-!
# The text of a hash

Texts are read as bytes just where they are pairs of hexadecimal digits (`bytesOfHex_eq_ok_iff`). So the
texts of hashes are forty digits with or without a `0x` in front; a hash is printed with the digits that it
was read from, in lower case, and read again from what is printed (`hashText_exact`).
-/

namespace StackContract.Text

/-! ## Digits -/

/-- A hexadecimal digit of either case. -/
def IsHexDigit (c : Char) : Prop :=
  '0' ≤ c ∧ c ≤ '9' ∨ 'a' ≤ c ∧ c ≤ 'f' ∨ 'A' ≤ c ∧ c ≤ 'F'

/-- The value of a character as a hexadecimal digit. -/
def digitValue? (c : Char) : Option UInt8 :=
  if c.toNat < 128 then hexValue? (UInt8.ofNat c.toNat) else none

theorem isHexDigit_iff {c : Char} : IsHexDigit c
    ↔ 48 ≤ c.toNat ∧ c.toNat ≤ 57 ∨ 97 ≤ c.toNat ∧ c.toNat ≤ 102 ∨ 65 ≤ c.toNat ∧ c.toNat ≤ 70 :=
  Iff.rfl

theorem toNat_toLower (c : Char) :
    c.toLower.toNat = if 65 ≤ c.toNat ∧ c.toNat ≤ 90 then c.toNat + 32 else c.toNat := by
  have hiff : (c.val ≥ 'A'.val ∧ c.val ≤ 'Z'.val) ↔ 65 ≤ c.toNat ∧ c.toNat ≤ 90 := Iff.rfl
  unfold Char.toLower
  by_cases h : 65 ≤ c.toNat ∧ c.toNat ≤ 90
  · rw [dif_pos (hiff.mpr h), if_pos h]
    show (c.val + 32).toNat = _
    rw [UInt32.toNat_add, Char.toNat_val, Nat.mod_eq_of_lt]
    · rfl
    · show c.toNat + 32 < 2 ^ 32
      omega
  · rw [dif_neg (hiff.not.mpr h), if_neg h]

theorem toNat_hexDigit {n : ℕ} (h : n < 16) :
    (hexDigit n).toNat = if n < 10 then 48 + n else 87 + n := by
  have hall : ∀ n < 16, (hexDigit n).toNat = if n < 10 then 48 + n else 87 + n := by decide
  exact hall n h

theorem hexValue?_eq_some_iff {b v : UInt8} : hexValue? b = some v
    ↔ 48 ≤ b.toNat ∧ b.toNat ≤ 57 ∧ b.toNat = v.toNat + 48
      ∨ 65 ≤ b.toNat ∧ b.toNat ≤ 70 ∧ b.toNat = v.toNat + 55
      ∨ 97 ≤ b.toNat ∧ b.toNat ≤ 102 ∧ b.toNat = v.toNat + 87 := by
  unfold hexValue?
  simp only [UInt8.le_iff_toNat_le]
  split_ifs <;> simp only [Option.some.injEq, ← UInt8.toNat_inj, UInt8.toNat_sub, false_iff] <;>
    simp only [UInt8.reduceToNat] at * <;> omega

theorem hexValue?_of_ge {b : UInt8} (h : 128 ≤ b.toNat) : hexValue? b = none := by
  refine Option.eq_none_iff_forall_ne_some.mpr fun v hv => ?_
  rw [hexValue?_eq_some_iff] at hv
  omega

theorem digitValue?_eq_some_iff {c : Char} {v : UInt8} : digitValue? c = some v
    ↔ 48 ≤ c.toNat ∧ c.toNat ≤ 57 ∧ c.toNat = v.toNat + 48
      ∨ 65 ≤ c.toNat ∧ c.toNat ≤ 70 ∧ c.toNat = v.toNat + 55
      ∨ 97 ≤ c.toNat ∧ c.toNat ≤ 102 ∧ c.toNat = v.toNat + 87 := by
  unfold digitValue?
  by_cases hascii : c.toNat < 128
  · have hbyte : (UInt8.ofNat c.toNat).toNat = c.toNat := by
      rw [UInt8.toNat_ofNat', Nat.mod_eq_of_lt (by omega)]
    rw [if_pos hascii, hexValue?_eq_some_iff, hbyte]
  · rw [if_neg hascii]
    exact ⟨nofun, by omega⟩

theorem isHexDigit_iff_digitValue? {c : Char} : IsHexDigit c ↔ ∃ v, digitValue? c = some v := by
  simp only [isHexDigit_iff, digitValue?_eq_some_iff]
  constructor
  · rintro (h | h | h)
    · exact ⟨UInt8.ofNat (c.toNat - 48), by rw [UInt8.toNat_ofNat']; omega⟩
    · exact ⟨UInt8.ofNat (c.toNat - 87), by rw [UInt8.toNat_ofNat']; omega⟩
    · exact ⟨UInt8.ofNat (c.toNat - 55), by rw [UInt8.toNat_ofNat']; omega⟩
  · rintro ⟨v, hv⟩
    omega

/-- The digit that is printed for the value of a digit is the same in lower case. -/
theorem hexDigit_of_digitValue? {c : Char} {v : UInt8} (h : digitValue? c = some v) :
    v.toNat < 16 ∧ hexDigit v.toNat = c.toLower := by
  rw [digitValue?_eq_some_iff] at h
  have hlt : v.toNat < 16 := by omega
  refine ⟨hlt, Char.toNat_inj.mp ?_⟩
  rw [toNat_hexDigit hlt, toNat_toLower]
  split_ifs <;> omega

theorem digitValue?_hexDigit {n : ℕ} (h : n < 16) : digitValue? (hexDigit n) = some (UInt8.ofNat n) := by
  have hall : ∀ n < 16, digitValue? (hexDigit n) = some (UInt8.ofNat n) := by decide
  exact hall n h

/-- A digit is one byte of a text. -/
theorem utf8EncodeChar_of_digit {c : Char} {v : UInt8} (h : digitValue? c = some v) :
    ∃ b, String.utf8EncodeChar c = [b] ∧ hexValue? b = some v := by
  unfold digitValue? at h
  split_ifs at h with hascii
  refine ⟨_, ?_, h⟩
  unfold String.utf8EncodeChar
  exact if_pos (Nat.le_of_lt_succ hascii)

/-- Any other character starts with a byte that is no digit. -/
theorem utf8EncodeChar_cases (c : Char) :
    (∃ v b, digitValue? c = some v ∧ String.utf8EncodeChar c = [b] ∧ hexValue? b = some v)
      ∨ ∃ b rest, String.utf8EncodeChar c = b :: rest ∧ hexValue? b = none := by
  cases hvalue : digitValue? c with
  | some v =>
    obtain ⟨b, hb, hbyte⟩ := utf8EncodeChar_of_digit hvalue
    exact .inl ⟨v, b, rfl, hb, hbyte⟩
  | none =>
    refine .inr ?_
    unfold String.utf8EncodeChar
    simp only [Char.toNat_val]
    split_ifs with hascii
    · rw [digitValue?, if_pos (Nat.lt_succ_of_le hascii)] at hvalue
      exact ⟨_, _, rfl, hvalue⟩
    -- longer forms start with a byte from 192 up
    all_goals
      refine ⟨_, _, rfl, hexValue?_of_ge ?_⟩
      rw [UInt8.toNat_ofNat']
      omega

/-! ## Pairs of digits -/

/-- Characters that spell bytes, two digits each. -/
inductive HexPairs : List Char → List UInt8 → Prop
  | nil : HexPairs [] []
  | cons {high low : Char} {h l : UInt8} {digits : List Char} {bytes : List UInt8}
    (hhigh : digitValue? high = some h) (hlow : digitValue? low = some l)
    (hrest : HexPairs digits bytes) : HexPairs (high :: low :: digits) ((h * 16 + l) :: bytes)

theorem digitsOfByte_pair {h l : UInt8} (hhigh : h.toNat < 16) (hlow : l.toNat < 16) :
    digitsOfByte (h * 16 + l) = [hexDigit h.toNat, hexDigit l.toNat] := by
  have hvalue : (h * 16 + l).toNat = h.toNat * 16 + l.toNat := by
    rw [UInt8.toNat_add, UInt8.toNat_mul]
    show (h.toNat * 16 % 256 + l.toNat) % 256 = _
    omega
  unfold digitsOfByte
  rw [hvalue, show (h.toNat * 16 + l.toNat) / 16 = h.toNat by omega,
    show (h.toNat * 16 + l.toNat) % 16 = l.toNat by omega]

namespace HexPairs

variable {digits : List Char} {bytes : List UInt8}

/-- Printed, the bytes have the same digits in lower case. -/
theorem flatMap_digitsOfByte (h : HexPairs digits bytes) :
    bytes.flatMap digitsOfByte = digits.map Char.toLower := by
  induction h with
  | nil => rfl
  | cons hhigh hlow _ ih =>
    obtain ⟨hhlt, hheq⟩ := hexDigit_of_digitValue? hhigh
    obtain ⟨hllt, hleq⟩ := hexDigit_of_digitValue? hlow
    rw [List.flatMap_cons, ih, digitsOfByte_pair hhlt hllt, hheq, hleq]
    rfl

theorem isHexDigit (h : HexPairs digits bytes) : ∀ c ∈ digits, IsHexDigit c := by
  induction h with
  | nil => exact fun _ hc => nomatch hc
  | cons hhigh hlow _ ih =>
    rw [List.forall_mem_cons, List.forall_mem_cons]
    exact ⟨isHexDigit_iff_digitValue?.mpr ⟨_, hhigh⟩, isHexDigit_iff_digitValue?.mpr ⟨_, hlow⟩, ih⟩

theorem length_digits (h : HexPairs digits bytes) : digits.length = 2 * bytes.length := by
  induction h with
  | nil => rfl
  | cons _ _ _ ih =>
    simp only [List.length_cons]
    omega

theorem length_utf8 (h : HexPairs digits bytes) :
    (digits.flatMap String.utf8EncodeChar).length = 2 * bytes.length := by
  induction h with
  | nil => rfl
  | cons hhigh hlow _ ih =>
    obtain ⟨_, hh, -⟩ := utf8EncodeChar_of_digit hhigh
    obtain ⟨_, hl, -⟩ := utf8EncodeChar_of_digit hlow
    simp only [List.flatMap_cons, hh, hl, List.length_append, List.length_cons, List.length_nil]
    omega

end HexPairs

/-- Any digits of an even number spell bytes. -/
theorem exists_hexPairs : ∀ digits : List Char, (∀ c ∈ digits, IsHexDigit c) → digits.length % 2 = 0 →
    ∃ bytes, HexPairs digits bytes
  | [], _, _ => ⟨[], .nil⟩
  | [_], _, heven => nomatch heven
  | high :: low :: digits, hdigits, heven => by
    rw [List.forall_mem_cons, List.forall_mem_cons] at hdigits
    obtain ⟨hhigh, hlow, hrest⟩ := hdigits
    obtain ⟨_, hhigh⟩ := isHexDigit_iff_digitValue?.mp hhigh
    obtain ⟨_, hlow⟩ := isHexDigit_iff_digitValue?.mp hlow
    have heven : digits.length % 2 = 0 := by
      simp only [List.length_cons] at heven
      omega
    obtain ⟨_, hbytes⟩ := exists_hexPairs digits hrest heven
    exact ⟨_, .cons hhigh hlow hbytes⟩

/-- The digits that are printed for bytes spell them. -/
theorem hexPairs_digitsOfByte (bytes : List UInt8) : HexPairs (bytes.flatMap digitsOfByte) bytes := by
  induction bytes with
  | nil => exact .nil
  | cons b bytes ih =>
    have hlt := b.toNat_lt
    have hbyte : UInt8.ofNat (b.toNat / 16) * 16 + UInt8.ofNat (b.toNat % 16) = b := by
      rw [← UInt8.toNat_inj, UInt8.toNat_add, UInt8.toNat_mul, UInt8.toNat_ofNat', UInt8.toNat_ofNat']
      show (b.toNat / 16 % 256 * 16 % 256 + b.toNat % 16 % 256) % 256 = _
      omega
    have hpair : HexPairs (digitsOfByte b ++ bytes.flatMap digitsOfByte)
        ((UInt8.ofNat (b.toNat / 16) * 16 + UInt8.ofNat (b.toNat % 16)) :: bytes) :=
      .cons (digitValue?_hexDigit (by omega)) (digitValue?_hexDigit (by omega)) ih
    rwa [hbyte] at hpair

/-! ## Reading -/

theorem utf8_ofList (characters : List Char) :
    utf8 (String.ofList characters) = characters.flatMap String.utf8EncodeChar := by
  show (characters.flatMap String.utf8EncodeChar).toByteArray.data.toList = _
  simp

section

variable {position : ℕ} {done rest bytes : List UInt8} {high low : UInt8}

theorem bytesOfDigits_pair {h l : UInt8} (hhigh : hexValue? high = some h) (hlow : hexValue? low = some l) :
    bytesOfDigits position done (high :: low :: rest)
      = bytesOfDigits (position + 2) ((h * 16 + l) :: done) rest := by
  simp only [bytesOfDigits, hhigh, hlow]

/-- Where bytes are read, a digit stands in front. -/
theorem exists_digitValue?_of_high {c : Char}
    (h : bytesOfDigits position done (String.utf8EncodeChar c ++ rest) = .ok bytes) :
    ∃ v b, digitValue? c = some v ∧ String.utf8EncodeChar c = [b] ∧ hexValue? b = some v := by
  rcases utf8EncodeChar_cases c with hdigit | ⟨b, more, hb, hbyte⟩
  · exact hdigit
  · rw [hb, List.cons_append] at h
    generalize more ++ rest = behind at h
    cases behind <;> simp [bytesOfDigits, hbyte] at h

/-- Another one stands behind it. -/
theorem exists_digitValue?_of_low {c : Char}
    (h : bytesOfDigits position done (high :: (String.utf8EncodeChar c ++ rest)) = .ok bytes) :
    ∃ v b, digitValue? c = some v ∧ String.utf8EncodeChar c = [b] ∧ hexValue? b = some v := by
  rcases utf8EncodeChar_cases c with hdigit | ⟨b, more, hb, hbyte⟩
  · exact hdigit
  · rw [hb, List.cons_append] at h
    cases hhigh : hexValue? high <;> simp [bytesOfDigits, hhigh, hbyte] at h

end

/-- Pairs of digits are read, behind what has been read before them. -/
theorem HexPairs.bytesOfDigits_eq {digits : List Char} {bytes : List UInt8} (h : HexPairs digits bytes)
    (position : ℕ) (done : List UInt8) :
    bytesOfDigits position done (digits.flatMap String.utf8EncodeChar) = .ok (done.reverse ++ bytes) := by
  induction h generalizing position done with
  | nil =>
    rw [List.append_nil]
    rfl
  | cons hhigh hlow _ ih =>
    obtain ⟨_, hh, hhigh⟩ := utf8EncodeChar_of_digit hhigh
    obtain ⟨_, hl, hlow⟩ := utf8EncodeChar_of_digit hlow
    rw [List.flatMap_cons, List.flatMap_cons, hh, hl]
    refine (bytesOfDigits_pair hhigh hlow).trans ((ih _ _).trans ?_)
    rw [List.reverse_cons, List.append_assoc, List.singleton_append]

/-- Nothing else is read. -/
theorem exists_hexPairs_of_bytesOfDigits : ∀ (characters : List Char) {position : ℕ} {done bytes : List UInt8},
    bytesOfDigits position done (characters.flatMap String.utf8EncodeChar) = .ok bytes →
      ∃ read, HexPairs characters read
  | [], _, _, _, _ => ⟨[], .nil⟩
  | [c], _, _, _, hread => by
    -- a digit alone is a single byte, which is half of a pair
    rw [List.flatMap_cons] at hread
    obtain ⟨_, _, -, hc, -⟩ := exists_digitValue?_of_high hread
    rw [hc] at hread
    cases hread
  | high :: low :: rest, _, _, _, hread => by
    rw [List.flatMap_cons, List.flatMap_cons] at hread
    obtain ⟨_, _, hhigh, hh, hhighByte⟩ := exists_digitValue?_of_high hread
    rw [hh] at hread
    obtain ⟨_, _, hlow, hl, hlowByte⟩ := exists_digitValue?_of_low hread
    rw [hl] at hread
    have hrest := (bytesOfDigits_pair hhighByte hlowByte).symm.trans hread
    obtain ⟨_, hpairs⟩ := exists_hexPairs_of_bytesOfDigits rest hrest
    exact ⟨_, .cons hhigh hlow hpairs⟩

/-- A text is read as bytes just where its characters spell them. -/
theorem bytesOfHex_eq_ok_iff {characters : List Char} {bytes : List UInt8} :
    bytesOfHex (String.ofList characters) = .ok bytes ↔ HexPairs characters bytes := by
  simp only [bytesOfHex, utf8_ofList]
  split_ifs with hodd
  · -- digits are single bytes, so that pairs of them are never odd in number
    refine ⟨nofun, fun h => ?_⟩
    have := h.length_utf8
    omega
  · constructor
    · intro hread
      obtain ⟨read, hpairs⟩ := exists_hexPairs_of_bytesOfDigits characters hread
      have heq : .ok read = Except.ok bytes := (hpairs.bytesOfDigits_eq 0 []).symm.trans hread
      cases heq
      exact hpairs
    · exact fun h => h.bytesOfDigits_eq 0 []

end StackContract.Text

namespace StackContract.Script

open Text

namespace Hash

/-- The texts of forty digits, with at most one `0x` in front of them. -/
structure Spells (text : String) (digits : List Char) : Prop where
  text_eq : text = String.ofList digits ∨ text = "0x" ++ String.ofList digits
  length_eq : digits.length = 40
  isHexDigit : ∀ c ∈ digits, IsHexDigit c

variable {text : String} {digits : List Char} {hash : Hash}

theorem digitsOf_prefixed (digits : List Char) :
    digitsOf ("0x" ++ String.ofList digits) = String.ofList digits := by
  have htoList : ("0x" ++ String.ofList digits).toList = '0' :: 'x' :: digits := by simp
  unfold digitsOf
  rw [htoList]
  rfl

/-- Pairs of digits do not start with `0x`. -/
theorem digitsOf_of_hexPairs {bytes : List UInt8} (h : HexPairs digits bytes) :
    digitsOf (String.ofList digits) = String.ofList digits := by
  unfold digitsOf
  rw [String.toList_ofList]
  split
  · next rest =>
    -- `x` has no value
    cases h with
    | cons _ hlow => nomatch hlow
  · rfl

theorem eq_of_digitsOf (text : String) : ∃ digits, digitsOf text = String.ofList digits
    ∧ (text = String.ofList digits ∨ text = "0x" ++ String.ofList digits) := by
  unfold digitsOf
  split
  · next digits htext =>
    refine ⟨digits, rfl, .inr (String.toList_inj.mp ?_)⟩
    rw [htext]
    simp
  · exact ⟨text.toList, String.ofList_toList.symm, .inl String.ofList_toList.symm⟩

theorem parse_eq_ok_iff_bytesOfHex :
    parse text = .ok hash ↔ bytesOfHex (digitsOf text) = .ok hash.bytes.reverse := by
  obtain ⟨hashBytes, hlength⟩ := hash
  unfold parse
  cases bytesOfHex (digitsOf text) with
  | error e => exact ⟨nofun, nofun⟩
  | ok bytes =>
    simp only [Except.ok.injEq]
    constructor
    · intro h
      split at h
      · cases h
        exact (List.reverse_reverse _).symm
      · cases h
    · rintro rfl
      simp [hlength]

/-- A text is read as a hash just where its digits spell the bytes in reverse. -/
theorem parse_eq_ok_iff : parse text = .ok hash ↔ ∃ digits, HexPairs digits hash.bytes.reverse
    ∧ (text = String.ofList digits ∨ text = "0x" ++ String.ofList digits) := by
  rw [parse_eq_ok_iff_bytesOfHex]
  constructor
  · intro hread
    obtain ⟨digits, hdigits, htext⟩ := eq_of_digitsOf text
    rw [hdigits, bytesOfHex_eq_ok_iff] at hread
    exact ⟨digits, hread, htext⟩
  · rintro ⟨digits, hpairs, rfl | rfl⟩
    · rwa [digitsOf_of_hexPairs hpairs, bytesOfHex_eq_ok_iff]
    · rwa [digitsOf_prefixed, bytesOfHex_eq_ok_iff]

/-- What is read as a hash spells it in forty digits. -/
theorem spells_of_hexPairs (h : HexPairs digits hash.bytes.reverse)
    (htext : text = String.ofList digits ∨ text = "0x" ++ String.ofList digits) : Spells text digits where
  text_eq := htext
  length_eq := by rw [h.length_digits, List.length_reverse, hash.length_bytes]
  isHexDigit := h.isHexDigit

/-- Forty digits are read as a hash that is printed with the same digits in lower case. -/
theorem Spells.exists_parse (h : Spells text digits) : ∃ hash, parse text = .ok hash
    ∧ hash.text = "0x" ++ String.ofList (digits.map Char.toLower) := by
  obtain ⟨bytes, hpairs⟩ := exists_hexPairs digits h.isHexDigit (by rw [h.length_eq])
  have hlength : bytes.length = 20 := by
    have := hpairs.length_digits
    have := h.length_eq
    omega
  have hreverse : bytes.reverse.reverse = bytes := List.reverse_reverse _
  refine ⟨⟨bytes.reverse, List.length_reverse.trans hlength⟩, parse_eq_ok_iff.mpr ⟨digits, ?_, h.text_eq⟩, ?_⟩
  · rwa [hreverse]
  · rw [Hash.text, hreverse, hexOfBytes, hpairs.flatMap_digitsOfByte]

/-- The texts of hashes are those of forty digits; a hash is printed with the digits that it was read from,
in lower case; and it is read from what is printed, with or without the `0x`. -/
theorem hashText_exact :
    (∀ text : String, (∃ hash, parse text = .ok hash) ↔ ∃ digits, Spells text digits)
    ∧ (∀ (text : String) (digits : List Char), Spells text digits → ∃ hash, parse text = .ok hash
      ∧ hash.text = "0x" ++ String.ofList (digits.map Char.toLower))
    ∧ ∀ hash : Hash, parse hash.text = .ok hash
      ∧ ∃ bare, hash.text = "0x" ++ bare ∧ parse bare = .ok hash := by
  refine ⟨fun text => ⟨?_, ?_⟩, fun text digits => Spells.exists_parse, fun hash => ⟨?_, ?_⟩⟩
  · rintro ⟨hash, hparse⟩
    obtain ⟨digits, hpairs, htext⟩ := parse_eq_ok_iff.mp hparse
    exact ⟨digits, spells_of_hexPairs hpairs htext⟩
  · rintro ⟨digits, hspells⟩
    obtain ⟨hash, hparse, -⟩ := hspells.exists_parse
    exact ⟨hash, hparse⟩
  · exact parse_eq_ok_iff.mpr ⟨_, hexPairs_digitsOfByte _, .inr rfl⟩
  · exact ⟨_, rfl, parse_eq_ok_iff.mpr ⟨_, hexPairs_digitsOfByte _, .inl rfl⟩⟩

/-- Digits of both cases are printed in lower case. -/
theorem hashText_mixedCase :
    Spells ("0x" ++ String.ofList (List.replicate 20 'A' ++ List.replicate 20 'b'))
      (List.replicate 20 'A' ++ List.replicate 20 'b')
    ∧ ∃ hash, parse ("0x" ++ String.ofList (List.replicate 20 'A' ++ List.replicate 20 'b')) = .ok hash
      ∧ hash.text = "0x" ++ String.ofList (List.replicate 20 'a' ++ List.replicate 20 'b') := by
  have hspells : Spells ("0x" ++ String.ofList (List.replicate 20 'A' ++ List.replicate 20 'b'))
      (List.replicate 20 'A' ++ List.replicate 20 'b') := by
    refine ⟨.inr rfl, by simp, fun c hc => ?_⟩
    rcases List.mem_append.mp hc with hc | hc <;> rw [List.eq_of_mem_replicate hc, isHexDigit_iff] <;> decide
  obtain ⟨hash, hparse, htext⟩ := hashText_exact.2.1 _ _ hspells
  rw [List.map_append, List.map_replicate, List.map_replicate] at htext
  exact ⟨hspells, hash, hparse, htext⟩

end Hash

end StackContract.Script
