import StackContract.Json.Parser
import StackContract.Json.Printer
/-!
# JSON texts and their values

`Spells` says which texts spell a value: the text of a scalar is fixed, and blanks may stand around the
elements of a list and the members of an object. The parser reads every spelling of a value
(`parse_of_spells`), and `render` writes one of them (`spells_render`).

Not every value can be spelled: a string whose escapes contain an unpaired surrogate, and a number that
is no integer, keep nothing of how they were written. `Exact` excludes them.
-/

namespace StackContract.Json

/-! ## Strings -/

/-- A string without a surrogate half so far, which holds `done`, last character first. -/
def Scan.plain (done : List Char) : Scan :=
  ⟨done, none, true⟩

@[simp] theorem Scan.char_plain (done : List Char) (c : Char) :
    (Scan.plain done).char c = Scan.plain (c :: done) :=
  rfl

@[simp] theorem Scan.text?_plain (done : List Char) :
    (Scan.plain done).text? = some (String.ofList done.reverse) :=
  rfl

/-- The two digits that a control character is written with give it back. -/
theorem unit?_hexDigit {n : Nat} (h : n < 32) :
    unit? '0' '0' (Text.hexDigit (n / 16)) (Text.hexDigit (n % 16)) = some n := by
  have hall : ∀ n < 32, unit? '0' '0' (Text.hexDigit (n / 16)) (Text.hexDigit (n % 16)) = some n := by
    decide
  exact hall n h

theorem Scan.unit_plain (done : List Char) {c : Char} (h : c.toNat < 32) :
    (Scan.plain done).unit c.toNat = Scan.plain (c :: done) := by
  have hlead : ¬(0xd800 ≤ c.toNat ∧ c.toNat < 0xdc00) := by omega
  have htrail : ¬(0xdc00 ≤ c.toNat ∧ c.toNat < 0xe000) := by omega
  simp only [Scan.unit, if_neg hlead, if_neg htrail, Scan.char_plain, Char.ofNat_toNat]

/-- Reading the spelling of one character. -/
theorem parseString_escapeChar (done : List Char) (c : Char) (rest : List Char) :
    parseString (.plain done) (escapeChar c ++ rest) = parseString (.plain (c :: done)) rest := by
  unfold escapeChar
  split
  case h_8 hquote hslash _ _ _ _ _ =>
    split
    · next h =>
      simp only [List.cons_append, List.nil_append, parseString, unit?_hexDigit h,
        Scan.unit_plain done h]
    · next h =>
      rw [List.cons_append, List.nil_append, parseString.eq_def]
      split <;> simp_all [Nat.not_lt.mpr]
  all_goals rfl

theorem parseString_flatMap (done chars rest : List Char) :
    parseString (.plain done) (chars.flatMap escapeChar ++ '"' :: rest)
      = some (some (String.ofList (done.reverse ++ chars)), rest) := by
  induction chars generalizing done with
  | nil => simp [parseString]
  | cons c chars ih =>
    rw [List.flatMap_cons, List.append_assoc, parseString_escapeChar, ih]
    simp

/-- The rest of a rendered text behind its opening quote. -/
theorem parseString_renderText (s : String) (rest : List Char) :
    ∃ chars, renderText (some s) = '"' :: chars
      ∧ parseString {} (chars ++ rest) = some (some s, rest) := by
  refine ⟨s.toList.flatMap escapeChar ++ ['"'], rfl, ?_⟩
  have h := parseString_flatMap [] s.toList rest
  simp only [List.reverse_nil, List.nil_append, String.ofList_toList] at h
  rw [List.append_assoc]
  exact h

/-! ## Numbers -/

/-- What may come behind a number: nothing that would go on with it. -/
def EndsNumber (rest : List Char) : Prop :=
  ∀ c ∈ rest.head?, c.isDigit = false ∧ c ≠ '.' ∧ c ≠ 'e' ∧ c ≠ 'E'

theorem endsNumber_nil : EndsNumber [] := by
  simp [EndsNumber]

theorem spanDigits_append {digits rest : List Char} (hdigits : ∀ c ∈ digits, c.isDigit = true)
    (hrest : EndsNumber rest) : spanDigits (digits ++ rest) = (digits, rest) := by
  have hstop : rest.takeWhile Char.isDigit = [] ∧ rest.dropWhile Char.isDigit = rest := by
    cases rest with
    | nil => simp
    | cons c rest => simp [(hrest c rfl).1]
  simp only [spanDigits, List.takeWhile_append_of_pos hdigits, List.dropWhile_append_of_pos hdigits,
    hstop, List.append_nil]

theorem parseFraction_of_ends {rest : List Char} (h : EndsNumber rest) :
    parseFraction rest = some ([], rest) := by
  unfold parseFraction
  split
  · exact absurd rfl (h '.' rfl).2.1
  · rfl

theorem parseExponent_of_ends {rest : List Char} (h : EndsNumber rest) :
    parseExponent rest = some ([], rest) := by
  unfold parseExponent
  split
  · rfl
  · next c rest =>
    have hc := (h c rfl).2.2
    rw [if_neg (by simp [hc])]

/-- Digits in decimal have no leading zero. -/
theorem head?_toDigits (n : Nat) (h : 0 < n) : (Nat.toDigits 10 n).head? ≠ some '0' := by
  induction n using Nat.strongRecOn with
  | _ n ih =>
    by_cases hlt : n < 10
    · have hall : ∀ n < 10, 0 < n → ([n.digitChar] : List Char).head? ≠ some '0' := by decide
      rw [Nat.toDigits_of_lt_base hlt]
      exact hall n hlt h
    · obtain ⟨c, digits, hfront⟩ := List.exists_cons_of_ne_nil
        (Nat.toDigits_ne_nil : Nat.toDigits 10 (n / 10) ≠ [])
      have hc := ih (n / 10) (by omega) (by omega)
      rw [Nat.toDigits_of_base_le (by decide) (by omega)]
      simpa only [hfront, List.cons_append, List.head?_cons] using hc

theorem isPlain_toDigits (n : Nat) :
    ¬((Nat.toDigits 10 n).isEmpty = true
      ∨ ((Nat.toDigits 10 n).head? = some '0' ∧ Nat.toDigits 10 n ≠ ['0'])) := by
  have hsome : Nat.toDigits 10 n ≠ [] := Nat.toDigits_ne_nil
  intro h
  cases h with
  | inl h => exact hsome (List.isEmpty_iff.mp h)
  | inr h =>
    by_cases hn : n = 0
    · exact h.2 (by rw [hn]; rfl)
    · exact head?_toDigits n (by omega) h.1

theorem parseNumber_toDigits (negative : Bool) (n : Nat) {rest : List Char} (hrest : EndsNumber rest)
    (hsign : negative = true → n ≠ 0) :
    parseNumber negative (Nat.toDigits 10 n ++ rest)
      = some (.int (if negative then -(n : Int) else n), rest) := by
  have hdigits : ∀ c ∈ Nat.toDigits 10 n, c.isDigit = true :=
    fun c hc => Nat.isDigit_of_mem_toDigits (by decide) (by decide) hc
  have hvalue : natOfDigits (Nat.toDigits 10 n) = n := Nat.ofDigitChars_ten_toDigits
  have hint : ¬(negative = true ∧ n = 0) := fun h => hsign h.1 h.2
  simp only [parseNumber, spanDigits_append hdigits hrest, if_neg (isPlain_toDigits n), hvalue,
    parseFraction_of_ends hrest, parseExponent_of_ends hrest, Option.bind_eq_bind, Option.bind_some,
    List.isEmpty_nil, true_and, if_pos hint, Option.pure_def]

/-! ## Spellings -/

/-- Characters that stand for nothing. -/
def Blank (chars : List Char) : Prop :=
  ∀ c ∈ chars, isBlank c = true

mutual

/-- The texts of a value, without blanks around it. -/
inductive Spells : Json → List Char → Prop
  | null : Spells .null ['n', 'u', 'l', 'l']
  | bool (b : Bool) : Spells (.bool b) (render (.bool b))
  | int (v : Int) : Spells (.int v) (renderInt v)
  | text (s : String) : Spells (ofText s) (renderText (some s))
  | noElements {blanks : List Char} (h : Blank blanks) :
    Spells (.list []) ('[' :: blanks ++ [']'])
  | elements {elements : List Json} {chars : List Char} (h : SpellsElements elements chars) :
    Spells (.list elements) ('[' :: chars ++ [']'])
  | noMembers {blanks : List Char} (h : Blank blanks) :
    Spells (.object []) ('\x7b' :: blanks ++ ['\x7d'])
  | members {members : List (Option String × Json)} {chars : List Char}
    (h : SpellsMembers members chars) : Spells (.object members) ('\x7b' :: chars ++ ['\x7d'])

/-- The texts between the brackets of a list that has elements. -/
inductive SpellsElements : List Json → List Char → Prop
  | last {element : Json} {before chars after : List Char} (hbefore : Blank before)
    (h : Spells element chars) (hafter : Blank after) :
    SpellsElements [element] (before ++ chars ++ after)
  | cons {element : Json} {elements : List Json} {before chars after more : List Char}
    (hbefore : Blank before) (h : Spells element chars) (hafter : Blank after)
    (hmore : SpellsElements elements more) :
    SpellsElements (element :: elements) (before ++ chars ++ after ++ ',' :: more)

/-- The texts between the braces of an object that has members. -/
inductive SpellsMembers : List (Option String × Json) → List Char → Prop
  | last {key : String} {value : Json} {before behind between chars after : List Char}
    (hbefore : Blank before) (hbehind : Blank behind) (hbetween : Blank between)
    (h : Spells value chars) (hafter : Blank after) :
    SpellsMembers [(some key, value)]
      (before ++ renderText (some key) ++ behind ++ ':' :: (between ++ chars ++ after))
  | cons {key : String} {value : Json} {members : List (Option String × Json)}
    {before behind between chars after more : List Char}
    (hbefore : Blank before) (hbehind : Blank behind) (hbetween : Blank between)
    (h : Spells value chars) (hafter : Blank after) (hmore : SpellsMembers members more) :
    SpellsMembers ((some key, value) :: members)
      (before ++ renderText (some key) ++ behind
        ++ ':' :: (between ++ chars ++ after ++ ',' :: more))

end

/-! ## Reading a spelling -/

theorem skipBlanks_append {blanks : List Char} (h : Blank blanks) (rest : List Char) :
    skipBlanks (blanks ++ rest) = skipBlanks rest :=
  List.dropWhile_append_of_pos h

theorem skipBlanks_cons {c : Char} (h : isBlank c = false) (rest : List Char) :
    skipBlanks (c :: rest) = c :: rest := by
  simp [skipBlanks, h]

theorem skipBlanks_skipBlanks (chars : List Char) :
    skipBlanks (skipBlanks chars) = skipBlanks chars := by
  induction chars with
  | nil => rfl
  | cons c chars ih => by_cases h : isBlank c <;> simp_all [skipBlanks]

theorem endsNumber_append {blanks : List Char} (h : Blank blanks) {rest : List Char}
    (hrest : EndsNumber rest) : EndsNumber (blanks ++ rest) := by
  cases blanks with
  | nil => exact hrest
  | cons c blanks =>
    intro d hd
    cases hd
    have hc : isBlank c = true := h c (List.mem_cons_self ..)
    simp only [isBlank, Bool.or_eq_true, decide_eq_true_eq] at hc
    rcases hc with ((rfl | rfl) | rfl) | rfl <;> decide

theorem endsNumber_cons {c : Char} (h : c = ',' ∨ c = ']' ∨ c = '\x7d') (rest : List Char) :
    EndsNumber (c :: rest) := by
  intro d hd
  cases hd
  rcases h with rfl | rfl | rfl <;> decide

/-- The characters that a number starts with. -/
theorem digit_ne {c : Char} (h : c.isDigit = true) :
    isBlank c = false ∧ c ≠ '"' ∧ c ≠ '[' ∧ c ≠ ']' ∧ c ≠ '\x7b' ∧ c ≠ '-' ∧ c ≠ 't' ∧ c ≠ 'f'
      ∧ c ≠ 'n' := by
  refine ⟨?_, ?_, ?_, ?_, ?_, ?_, ?_, ?_, ?_⟩
  case refine_1 =>
    simp only [isBlank, Bool.or_eq_false_iff, decide_eq_false_iff_not]
    refine ⟨⟨⟨?_, ?_⟩, ?_⟩, ?_⟩ <;> (rintro rfl; revert h; decide)
  all_goals (rintro rfl; revert h; decide)

theorem exists_toDigits (n : Nat) :
    ∃ c chars, Nat.toDigits 10 n = c :: chars ∧ c.isDigit = true := by
  have hdigits : ∀ c ∈ Nat.toDigits 10 n, c.isDigit = true :=
    fun c hc => Nat.isDigit_of_mem_toDigits (by decide) (by decide) hc
  have hsome : Nat.toDigits 10 n ≠ [] := Nat.toDigits_ne_nil
  generalize Nat.toDigits 10 n = digits at hdigits hsome
  cases digits with
  | nil => exact absurd rfl hsome
  | cons c digits => exact ⟨c, digits, rfl, hdigits c (List.mem_cons_self ..)⟩

theorem parseValue_digit {c : Char} (h : c.isDigit = true) (fuel : Nat) (rest : List Char) :
    parseValue (fuel + 1) (c :: rest) = parseNumber false (c :: rest) := by
  obtain ⟨hblank, _, _, _, _, _, _, _, _⟩ := digit_ne h
  unfold parseValue
  rw [skipBlanks_cons hblank]
  split <;> simp_all

theorem parseValue_renderInt (v : Int) (fuel : Nat) {rest : List Char} (hrest : EndsNumber rest) :
    parseValue (fuel + 1) (renderInt v ++ rest) = some (.int v, rest) := by
  unfold renderInt
  split
  · next hneg =>
    have hnumber := parseNumber_toDigits true v.natAbs hrest (by omega)
    rw [List.cons_append, parseValue, skipBlanks_cons (by decide)]
    have hvalue : -(v.natAbs : Int) = v := by omega
    simp only [hnumber]
    rw [if_pos trivial, hvalue]
  · next hpos =>
    have hnumber := parseNumber_toDigits false v.natAbs hrest (by simp)
    obtain ⟨c, chars, hdigits, hc⟩ := exists_toDigits v.natAbs
    rw [hdigits, List.cons_append] at hnumber ⊢
    have hvalue : (v.natAbs : Int) = v := by omega
    rw [parseValue_digit hc, hnumber, if_neg Bool.false_ne_true, hvalue]

theorem parseValue_skipBlanks (fuel : Nat) (chars : List Char) :
    parseValue fuel (skipBlanks chars) = parseValue fuel chars := by
  cases fuel with
  | zero => simp [parseValue]
  | succ fuel => rw [parseValue, parseValue, skipBlanks_skipBlanks]

theorem parseElements_skipBlanks (fuel : Nat) (done : List Json) (chars : List Char) :
    parseElements fuel done (skipBlanks chars) = parseElements fuel done chars := by
  cases fuel with
  | zero => simp [parseElements]
  | succ fuel => rw [parseElements, parseElements, parseValue_skipBlanks]

theorem parseMembers_skipBlanks (fuel : Nat) (done : List (Option String × Json))
    (chars : List Char) :
    parseMembers fuel done (skipBlanks chars) = parseMembers fuel done chars := by
  cases fuel with
  | zero => simp [parseMembers]
  | succ fuel => rw [parseMembers, parseMembers, skipBlanks_skipBlanks]

/-- A value starts with a character that neither is blank nor closes a list. -/
theorem Spells.exists_cons {json : Json} {chars : List Char} (h : Spells json chars) :
    ∃ c tail, chars = c :: tail ∧ isBlank c = false ∧ c ≠ ']' := by
  cases h with
  | bool b => cases b <;> exact ⟨_, _, rfl, by decide, by decide⟩
  | int v =>
    obtain ⟨c, digits, hdigits, hc⟩ := exists_toDigits v.natAbs
    unfold renderInt
    split
    · exact ⟨_, _, rfl, by decide, by decide⟩
    · exact ⟨c, digits, hdigits, (digit_ne hc).1, (digit_ne hc).2.2.2.1⟩
  | _ => exact ⟨_, _, rfl, by decide, by decide⟩

theorem SpellsElements.exists_cons {elements : List Json} {chars : List Char}
    (h : SpellsElements elements chars) (rest : List Char) :
    ∃ c tail, skipBlanks (chars ++ rest) = c :: tail ∧ c ≠ ']' := by
  cases h with
  | last hbefore h hafter =>
    obtain ⟨c, tail, rfl, hc, hclose⟩ := h.exists_cons
    simp only [List.append_assoc, List.cons_append]
    rw [skipBlanks_append hbefore, skipBlanks_cons hc]
    exact ⟨c, _, rfl, hclose⟩
  | cons hbefore h hafter hmore =>
    obtain ⟨c, tail, rfl, hc, hclose⟩ := h.exists_cons
    simp only [List.append_assoc, List.cons_append]
    rw [skipBlanks_append hbefore, skipBlanks_cons hc]
    exact ⟨c, _, rfl, hclose⟩

theorem SpellsMembers.exists_cons {members : List (Option String × Json)} {chars : List Char}
    (h : SpellsMembers members chars) (rest : List Char) :
    ∃ tail, skipBlanks (chars ++ rest) = '"' :: tail := by
  cases h with
  | last hbefore hbehind hbetween h hafter =>
    simp only [List.append_assoc, List.cons_append, renderText]
    rw [skipBlanks_append hbefore, skipBlanks_cons (by decide)]
    exact ⟨_, rfl⟩
  | cons hbefore hbehind hbetween h hafter hmore =>
    simp only [List.append_assoc, List.cons_append, renderText]
    rw [skipBlanks_append hbefore, skipBlanks_cons (by decide)]
    exact ⟨_, rfl⟩

mutual

/-- Every spelling of a value reads as the value. -/
theorem parseValue_of_spells {json : Json} {chars : List Char} (h : Spells json chars)
    (fuel : Nat) (rest : List Char) (hfuel : 2 * chars.length ≤ fuel) (hrest : EndsNumber rest) :
    parseValue fuel (chars ++ rest) = some (json, rest) := by
  obtain ⟨c, tail, hchars, -, -⟩ := h.exists_cons
  obtain ⟨fuel, rfl⟩ : ∃ fewer, fuel = fewer + 1 :=
    ⟨fuel - 1, by rw [hchars, List.length_cons] at hfuel; omega⟩
  clear hchars
  cases h with
  | null => rfl
  | bool b => cases b <;> rfl
  | int v => exact parseValue_renderInt v fuel hrest
  | text s =>
    obtain ⟨chars, htext, hread⟩ := parseString_renderText s rest
    rw [htext, List.cons_append, parseValue, skipBlanks_cons (by decide)]
    simp only [hread]
    rfl
  | noElements hblank =>
    rw [List.cons_append, List.cons_append, parseValue, skipBlanks_cons (by decide)]
    simp only [List.append_assoc, skipBlanks_append hblank, List.cons_append, List.nil_append]
    rw [skipBlanks_cons (by decide)]
    rfl
  | @elements elements chars hs =>
    have hread := parseElements_of_spells hs fuel [] rest
      (by simp only [List.cons_append, List.length_cons, List.length_append] at hfuel; omega)
    obtain ⟨c, tail, hskip, hc⟩ := hs.exists_cons (']' :: rest)
    rw [← parseElements_skipBlanks, hskip] at hread
    rw [List.cons_append, List.cons_append, parseValue, skipBlanks_cons (by decide)]
    simp only [List.append_assoc, List.cons_append, List.nil_append, hskip]
    split
    · simp_all
    · simpa using hread
  | noMembers hblank =>
    rw [List.cons_append, List.cons_append, parseValue, skipBlanks_cons (by decide)]
    simp only [List.append_assoc, skipBlanks_append hblank, List.cons_append, List.nil_append]
    rw [skipBlanks_cons (by decide)]
    rfl
  | @members members chars hs =>
    have hread := parseMembers_of_spells hs fuel [] rest
      (by simp only [List.cons_append, List.length_cons, List.length_append] at hfuel; omega)
    obtain ⟨tail, hskip⟩ := hs.exists_cons ('\x7d' :: rest)
    rw [← parseMembers_skipBlanks, hskip] at hread
    rw [List.cons_append, List.cons_append, parseValue, skipBlanks_cons (by decide)]
    simp only [List.append_assoc, List.cons_append, List.nil_append, hskip]
    simpa using hread

theorem parseElements_of_spells {elements : List Json} {chars : List Char}
    (h : SpellsElements elements chars) (fuel : Nat) (done : List Json) (rest : List Char)
    (hfuel : 2 * chars.length + 1 ≤ fuel) :
    parseElements fuel done (chars ++ ']' :: rest)
      = some (.list (done.reverse ++ elements), rest) := by
  obtain ⟨fuel, rfl⟩ : ∃ fewer, fuel = fewer + 1 := ⟨fuel - 1, by omega⟩
  cases h with
  | @last element before chars after hbefore h hafter =>
    have hread := parseValue_of_spells h fuel (after ++ ']' :: rest)
      (by simp only [List.length_append] at hfuel; omega)
      (endsNumber_append hafter (endsNumber_cons (by decide) rest))
    rw [List.append_assoc, List.append_assoc, parseElements, ← parseValue_skipBlanks,
      skipBlanks_append hbefore, parseValue_skipBlanks, hread]
    simp only [skipBlanks_append hafter, skipBlanks_cons (by decide : isBlank ']' = false),
      List.reverse_cons]
  | @cons element elements before chars after more hbefore h hafter hmore =>
    simp only [List.length_append, List.length_cons] at hfuel
    have hread := parseValue_of_spells h fuel (after ++ ',' :: (more ++ ']' :: rest))
      (by omega) (endsNumber_append hafter (endsNumber_cons (by decide) _))
    have hreadMore := parseElements_of_spells hmore fuel (element :: done) rest (by omega)
    simp only [List.append_assoc, List.cons_append]
    rw [parseElements, ← parseValue_skipBlanks, skipBlanks_append hbefore, parseValue_skipBlanks,
      hread]
    simp only [skipBlanks_append hafter, skipBlanks_cons (by decide : isBlank ',' = false), hreadMore,
      List.reverse_cons, List.append_assoc, List.cons_append, List.nil_append]

theorem parseMembers_of_spells {members : List (Option String × Json)} {chars : List Char}
    (h : SpellsMembers members chars) (fuel : Nat) (done : List (Option String × Json))
    (rest : List Char) (hfuel : 2 * chars.length + 1 ≤ fuel) :
    parseMembers fuel done (chars ++ '\x7d' :: rest)
      = some (.object (done.reverse ++ members), rest) := by
  obtain ⟨fuel, rfl⟩ : ∃ fewer, fuel = fewer + 1 := ⟨fuel - 1, by omega⟩
  cases h with
  | @last key value before behind between chars after hbefore hbehind hbetween h hafter =>
    simp only [List.length_append, List.length_cons] at hfuel
    have hread := parseValue_of_spells h fuel (after ++ '\x7d' :: rest)
      (by omega) (endsNumber_append hafter (endsNumber_cons (by decide) rest))
    obtain ⟨text, htext, hkey⟩ := parseString_renderText key
      (behind ++ ':' :: (between ++ (chars ++ (after ++ '\x7d' :: rest))))
    rw [htext]
    simp only [List.append_assoc, List.cons_append]
    rw [parseMembers, skipBlanks_append hbefore, skipBlanks_cons (by decide)]
    simp only [hkey, skipBlanks_append hbehind, skipBlanks_cons (by decide : isBlank ':' = false)]
    rw [← parseValue_skipBlanks, skipBlanks_append hbetween, parseValue_skipBlanks, hread]
    simp only [skipBlanks_append hafter, skipBlanks_cons (by decide : isBlank '\x7d' = false),
      List.reverse_cons]
  | @cons key value members before behind between chars after more hbefore hbehind hbetween h hafter
      hmore =>
    simp only [List.length_append, List.length_cons] at hfuel
    have hread := parseValue_of_spells h fuel
      (after ++ ',' :: (more ++ '\x7d' :: rest))
      (by omega) (endsNumber_append hafter (endsNumber_cons (by decide) _))
    have hreadMore := parseMembers_of_spells hmore fuel ((some key, value) :: done) rest
      (by omega)
    obtain ⟨text, htext, hkey⟩ := parseString_renderText key
      (behind ++ ':' :: (between ++ (chars ++ (after ++ ',' :: (more ++ '\x7d' :: rest)))))
    rw [htext]
    simp only [List.append_assoc, List.cons_append]
    rw [parseMembers, skipBlanks_append hbefore, skipBlanks_cons (by decide)]
    simp only [hkey, skipBlanks_append hbehind, skipBlanks_cons (by decide : isBlank ':' = false)]
    rw [← parseValue_skipBlanks, skipBlanks_append hbetween, parseValue_skipBlanks, hread]
    simp only [skipBlanks_append hafter, skipBlanks_cons (by decide : isBlank ',' = false), hreadMore,
      List.reverse_cons, List.append_assoc, List.cons_append, List.nil_append]

end

/-- A text denotes the value that it spells. -/
theorem parse_of_spells {json : Json} {chars : List Char} (h : Spells json chars) :
    parse (String.ofList chars) = some json := by
  have hread := parseValue_of_spells h (2 * chars.length + 2) [] (by omega) endsNumber_nil
  rw [List.append_nil] at hread
  simp only [parse, String.toList_ofList, hread]
  rfl

/-! ## Writing a spelling -/

/-- The values that have a spelling: every string is a text, and every number an integer. -/
inductive Exact : Json → Prop
  | null : Exact .null
  | bool (b : Bool) : Exact (.bool b)
  | int (v : Int) : Exact (.int v)
  | text (s : String) : Exact (ofText s)
  | list {elements : List Json} (h : ∀ element ∈ elements, Exact element) : Exact (.list elements)
  | members {members : List (String × Json)} (h : ∀ member ∈ members, Exact member.2) :
    Exact (ofMembers members)

theorem blank_nil : Blank [] := by
  simp [Blank]

theorem spells_renderElements {elements : List Json} (hsome : elements ≠ [])
    (h : ∀ element ∈ elements, Spells element (render element)) :
    SpellsElements elements (renderElements elements) := by
  induction elements with
  | nil => exact absurd rfl hsome
  | cons element elements ih =>
    have hfirst := h element (List.mem_cons_self ..)
    cases elements with
    | nil => simpa [renderElements] using SpellsElements.last blank_nil hfirst blank_nil
    | cons next elements =>
      have hmore := ih (by simp) fun other hother => h other (List.mem_cons_of_mem _ hother)
      simpa [renderElements] using SpellsElements.cons blank_nil hfirst blank_nil hmore

theorem spells_renderMembers {members : List (String × Json)} (hsome : members ≠ [])
    (h : ∀ member ∈ members, Spells member.2 (render member.2)) :
    SpellsMembers (members.map fun member => (some member.1, member.2))
      (renderMembers (members.map fun member => (some member.1, member.2))) := by
  induction members with
  | nil => exact absurd rfl hsome
  | cons member members ih =>
    have hfirst := h member (List.mem_cons_self ..)
    cases members with
    | nil =>
      simpa [renderMembers] using
        SpellsMembers.last blank_nil blank_nil blank_nil hfirst blank_nil
    | cons next members =>
      have hmore := ih (by simp) fun other hother => h other (List.mem_cons_of_mem _ hother)
      simpa [renderMembers] using
        SpellsMembers.cons blank_nil blank_nil blank_nil hfirst blank_nil hmore

/-- The rendered text of a value spells it. -/
theorem spells_render {json : Json} (h : Exact json) : Spells json (render json) := by
  induction h with
  | null => exact .null
  | bool b => exact .bool b
  | int v => exact .int v
  | text s => exact .text s
  | @list elements _ ih =>
    cases elements with
    | nil => exact .noElements blank_nil
    | cons element elements => exact .elements (spells_renderElements (by simp) ih)
  | @members members _ ih =>
    cases members with
    | nil => exact .noMembers blank_nil
    | cons member members => exact .members (spells_renderMembers (by simp) ih)

/-- A value that has a spelling is read back from its text. -/
theorem parse_compact {json : Json} (h : Exact json) : parse json.compact = some json :=
  parse_of_spells (spells_render h)

/-! ## Writing a spelling on several lines -/

theorem blank_newline (depth : Nat) : Blank (newline depth) := by
  intro c hc
  rcases List.mem_cons.mp hc with rfl | hc
  · rfl
  · rw [List.eq_of_mem_replicate hc]
    rfl

theorem blank_space : Blank [' '] := by
  simp [Blank, isBlank]

/-- Elements on lines of their own, with what stands between the last one and the bracket. -/
theorem spells_prettyElements {elements : List Json} {depth : Nat} (hsome : elements ≠ [])
    (h : ∀ element ∈ elements, Spells element (prettyAt depth element)) {after : List Char}
    (hafter : Blank after) : SpellsElements elements (prettyElements depth elements ++ after) := by
  induction elements with
  | nil => exact absurd rfl hsome
  | cons element elements ih =>
    have hfirst := h element (List.mem_cons_self ..)
    cases elements with
    | nil => simpa [prettyElements] using SpellsElements.last (blank_newline depth) hfirst hafter
    | cons next elements =>
      have hmore := ih (by simp) fun other hother => h other (List.mem_cons_of_mem _ hother)
      simpa [prettyElements] using SpellsElements.cons (blank_newline depth) hfirst blank_nil hmore

/-- Members on lines of their own, with what stands between the last one and the brace. -/
theorem spells_prettyMembers {members : List (String × Json)} {depth : Nat} (hsome : members ≠ [])
    (h : ∀ member ∈ members, Spells member.2 (prettyAt depth member.2)) {after : List Char}
    (hafter : Blank after) :
    SpellsMembers (members.map fun member => (some member.1, member.2))
      (prettyMembers depth (members.map fun member => (some member.1, member.2)) ++ after) := by
  induction members with
  | nil => exact absurd rfl hsome
  | cons member members ih =>
    have hfirst := h member (List.mem_cons_self ..)
    cases members with
    | nil =>
      simpa [prettyMembers] using
        SpellsMembers.last (blank_newline depth) blank_nil blank_space hfirst hafter
    | cons next members =>
      have hmore := ih (by simp) fun other hother => h other (List.mem_cons_of_mem _ hother)
      simpa [prettyMembers] using
        SpellsMembers.cons (blank_newline depth) blank_nil blank_space hfirst blank_nil hmore

/-- The indented text of a value spells it. -/
theorem spells_pretty {json : Json} (h : Exact json) (depth : Nat) :
    Spells json (prettyAt depth json) := by
  induction h generalizing depth with
  | null => exact .null
  | bool b => exact .bool b
  | int v => exact .int v
  | text s => exact .text s
  | @list elements _ ih =>
    cases elements with
    | nil => exact .noElements blank_nil
    | cons element elements =>
      have hinner := spells_prettyElements (by simp)
        (fun other hother => ih other hother (depth + 1)) (blank_newline depth)
      simpa [prettyAt] using Spells.elements hinner
  | @members members _ ih =>
    cases members with
    | nil => exact .noMembers blank_nil
    | cons member members =>
      have hinner := spells_prettyMembers (by simp)
        (fun other hother => ih other hother (depth + 1)) (blank_newline depth)
      simpa [ofMembers, prettyAt] using Spells.members hinner

/-- A value that has a spelling is read back from its indented text. -/
theorem parse_pretty {json : Json} (h : Exact json) : parse json.pretty = some json :=
  parse_of_spells (spells_pretty h 0)

end StackContract.Json
