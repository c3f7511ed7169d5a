import StackContract.Proofs.Encoding
/-!
# The instruction codec

Encoding and decoding undo each other (`codec_exact`). An instruction is read at an offset just if its
encoding stands there, all of it inside the script, with an operand that fits (`decode_eq_ok_iff`). From
the front of a script, instructions are read one behind the other up to the end of the script or to the
first offset at which there is none, and nothing is read behind that (`Disassembles`). Offsets are
natural numbers, so all of this is true of scripts of any length.
-/

namespace StackContract.Script

/-! ## One instruction -/

/-- An instruction stands in a script at its offset, with an operand that fits its opcode. -/
structure StandsIn (script : Array UInt8) (i : Located) : Prop where
  bytes : (script.extract i.offset i.next).toList = i.encode
  inside : i.next ≤ script.size
  fits : i.fits = true

variable {script : Array UInt8} {offset : Nat} {i : Located}

theorem length_extract {start stop : Nat} (h : stop ≤ script.size) :
    (script.extract start stop).toList.length = stop - start := by
  rw [Array.length_toList, Array.size_extract, Nat.min_eq_left h]

/-- The bytes up to the length that the decoder finds have the shape of an operand. -/
private theorem fits_of_operandLength? {start length : Nat} {op : Opcode}
    (h : operandLength? script start op = some length) (hinside : start + length ≤ script.size) :
    (Instruction.mk op (script.extract start (start + length)).toList).fits = true := by
  have hlength : (script.extract start (start + length)).toList.length = length := by
    rw [length_extract hinside, Nat.add_sub_cancel_left]
  unfold operandLength? at h
  unfold Instruction.fits
  cases hoperand : op.operand with
  | none =>
    rw [hoperand] at h
    cases h
    exact List.isEmpty_iff.mpr (List.eq_nil_of_length_eq_zero hlength)
  | fixed size =>
    rw [hoperand] at h
    cases h
    exact decide_eq_true hlength
  | prefixed width =>
    rw [hoperand] at h
    dsimp only at h
    by_cases hwidth : start + width ≤ script.size
    · rw [if_pos hwidth] at h
      have hsome := Option.some.inj h
      -- the length prefix is the front of the operand
      have htake : (script.extract start (start + length)).toList.take width
          = (script.extract start (start + width)).toList := by
        rw [Array.toList_extract, Array.toList_extract, List.extract_eq_take_drop,
          List.extract_eq_take_drop, List.take_take]
        exact congrArg (List.take · _) (by omega)
      refine decide_eq_true ?_
      dsimp only
      rw [htake, hlength]
      omega
    · rw [if_neg hwidth] at h
      cases h

theorem standsIn_of_decode (h : decode script offset = .ok i) : i.offset = offset ∧ StandsIn script i := by
  unfold decode at h
  cases hbyte : script[offset]? with
  | none =>
    rw [hbyte] at h
    cases h
  | some byte =>
    cases hopcode : Opcode.ofByte? byte with
    | none =>
      simp only [hbyte, hopcode] at h
      cases h
    | some op =>
      cases hlength : operandLength? script (offset + 1) op with
      | none =>
        simp only [hbyte, hopcode, hlength] at h
        cases h
      | some length =>
        simp only [hbyte, hopcode, hlength] at h
        by_cases hinside : offset + 1 + length ≤ script.size
        · rw [if_pos hinside] at h
          cases h
          have hnext : Located.next ⟨⟨op, (script.extract (offset + 1) (offset + 1 + length)).toList⟩, offset⟩
              = offset + 1 + length := by
            show offset + (1 + (script.extract (offset + 1) (offset + 1 + length)).toList.length) = _
            rw [length_extract hinside]
            omega
          refine ⟨rfl, ?_, ?_, fits_of_operandLength? hlength hinside⟩
          · rw [hnext]
            show (script.extract offset (offset + 1 + length)).toList = op.byte :: _
            rw [Opcode.byte_of_ofByte? hopcode, Array.toList_extract, Array.toList_extract,
              List.extract_eq_take_drop, List.extract_eq_take_drop]
            have hthere : script.toList[offset]? = some byte := by rw [Array.getElem?_toList, hbyte]
            obtain ⟨hlt, hget⟩ := List.getElem?_eq_some_iff.mp hthere
            rw [List.drop_eq_getElem_cons hlt, hget,
              show offset + 1 + length - offset = length + 1 by omega, List.take_succ_cons]
            exact congrArg (fun n => byte :: List.take n _) (by omega)
          · rw [hnext]
            exact hinside
        · rw [if_neg hinside] at h
          cases h

theorem decode_of_standsIn (h : StandsIn script i) : decode script i.offset = .ok i := by
  have hinside := h.inside
  have hle : i.offset ≤ script.toList.length := by
    rw [Array.length_toList]
    exact Nat.le_trans (Nat.le_of_lt i.lt_next) hinside
  -- the script is what is in front of the instruction, the instruction, and what is behind it
  have hscript : script.toList.take i.offset ++ (i.encode ++ script.toList.drop i.next)
      = script.toList := by
    rw [← h.bytes, Array.toList_extract, List.extract_eq_take_drop,
      show script.toList.drop i.next = (script.toList.drop i.offset).drop (i.next - i.offset) by
        rw [List.drop_drop, Nat.add_sub_cancel' (Nat.le_of_lt i.lt_next)],
      List.take_append_drop, List.take_append_drop]
  have hlength : (script.toList.take i.offset).length = i.offset := by
    rw [List.length_take, Nat.min_eq_left hle]
  have hdecode := decode_encode (script.toList.take i.offset) (script.toList.drop i.next) i.toInstruction h.fits
  rw [hscript, hlength] at hdecode
  exact hdecode

/-- An instruction is read just where it stands. -/
theorem decode_eq_ok_iff : decode script offset = .ok i ↔ i.offset = offset ∧ StandsIn script i := by
  refine ⟨standsIn_of_decode, ?_⟩
  rintro ⟨rfl, h⟩
  exact decode_of_standsIn h

/-! ## All instructions of a script -/

/-- Instructions one behind the other, from an offset on up to another one. -/
inductive Contiguous : Nat → List Located → Nat → Prop
  | nil {offset : Nat} : Contiguous offset [] offset
  | cons {i : Located} {rest : List Located} {stop : Nat} (h : Contiguous i.next rest stop) :
    Contiguous i.offset (i :: rest) stop

/-- Every instruction takes a byte at least. -/
theorem Contiguous.length_le {start stop : Nat} {code : List Located} (h : Contiguous start code stop) :
    start + code.length ≤ stop := by
  induction h with
  | nil => exact Nat.le_refl _
  | @cons i rest stop _ ih =>
    have := i.lt_next
    rw [List.length_cons]
    omega

/-- A place in a script, from which instructions are read one behind the other until one cannot be read. -/
structure Cursor where
  script : Array UInt8
  offset : Nat := 0
  failed : Bool := false

namespace Cursor

/-- The next instruction, or why there is none, and the place behind it. At the end of the script and
behind a failure there is nothing more, and the cursor stays where it is. -/
def next? (c : Cursor) : Option (Except DecodeError Located × Cursor) :=
  if c.failed ∨ c.script.size ≤ c.offset then none
  else match decode c.script c.offset with
    | .ok i => some (.ok i, { c with offset := i.next })
    | .error e => some (.error e, { c with failed := true })

/-- What is read from a cursor on until there is nothing more. -/
inductive Yields : Cursor → List (Except DecodeError Located) → Prop
  | finished {c : Cursor} (h : c.next? = none) : Yields c []
  | next {c c' : Cursor} {item : Except DecodeError Located} {items : List (Except DecodeError Located)}
    (h : c.next? = some (item, c')) (hrest : Yields c' items) : Yields c (item :: items)

/-- What a cursor yields is determined. -/
theorem Yields.unique {c : Cursor} {items items' : List (Except DecodeError Located)}
    (h : c.Yields items) (h' : c.Yields items') : items' = items := by
  induction h generalizing items' with
  | finished hend =>
    cases h' with
    | finished => rfl
    | next hnext _ =>
      rw [hend] at hnext
      cases hnext
  | next hnext _ ih =>
    cases h' with
    | finished hend =>
      rw [hnext] at hend
      cases hend
    | next hnext' hrest' =>
      rw [hnext] at hnext'
      cases hnext'
      rw [ih hrest']

end Cursor

/-- Reading from an offset on gives these instructions and then, unless the script is at its end, this
error. -/
inductive ReadsFrom (script : Array UInt8) : Nat → List Located → Option DecodeError → Prop
  | finished : ReadsFrom script script.size [] none
  | failed {offset : Nat} {e : DecodeError} (hlt : offset < script.size)
    (h : decode script offset = .error e) : ReadsFrom script offset [] (some e)
  | next {offset : Nat} {i : Located} {code : List Located} {error : Option DecodeError}
    (h : decode script offset = .ok i) (hrest : ReadsFrom script i.next code error) :
    ReadsFrom script offset (i :: code) error

theorem disassembleFrom_of_ge (h : script.size ≤ offset) (done : Array Located) :
    disassembleFrom script offset done = (done, none) := by
  unfold disassembleFrom
  rw [if_neg (Nat.not_lt_of_le h)]

theorem disassembleFrom_of_error {e : DecodeError} (hlt : offset < script.size)
    (h : decode script offset = .error e) (done : Array Located) :
    disassembleFrom script offset done = (done, some e) := by
  unfold disassembleFrom
  rw [if_pos hlt]
  split
  · next e' he =>
    rw [h] at he
    cases he
    rfl
  · next i hi =>
    rw [h] at hi
    cases hi

theorem disassembleFrom_of_ok (hlt : offset < script.size) (h : decode script offset = .ok i)
    (done : Array Located) :
    disassembleFrom script offset done = disassembleFrom script i.next (done.push i) := by
  rw [disassembleFrom.eq_def script offset done, if_pos hlt]
  split
  · next e he =>
    rw [h] at he
    cases he
  · next j hj =>
    rw [h] at hj
    cases hj
    rfl

theorem exists_readsFrom (hoffset : offset ≤ script.size) (done : Array Located) :
    ∃ code error, disassembleFrom script offset done = (done ++ code.toArray, error)
      ∧ ReadsFrom script offset code error := by
  induction offset, done using disassembleFrom.induct script with
  | case1 offset done hlt e he =>
    refine ⟨[], some e, ?_, .failed hlt he⟩
    rw [disassembleFrom_of_error hlt he, Array.append_empty]
  | case2 offset done hlt i hi ih =>
    obtain ⟨code, error, hrest, hreads⟩ := ih (standsIn_of_decode hi).2.inside
    refine ⟨i :: code, error, ?_, .next hi hreads⟩
    rw [disassembleFrom_of_ok hlt hi, hrest]
    simp
  | case3 offset done hge =>
    have hend : offset = script.size := by omega
    subst hend
    refine ⟨[], none, ?_, .finished⟩
    rw [disassembleFrom_of_ge (Nat.le_refl _), Array.append_empty]

/-- What is read from the front of a script. -/
theorem readsFrom_disassemble (script : Array UInt8) :
    ReadsFrom script 0 (disassemble script).1.toList (disassemble script).2 := by
  obtain ⟨code, error, hresult, hreads⟩ := exists_readsFrom (Nat.zero_le script.size) #[]
  unfold disassemble
  rw [hresult, Array.empty_append]
  exact hreads

/-- Where reading stops: at the end of the script, or at the first offset at which it fails. -/
inductive StopsAt (script : Array UInt8) : Nat → Option DecodeError → Prop
  | finished : StopsAt script script.size none
  | failed {stop : Nat} {e : DecodeError} (hlt : stop < script.size) (h : decode script stop = .error e) :
    StopsAt script stop (some e)

/-- The instructions that were read, and the error that ended them. -/
def itemsOf (code : List Located) (error : Option DecodeError) : List (Except DecodeError Located) :=
  code.map .ok ++ error.toList.map .error

namespace ReadsFrom

variable {code : List Located} {error : Option DecodeError}

theorem standsIn (h : ReadsFrom script offset code error) : ∀ i ∈ code, StandsIn script i := by
  induction h with
  | finished | failed => exact fun i hi => absurd hi List.not_mem_nil
  | next h _ ih => exact List.forall_mem_cons.mpr ⟨(standsIn_of_decode h).2, ih⟩

/-- The instructions reach up to the end of the script, or to the offset of the error. -/
theorem contiguous (h : ReadsFrom script offset code error) :
    ∃ stop, Contiguous offset code stop ∧ StopsAt script stop error := by
  induction h with
  | finished => exact ⟨_, .nil, .finished⟩
  | failed hlt h => exact ⟨_, .nil, .failed hlt h⟩
  | next h _ ih =>
    obtain ⟨stop, hcontiguous, hstop⟩ := ih
    obtain ⟨rfl, -⟩ := standsIn_of_decode h
    exact ⟨stop, .cons hcontiguous, hstop⟩

/-- A cursor yields what is read from its offset on. -/
theorem yields (h : ReadsFrom script offset code error) :
    Cursor.Yields { script, offset } (itemsOf code error) := by
  induction h with
  | finished => exact .finished (if_pos (.inr (Nat.le_refl _)))
  | @failed offset e hlt h =>
    have hnext : Cursor.next? { script, offset } = some (.error e, { script, offset, failed := true }) := by
      unfold Cursor.next?
      rw [if_neg (by simpa using hlt), h]
    exact .next hnext (.finished (if_pos (.inl rfl)))
  | @next offset i code error h hrest ih =>
    have hlt : offset < script.size := by
      obtain ⟨rfl, hstands⟩ := standsIn_of_decode h
      exact Nat.lt_of_lt_of_le i.lt_next hstands.inside
    have hnext : Cursor.next? { script, offset } = some (.ok i, { script, offset := i.next }) := by
      unfold Cursor.next?
      rw [if_neg (by simpa using hlt), h]
    exact .next hnext ih

end ReadsFrom

/-- The bytes of instructions that stand one behind the other are those from the first to the last. -/
theorem Contiguous.bytes_eq {start stop : Nat} {code : List Located} (h : Contiguous start code stop)
    (hstands : ∀ i ∈ code, StandsIn script i) :
    code.flatMap (·.encode) = (script.extract start stop).toList := by
  induction h with
  | nil => simp
  | @cons i rest stop h ih =>
    obtain ⟨hi, hrest⟩ := List.forall_mem_cons.mp hstands
    have hlt := i.lt_next
    have hle := h.length_le
    rw [List.flatMap_cons, ih hrest, ← hi.bytes, ← Array.toList_append, Array.extract_append_extract,
      Nat.min_eq_left (Nat.le_of_lt hlt), Nat.max_eq_right (by omega)]

/-- What reading a script from its front gives. -/
structure Disassembles (script : Array UInt8) (code : List Located) (error : Option DecodeError) :
    Prop where
  /-- A cursor at the front yields the instructions, then the error if there is one, and then nothing. -/
  yields : ∀ items, Cursor.Yields { script } items ↔ items = itemsOf code error
  /-- There are no more items than bytes. -/
  count : (itemsOf code error).length ≤ script.size
  stands : ∀ i ∈ code, StandsIn script i
  /-- The instructions cover the script from its front on, up to its end or to the error. -/
  covers : ∃ stop, Contiguous 0 code stop ∧ code.flatMap (·.encode) = script.toList.take stop
    ∧ StopsAt script stop error

theorem ReadsFrom.disassembles {code : List Located} {error : Option DecodeError}
    (h : ReadsFrom script 0 code error) : Disassembles script code error := by
  obtain ⟨stop, hcontiguous, hstops⟩ := h.contiguous
  have hlength := hcontiguous.length_le
  have hbytes := hcontiguous.bytes_eq h.standsIn
  rw [Array.toList_extract, List.extract_eq_take_drop, List.drop_zero, Nat.sub_zero] at hbytes
  refine ⟨fun items => ⟨h.yields.unique, ?_⟩, ?_, h.standsIn, stop, hcontiguous, hbytes, hstops⟩
  · rintro rfl
    exact h.yields
  · unfold itemsOf
    rw [List.length_append, List.length_map, List.length_map]
    cases hstops with
    | finished => simpa using hlength
    | failed hlt _ =>
      rw [Option.toList_some, List.length_singleton]
      omega

/-- Encoding and decoding undo each other: instructions that fit are read back from their encodings, an
instruction is read just where it stands, and a script is read as far as there are instructions. -/
theorem codec_exact :
    (∀ code : List Instruction, (∀ i ∈ code, i.fits = true) →
      disassemble (code.flatMap Instruction.encode).toArray = ((locate 0 code).toArray, none))
    ∧ (∀ (script : Array UInt8) (offset : Nat) (i : Located),
      decode script offset = .ok i ↔ i.offset = offset ∧ StandsIn script i)
    ∧ ∀ script : Array UInt8,
      Disassembles script (disassemble script).1.toList (disassemble script).2 :=
  ⟨disassemble_flatMap, fun _ _ _ => decode_eq_ok_iff, fun script => (readsFrom_disassemble script).disassembles⟩

end StackContract.Script
