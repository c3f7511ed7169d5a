import StackContract.Proofs.FoldingSteps
import StackContract.Proofs.ListingOrder
/-!
# Array literals

An array whose contents follow its creation as raw bytes becomes a literal that holds what the bytes
encode (`arrayLiterals_of_build`). The bytes are cut into pieces of the width of an element, each piece is
read with or without a sign, and the values are pushed from the last one to the first and packed. Bytes
are not cut up: they become a buffer as they are.

An array without contents has as many elements as it is told, and each of them is the default of their
type (`Image.At.newArrays`).
-/

namespace StackContract.Contract

open Assembly Script Lowering Machine Number
open Source (ValueType Module)

/-! ## Statement -/

/-- How the elements of an array are encoded: the bytes that each of them takes, the least of them and the
greatest. -/
structure ElementEncoding where
  width : Nat
  lowest : Int
  highest : Int

/-- The encoding of the elements of a type, if it is fixed. Truth values are zero and one. -/
def encoding? : ValueType → Option ElementEncoding
  | .boolean => some ⟨1, 0, 1⟩
  | .byte => some ⟨1, 0, 0xff⟩
  | .sbyte => some ⟨1, -0x80, 0x7f⟩
  | .char | .uint16 => some ⟨2, 0, 0xffff⟩
  | .int16 => some ⟨2, -0x8000, 0x7fff⟩
  | .uint32 => some ⟨4, 0, 0xffff_ffff⟩
  | .int32 => some ⟨4, -0x8000_0000, 0x7fff_ffff⟩
  | .uint64 => some ⟨8, 0, 0xffff_ffff_ffff_ffff⟩
  | .int64 => some ⟨8, -0x8000_0000_0000_0000, 0x7fff_ffff_ffff_ffff⟩
  | _ => none

/-- Bytes are the encodings of values one behind the other. -/
structure ElementEncoding.Encodes (encoding : ElementEncoding) (values : List Int128)
    (data : List UInt8) : Prop where
  range : ∀ v ∈ values, encoding.lowest ≤ v.val ∧ v.val ≤ encoding.highest
  data : data = values.flatMap fun v => bytesOfInt encoding.width v.val

/-- The item of an element. -/
def elementItem (element : ValueType) (v : Int128) : Item :=
  if element.isBoolean then .boolean (v.val ≠ 0) else .integer v

/-- The memory in which a literal is on top of the stack. -/
def literalMemory (element : ValueType) (data : List UInt8) (values : List Int128) (stack : Stack Item)
    (heap : Heap) : Memory :=
  match element with
  | .byte => ⟨stack.push (.buffer heap.buffers.size), (heap.newBuffer data.toArray).2⟩
  | element => ⟨stack.push (.array heap.sequences.size),
      (heap.newSequence (values.map (elementItem element)).toArray).2⟩

/-- The most items that are on the stack, above those below the length, while a literal is made. -/
def literalRoom : ValueType → Nat → Nat
  | .byte, _ => 1
  | _, count => count + 1

/-- Whether data are those of whole elements of a type that has a fixed encoding. -/
def IsElementData (element : ValueType) (data : List UInt8) : Prop :=
  ∃ encoding, encoding? element = some encoding ∧ data.length % encoding.width = 0

/-- An array is created, at a position of a body, and its contents follow. No branch leads in between. -/
structure InitializesArray (scope : Scope) (position : Nat) (i : Source.Instruction)
    (element : ValueType) (data : List UInt8) : Prop where
  creation : scope.body[position]? = some i ∧ i.op = .newArray element
  copy : scope.inline? (position + 1) = some .dup
  contents : scope.inline? (position + 2) = some (.initArray data)

/-- What the creation of an array with its contents is compiled to. -/
def ArrayLiterals (program : Program) (method : PlacedMethod) (routine : Routine) : Prop :=
  ∀ ⦃position i element data⦄, InitializesArray routine.scope position i element data →
    IsElementData element data
      ∧ ∃ before segment after, routine.segments = before ++ segment :: after
      ∧ segment.position = position ∧ segment.source = i ∧ segment.lowered.consumed = 2
      ∧ ∀ ⦃encoding values⦄, encoding? element = some encoding → encoding.Encodes values data →
        ∀ ⦃s : State⦄ ⦃length : Item⦄ ⦃rest : List Item⦄,
        InFrontOf program method routine before segment s → s.memory.stack.toList = length :: rest →
        rest.length + literalRoom element values.length ≤ s.limits.stack →
        ComesBehind method routine before segment s
          (literalMemory element data values (.ofList rest) s.memory.heap)

/-- The memory in which a new array of unassigned elements is on top of the stack. -/
def unassignedMemory (element : ValueType) (count : Nat) (stack : Stack Item) (heap : Heap) : Memory :=
  match element with
  | .byte => ⟨stack.push (.buffer heap.buffers.size), (heap.newBuffer (Array.replicate count 0)).2⟩
  | element => ⟨stack.push (.array heap.sequences.size),
      (heap.newSequence (Array.replicate count (defaultItem element))).2⟩

/-- What the creation of an array is compiled to that no contents follow. -/
def NewArrays (program : Program) (method : PlacedMethod) (routine : Routine) : Prop :=
  ∀ ⦃position i element⦄, routine.scope.body[position]? = some i → i.op = .newArray element →
    (∀ data, ¬ InitializesArray routine.scope position i element data) →
    ∃ before segment after, routine.segments = before ++ segment :: after
      ∧ segment.position = position ∧ segment.source = i ∧ segment.lowered.consumed = 0
      ∧ ∀ ⦃s : State⦄ ⦃length : Int128⦄ ⦃rest : List Item⦄,
        InFrontOf program method routine before segment s →
        s.memory.stack.toList = .integer length :: rest → 0 ≤ length.val → length.val < 2 ^ 64 →
        rest.length + 1 ≤ s.limits.stack →
        ComesBehind method routine before segment s
          (unassignedMemory element length.val.toNat (.ofList rest) s.memory.heap)

/-! ## Encodings -/

/-- Lowering knows the width of an element, and that it has a sign if it can be negative. -/
theorem elementLayout?_eq (element : ValueType) :
    elementLayout? element = (encoding? element).map fun encoding =>
      (encoding.width, decide (encoding.lowest < 0)) := by
  cases element <;> rfl

/-- The values of an element fit its width, with a sign or without. -/
theorem bounds_of_encoding {element : ValueType} {encoding : ElementEncoding}
    (h : encoding? element = some encoding) : ∃ width, encoding.width = width + 1 ∧ width < 8
      ∧ ((encoding.lowest = 0 ∧ encoding.highest < 256 ^ (width + 1))
        ∨ (encoding.lowest < 0 ∧ -(128 * 256 ^ width) ≤ encoding.lowest
          ∧ encoding.highest < 128 * 256 ^ width)) := by
  cases element <;> cases h
  case boolean | byte => exact ⟨0, rfl, by decide, .inl (by decide)⟩
  case char | uint16 => exact ⟨1, rfl, by decide, .inl (by decide)⟩
  case uint32 => exact ⟨3, rfl, by decide, .inl (by decide)⟩
  case uint64 => exact ⟨7, rfl, by decide, .inl (by decide)⟩
  case sbyte => exact ⟨0, rfl, by decide, .inr (by decide)⟩
  case int16 => exact ⟨1, rfl, by decide, .inr (by decide)⟩
  case int32 => exact ⟨3, rfl, by decide, .inr (by decide)⟩
  case int64 => exact ⟨7, rfl, by decide, .inr (by decide)⟩

/-- The bytes of a value are read as the value. -/
theorem elementValue_bytesOfInt {element : ValueType} {encoding : ElementEncoding}
    (h : encoding? element = some encoding) {v : Int128}
    (hv : encoding.lowest ≤ v.val ∧ v.val ≤ encoding.highest) :
    elementValue (decide (encoding.lowest < 0)) (bytesOfInt encoding.width v.val) = v := by
  obtain ⟨width, hwidth, -, hbounds⟩ := bounds_of_encoding h
  have hread : (if decide (encoding.lowest < 0) = true then signedOfBytes (bytesOfInt encoding.width v.val)
      else natOfBytes (bytesOfInt encoding.width v.val)) = v.val := by
    rw [hwidth]
    rcases hbounds with ⟨hlowest, hhighest⟩ | ⟨hlowest, hlow, hhigh⟩
    · rw [if_neg (by simp [hlowest])]
      exact natOfBytes_bytesOfInt (width + 1) v.val (by omega) (by omega)
    · rw [if_pos (decide_eq_true hlowest)]
      exact signedOfBytes_bytesOfInt width v.val (by omega) (by omega)
  unfold elementValue
  rw [hread, Int128.ofInt?_val]
  rfl

/-- Encodings one behind the other are cut where they meet. -/
theorem chunks_flatMap {width fuel : Nat} (hwidth : 0 < width) {pieces : List (List UInt8)}
    (hpieces : ∀ piece ∈ pieces, piece.length = width) (hfuel : pieces.flatten.length ≤ fuel) :
    chunks width fuel pieces.flatten = pieces := by
  induction pieces generalizing fuel with
  | nil => cases fuel <;> rfl
  | cons piece pieces ih =>
    obtain ⟨hpiece, hpieces⟩ := List.forall_mem_cons.mp hpieces
    rw [List.flatten_cons, List.length_append, hpiece] at hfuel
    obtain ⟨fuel, rfl⟩ : ∃ left, fuel = left + 1 := ⟨fuel - 1, by omega⟩
    have hsome : (piece :: pieces).flatten.isEmpty = false := by
      rw [List.flatten_cons, List.isEmpty_eq_false_iff, Ne, List.append_eq_nil_iff]
      rintro ⟨rfl, -⟩
      exact absurd hpiece (Nat.ne_of_lt hwidth)
    unfold chunks
    rw [hsome, List.flatten_cons, List.take_left' hpiece, List.drop_left' hpiece, ih hpieces (by omega)]
    rfl

/-- Cutting data up and reading the pieces gives the values back. -/
theorem values_of_encodes {element : ValueType} {encoding : ElementEncoding} {values : List Int128}
    {data : List UInt8} (h : encoding? element = some encoding) (hencodes : encoding.Encodes values data) :
    (chunks encoding.width data.length data).map (elementValue (decide (encoding.lowest < 0)))
      = values := by
  obtain ⟨width, hwidth, -, -⟩ := bounds_of_encoding h
  have hpieces : ∀ piece ∈ values.map fun v => bytesOfInt encoding.width v.val,
      piece.length = encoding.width := by
    intro piece hpiece
    obtain ⟨v, -, rfl⟩ := List.mem_map.mp hpiece
    exact length_bytesOfInt encoding.width v.val
  have hdata : data = (values.map fun v => bytesOfInt encoding.width v.val).flatten := hencodes.data
  have hchunks := chunks_flatMap (by omega) hpieces (Nat.le_of_eq (congrArg List.length hdata.symm))
  rw [← hdata] at hchunks
  rw [hchunks, List.map_map]
  exact (List.map_congr_left fun v hv => elementValue_bytesOfInt h (hencodes.range v hv)).trans
    (List.map_id values)

/-! ## Literals -/

theorem literalMemory_eq {element : ValueType} (h : element ≠ .byte) (data : List UInt8)
    (values : List Int128) (stack : Stack Item) (heap : Heap) :
    literalMemory element data values stack heap = ⟨stack.push (.array heap.sequences.size),
      (heap.newSequence (values.map (elementItem element)).toArray).2⟩ := by
  cases element <;> first | rfl | exact absurd rfl h

theorem newArray_eq {element : ValueType} (h : element ≠ .byte) :
    newArray element = .instruction ⟨.newArrayT, [(itemKind element).byte]⟩ := by
  cases element <;> first | rfl | exact absurd rfl h

theorem unassignedMemory_eq {element : ValueType} (h : element ≠ .byte) (count : Nat)
    (stack : Stack Item) (heap : Heap) : unassignedMemory element count stack heap
      = ⟨stack.push (.array heap.sequences.size),
        (heap.newSequence (Array.replicate count (defaultItem element))).2⟩ := by
  cases element <;> first | rfl | exact absurd rfl h

theorem literalRoom_eq {element : ValueType} (h : element ≠ .byte) (count : Nat) :
    literalRoom element count = count + 1 := by
  cases element <;> first | rfl | exact absurd rfl h

/-- The machine fills an array with the default that lowering has for its elements. -/
theorem defaultOf_itemKind (element : ValueType) :
    Compound.defaultOf (itemKind element).byte = defaultItem element := by
  cases element <;> rfl

/-- An element is pushed as its item. -/
theorem pushes_pushElement (element : ValueType) (v : Int128) :
    Pushes (pushElement element v) (elementItem element v) := by
  unfold pushElement elementItem
  split
  · exact .boolean _
  · exact .integer v

section

variable {items : Nat} {stack : Stack Item} {heap : Heap}

/-- Items that are pushed are packed into a new array in their order. -/
theorem carries_packLiteral {α : Type} {push : α → Directive} {item : α → Item} (xs : List α)
    (hpushes : ∀ x ∈ xs, Pushes (push x) (item x)) (hcount : xs.length < 2 ^ 64)
    (hitems : xs.length + stack.size < items) :
    Carries items (packLiteral (xs.map push)) ⟨stack, heap⟩
      ⟨stack.push (.array heap.sequences.size), (heap.newSequence (xs.map item).toArray).2⟩ := by
  cases xs with
  | nil =>
    refine .simple (.compound (.newEmpty false)) rfl (fun _ => rfl) ?_
    show stack.size + 1 ≤ items
    omega
  | cons x xs =>
    have hop : operation .pack = .simple (.compound (.pack false)) := rfl
    have hpacked : Carries items _ ⟨stack, heap⟩ _ := carries_packed false hop (x :: xs)
      (fun y hy stack hroom => .pushes (hpushes y hy) stack heap hroom) hcount hitems
    rw [← List.length_map push] at hpacked
    exact hpacked

theorem length_le_length_packLiteral (code : List Directive) :
    code.length ≤ (packLiteral code).length := by
  unfold packLiteral
  split
  · next hempty =>
    rw [List.isEmpty_iff.mp hempty]
    exact Nat.zero_le _
  · rw [List.length_append, List.length_reverse]
    omega

/-- The literal that data become holds the values that they encode. -/
theorem carries_arrayLiteral {scope : Scope} {offset : UInt32} {initializer : Source.Instruction}
    {element : ValueType} {encoding : ElementEncoding} {values : List Int128} {data : List UInt8}
    {code : List Directive} (h : arrayLiteral scope offset initializer element data = .ok code)
    (hsmall : extent code ≤ maxScriptSize) (hencoding : encoding? element = some encoding)
    (hencodes : encoding.Encodes values data) (length : Item)
    (hitems : stack.size + literalRoom element values.length ≤ items) :
    Carries items code ⟨stack.push length, heap⟩ (literalMemory element data values stack heap) := by
  have hstraight := straight_arrayLiteral h
  unfold arrayLiteral at h
  split at h
  · cases h
    -- the data are part of the script
    have hdata : data.length < 256 ^ 4 := by
      have hsize : (Directive.pushData data).size
          ≤ extent [.op .drop, .pushData data, .convert .buffer] := size_le_extent (by simp)
      exact Nat.lt_of_lt_of_le (Instruction.size_pushData data)
        (Nat.le_trans hsize (Nat.le_trans hsmall (by decide)))
    have hitems : stack.size + 1 ≤ items := hitems
    refine (Carries.drop stack length heap (by omega)).cons
      ((Carries.pushes (.byteString hdata) stack heap hitems).cons ?_)
    exact .simple .convert rfl (fun _ => rfl) hitems
  · next hother =>
    have hne : element ≠ .byte := hother
    rw [elementLayout?_eq, hencoding] at h
    dsimp only [Option.map_some] at h
    split at h
    · cases h
    · cases h
      rw [values_of_encodes hencoding hencodes] at hstraight hsmall ⊢
      have hlength := hstraight.length_le_extent
      have hpacked := length_le_length_packLiteral (values.map (pushElement element))
      rw [List.length_cons] at hlength
      rw [List.length_map] at hpacked
      have hmax : maxScriptSize < 2 ^ 64 := by decide
      rw [literalRoom_eq hne] at hitems
      rw [literalMemory_eq hne]
      exact (Carries.drop stack length heap (by omega)).cons (carries_packLiteral values
        (fun v _ => pushes_pushElement element v) (by omega) (by omega))

/-- A new array of unassigned elements takes the place of its length. -/
theorem carries_newArray (element : ValueType) {length : Int128} (hlength : 0 ≤ length.val)
    (hsmall : length.val < 2 ^ 64) (hitems : stack.size + 1 ≤ items) :
    Carries items [newArray element] ⟨stack.push (.integer length), heap⟩
      (unassignedMemory element length.val.toNat stack heap) := by
  have hcount := fun address =>
    popCount_push (Int.toNat_of_nonneg hlength).symm (by omega) address stack heap
  by_cases helement : element = .byte
  · subst helement
    refine .simple (.bytes .newBuffer) rfl (fun address => ?_) hitems
    show (Eval.popCount >>= fun n => Eval.pushBuffer (List.replicate n 0) : Eval Unit) address _ = _
    rw [Eval.bind_apply, hcount]
    unfold unassignedMemory
    rw [← List.toArray_replicate]
    rfl
  · rw [newArray_eq helement, unassignedMemory_eq helement, ← defaultOf_itemKind]
    refine .simple .newDefaults rfl (fun address => ?_) hitems
    show (Eval.popCount >>= fun n => _ : Eval Unit) address _ = _
    rw [Eval.bind_apply, hcount]
    rfl

end

/-! ## What is written -/

theorem exists_arrayLiteral_iff {scope : Scope} {offset : UInt32} {initializer : Source.Instruction}
    {element : ValueType} {data : List UInt8} :
    (∃ code, arrayLiteral scope offset initializer element data = .ok code)
      ↔ IsElementData element data := by
  unfold arrayLiteral IsElementData
  split
  · exact ⟨fun _ => ⟨_, rfl, Nat.mod_one _⟩, fun _ => ⟨_, rfl⟩⟩
  · rw [elementLayout?_eq]
    cases hencoding : encoding? element with
    | none => simp
    | some encoding =>
      by_cases hwhole : data.length % encoding.width = 0 <;> simp [hwhole]

/-- The creation of an array is lowered together with its contents. -/
theorem lower_newArray {scope : Scope} {position : Nat} {i : Source.Instruction} {element : ValueType}
    {data : List UInt8} (h : InitializesArray scope position i element data) :
    ∃ initializer, ∀ carry, (lower scope position i).run carry
      = (arrayLiteral scope i.offset initializer element data).map fun code => (⟨code, 2⟩, carry) := by
  obtain ⟨⟨-, hop⟩, hcopy, hcontents⟩ := h
  obtain ⟨initializer, hinitializer, -, -⟩ := inline?_eq_some_iff.mp hcontents
  refine ⟨initializer, fun carry => ?_⟩
  obtain ⟨offset, op⟩ := i
  cases hop
  show (liftM (lowerNewArray scope position offset element) : Lower Lowered).run carry = _
  unfold lowerNewArray
  rw [hcopy, hcontents, hinitializer]
  dsimp only
  cases arrayLiteral scope offset initializer element data <;> rfl

/-- The creation of an array is lowered alone if no contents follow. -/
theorem lower_newArray_alone {scope : Scope} {position : Nat} {i : Source.Instruction}
    {element : ValueType} (hi : scope.body[position]? = some i) (hop : i.op = .newArray element)
    (hnone : ∀ data, ¬ InitializesArray scope position i element data) (carry : Carry) :
    (lower scope position i).run carry = .ok (.code [newArray element], carry) := by
  have halone : lowerNewArray scope position i.offset element = .ok (.code [newArray element]) := by
    unfold lowerNewArray
    split
    · next data initializer hcopy hcontents _ => exact absurd ⟨⟨hi, hop⟩, hcopy, hcontents⟩ (hnone data)
    · rfl
  obtain ⟨offset, op⟩ := i
  cases hop
  show (liftM (lowerNewArray scope position offset element) : Lower Lowered).run carry = _
  rw [halone]
  rfl

/-- A body is rejected for an array whose contents are not those of whole elements. -/
theorem exists_error_of_newArray {scope : Scope} {position : Nat} {i : Source.Instruction}
    {element : ValueType} {data : List UInt8} (h : InitializesArray scope position i element data)
    (hdata : ¬ IsElementData element data) (prologue : List Directive) :
    ∃ e, lowerBody scope prologue = .error e := by
  obtain ⟨initializer, hlower⟩ := lower_newArray h
  refine exists_error_of_lower h.creation.1 (by rw [h.creation.2]; rfl)
    (fun carry lowered carry' hok => ?_) prologue
  rw [hlower] at hok
  cases hcode : arrayLiteral scope i.offset initializer element data with
  | error e =>
    rw [hcode] at hok
    cases hok
  | ok code => exact hdata (exists_arrayLiteral_iff.mp ⟨code, hcode⟩)

/-! ## Accepted modules -/

section

variable {limits : Compile.Limits} {module : Module} {program : Program}
  {image : Image limits module program} {routine : Routine} {method : PlacedMethod}

theorem Image.At.arrayLiterals (hat : image.At routine method) :
    ArrayLiterals program method routine := by
  intro position i element data h
  obtain ⟨before, segment, after, hsegments, rfl, rfl, carry, carry', hlower⟩ :=
    hat.exists_segment h.creation.1 (by rw [h.creation.2]; rfl)
  obtain ⟨initializer, hresult⟩ := lower_newArray h
  rw [hresult] at hlower
  cases hcode : arrayLiteral routine.scope segment.source.offset initializer element data with
  | error e =>
    rw [hcode] at hlower
    cases hlower
  | ok code =>
    rw [hcode] at hlower
    have hlowered : segment.lowered = ⟨code, 2⟩ := (Prod.ext_iff.mp (Except.ok.inj hlower)).1.symm
    refine ⟨exists_arrayLiteral_iff.mp ⟨code, hcode⟩, before, segment, after, hsegments, rfl, rfl,
      congrArg Lowered.consumed hlowered, ?_⟩
    intro encoding values hencoding hencodes s length rest hfront hstack hitems
    have hmemory : s.memory = ⟨(Stack.ofList rest).push length, s.memory.heap⟩ := memory_eq hstack
    have hsmall := hat.extent_lowered_le hsegments
    refine hat.comesBehind hsegments hfront hitems ?_
    rw [hlowered] at hsmall ⊢
    rw [hmemory]
    exact carries_arrayLiteral hcode hsmall hencoding hencodes length (Nat.le_refl _)

theorem Image.At.newArrays (hat : image.At routine method) : NewArrays program method routine := by
  intro position i element hi hop hnone
  obtain ⟨before, segment, after, hsegments, rfl, rfl, carry, carry', hlower⟩ :=
    hat.exists_segment hi (by rw [hop]; rfl)
  rw [lower_newArray_alone hi hop hnone] at hlower
  have hlowered : segment.lowered = .code [newArray element] :=
    (Prod.ext_iff.mp (Except.ok.inj hlower)).1.symm
  refine ⟨before, segment, after, hsegments, rfl, rfl, congrArg Lowered.consumed hlowered, ?_⟩
  intro s length rest hfront hstack hlength hsmall hitems
  have hmemory : s.memory = ⟨(Stack.ofList rest).push (.integer length), s.memory.heap⟩ :=
    memory_eq hstack
  refine hat.comesBehind hsegments hfront hitems ?_
  rw [hlowered, hmemory]
  exact carries_newArray element hlength hsmall (Nat.le_refl _)

end

/-- The creation of an array with its contents is lowered if these are whole elements of a type that has
a fixed encoding, and else its body is rejected. In every accepted module, it replaces the length by a new
array of what the contents encode. -/
theorem arrayLiterals_of_build {limits : Compile.Limits} {module : Module} {contract : Contract}
    (h : build limits module = .ok contract) :
    (∀ (scope : Scope) (position : Nat) (i : Source.Instruction) (element : ValueType)
        (data : List UInt8), InitializesArray scope position i element data →
        (IsElementData element data → ∃ code, ∀ carry,
          (lower scope position i).run carry = .ok (⟨code, 2⟩, carry))
        ∧ (¬ IsElementData element data → ∀ prologue, ∃ e, lowerBody scope prologue = .error e))
      ∧ EveryMethod limits module contract.program (ArrayLiterals contract.program) := by
  refine ⟨fun scope position i element data hinit => ⟨fun hdata => ?_, exists_error_of_newArray hinit⟩,
    everyMethod_of_build (P := ArrayLiterals) h fun _ _ _ hat => hat.arrayLiterals⟩
  obtain ⟨initializer, hlower⟩ := lower_newArray hinit
  obtain ⟨code, hcode⟩ := exists_arrayLiteral_iff.mpr hdata
  refine ⟨code, fun carry => ?_⟩
  rw [hlower, hcode]
  rfl

/-- Arrays with contents: one of bytes, one of numbers with signs, and one of truth values. -/
def sampleLiterals : Module where
  types := [{
    name := "T"
    methods := [{
      name := "T::arrays"
      displayName := "arrays"
      isPublic := true
      returnType := .array .int16
      body := [⟨0, .literal32 3⟩, ⟨1, .newArray .byte⟩, ⟨2, .dup⟩, ⟨3, .initArray [1, 2, 255]⟩, ⟨4, .pop⟩,
        ⟨5, .literal32 2⟩, ⟨6, .newArray .boolean⟩, ⟨7, .dup⟩, ⟨8, .initArray [1, 0]⟩, ⟨9, .pop⟩,
        ⟨10, .literal32 2⟩, ⟨11, .newArray .int16⟩, ⟨12, .dup⟩, ⟨13, .initArray [5, 0, 0xfe, 0xff]⟩,
        ⟨14, .ret⟩] }] }]

theorem arrayLiterals_sampleLiterals : ∃ contract, build {} sampleLiterals = .ok contract
    ∧ EveryMethod {} sampleLiterals contract.program (ArrayLiterals contract.program) := by
  have hbuilds : (build {} sampleLiterals).toOption.isSome = true := by decide +kernel
  obtain ⟨contract, h⟩ := exists_contract hbuilds
  exact ⟨contract, h, (arrayLiterals_of_build h).2⟩

end StackContract.Contract
