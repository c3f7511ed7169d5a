import StackContract.Proofs.Alike
import StackContract.Proofs.Operands
import StackContract.Proofs.TwosComplement
/-!
# Primitive items

Truth values, integers and byte strings stand for integers (`Item.StandsFor`). Whatever way such an item
is converted, it stands for the same integer; tests of it ask whether that is zero; its size is that of its
bytes; and the bytes of an integer are the shortest that stand for it (`conversions_coherent`).
-/

namespace StackContract.Number

/-- Just bytes that are all zero denote zero. -/
theorem twosComplement_eq_zero_iff (bytes : List UInt8) : twosComplement bytes = 0 ↔ ∀ b ∈ bytes, b = 0 := by
  rw [twosComplement_eq]
  induction bytes with
  | nil => simp [signedOfBytes]
  | cons b rest ih =>
    have := b.toNat_lt
    cases rest with
    | nil =>
      rw [signedOfBytes_singleton, List.forall_mem_singleton, ← UInt8.toNat_inj]
      show _ ↔ b.toNat = 0
      split <;> omega
    | cons next rest =>
      rw [signedOfBytes_cons_cons, List.forall_mem_cons, ← ih, ← UInt8.toNat_inj]
      show _ ↔ b.toNat = 0 ∧ _
      omega

end StackContract.Number

namespace StackContract.Machine

open Script Number

/-- The items that stand for an integer. -/
inductive Item.StandsFor : Item → Int128 → Prop
  | boolean (b : Bool) : StandsFor (.boolean b) (if b then .one else .zero)
  | integer (v : Int128) : StandsFor (.integer v) v
  | byteString {bytes : List UInt8} {v : Int128} (hlength : bytes.length ≤ 32)
    (hvalue : twosComplement bytes = v.val) : StandsFor (.byteString bytes) v

variable {item : Item} {v : Int128} {heap heap' : Heap} {below : Stack Item} {i : Located} {s : State}

/-! ## Readings -/

namespace Item

theorem integerOfBytes_eq {bytes : List UInt8} (hlength : bytes.length ≤ maxIntegerBytes)
    (hvalue : twosComplement bytes = v.val) : integerOfBytes item bytes = .ok v := by
  unfold integerOfBytes
  rw [if_neg (Nat.not_lt_of_le hlength), Int128.ofBytes?_iff_twosComplement.mpr hvalue]

namespace StandsFor

theorem asInteger (h : item.StandsFor v) (heap : Heap) : item.asInteger heap = .ok v := by
  cases h with
  | boolean => rfl
  | integer => rfl
  | byteString hlength hvalue => exact integerOfBytes_eq hlength hvalue

/-- The bytes of such an item denote its integer. -/
theorem exists_asBytes (h : item.StandsFor v) (heap : Heap) : ∃ bytes, item.asBytes heap = .ok bytes
    ∧ bytes.length ≤ maxIntegerBytes ∧ twosComplement bytes = v.val := by
  cases h with
  | boolean b =>
    refine ⟨_, rfl, by simp [maxIntegerBytes], ?_⟩
    rw [twosComplement_eq]
    cases b <;> rfl
  | integer =>
    refine ⟨_, rfl, ?_, v.isShortest_bytes.holds⟩
    split
    · exact Nat.zero_le _
    · exact v.length_minimalBytes.trans (by decide)
  | byteString hlength hvalue => exact ⟨_, rfl, hlength, hvalue⟩

theorem asBoolean (h : item.StandsFor v) : item.asBoolean = .ok (v.val ≠ 0) := by
  cases h with
  | boolean b => cases b <;> rfl
  | integer => rfl
  | @byteString bytes _ hlength hvalue =>
    have hlength : bytes.length ≤ maxIntegerBytes := hlength
    have hzero := twosComplement_eq_zero_iff bytes
    have hany : bytes.any (· ≠ 0) = decide (v.val ≠ 0) := by
      rw [Bool.eq_iff_iff, decide_eq_true_eq, ← hvalue, ne_eq, hzero]
      simp
    simp only [Item.asBoolean, if_neg (Nat.not_lt_of_le hlength), hany]

end StandsFor

end Item

/-! ## Conversions -/

/-- The instruction that converts items to a kind makes a certain item of another, and the heap may come
to hold more. -/
def Converts (kind : ItemKind) (heap heap' : Heap) (item result : Item) : Prop :=
  ∀ (i : Located) (s : State) (below : Stack Item), i.opcode = .convert → i.operand = [kind.byte] →
    s.memory = ⟨below.push item, heap⟩ →
    execute i s = .ok .next { s with memory := ⟨below.push result, heap'⟩ }

/-- Items without items in them are read for what they are converted to, also where they are of that kind
already. -/
theorem convert_eq_convertTo {kind : ItemKind} (h : kind ∈ [.boolean, .integer, .byteString, ItemKind.buffer])
    (item : Item) : Compound.convert kind item = Compound.convertTo kind item := by
  simp only [List.mem_cons, List.not_mem_nil, or_false] at h
  rcases h with rfl | rfl | rfl | rfl <;> cases item <;> rfl

/-- An item is read as `a`, from which the result is made. -/
theorem converts_of_reading {α : Type} {kind : ItemKind} {reading : Except Fault α} {a : α}
    {make : α → Eval Item} {result : Item}
    (hkind : kind ∈ [.boolean, .integer, .byteString, ItemKind.buffer])
    (hconvert : ∀ address below, Compound.convertTo kind item address ⟨below, heap⟩
      = (Eval.orFault reading >>= make) address ⟨below, heap⟩)
    (hreading : reading = .ok a)
    (hmake : ∀ address below, make a address ⟨below, heap⟩ = .ok result ⟨below, heap'⟩) :
    Converts kind heap heap' item result := by
  intro i s below hop hoperand hmemory
  have hoperation : operation i.opcode = .simple .convert := by
    rw [hop]
    rfl
  have hread : operandKind i.toInstruction = .ok kind := by
    have hbyte : i.operand.head?.bind ItemKind.ofByte? = some kind := by
      rw [hoperand]
      exact ItemKind.ofByte?_byte kind
    rw [operandKind, hbyte]
  have hrun : SimpleOp.convert.run i.toInstruction s.address s.memory
      = .ok () ⟨below.push result, heap'⟩ := by
    rw [hmemory]
    show (Eval.orFault (operandKind i.toInstruction) >>= fun kind => _ : Eval Unit) s.address _ = _
    rw [hread]
    show (Compound.convert kind item >>= fun result => Eval.push result) s.address ⟨below, heap⟩ = _
    -- a reading that succeeds leaves the memory as it is
    have hbind : (Eval.orFault (.ok a) >>= make) s.address ⟨below, heap⟩
        = make a s.address ⟨below, heap⟩ := rfl
    rw [convert_eq_convertTo hkind, Eval.bind_apply, hconvert, hreading, hbind, hmake]
    rfl
  rw [execute_simple hoperation, hrun]
  rfl

theorem converts_boolean {b : Bool} (h : item.asBoolean = .ok b) :
    Converts .boolean heap heap item (.boolean b) :=
  converts_of_reading (by simp) (fun _ _ => rfl) h fun _ _ => rfl

theorem converts_integer (h : item.asInteger heap = .ok v) :
    Converts .integer heap heap item (.integer v) :=
  converts_of_reading (by simp) (fun _ _ => rfl) h fun _ _ => rfl

theorem converts_byteString {bytes : List UInt8} (h : item.asBytes heap = .ok bytes) :
    Converts .byteString heap heap item (.byteString bytes) :=
  converts_of_reading (by simp) (fun _ _ => rfl) h fun _ _ => rfl

/-- A buffer is always a new one. -/
theorem converts_buffer {bytes : List UInt8} (h : item.asBytes heap = .ok bytes) :
    Converts .buffer heap (heap.newBuffer bytes.toArray).2 item (.buffer heap.buffers.size) :=
  converts_of_reading (by simp) (fun _ _ => rfl) h fun _ _ => rfl

/-! ## Tests -/

theorem popBoolean_push (address : Nat) (stack : Stack Item) (item : Item) (heap : Heap) :
    Eval.popBoolean address ⟨stack.push item, heap⟩ = match item.asBoolean with
      | .ok b => .ok b ⟨stack, heap⟩
      | .error fault => .error fault ⟨stack, heap⟩ := by
  show (Eval.orFault item.asBoolean : Eval _) address ⟨stack, heap⟩ = _
  cases item.asBoolean <;> rfl

/-- What instructions do that take the top item, which lies on `below`, for a truth value. -/
structure TestsAs (b : Bool) (i : Located) (s : State) (below : Stack Item) : Prop where
  jump : i.opcode = .jmpIf ∨ i.opcode = .jmpIfL →
    execute i s = if b then jumpTo i (s.withStack below) else .ok .next (s.withStack below)
  jumpNot : i.opcode = .jmpIfNot ∨ i.opcode = .jmpIfNotL →
    execute i s = if b then .ok .next (s.withStack below) else jumpTo i (s.withStack below)
  negate : i.opcode = .not → execute i s = .ok .next (s.withStack (below.push (.boolean !b)))
  assert : i.opcode = .assert → execute i s
    = if b then .ok .next (s.withStack below) else .error (.assertFailed none) (s.withStack below)

section

variable {b : Bool} (h : item.asBoolean = .ok b) (hstack : s.memory.stack = below.push item)
include h hstack

theorem execute_jumpIf_of_asBoolean {expected : Bool} (hop : operation i.opcode = .jumpIf expected) :
    execute i s
      = if b = expected then jumpTo i (s.withStack below) else .ok .next (s.withStack below) := by
  rw [execute_jumpIf_eq hop, State.memory_eq hstack, popBoolean_push, h]
  rfl

theorem execute_not_of_asBoolean (hop : i.opcode = .not) :
    execute i s = .ok .next (s.withStack (below.push (.boolean !b))) := by
  have hoperation : operation i.opcode = .simple .not := by
    rw [hop]
    rfl
  have hrun : negateBoolean s.address s.memory = .ok () ⟨below.push (.boolean !b), s.memory.heap⟩ := by
    rw [State.memory_eq hstack]
    show (Eval.popBoolean >>= fun b => Eval.pushBoolean !b) s.address ⟨below.push item, s.memory.heap⟩ = _
    rw [Eval.bind_apply, popBoolean_push, h]
    rfl
  rw [execute_simple hoperation]
  show s.withMemory _ (negateBoolean s.address s.memory) = _
  rw [hrun]
  rfl

theorem execute_assert_of_asBoolean (hop : i.opcode = .assert) : execute i s
    = if b then .ok .next (s.withStack below) else .error (.assertFailed none) (s.withStack below) := by
  have hrun : assertTop false s.address s.memory = if b then .ok () ⟨below, s.memory.heap⟩
      else .error (.assertFailed none) ⟨below, s.memory.heap⟩ := by
    rw [State.memory_eq hstack]
    show (Eval.popBoolean >>= fun b => _ : Eval Unit) s.address ⟨below.push item, s.memory.heap⟩ = _
    rw [Eval.bind_apply, popBoolean_push, h]
    cases b <;> rfl
  unfold execute
  rw [hop]
  show andNext (Exec.evaluate (assertTop false)) s = _
  rw [andNext_evaluate_eq, hrun]
  cases b <;> rfl

theorem testsAs_of_asBoolean : TestsAs b i s below where
  jump hop := by
    have hoperation : operation i.opcode = .jumpIf true := by rcases hop with hop | hop <;> rw [hop] <;> rfl
    exact execute_jumpIf_of_asBoolean h hstack hoperation
  jumpNot hop := by
    have hoperation : operation i.opcode = .jumpIf false := by rcases hop with hop | hop <;> rw [hop] <;> rfl
    rw [execute_jumpIf_of_asBoolean h hstack hoperation]
    cases b <;> rfl
  negate := execute_not_of_asBoolean h hstack
  assert := execute_assert_of_asBoolean h hstack

end

/-! ## Sizes -/

/-- The instruction that takes the size of an item pushes a number. -/
def HasSize (heap : Heap) (item : Item) (n : ℕ) : Prop :=
  ∀ (i : Located) (s : State) (below : Stack Item), i.opcode = .size →
    s.memory = ⟨below.push item, heap⟩ → ∃ count : Int128, count.val = n
      ∧ execute i s = .ok .next { s with memory := ⟨below.push (.integer count), heap⟩ }

/-- The size of such an item is the number of its bytes. -/
theorem Item.StandsFor.hasSize (h : item.StandsFor v) {bytes : List UInt8}
    (hbytes : item.asBytes heap = .ok bytes) (hlength : bytes.length ≤ maxIntegerBytes) :
    HasSize heap item bytes.length := by
  intro i s below hop hmemory
  have hoperation : operation i.opcode = .simple (.compound .size) := by
    rw [hop]
    rfl
  have hfits : Fits bytes.length := by
    unfold maxIntegerBytes at hlength
    unfold Fits
    omega
  obtain ⟨count, hcount⟩ := Int128.exists_of_fits hfits
  have hitem : Item.ofNat bytes.length = .integer count := by
    unfold Item.ofNat
    rw [Int128.ofInt?_eq_some_iff.mpr hcount]
    rfl
  have hpush : (Eval.orFault (item.asBytes heap) >>= fun bytes => Eval.push (.ofNat bytes.length))
      s.address ⟨below, heap⟩ = .ok () ⟨below.push (.integer count), heap⟩ := by
    rw [hbytes, ← hitem]
    rfl
  have hrun : Compound.size s.address ⟨below.push item, heap⟩
      = .ok () ⟨below.push (.integer count), heap⟩ := by
    cases h <;> exact hpush
  refine ⟨count, hcount, ?_⟩
  rw [execute_simple hoperation]
  show s.withMemory _ (Compound.size s.address s.memory) = _
  rw [hmemory, hrun]
  rfl

/-! ## Coherence -/

/-- All that is made of an item on a heap agrees with one integer. -/
structure Coherent (heap : Heap) (item : Item) (v : Int128) : Prop where
  atOnce : Converts .integer heap heap item (.integer v)
  throughBytes : ∃ bytes, Converts .byteString heap heap item (.byteString bytes)
    ∧ Converts .integer heap heap (.byteString bytes) (.integer v) ∧ HasSize heap item bytes.length
  throughBuffer : ∃ ref heap', Converts .buffer heap heap' item (.buffer ref)
    ∧ Converts .integer heap' heap' (.buffer ref) (.integer v)
  truth : Converts .boolean heap heap item (.boolean (v.val ≠ 0))
  tests : ∀ (i : Located) (s : State) (below : Stack Item), s.memory = ⟨below.push item, heap⟩ →
    TestsAs (v.val ≠ 0) i s below
  /-- From the integer back to bytes, and to the integer again. -/
  andBack : ∃ bytes, Converts .byteString heap heap (.integer v) (.byteString bytes)
    ∧ Converts .integer heap heap (.byteString bytes) (.integer v)
    ∧ IsShortest (fun bytes => twosComplement bytes = v.val) bytes

/-- Bytes that denote an integer are converted to it from a byte string as from a buffer. -/
theorem converts_bytes {bytes : List UInt8} (hlength : bytes.length ≤ maxIntegerBytes)
    (hvalue : twosComplement bytes = v.val) :
    Converts .integer heap heap (.byteString bytes) (.integer v) :=
  converts_integer (Item.integerOfBytes_eq hlength hvalue)

theorem converts_newBuffer {bytes : List UInt8} (hlength : bytes.length ≤ maxIntegerBytes)
    (hvalue : twosComplement bytes = v.val) :
    Converts .integer (heap.newBuffer bytes.toArray).2 (heap.newBuffer bytes.toArray).2
      (.buffer heap.buffers.size) (.integer v) := by
  have hcontents : (heap.newBuffer bytes.toArray).2.buffer heap.buffers.size = bytes.toArray :=
    (Heap.buffer_newBuffer ..).trans (if_pos rfl)
  refine converts_integer ?_
  show Item.integerOfBytes _ (Heap.buffer _ heap.buffers.size).toList = _
  rw [hcontents]
  exact Item.integerOfBytes_eq hlength hvalue

/-- The ways to convert and to test an item that stands for an integer all agree. -/
theorem conversions_coherent (h : item.StandsFor v) (heap : Heap) : Coherent heap item v := by
  obtain ⟨bytes, hbytes, hlength, hvalue⟩ := h.exists_asBytes heap
  refine ⟨converts_integer (h.asInteger heap), ⟨bytes, converts_byteString hbytes,
    converts_bytes hlength hvalue, h.hasSize hbytes hlength⟩, ⟨_, _, converts_buffer hbytes,
    converts_newBuffer hlength hvalue⟩, converts_boolean h.asBoolean, ?_, ?_⟩
  · intro i s below hmemory
    exact testsAs_of_asBoolean h.asBoolean (by rw [hmemory])
  · -- the bytes of the integer, not those of the item
    obtain ⟨bytes, hbytes, hlength, hvalue⟩ := (Item.StandsFor.integer v).exists_asBytes heap
    refine ⟨bytes, converts_byteString hbytes, converts_bytes hlength hvalue, ?_⟩
    cases hbytes
    exact v.isShortest_bytes

/-- A byte string with bytes to spare. -/
theorem conversions_coherent_padded :
    (Item.byteString [0xff, 0x7f, 0, 0]).StandsFor ⟨0x7fff, by decide, by decide⟩
    ∧ Coherent {} (.byteString [0xff, 0x7f, 0, 0]) ⟨0x7fff, by decide, by decide⟩ := by
  have hstands : (Item.byteString [0xff, 0x7f, 0, 0]).StandsFor ⟨0x7fff, by decide, by decide⟩ :=
    .byteString (by decide) (by decide)
  exact ⟨hstands, conversions_coherent hstands {}⟩

end StackContract.Machine
