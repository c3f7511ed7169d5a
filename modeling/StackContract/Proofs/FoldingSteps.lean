import StackContract.Proofs.FoldingMemory
/-!
# What folded code does

The code of an instruction that folds does to the memory what folding does to its state: a memory that
mirrors the state before it is brought to one that mirrors the state behind it (`Mimics`).
-/

namespace StackContract.Contract

open Assembly Compile Script Lowering Machine Number
open Compile.Folding (Value Elements)
open Source (Conversion)

/-! ## Inversion -/

section

variable {state state' : Folding.State} {value : Value}

theorem pop_eq_ok (h : Folding.pop state = .ok (value, state')) :
    state = Folding.push state' value := by
  obtain ⟨_ | ⟨top, rest⟩, arrays, literalBits⟩ := state
  · cases h
  · cases h
    rfl

theorem popInteger_eq_ok {v : Int128} (h : Folding.popInteger state = .ok (v, state')) :
    state = Folding.push state' (.integer v) := by
  obtain ⟨⟨value, rest⟩, hpop, hmatch⟩ := exceptBind_eq_ok h
  cases value <;> cases hmatch
  exact pop_eq_ok hpop

theorem popString_eq_ok {s : String} (h : Folding.popString state = .ok (s, state')) :
    state = Folding.push state' (.string s) := by
  obtain ⟨⟨value, rest⟩, hpop, hmatch⟩ := exceptBind_eq_ok h
  cases value <;> cases hmatch
  exact pop_eq_ok hpop

theorem popArray_eq_ok {id : Nat} (h : Folding.popArray state = .ok (id, state')) :
    state = Folding.push state' (.array id) := by
  obtain ⟨⟨value, rest⟩, hpop, hmatch⟩ := exceptBind_eq_ok h
  cases value <;> cases hmatch
  exact pop_eq_ok hpop

theorem position_eq_ok {index : Int} {length n : Nat} (h : Folding.position index length = .ok n) :
    n < length ∧ index = n := by
  unfold Folding.position at h
  split at h
  · next hindex =>
    cases h
    omega
  · cases h

end

/-! ## Instructions on arrays and text -/

theorem utf8_append (left right : String) :
    Text.utf8 (left ++ right) = Text.utf8 left ++ Text.utf8 right := by
  unfold Text.utf8
  simp

section

variable (stack : Stack Item) (heap : Heap)

/-- A conversion right behind data makes a buffer of them. -/
theorem performs_buffer (data : List UInt8) : Performs [.pushData data, .convert .buffer]
    ⟨stack, heap⟩ ⟨stack.push (.buffer heap.buffers.size), (heap.newBuffer data.toArray).2⟩ :=
  (Performs.pushData data).cons (.instruction .convert rfl (fun _ => Instruction.fits_fixed rfl)
    (fun _ => rfl) (Nat.le_succ _))

theorem performs_drop (item : Item) : Performs [.op .drop] ⟨stack.push item, heap⟩ ⟨stack, heap⟩ :=
  .op (.shuffle .drop) rfl rfl (fun _ => rfl) (Nat.le_add_right_of_le (Nat.le_succ _))

/-- A buffer of zeros in place of its length. -/
theorem performs_newBuffer {v : Int128} (hv : 0 ≤ v.val) (hsmall : v.val < 2 ^ 64) :
    Performs [.op .newBuffer] ⟨stack.push (.integer v), heap⟩ ⟨stack.push (.buffer heap.buffers.size),
      (heap.newBuffer (List.replicate v.val.toNat 0).toArray).2⟩ := by
  refine .op (.bytes .newBuffer) rfl rfl (fun address => ?_) (Nat.le_succ _)
  have hcount := popCount_push (Int.toNat_of_nonneg hv).symm (by omega) address stack heap
  show (Eval.popCount >>= fun n => Eval.pushBuffer (List.replicate n 0) : Eval Unit) address _ = _
  rw [Eval.bind_apply, hcount]
  rfl

/-- An array of nulls in place of its length. -/
theorem performs_newArray {v : Int128} (hv : 0 ≤ v.val) (hsmall : v.val < 2 ^ 64) :
    Performs [.instruction ⟨.newArrayT, [ItemKind.any.byte]⟩] ⟨stack.push (.integer v), heap⟩
      ⟨stack.push (.array heap.sequences.size),
        (heap.newSequence (Array.replicate v.val.toNat .null)).2⟩ := by
  refine .instruction .newDefaults rfl (fun _ => Instruction.fits_fixed rfl) (fun address => ?_)
    (Nat.le_succ _)
  have hcount := popCount_push (Int.toNat_of_nonneg hv).symm (by omega) address stack heap
  show (Eval.popCount >>= fun n => _ : Eval Unit) address _ = _
  rw [Eval.bind_apply, hcount]
  rfl

/-- Two texts are joined in a buffer, which is read as text again. -/
theorem performs_concat (left right : String) : Performs [.op .cat, .convert .byteString]
    ⟨(stack.push (.byteString (Text.utf8 left))).push (.byteString (Text.utf8 right)), heap⟩
    ⟨stack.push (.byteString (Text.utf8 (left ++ right))),
      (heap.newBuffer (Text.utf8 (left ++ right)).toArray).2⟩ := by
  have hjoined : Performs [.op .cat]
      ⟨(stack.push (.byteString (Text.utf8 left))).push (.byteString (Text.utf8 right)), heap⟩
      ⟨stack.push (.buffer heap.buffers.size),
        (heap.newBuffer (Text.utf8 (left ++ right)).toArray).2⟩ := by
    rw [utf8_append]
    exact .op (.bytes .concatenate) rfl rfl (fun _ => rfl) (Nat.le_add_right_of_le (Nat.le_succ _))
  refine hjoined.cons (.instruction .convert rfl (fun _ => Instruction.fits_fixed rfl)
    (fun address => ?_) (Nat.le_succ _))
  have hbytes : ((heap.newBuffer (Text.utf8 (left ++ right)).toArray).2.buffer
      heap.buffers.size).toList = Text.utf8 (left ++ right) :=
    congrArg Array.toList ((Heap.buffer_newBuffer ..).trans (if_pos rfl))
  exact congrArg (fun bytes => EStateM.Result.ok () (Memory.mk (stack.push (.byteString bytes)) _)) hbytes

theorem asIndex_of_lt {index : Int128} {n length : Nat} (hindex : index.val = n) (hn : n < length) :
    (Item.integer index).asIndex heap length = .ok n := by
  show (if 0 ≤ index.val ∧ index.val < length then pure index.val.toNat
    else throw (.indexOutOfRange index.val length) : Except Fault Nat) = _
  rw [hindex, if_pos (by omega)]
  rfl

/-- An integer that is a byte is stored in a buffer. -/
theorem performs_setByte {r n : Nat} {index v : Int128} (hindex : index.val = n)
    (hn : n < (heap.buffer r).size) (hv : 0 ≤ v.val ∧ v.val < 256) :
    Performs [.op .setItem]
      ⟨((stack.push (.buffer r)).push (.integer index)).push (.integer v), heap⟩
      ⟨stack, heap.modifyBuffer r (·.setIfInBounds n (UInt8.ofNat v.val.toNat))⟩ := by
  refine .op (.compound .setItem) rfl rfl (fun address => ?_) (by
    show stack.size ≤ stack.size + 1 + 1 + 1 + 1
    omega)
  have hbyte : Compound.byteOf? v = some (UInt8.ofNat v.val.toNat) := by
    unfold Compound.byteOf?
    rw [if_pos (by omega), Int.emod_eq_of_lt hv.1 hv.2]
  -- neither the index nor the value is a buffer, which could be held
  show (Eval.orFault ((Item.integer index).asIndex heap (heap.buffer r).size) >>= fun i =>
    Eval.orFault (Compound.unheld r (.integer v)) >>= fun _ => _ : Eval Unit) address ⟨stack, heap⟩ = _
  rw [asIndex_of_lt heap hindex hn]
  have hindexed : Eval.orFault (.ok n) address ⟨stack, heap⟩ = .ok n ⟨stack, heap⟩ := rfl
  have hheld : Eval.orFault (Compound.unheld r (.integer v)) address ⟨stack, heap⟩
      = .ok () ⟨stack, heap⟩ := rfl
  have hvalue : Eval.orFault ((Item.integer v).asInteger heap) address ⟨stack, heap⟩
      = .ok v ⟨stack, heap⟩ := rfl
  rw [Eval.bind_apply, hindexed]
  dsimp only
  rw [Eval.bind_apply, hheld]
  dsimp only
  rw [Eval.bind_apply, hvalue]
  dsimp only
  rw [hbyte]
  rfl

/-- Bytes are stored in an array as they are. -/
theorem performs_setItem {r n : Nat} {index : Int128} (bytes : List UInt8) (hindex : index.val = n)
    (hn : n < (heap.sequence r).size) : Performs [.op .setItem]
      ⟨((stack.push (.array r)).push (.integer index)).push (.byteString bytes), heap⟩
      ⟨stack, heap.modifySequence r (·.setIfInBounds n (.byteString bytes))⟩ := by
  refine .op (.compound .setItem) rfl rfl (fun address => ?_) (by
    show stack.size ≤ stack.size + 1 + 1 + 1 + 1
    omega)
  show (Eval.orFault ((Item.integer index).asIndex heap (heap.sequence r).size) >>= fun i => _ :
    Eval Unit) address ⟨stack, heap⟩ = _
  rw [asIndex_of_lt heap hindex hn]
  rfl

end

/-! ## Code and folding -/

/-- Code brings every memory that mirrors a state to one that mirrors another state. -/
def Mimics (code : List Directive) (before after : Folding.State) : Prop :=
  ∀ ⦃made : List Item⦄ ⦃m : Memory⦄, Mirrors made before m →
    ∃ made' m', Performs code m m' ∧ Mirrors made' after m'

namespace Mimics

variable {first second code : List Directive} {before state after : Folding.State}

theorem append (h : Mimics first before state) (h' : Mimics second state after) :
    Mimics (first ++ second) before after := by
  intro made m hmirrors
  obtain ⟨made', m', hperforms, hmirrors'⟩ := h hmirrors
  obtain ⟨made'', m'', hperforms', hmirrors''⟩ := h' hmirrors'
  exact ⟨made'', m'', hperforms.append hperforms', hmirrors''⟩

theorem nil : Mimics [] state state :=
  fun made m hmirrors => ⟨made, m, .nil, hmirrors⟩

theorem mark (source : UInt32) : Mimics [.mark source] state state :=
  fun made m hmirrors => ⟨made, m, .mark source, hmirrors⟩

/-- The width of the last literal leaves no trace in the memory. -/
theorem withBits (h : Mimics code before after) (bits bits' : Option Nat) :
    Mimics code { before with literalBits := bits } { after with literalBits := bits' } := by
  intro made m hmirrors
  obtain ⟨made', m', hperforms, hmirrors'⟩ := h ⟨hmirrors.stack, hmirrors.length, hmirrors.arrays,
    hmirrors.nodup, hmirrors.known, hmirrors.small⟩
  exact ⟨made', m', hperforms, hmirrors'.stack, hmirrors'.length, hmirrors'.arrays, hmirrors'.nodup,
    hmirrors'.known, hmirrors'.small⟩

theorem integer {v : Int128} (hv : v.val < 2 ^ 64) :
    Mimics [.pushInteger v] state (Folding.push state (.integer v)) := by
  intro made m hmirrors
  refine ⟨made, _, .pushInteger v, hmirrors.push nofun ?_⟩
  rintro w ⟨⟩
  exact hv

theorem string (s : String) : Mimics [.pushData (Text.utf8 s)] state (Folding.push state (.string s)) := by
  intro made m hmirrors
  refine ⟨made, _, .pushData _, hmirrors.push nofun ?_⟩
  rintro v ⟨⟩

theorem dup (value : Value) :
    Mimics [.op .dup] (Folding.push state value) (Folding.push (Folding.push state value) value) := by
  intro made m hmirrors
  obtain ⟨stack, heap, rfl, -⟩ := hmirrors.pop
  exact ⟨made, _, .op (.shuffle .dup) rfl rfl (fun _ => rfl) (Nat.le_refl _), hmirrors.dup⟩

/-- A new array of bytes in place of its length. -/
theorem newBytes {v : Int128} (hv : 0 ≤ v.val) : Mimics [.op .newBuffer]
    (Folding.push state (.integer v))
    (Folding.push { state with arrays := state.arrays ++ [.bytes (List.replicate v.val.toNat 0)] }
      (.array state.arrays.length)) := by
  intro made m hmirrors
  have hsmall := hmirrors.small (List.mem_cons_self ..)
  obtain ⟨stack, heap, rfl, hrest⟩ := hmirrors.pop
  exact ⟨_, _, performs_newBuffer stack heap hv hsmall, hrest.newArray (fun h => h.newBuffer _)
    (contains_newBuffer ..) Contains.ne_buffer⟩

/-- A new array of strings in place of its length. -/
theorem newStrings {v : Int128} (hv : 0 ≤ v.val) :
    Mimics [.instruction ⟨.newArrayT, [ItemKind.any.byte]⟩] (Folding.push state (.integer v))
      (Folding.push { state with
        arrays := state.arrays ++ [.strings (List.replicate v.val.toNat none)] }
        (.array state.arrays.length)) := by
  intro made m hmirrors
  have hsmall := hmirrors.small (List.mem_cons_self ..)
  obtain ⟨stack, heap, rfl, hrest⟩ := hmirrors.pop
  refine ⟨_, _, ?_, hrest.newArray (fun h => h.newSequence _) (contains_newSequence ..)
    Contains.ne_array⟩
  have hnulls : ((List.replicate v.val.toNat none).map textItem).toArray
      = Array.replicate v.val.toNat .null := by
    rw [List.map_replicate, List.toArray_replicate]
    rfl
  rw [hnulls]
  exact performs_newArray stack heap hv hsmall

/-- An array of given bytes in place of their number. -/
theorem literal (v : Int128) (data : List UInt8) :
    Mimics [.op .drop, .pushData data, .convert .buffer] (Folding.push state (.integer v))
      (Folding.push { state with arrays := state.arrays ++ [.bytes data] }
        (.array state.arrays.length)) := by
  intro made m hmirrors
  obtain ⟨stack, heap, rfl, hrest⟩ := hmirrors.pop
  exact ⟨_, _, (performs_drop stack heap _).cons (performs_buffer stack heap data),
    hrest.newArray (fun h => h.newBuffer _) (contains_newBuffer ..) Contains.ne_buffer⟩

theorem concat (state : Folding.State) (left right : String) : Mimics [.op .cat, .convert .byteString]
    (Folding.push (Folding.push state (.string left)) (.string right))
    (Folding.push state (.string (left ++ right))) := by
  intro made m hmirrors
  obtain ⟨_, heap, rfl, hleft⟩ := hmirrors.pop
  obtain ⟨stack, _, hm, hrest⟩ := hleft.pop
  cases hm
  refine ⟨made, _, performs_concat stack heap left right,
    (hrest.withHeap fun h => h.newBuffer _).push nofun ?_⟩
  rintro v ⟨⟩

/-- What is stored in an array stands in it for all its copies. -/
theorem storeElement {id : Nat} {index : Int128} {value : Value}
    (h : Folding.storeElement state id index.val value = .ok after) : Mimics [.op .setItem]
      (Folding.push (Folding.push (Folding.push state (.array id)) (.integer index)) value) after := by
  intro made m hmirrors
  obtain ⟨_, heap, rfl, hindex⟩ := hmirrors.pop
  obtain ⟨_, _, hm, harray⟩ := hindex.pop
  cases hm
  have hid := harray.known (List.mem_cons_self ..)
  obtain ⟨stack, _, hm, hrest⟩ := harray.pop
  cases hm
  have hcontains := hrest.array hid
  unfold Folding.storeElement at h
  cases helements : Folding.elements state id with
  | bytes data =>
    rw [helements] at h hcontains
    cases value with
    | string s => cases h
    | array other => cases h
    | integer v =>
      dsimp only at h
      split at h
      · cases h
      · next hrange =>
        obtain ⟨n, hposition, hset⟩ := exceptBind_eq_ok h
        cases hset
        obtain ⟨hn, hindex⟩ := position_eq_ok hposition
        generalize hitem : itemOf made (.array id) = item at hcontains
        cases hcontains with
        | @bytes _ r hr hdata =>
          refine ⟨made, _, performs_setByte stack heap hindex ?_ (by omega), hrest.set hid
            (fun h hne => h.modifyBuffer (hitem ▸ hne) _) (hitem.symm ▸ .bytes ?_ ?_)⟩
          · rw [hdata, List.size_toArray]
            exact hn
          · show r < (heap.buffers.modify r _).size
            rw [Array.size_modify]
            exact hr
          · rw [Heap.buffer_modifyBuffer]
            refine (if_pos ⟨rfl, hr⟩).trans ?_
            rw [hdata, List.setIfInBounds_toArray]
  | strings items =>
    rw [helements] at h hcontains
    cases value with
    | integer v => cases h
    | array other => cases h
    | string s =>
      obtain ⟨n, hposition, hset⟩ := exceptBind_eq_ok h
      cases hset
      obtain ⟨hn, hindex⟩ := position_eq_ok hposition
      generalize hitem : itemOf made (.array id) = item at hcontains
      cases hcontains with
      | @strings _ r hr hitems =>
        refine ⟨made, _, performs_setItem stack heap (Text.utf8 s) hindex ?_, hrest.set hid
          (fun h hne => h.modifySequence (hitem ▸ hne) _) (hitem.symm ▸ .strings ?_ ?_)⟩
        · rw [hitems, List.size_toArray, List.length_map]
          exact hn
        · show r < (heap.sequences.modify r _).size
          rw [Array.size_modify]
          exact hr
        · rw [Heap.sequence_modifySequence]
          refine (if_pos ⟨rfl, hr⟩).trans ?_
          rw [hitems, List.setIfInBounds_toArray, List.map_set]
          rfl

end Mimics

end StackContract.Contract
