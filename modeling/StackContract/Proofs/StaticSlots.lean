import StackContract.Proofs.Bodies
import StackContract.Proofs.Faults
import StackContract.Proofs.RunLimits
/-!
# Static slots

An instruction leaves the static slots as they are, stores to one of them or makes all of them
(`slotsStep_of_execute`). In an image they are made in the number of the slots that the static fields
have (`Image.operand_initSSlot`), so that the machine has that many of them, or none.
-/

namespace StackContract.Machine

open Script

namespace Exec

variable {α β : Type}

/-- A computation that leaves the static slots as they are, if it succeeds. -/
def Spares (x : Exec α) : Prop :=
  ∀ ⦃s a t⦄, x s = .ok a t → t.statics = s.statics

namespace Spares

theorem still {x : Exec α} (h : Still x) : Spares x := by
  intro s a t hresult
  rw [h hresult]

theorem pure (a : α) : Spares (Pure.pure a : Exec α) := by
  intro s _ t h
  cases h
  rfl

theorem throw (fault : Fault) : Spares (MonadExcept.throw fault : Exec α) := by
  intro s a t h
  cases h

theorem modify {f : State → State} (h : ∀ s, (f s).statics = s.statics) :
    Spares (modify f : Exec Unit) := by
  intro s _ t hresult
  cases hresult
  exact h s

theorem bind {x : Exec α} {f : α → Exec β} (hx : Spares x) (hf : ∀ a, Spares (f a)) :
    Spares (x >>= f) := by
  intro s b t h
  obtain ⟨a, u, hfirst, hrest⟩ := bind_eq_ok h
  rw [hf a hrest, hx hfirst]

theorem get {f : State → Exec α} (hf : ∀ s, Spares (f s)) : Spares (MonadState.get >>= f) :=
  .bind (.still still_get) hf

theorem orFault (x : Except Fault α) : Spares (Exec.orFault x) :=
  .still (still_orFault x)

theorem evaluate (x : Eval α) : Spares (Exec.evaluate x) :=
  .still (still_evaluate x)

theorem ite {c : Prop} [Decidable c] {x y : Exec α} (hx : Spares x) (hy : Spares y) :
    Spares (if c then x else y) := by
  split
  · exact hx
  · exact hy

theorem andNext {x : Exec Unit} (h : Spares x) : Spares (andNext x) :=
  .bind h fun _ => .pure _

end Spares

end Exec

open Exec

/-! ## Instructions -/

theorem spares_jumpTo (i : Located) : Spares (jumpTo i) :=
  .get fun _ => .bind (.orFault _) fun _ => .pure _

theorem spares_enter (i : Located) (target : Nat) : Spares (enter i target) := by
  have hpush : Spares (do
      modify fun state => { state with frames := state.frames.push { returnTo := some i.next } }
      return .enter target : Exec Flow) := .bind (.modify fun _ => rfl) fun _ => .pure _
  exact .get fun s => .ite (.bind (.throw _) fun _ => .ite (.bind (.throw _) fun _ => hpush) hpush)
    (.ite (.bind (.throw _) fun _ => hpush) hpush)

theorem spares_leave : Spares leave := by
  refine .get fun s => ?_
  cases s.frames.pop? with
  | none => exact .get fun _ => .throw _
  | some top => exact .bind (.modify fun _ => rfl) fun _ => .pure _

theorem spares_allocateSlots (locals params : Nat) : Spares (allocateSlots locals params) := by
  refine .bind (.evaluate _) fun _ => .get fun s => ?_
  cases s.frames.pop? with
  | none => exact .get fun _ => .throw _
  | some top => exact .modify fun _ => rfl

theorem spares_loadSlot (area : SlotArea) (index : UInt8) : Spares (loadSlot area index) := by
  refine .get fun s => .bind (.orFault _) fun slots => ?_
  cases slots[index.toNat]? with
  | none => exact .throw _
  | some item => exact .evaluate _

theorem spares_callService (id : UInt32) : Spares (callService id) := by
  unfold callService
  split
  · exact .throw _
  · exact .bind (.evaluate _) fun _ => .modify fun _ => rfl
  · exact .bind (.evaluate _) fun _ => .modify fun _ => rfl
  · exact .throw _

/-- How static slots change. -/
inductive SlotsStep (i : Located) : Option (Array Item) → Option (Array Item) → Prop
  | same {statics : Option (Array Item)} : SlotsStep i statics statics
  | stored {items : Array Item} (slot : Nat) (item : Item) :
    SlotsStep i (some items) (some (items.setIfInBounds slot item))
  | made (h : i.opcode = .initSSlot) :
    SlotsStep i none (some (Array.replicate (i.operand.headD 0).toNat .null))

section

variable {i : Located} {s t : State}

theorem slotsStep_of_spares {α : Type} {x : Exec α} {a : α} (hx : Spares x) (h : x s = .ok a t) :
    SlotsStep i s.statics t.statics := by
  rw [hx h]
  exact .same

theorem slotsStep_of_withSlots {area : SlotArea} {index : UInt8} {items : Array Item}
    (h : s.slots area index = .ok items) (slot : Nat) (item : Item) :
    SlotsStep i s.statics (s.withSlots area (items.setIfInBounds slot item)).statics := by
  cases area with
  | static =>
    unfold State.slots at h
    unfold State.withSlots
    dsimp only at h ⊢
    cases hstatics : s.statics with
    | none =>
      rw [hstatics] at h
      cases h
    | some slots =>
      rw [hstatics] at h
      cases h
      exact .stored slot item
  | locals | arguments =>
    -- the slots of a frame
    unfold State.withSlots
    cases s.frames.pop? <;> exact .same

theorem slotsStep_of_storeSlot {area : SlotArea} {index : UInt8}
    (h : storeSlot area index s = .ok () t) : SlotsStep i s.statics t.statics := by
  unfold storeSlot at h
  obtain ⟨item, u, hpop, h⟩ := bind_eq_ok h
  obtain ⟨_, _, hget, h⟩ := bind_eq_ok h
  cases hget
  obtain ⟨slots, v, hslots, h⟩ := bind_eq_ok h
  rw [← Spares.evaluate _ hpop]
  cases hthere : u.slots area index with
  | error fault =>
    rw [hthere] at hslots
    cases hslots
  | ok found =>
    rw [hthere] at hslots
    cases hslots
    split at h
    · cases h
      exact slotsStep_of_withSlots hthere index.toNat item
    · cases h

theorem slotsStep_of_accessSlot (h : accessSlot i.toInstruction s = .ok () t) :
    SlotsStep i s.statics t.statics := by
  unfold accessSlot at h
  cases haccess : i.access? with
  | none =>
    rw [haccess] at h
    cases h
  | some access =>
    obtain ⟨area, isLoad, index⟩ := access
    rw [haccess] at h
    cases isLoad with
    | true => exact slotsStep_of_spares (spares_loadSlot area index) h
    | false => exact slotsStep_of_storeSlot h

theorem opcode_of_initStatics {op : Opcode} (h : operation op = .initStatics) : op = .initSSlot := by
  cases op <;> first | rfl | cases h

/-- An instruction stores to a static slot, makes all of them or leaves them as they are. -/
theorem slotsStep_of_execute {flow : Flow} (h : execute i s = .ok flow t) :
    SlotsStep i s.statics t.statics := by
  have hrun : (operation i.opcode).run i s = .ok flow t := h
  generalize hop : operation i.opcode = op at hrun
  cases op with
  | simple op => exact slotsStep_of_spares (.andNext (.evaluate _)) hrun
  | pushAddress =>
    exact slotsStep_of_spares (.andNext (.get fun _ => .bind (.orFault _) fun _ => .evaluate _)) hrun
  | jump => exact slotsStep_of_spares (spares_jumpTo i) hrun
  | jumpIf expected =>
    exact slotsStep_of_spares (.bind (.evaluate _) fun _ => .ite (spares_jumpTo i) (.pure _)) hrun
  | jumpCompare relation =>
    exact slotsStep_of_spares (.bind (.evaluate _) fun _ => .ite (spares_jumpTo i) (.pure _)) hrun
  | call =>
    exact slotsStep_of_spares (.get fun _ => .bind (.orFault _) fun target => spares_enter i target)
      hrun
  | callPointer =>
    exact slotsStep_of_spares (.bind (.evaluate _) fun target => spares_enter i target) hrun
  | ret => exact slotsStep_of_spares spares_leave hrun
  | abort hasMessage => exact slotsStep_of_spares (.bind (.evaluate _) fun _ => .throw _) hrun
  | assert hasMessage => exact slotsStep_of_spares (.andNext (.evaluate _)) hrun
  | raise =>
    exact slotsStep_of_spares (.bind (.evaluate _) fun _ => .get fun _ => .throw _) hrun
  | service => exact slotsStep_of_spares (.andNext (spares_callService _)) hrun
  | initStatics =>
    rw [execute_initStatics hop] at h
    split at h
    · cases h
    · next hnone =>
      cases h
      rw [Option.not_isSome_iff_eq_none.mp hnone]
      exact .made (opcode_of_initStatics hop)
  | initSlots => exact slotsStep_of_spares (.andNext (spares_allocateSlots _ _)) hrun
  | slot =>
    obtain ⟨_, u, haccess, hpure⟩ := bind_eq_ok hrun
    cases hpure
    exact slotsStep_of_accessSlot haccess
  | unsupported => exact slotsStep_of_spares (.throw _) hrun

end

/-! ## The number of static slots -/

/-- A machine with a number of static slots, or none yet. -/
def State.Roomy (n : Nat) (s : State) : Prop :=
  ∀ items, s.statics = some items → items.size = n

theorem SlotsStep.roomy {n : Nat} {i : Located} {s t : State} (h : SlotsStep i s.statics t.statics)
    (hmade : i.opcode = .initSSlot → (i.operand.headD 0).toNat = n) (hroomy : s.Roomy n) :
    t.Roomy n := by
  unfold State.Roomy at hroomy ⊢
  generalize s.statics = statics, t.statics = statics' at h hroomy
  cases h with
  | same => exact hroomy
  | stored slot item =>
    intro items hitems
    cases hitems
    rw [Array.size_setIfInBounds]
    exact hroomy _ rfl
  | made hop =>
    intro items hitems
    cases hitems
    rw [Array.size_replicate]
    exact hmade hop

theorem decode_of_current {i : Located} {s : State} (h : s.current = .ok i) :
    decode s.script s.address = .ok i := by
  unfold State.current at h
  cases hdecode : decode s.script s.address with
  | ok j =>
    rw [hdecode] at h
    cases h
    rfl
  | error e =>
    rw [hdecode] at h
    cases h

/-- A step keeps the number of static slots, if they are made in that number. -/
theorem roomy_step {n : Nat} {s : State} (hroomy : s.Roomy n) (hmade : ∀ i, s.current = .ok i →
    i.opcode = .initSSlot → (i.operand.headD 0).toNat = n) : (leftBehind (step s)).Roomy n := by
  cases hcurrent : s.current with
  | error fault =>
    rw [step_of_current_error hcurrent]
    exact hroomy
  | ok i =>
    rw [step_eq hcurrent]
    cases hexecute : execute i s with
    | error fault t =>
      have hsame : t.statics = s.statics := by
        rw [(harmless_execute i hexecute).rest]
      show t.Roomy n
      unfold State.Roomy
      rw [hsame]
      exact hroomy
    | ok flow t =>
      have ht := (slotsStep_of_execute hexecute).roomy (hmade i hcurrent) hroomy
      have hsettled : (leftBehind (settle i flow t)).statics = t.statics := by
        rw [settle_eq]
        split
        · rfl
        · split <;> rfl
      show (leftBehind (settle i flow t)).Roomy n
      unfold State.Roomy
      rw [hsettled]
      exact ht

end StackContract.Machine

namespace StackContract.Lowering

open Assembly Script Machine

/-! ## Where static slots are made -/

theorem Emitted.ne_initSSlot {scope : Scope} {i : Instruction} (h : Emitted scope (.instruction i)) :
    i.opcode ≠ .initSSlot := by
  have haccess : ∀ access : Access, access.instruction.opcode ≠ .initSSlot := by
    intro access hop
    have harea := access.instruction_spec.2.2
    rw [hop] at harea
    cases harea
  have hsimple : ∀ {op : Opcode}, (simpleOp? op).isSome = true → op ≠ .initSSlot := by
    intro op hsome hop
    rw [hop] at hsome
    cases hsome
  cases h with
  | static isLoad _ => exact haccess _
  | common h =>
    cases h with
    | @plain op h =>
      intro hop
      have hop : op = .initSSlot := hop
      rw [hop] at h
      cases h
    | pushInteger v => exact hsimple (by rw [simpleOp?_pushInteger]; rfl)
    | pushBoolean b => cases b <;> exact nofun
    | pushData data => exact hsimple (by rw [simpleOp?_pushData]; rfl)
    | slot place isLoad _ => exact haccess _
    | service name => exact nofun
    | convert kind => exact nofun
    | newArray kind => exact nofun

theorem Code.ne_initSSlot {scope : Scope} {code : List Directive} (h : Code scope code)
    {i : Instruction} (hmem : .instruction i ∈ code) : i.opcode ≠ .initSSlot := by
  induction h with
  | nil => cases hmem
  | cons hd _ ih =>
    rcases List.mem_cons.mp hmem with rfl | hmem
    · exact hd.ne_initSSlot
    · exact ih hmem
  | skip _ ih =>
    rcases List.mem_cons.mp hmem with heq | hmem
    · cases heq
      exact nofun
    · exact ih hmem

end StackContract.Lowering

namespace StackContract.Contract

open Assembly Script Lowering Machine
open Source (Module)

/-- The code of an image makes as many static slots as there are fields in slots. -/
theorem Image.operand_initSSlot {limits : Compile.Limits} {module : Module} {program : Program}
    (image : Image limits module program) (hsplices : SplicesNothing module) {routine : Routine}
    (h : routine ∈ image.all) {i : Instruction} (hmem : .instruction i ∈ routine.code)
    (hop : i.opcode = .initSSlot) : i.operand = [UInt8.ofNat image.statics.slots.size] := by
  obtain ⟨body, hcode, hbody⟩ := image.code hsplices h
  rw [hcode] at hmem
  rcases List.mem_append.mp hmem with hmem | hmem
  · rcases image.mem_all h with ⟨entry, -, hmethod⟩ | hinitializer
    · rw [hmethod.prologue] at hmem
      unfold slotPrologue at hmem
      split at hmem
      · cases hmem
      · cases List.mem_singleton.mp hmem
        cases hop
    · rw [hinitializer.prologue] at hmem
      unfold initializerPrologue at hmem
      rcases List.mem_append.mp hmem with hmem | hmem
      · split at hmem
        · cases hmem
        · cases List.mem_singleton.mp hmem
          rfl
      · split at hmem
        · cases hmem
        · cases List.mem_singleton.mp hmem
          cases hop
  · exact absurd hop (hbody.ne_initSSlot hmem)

/-- An instruction that makes static slots is read from where a directive says so. -/
theorem Loaded.mem_of_initSSlot {script : Array UInt8} {bases : String → Option Nat} {base : Nat}
    {code : List Directive} (h : Loaded script bases base code)
    (hencodable : ∀ d ∈ code, d.Encodable) {before rest : List Directive}
    (hcode : code = before ++ rest) (hpos : 0 < extent rest) {i : Located}
    (hdecode : decode script (base + extent before) = .ok i) (hop : i.opcode = .initSSlot) :
    .instruction i.toInstruction ∈ code := by
  obtain ⟨marks, d, after, rfl, hmarks, hsize⟩ := exists_first_of_extent_pos hpos
  have hextent : extent (before ++ marks) = extent before := by
    rw [extent_append, hmarks, Nat.add_zero]
  rw [← List.append_assoc] at hcode
  rw [← hextent] at hdecode
  have hmem : d ∈ code := by
    rw [hcode]
    exact List.mem_append_right _ (List.mem_cons_self ..)
  -- a reference is relative, and what makes static slots is not
  have hreference : ∀ {opcode operand target}, d = .reference opcode target →
      decode script (base + extent (before ++ marks))
        = .ok ⟨⟨opcode, operand⟩, base + extent (before ++ marks)⟩ → False := by
    intro opcode operand target hd hread
    rw [hread] at hdecode
    cases hdecode
    rw [hd] at hmem
    have hrelative := (hencodable _ hmem).2
    rw [show opcode = .initSSlot from hop] at hrelative
    cases hrelative
  cases d with
  | mark source => exact absurd hsize (Nat.lt_irrefl 0)
  | instruction j =>
    rw [h.instruction hcode] at hdecode
    cases hdecode
    exact hmem
  | reference opcode target =>
    cases target with
    | source source =>
      obtain ⟨operand, _, -, -, hread, -⟩ := h.branch hcode
      exact (hreference rfl hread).elim
    | method name =>
      obtain ⟨operand, _, -, -, hread, -⟩ := h.callee hcode
      exact (hreference rfl hread).elim

end StackContract.Contract
