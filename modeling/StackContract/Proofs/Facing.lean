import StackContract.Proofs.Chains
import StackContract.Proofs.Lockstep
/-!
# In front of code

A machine that stands in front of directives of a method (`Facing`) goes on behind the first one of
them, or where it leads. There is one lemma for each kind of directive, for a machine apart from its
limits.
-/

namespace StackContract.Contract

open Assembly Script Lowering Machine

/-- A method in the script of a machine, and the frames below its own. -/
structure Surroundings where
  script : Array UInt8
  bases : String → Option Nat
  base : Nat
  code : List Directive
  below : List Frame

/-- A machine in front of code of a method. -/
structure Facing (here : Surroundings) (before rest : List Directive) (memory : Memory)
    (frame : Frame) (s : State) : Prop where
  script : s.script = here.script
  loaded : Loaded here.script here.bases here.base here.code
  code : here.code = before ++ rest
  address : s.address = here.base + extent before
  memory : s.memory = memory
  frames : s.frames.toList = frame :: here.below

/-- A machine at the start of a source offset, with code behind it. -/
def Lands (here : Surroundings) (target : UInt32) (m : Memory) (frame : Frame) (s : State) : Prop :=
  ∃ front after, .mark target ∉ front ∧ 0 < extent after
    ∧ Facing here front (.mark target :: after) m frame s

/-- A machine faults. -/
def Breaks (s : State) (kind : FaultKind) : Prop :=
  ∃ fault t, step s = .error fault t ∧ s.Keeps t ∧ fault.kind = kind

namespace Facing

variable {here : Surroundings} {before rest : List Directive} {m m' : Memory} {frame frame' : Frame}
  {s t : State} {d : Directive}

theorem size_frames (h : Facing here before rest m frame s) :
    s.frames.size = here.below.length + 1 := by
  rw [s.frames.size_eq, h.frames, List.length_cons]

/-- The mark of a source offset takes no room. -/
theorem mark {source : UInt32} (h : Facing here before (.mark source :: rest) m frame s) :
    Facing here (before ++ [.mark source]) rest m frame s where
  script := h.script
  loaded := h.loaded
  code := by
    rw [h.code, List.append_assoc]
    rfl
  address := by
    rw [h.address, extent_append]
    rfl
  memory := h.memory
  frames := h.frames

/-- The address behind a directive. -/
theorem address_behind (h : Facing here before (d :: rest) m frame s) :
    s.address + d.size = here.base + extent (before ++ [d]) := by
  rw [h.address, extent_append, Nat.add_assoc]
  rfl

/-- Behind a directive, with another memory and another frame. -/
theorem next (h : Facing here before (d :: rest) m frame s) (hkeeps : s.Keeps t)
    (haddress : t.address = s.address + d.size) (hmemory : t.memory = m')
    (hframes : t.frames.toList = frame' :: here.below) :
    Facing here (before ++ [d]) rest m' frame' t where
  script := hkeeps.script_eq.trans h.script
  loaded := h.loaded
  code := by
    rw [h.code, List.append_assoc]
    rfl
  address := haddress.trans h.address_behind
  memory := hmemory
  frames := hframes

theorem current {i : Instruction} (h : Facing here before (.instruction i :: rest) m frame s) :
    s.current = .ok ⟨i, s.address⟩ := by
  rw [h.address]
  exact current_eq h.script h.address (h.loaded.instruction h.code)

/-! ## Computations -/

/-- An instruction goes on with the result of its computation, or breaks with its fault. -/
theorem evaluate {α : Type} {x : Eval α} {i : Located} {f : α → Flow}
    (h : Facing here before rest m frame s) (hcurrent : s.current = .ok i)
    (hexecute : execute i s = s.withMemory f (x s.address s.memory))
    (hx : ∀ link, Eval.Alike link Same x x) :
    (∀ {a : α} {m' : Memory}, x 0 m = .ok a m' → execute i s = .ok (f a) { s with memory := m' })
      ∧ ∀ {fault : Fault} {m' : Memory}, x 0 m = .error fault m' → Breaks s fault.kind := by
  have hagree := Eval.Alike.agree hx s.address 0 m
  rw [h.memory] at hexecute
  constructor
  · intro a m' ha
    rw [ha] at hagree
    generalize x s.address m = result at hexecute hagree
    cases hagree
    exact hexecute
  · intro fault m' hfault
    rw [hfault] at hagree
    generalize x s.address m = result at hexecute hagree
    cases hagree with
    | error hkind => exact ⟨_, _, step_of_execute_error hcurrent hexecute, rfl, hkind⟩

theorem simple {i : Instruction} {op : SimpleOp}
    (h : Facing here before (.instruction i :: rest) m frame s)
    (hop : operation i.opcode = .simple op) (hoperand : op.HasOperand i) :
    (op.run i 0 m = .ok () m' →
      ∃ t, Moves s t ∧ Facing here (before ++ [.instruction i]) rest m' frame t)
      ∧ ∀ {fault : Fault}, op.run i 0 m = .error fault m' → Breaks s fault.kind := by
  have hresult := h.evaluate (f := fun _ => .next) h.current (execute_simple hop s)
    fun _ => SimpleOp.run_alike hoperand
  refine ⟨fun hrun => ?_, hresult.2⟩
  have hmoves := moves_of_execute h.current (hresult.1 hrun) rfl rfl
  exact ⟨_, hmoves, h.next hmoves.keeps rfl rfl h.frames⟩

theorem raise {i : Instruction} (h : Facing here before (.instruction i :: rest) m frame s)
    (hop : operation i.opcode = .raise) :
    (∀ {item : Item}, Eval.pop 0 m = .ok item m' → Breaks s .thrown)
      ∧ ∀ {fault : Fault}, Eval.pop 0 m = .error fault m' → Breaks s fault.kind := by
  have hexecute := execute_raise (i := ⟨i, s.address⟩) hop s
  rw [h.memory, Eval.pop_eq] at hexecute
  rw [Eval.pop_eq]
  cases hstack : m.stack.pop? with
  | none =>
    rw [hstack] at hexecute
    refine ⟨nofun, ?_⟩
    rintro fault ⟨⟩
    exact ⟨_, _, step_of_execute_error h.current hexecute, rfl, rfl⟩
  | some top =>
    rw [hstack] at hexecute
    refine ⟨fun _ => ⟨_, _, step_of_execute_error h.current hexecute, rfl, rfl⟩, ?_⟩
    rintro fault ⟨⟩

/-! ## Slots -/

theorem loadSlot (place : Source.Place) {slot : UInt8} {item : Item}
    (h : Facing here before (.load (areaOf place) slot :: rest) m frame s)
    (hitem : (itemsOf frame place)[slot.toNat]? = some item) :
    ∃ t, Moves s t ∧ Facing here (before ++ [.load (areaOf place) slot]) rest
      { m with stack := m.stack.push item } frame t := by
  have hexecute := execute_accessLoad s.address (slots_areaOf h.frames place slot) hitem
  have hmoves := moves_of_execute h.current hexecute rfl rfl
  refine ⟨_, hmoves, h.next hmoves.keeps rfl ?_ h.frames⟩
  show ({ s.memory with stack := s.memory.stack.push item } : Memory) = _
  rw [h.memory]

/-- A store puts the item on top of the stack into its slot. -/
theorem stores (place : Source.Place) {slot : UInt8} {item : Item}
    (h : Facing here before (.store (areaOf place) slot :: rest) m frame s)
    (hslot : slot.toNat < (itemsOf frame place).size) (hpop : Eval.pop 0 m = .ok item m') :
    ∃ frames, frames.toList
        = withItems frame place ((itemsOf frame place).setIfInBounds slot.toNat item) :: here.below
      ∧ execute ⟨(Access.mk (areaOf place) false slot).instruction, s.address⟩ s
        = .ok .next { s with memory := m', frames } := by
  have hexecute := execute_accessStore s.address (slots_areaOf h.frames place slot) hslot
  rw [h.memory, Eval.pop_eq] at hexecute
  rw [Eval.pop_eq] at hpop
  cases hstack : m.stack.pop? with
  | none =>
    rw [hstack] at hpop
    cases hpop
  | some top =>
    rw [hstack] at hpop hexecute
    cases hpop
    -- the item is off the stack before the frame is changed
    obtain ⟨frames, hframes, hslots⟩ :=
      withSlots_areaOf (s := { s with memory := { m with stack := top.2 } }) h.frames place
        ((itemsOf frame place).setIfInBounds slot.toNat top.1)
    dsimp only at hexecute
    rw [hslots] at hexecute
    exact ⟨frames, hframes, hexecute⟩

theorem storeSlot (place : Source.Place) {slot : UInt8}
    (h : Facing here before (.store (areaOf place) slot :: rest) m frame s)
    (hslot : slot.toNat < (itemsOf frame place).size) :
    (∀ {item : Item}, Eval.pop 0 m = .ok item m' → ∃ t, Moves s t
        ∧ Facing here (before ++ [.store (areaOf place) slot]) rest m'
          (withItems frame place ((itemsOf frame place).setIfInBounds slot.toNat item)) t)
      ∧ ∀ {fault : Fault}, Eval.pop 0 m = .error fault m' → Breaks s fault.kind := by
  constructor
  · intro item hpop
    obtain ⟨frames, hframes, hexecute⟩ := h.stores place hslot hpop
    have hmoves := moves_of_execute h.current hexecute rfl rfl
    exact ⟨_, hmoves, h.next hmoves.keeps rfl rfl hframes⟩
  · intro fault hpop
    have hexecute := execute_accessStore s.address (slots_areaOf h.frames place slot) hslot
    rw [h.memory, Eval.pop_eq] at hexecute
    rw [Eval.pop_eq] at hpop
    cases hstack : m.stack.pop? with
    | none =>
      rw [hstack] at hpop hexecute
      cases hpop
      exact ⟨_, _, step_of_execute_error h.current hexecute, rfl, rfl⟩
    | some top =>
      rw [hstack] at hpop
      cases hpop

theorem initSlots {locals params : UInt8}
    (h : Facing here before (.instruction ⟨.initSlot, [locals, params]⟩ :: rest) m frame s) :
    (∀ {arguments : List Item}, Eval.popMany params.toNat 0 m = .ok arguments m' → ∃ t, Moves s t
        ∧ Facing here (before ++ [.instruction ⟨.initSlot, [locals, params]⟩]) rest m'
          { frame with
            locals := Array.replicate locals.toNat .null
            arguments := arguments.toArray } t)
      ∧ ∀ {fault : Fault}, Eval.popMany params.toNat 0 m = .error fault m' →
        Breaks s fault.kind := by
  have hslots := execute_initSlots (i := ⟨⟨.initSlot, [locals, params]⟩, s.address⟩) rfl h.frames
  rw [h.memory] at hslots
  have hpop := Eval.popMany_eq params.toNat s.address m
  rw [Eval.popMany_eq]
  cases hstack : m.stack.popList? params.toNat with
  | none =>
    rw [hstack] at hpop
    refine ⟨nofun, ?_⟩
    rintro fault ⟨⟩
    exact ⟨_, _, step_of_execute_error h.current (hslots.1 hpop), rfl, rfl⟩
  | some top =>
    obtain ⟨items, stack⟩ := top
    rw [hstack] at hpop
    refine ⟨?_, by rintro fault ⟨⟩⟩
    rintro _ ⟨⟩
    obtain ⟨frames, hframes, hexecute⟩ := hslots.2 hpop
    have hmoves := moves_of_execute h.current hexecute rfl rfl
    exact ⟨_, hmoves, h.next hmoves.keeps rfl rfl hframes⟩

/-! ## Jumps -/

/-- The instruction of a jump, and where it leads. -/
theorem landing {op : Opcode} {target : UInt32}
    (h : Facing here before (.jump op target :: rest) m frame s) (hclosed : Closed here.code) :
    ∃ i a, s.current = .ok i ∧ i.opcode = op ∧ i.next = s.address + (1 + placeholderWidth)
      ∧ targetOf s.script i = .ok a
      ∧ ∀ {t : State} {m' : Memory}, s.Keeps t → t.address = a → t.memory = m' →
        t.frames = s.frames → Lands here target m' frame t := by
  obtain ⟨operand, a, hlength, hstart, hdecode, htarget⟩ := h.loaded.branch h.code
  -- the branch was filled in with the first mark of its target
  obtain ⟨front, after, hcode, hfirst, rfl⟩ := markIn_eq_some_iff.mp hstart
  have hafter := hclosed.starts hcode hfirst
  have hinside := h.loaded.inside
  rw [hcode, extent_append, extent_mark, ← h.script] at hinside
  refine ⟨_, _, current_eq h.script h.address hdecode, rfl, ?_, targetOf_eq htarget (by omega), ?_⟩
  · unfold Located.next Instruction.size
    rw [hlength, h.address]
  · intro t m' hkeeps haddress hmemory hframes
    refine ⟨front, after, hfirst, hafter, hkeeps.script_eq.trans h.script, h.loaded, hcode, ?_, hmemory,
      ?_⟩
    · rw [haddress, Nat.zero_add]
    · rw [hframes, h.frames]

theorem jump {target : UInt32} (h : Facing here before (.jump .jmpL target :: rest) m frame s)
    (hclosed : Closed here.code) : ∃ t, Moves s t ∧ Lands here target m frame t := by
  obtain ⟨i, a, hcurrent, hop, -, htarget, hlands⟩ := h.landing hclosed
  have hexecute := execute_jump (by rw [hop]; rfl) htarget
  have hmoves := moves_of_execute hcurrent hexecute rfl rfl
  exact ⟨_, hmoves, hlands hmoves.keeps rfl h.memory rfl⟩

/-- A conditional jump leads to its target, or control goes on behind it. -/
theorem jumpIf {expected : Bool} {target : UInt32}
    (h : Facing here before (.jump (if expected then .jmpIfL else .jmpIfNotL) target :: rest) m frame s)
    (hclosed : Closed here.code) :
    (∀ {b : Bool}, Eval.popBoolean 0 m = .ok b m' → ∃ t, Moves s t ∧
        if b = expected then Lands here target m' frame t
        else Facing here (before ++ [.jump (if expected then .jmpIfL else .jmpIfNotL) target]) rest m'
          frame t)
      ∧ ∀ {fault : Fault}, Eval.popBoolean 0 m = .error fault m' → Breaks s fault.kind := by
  obtain ⟨i, a, hcurrent, hop, hnext, htarget, hlands⟩ := h.landing hclosed
  have hjump : operation i.opcode = .jumpIf expected := by
    rw [hop]
    cases expected <;> rfl
  have hresult := h.evaluate hcurrent (execute_jumpIf hjump htarget) fun _ => .popBoolean
  refine ⟨?_, hresult.2⟩
  intro b hb
  have hexecute := hresult.1 hb
  by_cases htaken : b = expected
  · rw [if_pos htaken] at hexecute
    have hmoves := moves_of_execute hcurrent hexecute rfl rfl
    refine ⟨_, hmoves, ?_⟩
    rw [if_pos htaken]
    exact hlands hmoves.keeps rfl rfl rfl
  · rw [if_neg htaken] at hexecute
    have hmoves := moves_of_execute hcurrent hexecute rfl rfl
    refine ⟨_, hmoves, ?_⟩
    rw [if_neg htaken]
    exact h.next hmoves.keeps hnext rfl h.frames

/-- The jump over the rest of a switch case leads past it. -/
theorem targetOf_skipCase {target : UInt32} (h : Facing here before
      (.instruction skipCase :: .op .drop :: .jump .jmpL target :: rest) m frame s)
    (hrest : 0 < extent rest) :
    targetOf s.script ⟨skipCase, s.address⟩ = .ok (s.address + caseSize)
      ∧ s.address + caseSize
        = here.base + extent (before ++ [.instruction skipCase, .op .drop, .jump .jmpL target]) := by
  have hextent : extent (before ++ [.instruction skipCase, .op .drop, .jump .jmpL target])
      = extent before + caseSize := by
    rw [extent_append]
    rfl
  refine ⟨targetOf_eq (target?_skipCase _) ?_, ?_⟩
  · -- the code, cut behind the three directives that the jump passes
    have hcode : here.code
        = (before ++ [.instruction skipCase, .op .drop, .jump .jmpL target]) ++ rest := by
      rw [h.code, List.append_assoc]
      rfl
    have hinside := h.loaded.inside
    rw [hcode, extent_append, hextent, ← h.script] at hinside
    rw [h.address]
    omega
  · rw [hextent, ← Nat.add_assoc, ← h.address]

/-- The jump over the rest of a switch case leads to what is behind it. -/
theorem skip {target : UInt32} (h : Facing here before
      (.instruction skipCase :: .op .drop :: .jump .jmpL target :: rest) m frame s)
    (hrest : 0 < extent rest) :
    (∀ {b : Bool}, Eval.popBoolean 0 m = .ok b m' → ∃ t, Moves s t ∧
        if b = false then Facing here
          (before ++ [.instruction skipCase, .op .drop, .jump .jmpL target]) rest m' frame t
        else Facing here (before ++ [.instruction skipCase]) (.op .drop :: .jump .jmpL target :: rest)
          m' frame t)
      ∧ ∀ {fault : Fault}, Eval.popBoolean 0 m = .error fault m' → Breaks s fault.kind := by
  obtain ⟨htarget, haddress⟩ := h.targetOf_skipCase hrest
  have hjump : operation skipCase.opcode = .jumpIf false := rfl
  have hresult := h.evaluate h.current (execute_jumpIf hjump htarget) fun _ => .popBoolean
  refine ⟨?_, hresult.2⟩
  intro b hb
  have hexecute := hresult.1 hb
  cases b with
  | false =>
    have hmoves := moves_of_execute h.current hexecute rfl rfl
    refine ⟨_, hmoves, h.script, h.loaded, ?_, haddress, rfl, h.frames⟩
    rw [h.code, List.append_assoc]
    rfl
  | true =>
    have hmoves := moves_of_execute h.current hexecute rfl rfl
    exact ⟨_, hmoves, h.next hmoves.keeps rfl rfl h.frames⟩

/-! ## Calls and returns -/

theorem call {name : String} {c : Nat} (h : Facing here before (.call name :: rest) m frame s)
    (hbase : here.bases name = some c) (hinside : c < s.script.size) :
    ∃ t, Moves s t ∧ t.memory = m ∧ t.address = c ∧ t.frames.toList
      = { returnTo := some (here.base + extent (before ++ [.call name])) } :: frame :: here.below := by
  obtain ⟨operand, target, hlength, htarget, hdecode, hleads⟩ := h.loaded.callee h.code
  obtain rfl : target = c := Option.some.inj (htarget.symm.trans hbase)
  have hcurrent := current_eq h.script h.address hdecode
  refine ⟨_, moves_of_call hcurrent rfl (targetOf_eq hleads hinside) hinside, h.memory, rfl, ?_⟩
  rw [Stack.toList_push, h.frames]
  unfold Located.next Instruction.size
  rw [hlength, extent_append, Nat.add_assoc]
  rfl

theorem ret (h : Facing here before (.op .ret :: rest) m frame s) :
    (∀ {a : Nat}, frame.returnTo = some a → ∃ t, Moves s t ∧ t.memory = m ∧ t.address = a
        ∧ t.frames.toList = here.below)
      ∧ (frame.returnTo = none → ∃ t, Returns s t ∧ t.memory = m) := by
  obtain ⟨frames, hframes, hexecute⟩ := execute_ret (i := ⟨⟨.ret, []⟩, s.address⟩) rfl h.frames
  constructor
  · intro a ha
    exact ⟨_, moves_of_execute h.current hexecute rfl ha, h.memory, rfl, hframes⟩
  · intro hnone
    exact ⟨_, returns_of_execute h.current hexecute rfl hnone, h.memory⟩

end Facing

end StackContract.Contract
