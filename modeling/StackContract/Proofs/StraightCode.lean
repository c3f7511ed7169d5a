import StackContract.Proofs.CoreActions
import StackContract.Proofs.RunLimits
/-!
# Straight code

Code that neither jumps nor calls works on the memory alone, wherever it stands in a method and whatever
else the machine holds: a machine in front of it comes behind it if the stack may hold as many items as
there are on the way (`Carries`). What code in sequence does is what its parts do, one after the other
(`Carries.append`).
-/

namespace StackContract.Machine

open Script

theorem Advances.append {n k : Nat} {s t u : State} (h : Advances n s t) (h' : Advances k t u) :
    Advances (n + k) s u := by
  induction h with
  | here => exact (Nat.zero_add k).symm ▸ h'
  | @next n _ _ _ hstep _ ih =>
    rw [Nat.add_right_comm]
    exact .next hstep (ih h')

theorem Advances.single {s t : State} (h : step s = .ok true t) : Advances 1 s t :=
  .next h .here

/-- A run goes on behind the instructions that it has carried out. -/
theorem Advances.loop {n : Nat} {s t : State} (h : Advances n s t) (fuel : Nat) :
    loop (n + fuel) s = loop fuel t := by
  induction h with
  | here => rw [Nat.zero_add]
  | next hstep _ ih =>
    rw [Nat.add_right_comm, loop_succ, hstep]
    exact ih

/-- A run ends where the entry returns, if it may execute that many instructions. -/
theorem Advances.loop_returns {n fuel : Nat} {s t u : State} (h : Advances n s t)
    (hstep : step t = .ok false u) (hfuel : n < fuel) : Machine.loop fuel s
      = .ok u.memory.stack.toList { u with memory := { u.memory with stack := .empty } } := by
  obtain ⟨left, rfl⟩ : ∃ left, fuel = n + (left + 1) := ⟨fuel - n - 1, by omega⟩
  rw [h.loop, loop_succ, hstep]

/-- Without an initializer, a machine is ready for its entries. -/
theorem exists_ready_of_none {s : State} (h : s.initializer = none) : ∃ t,
    initializeStatics s = .ok () t ∧ t.script = s.script ∧ t.memory = s.memory
      ∧ t.limits = s.limits := by
  cases hdone : s.isInitialized with
  | true => exact ⟨s, initializeStatics_done hdone, rfl, rfl, rfl⟩
  | false => exact ⟨_, initializeStatics_none hdone h, rfl, rfl, rfl⟩

/-- An instruction within the limit on the stack is a step. -/
theorem step_of_execute {i : Located} {flow : Flow} {address : Nat} {s u : State}
    (hcurrent : s.current = .ok i) (hexecute : execute i s = .ok flow u)
    (hdestination : flow.destination i = some address)
    (hstack : u.memory.stack.size ≤ u.limits.stack) : step s = .ok true { u with address } := by
  rw [step_eq hcurrent, hexecute]
  show settle i flow u = _
  rw [settle_eq, if_neg (Nat.not_lt_of_le hstack), hdestination]

/-- A machine goes on within the limits. -/
theorem step_of_moves {s t : State} (h : Moves s t) (hstack : t.memory.stack.size ≤ s.limits.stack)
    (hframes : t.frames.size ≤ s.limits.recursion) : step s = .ok true t := by
  rcases h.step with hstep | ⟨-, hlimit⟩
  · exact hstep
  · omega

end StackContract.Machine

namespace StackContract.Contract

open Assembly Script Lowering Machine Number

/-! ## Code in sequence -/

/-- The number of instructions in code. Marks are none. -/
def instructionCount (code : List Directive) : Nat :=
  code.countP (0 < ·.size)

theorem instructionCount_append (first second : List Directive) :
    instructionCount (first ++ second) = instructionCount first + instructionCount second :=
  List.countP_append ..

theorem instructionCount_le_length (code : List Directive) : instructionCount code ≤ code.length :=
  List.countP_le_length

theorem instructionCount_instruction (i : Instruction) : instructionCount [.instruction i] = 1 := by
  unfold instructionCount
  exact List.countP_cons_of_pos (decide_eq_true i.size_pos)

/-- Every instruction takes at least one byte. -/
theorem instructionCount_le_extent (code : List Directive) : instructionCount code ≤ extent code := by
  induction code with
  | nil => exact Nat.le_refl 0
  | cons d rest ih =>
    have hcons : instructionCount (d :: rest) = instructionCount rest + if 0 < d.size then 1 else 0 := by
      unfold instructionCount
      rw [List.countP_cons]
      simp only [decide_eq_true_eq]
    rw [hcons, extent]
    split <;> omega

/-- A memory is known by the items on its stack and its heap. -/
theorem memory_eq {m : Memory} {stack : Stack Item} (h : m.stack.toList = stack.toList) :
    m = ⟨stack, m.heap⟩ :=
  congrArg (Memory.mk · m.heap) (Stack.ext h)

/-- Code changes the memory from one to another one, with at most so many items on the way. -/
def Carries (items : Nat) (code : List Directive) (m m' : Memory) : Prop :=
  ∀ ⦃here : Surroundings⦄ ⦃before rest : List Directive⦄ ⦃frame : Frame⦄ ⦃s : State⦄,
    Facing here before (code ++ rest) m frame s → items ≤ s.limits.stack →
    ∃ n t, n ≤ instructionCount code ∧ Advances n s t
      ∧ t = { s with memory := m', address := here.base + extent (before ++ code) }

/-- A machine that has come behind code. -/
theorem Facing.behind {here : Surroundings} {before code rest : List Directive} {m : Memory}
    {frame : Frame} {s : State} (h : Facing here before (code ++ rest) m frame s) (m' : Memory) :
    Facing here (before ++ code) rest m' frame
      { s with memory := m', address := here.base + extent (before ++ code) } where
  script := h.script
  loaded := h.loaded
  code := by rw [h.code, List.append_assoc]
  address := rfl
  memory := rfl
  frames := h.frames

namespace Carries

variable {items : Nat} {code first second : List Directive} {m m' m'' : Memory}

theorem mono {items' : Nat} (h : Carries items code m m') (hle : items ≤ items') :
    Carries items' code m m' :=
  fun _ _ _ _ _ hfacing hitems => h hfacing (Nat.le_trans hle hitems)

theorem nil : Carries items [] m m := by
  intro here before rest frame s h _
  refine ⟨0, s, Nat.le_refl 0, .here, ?_⟩
  rw [List.append_nil, ← h.address, ← h.memory]

theorem append (h : Carries items first m m') (h' : Carries items second m' m'') :
    Carries items (first ++ second) m m'' := by
  intro here before rest frame s hfacing hitems
  rw [List.append_assoc] at hfacing
  obtain ⟨n, t, hn, hadvances, rfl⟩ := h hfacing hitems
  obtain ⟨k, u, hk, hadvances', hu⟩ := h' (hfacing.behind m') hitems
  refine ⟨n + k, u, ?_, hadvances.append hadvances', ?_⟩
  · rw [instructionCount_append]
    omega
  · rw [hu, List.append_assoc]

theorem cons {d : Directive} (h : Carries items [d] m m') (h' : Carries items code m' m'') :
    Carries items (d :: code) m m'' :=
  h.append h'

/-- The mark of a source offset takes no room. -/
theorem mark (source : UInt32) : Carries items [.mark source] m m := by
  intro here before rest frame s h _
  refine ⟨0, s, Nat.zero_le _, .here, ?_⟩
  rw [extent_append, extent_mark, ← extent_append, List.append_nil, ← h.address, ← h.memory]

/-- An instruction that works on the memory alone. -/
theorem simple {i : Instruction} (op : SimpleOp) (hop : operation i.opcode = .simple op)
    (hrun : ∀ address, op.run i address m = .ok () m') (hitems : m'.stack.size ≤ items) :
    Carries items [.instruction i] m m' := by
  intro here before rest frame s h hlimit
  have hexecute := execute_simple (i := ⟨i, s.address⟩) hop s
  rw [h.memory, hrun] at hexecute
  have hstep := step_of_execute h.current hexecute (congrArg some h.address_behind)
    (Nat.le_trans hitems hlimit)
  exact ⟨1, _, Nat.le_of_eq (instructionCount_instruction i).symm, .single hstep, rfl⟩

theorem pushes {d : Directive} {item : Item} (h : Pushes d item) (stack : Stack Item) (heap : Heap)
    (hitems : stack.size < items) : Carries items [d] ⟨stack, heap⟩ ⟨stack.push item, heap⟩ := by
  obtain ⟨i, op, rfl, hop, hrun, -, -⟩ := h.run_eq
  refine .simple op hop (fun address => ?_) hitems
  rw [hrun]
  rfl

theorem pushNat {n : Nat} (hn : n < 2 ^ 64) (stack : Stack Item) (heap : Heap)
    (hitems : stack.size < items) :
    ∃ w : Int128, w.val = n
      ∧ Carries items [.pushNat n] ⟨stack, heap⟩ ⟨stack.push (.integer w), heap⟩ := by
  obtain ⟨w, hw⟩ : ∃ w : Int128, w.val = n := ⟨.ofNat n (by omega), rfl⟩
  exact ⟨w, hw, .pushes (pushes_pushNat hw) stack heap hitems⟩

theorem drop (stack : Stack Item) (item : Item) (heap : Heap) (hitems : stack.size ≤ items) :
    Carries items [.op .drop] ⟨stack.push item, heap⟩ ⟨stack, heap⟩ :=
  .simple (.shuffle .drop) rfl (fun _ => rfl) hitems

/-- The items on top of the stack are packed into a new sequence, the topmost one first. -/
theorem packSequence (isStruct : Bool) {opcode : Opcode}
    (hop : operation opcode = .simple (.compound (.pack isStruct))) (values : List Item)
    (hcount : values.length < 2 ^ 64) (stack : Stack Item) (heap : Heap)
    (hitems : values.length + stack.size < items) :
    Carries items [.pushNat values.length, .op opcode] ⟨stack.pushList values, heap⟩
      ⟨stack.push (if isStruct then .struct heap.sequences.size else .array heap.sequences.size),
        (heap.newSequence values.toArray).2⟩ := by
  obtain ⟨w, hw, hpush⟩ := pushNat hcount (stack.pushList values) heap hitems
  refine hpush.cons (.simple (.compound (.pack isStruct)) hop (fun address => ?_) ?_)
  · show (Eval.popCount >>= fun n => _) address _ = _
    rw [Eval.bind_apply, popCount_push hw hcount]
    show (Eval.popMany values.length >>= fun _ => _) address _ = _
    rw [Eval.bind_apply, Eval.popMany_eq, Stack.popList?_pushList]
    cases isStruct <;> rfl
  · show stack.size + 1 ≤ items
    omega

theorem pack (values : List Item) (hcount : values.length < 2 ^ 64) (stack : Stack Item) (heap : Heap)
    (hitems : values.length + stack.size < items) :
    Carries items [.pushNat values.length, .op .pack] ⟨stack.pushList values, heap⟩
      ⟨stack.push (.array heap.sequences.size), (heap.newSequence values.toArray).2⟩ :=
  packSequence false rfl values hcount stack heap hitems

end Carries

end StackContract.Contract
