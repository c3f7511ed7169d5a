import StackContract.Proofs.Steps
/-!
# Instructions and their operands

What an instruction does with the items on top of the stack, whatever is below them: behind it the result
lies in the place of the operands, and where there is none, the items below the operands are left
(`State.result`).
-/

namespace StackContract.Machine

open Script Number

/-- The machine with other items on its stack. -/
def State.withStack (s : State) (stack : Stack Item) : State :=
  { s with memory := { s.memory with stack } }

@[simp] theorem State.withStack_stack (s : State) (stack : Stack Item) :
    (s.withStack stack).memory.stack = stack := rfl

/-- The machine behind an instruction whose operands lie on `below`. -/
def State.result (s : State) (below : Stack Item) :
    Except Fault Item → EStateM.Result Fault State Flow
  | .ok item => .ok .next (s.withStack (below.push item))
  | .error fault => .error fault (s.withStack below)

/-- The item on top reads as an integer, and others are below it. -/
def State.HasInteger (s : State) (x : Int128) (below : Stack Item) : Prop :=
  ∃ a : Item, s.memory.stack = below.push a ∧ a.asInteger s.memory.heap = .ok x

/-- The two items on top read as integers, the right one being the topmost. -/
def State.HasIntegers (s : State) (x y : Int128) (below : Stack Item) : Prop :=
  ∃ a b : Item, s.memory.stack = (below.push a).push b ∧ a.asInteger s.memory.heap = .ok x
    ∧ b.asInteger s.memory.heap = .ok y

theorem State.hasInteger_withStack (s : State) (x : Int128) (below : Stack Item) :
    (s.withStack (below.push (.integer x))).HasInteger x below :=
  ⟨.integer x, rfl, rfl⟩

theorem State.hasIntegers_withStack (s : State) (x y : Int128) (below : Stack Item) :
    (s.withStack ((below.push (.integer x)).push (.integer y))).HasIntegers x y below :=
  ⟨.integer x, .integer y, rfl, rfl, rfl⟩

variable {i : Located} {s : State} {below : Stack Item} {x y : Int128}

theorem State.memory_eq {stack : Stack Item} (h : s.memory.stack = stack) :
    s.memory = ⟨stack, s.memory.heap⟩ := by
  rw [← h]

/-- What a computation on the memory leaves behind that pushes a result. -/
def Memory.result (below : Stack Item) (heap : Heap) :
    Except Fault Item → EStateM.Result Fault Memory Unit
  | .ok item => .ok () ⟨below.push item, heap⟩
  | .error fault => .error fault ⟨below, heap⟩

theorem pushResult_eq {α : Type} (x : Except Fault α) (f : α → Item) (address : Nat) (heap : Heap) :
    (Eval.orFault x >>= fun a => Eval.push (f a)) address ⟨below, heap⟩
      = Memory.result below heap (x.map f) := by
  cases x <;> rfl

theorem withMemory_result (result : Except Fault Item) :
    s.withMemory (fun _ => Flow.next) (Memory.result below s.memory.heap result)
      = s.result below result := by
  cases result <;> rfl

theorem execute_unary (op : UnaryOp) (hop : operation i.opcode = .simple (.unary op))
    (h : s.HasInteger x below) : execute i s = s.result below ((op.apply x).map .integer) := by
  obtain ⟨a, hstack, ha⟩ := h
  have hrun : op.run s.address s.memory
      = Memory.result below s.memory.heap ((op.apply x).map .integer) := by
    rw [State.memory_eq hstack]
    show (Eval.popInteger >>= _) s.address ⟨below.push a, s.memory.heap⟩ = _
    rw [Eval.bind_apply, popInteger_push, ha]
    exact pushResult_eq (op.apply x) .integer s.address s.memory.heap
  rw [execute_simple hop]
  show s.withMemory _ (op.run s.address s.memory) = _
  rw [hrun, withMemory_result]

theorem execute_binary (op : BinaryOp) (hop : operation i.opcode = .simple (.binary op))
    (h : s.HasIntegers x y below) : execute i s = s.result below ((op.apply x y).map .integer) := by
  obtain ⟨a, b, hstack, ha, hb⟩ := h
  have hrun : op.run s.address s.memory
      = Memory.result below s.memory.heap ((op.apply x y).map .integer) := by
    rw [State.memory_eq hstack]
    show (Eval.popInteger >>= _) s.address ⟨(below.push a).push b, s.memory.heap⟩ = _
    rw [Eval.bind_apply, popInteger_push, hb]
    show (Eval.popInteger >>= _) s.address ⟨below.push a, s.memory.heap⟩ = _
    rw [Eval.bind_apply, popInteger_push, ha]
    exact pushResult_eq (op.apply x y) .integer s.address s.memory.heap
  rw [execute_simple hop]
  show s.withMemory _ (op.run s.address s.memory) = _
  rw [hrun, withMemory_result]

end StackContract.Machine
