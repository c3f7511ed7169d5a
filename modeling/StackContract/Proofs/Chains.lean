import StackContract.Proofs.Identity
import StackContract.Proofs.Parallel
import StackContract.Proofs.Steps
/-!
# Chains of steps

What the machine does apart from its limits: it goes on from one state to another one unless that
exceeds a limit (`Moves`), and by a chain of such steps from place to place (`Chain`). A run goes along
a chain to its end, or ends on the way with a fault of a limit (`Chain.loop_or`); within large enough
limits it goes to the end (`Chain.loop`).
-/

namespace StackContract.Machine

/-! ## Computations at other addresses -/

/-- Results that are the same but for what faults report. -/
inductive ResultsAgree {α : Type} :
    EStateM.Result Fault Memory α → EStateM.Result Fault Memory α → Prop
  | ok (a : α) (m : Memory) : ResultsAgree (.ok a m) (.ok a m)
  | error {fault fault' : Fault} {m m' : Memory} (h : fault.kind = fault'.kind) :
    ResultsAgree (.error fault m) (.error fault' m')

/-- A computation that has alike results on alike memories does the same at every address. -/
theorem Eval.Alike.agree {α : Type} {x : Eval α} (h : ∀ link, Eval.Alike link Same x x)
    (address address' : Nat) (m : Memory) : ResultsAgree (x address m) (x address' m) := by
  have hself : MemoriesAlike (Link.identity fun _ => True) m m :=
    ⟨itemsAlike_identity fun _ _ => trivial, heapsAlike_identity fun _ _ => trivial⟩
  have hresults : ResultsAlike (Link.identity fun _ => True) Same (x address m) (x address' m) :=
    h _ hself
  generalize x address m = result, x address' m = result' at hresults
  cases hresults with
  | error _ hfault _ => exact .error hfault.1
  | @ok grown a b n n' hle hvalue hmemory =>
    cases hvalue
    obtain ⟨stack, heap⟩ := n
    obtain ⟨stack', heap'⟩ := n'
    have hstack : stack = stack' :=
      Stack.ext (ItemsAlike.eq_of_identity (ItemsAlike.of_identity_le hle hmemory.stack))
    have hheap : heap = heap' := (hmemory.heap.of_identity_le hle).eq_of_identity
    subst hstack hheap
    exact .ok a _

/-! ## Steps apart from the limits -/

/-- The faults that tell of a limit. -/
def FaultKind.isLimit : FaultKind → Bool
  | .executionLimit | .recursionLimit | .stackLimit => true
  | _ => false

/-- A run has ended because of a limit. -/
def Limited {α : Type} (result : EStateM.Result Fault State α) : Prop :=
  ∃ fault t, result = .error fault t ∧ fault.kind.isLimit = true

/-- The other machine is the same but for its memory, its frames and its address. -/
def State.Keeps (s t : State) : Prop :=
  t = { s with memory := t.memory, frames := t.frames, address := t.address }

theorem State.Keeps.limits_eq {s t : State} (h : s.Keeps t) : t.limits = s.limits := by
  have hlimits := congrArg State.limits h
  exact hlimits

theorem State.Keeps.script_eq {s t : State} (h : s.Keeps t) : t.script = s.script := by
  have hscript := congrArg State.script h
  exact hscript

theorem State.Keeps.trans {s t u : State} (h : s.Keeps t) (h' : t.Keeps u) : s.Keeps u := by
  unfold State.Keeps at h h' ⊢
  rw [h] at h'
  exact h'

/-- A machine goes on as another one, unless that one exceeds a limit. -/
structure Moves (s t : State) : Prop where
  keeps : s.Keeps t
  step : step s = .ok true t ∨ (Limited (step s)
    ∧ (s.limits.stack < t.memory.stack.size ∨ s.limits.recursion < t.frames.size))

/-- A machine returns with these items, unless they are more than the limit. -/
structure Returns (s t : State) : Prop where
  keeps : s.Keeps t
  step : step s = .ok false t ∨ (Limited (step s) ∧ s.limits.stack < t.memory.stack.size)

variable {s t u : State} {i : Script.Located} {flow : Flow}

theorem limited_stack {n : Nat} : Limited (.error (.stackLimit n) s : EStateM.Result Fault State Bool) :=
  ⟨_, _, rfl, rfl⟩

theorem moves_of_execute {address : Nat} (hcurrent : s.current = .ok i)
    (hexecute : execute i s = .ok flow u) (hkeeps : s.Keeps u)
    (hdestination : flow.destination i = some address) : Moves s { u with address } := by
  refine ⟨hkeeps.trans rfl, ?_⟩
  rw [step_eq hcurrent, hexecute]
  show settle i flow u = _ ∨ (Limited (settle i flow u) ∧ _)
  rw [settle_eq, hdestination, hkeeps.limits_eq]
  by_cases hstack : s.limits.stack < u.memory.stack.size
  · rw [if_pos hstack]
    exact .inr ⟨limited_stack, .inl hstack⟩
  · rw [if_neg hstack]
    exact .inl rfl

/-- A call enters its target, unless there are too many frames. -/
theorem moves_of_call {target : Nat} (hcurrent : s.current = .ok i) (h : operation i.opcode = .call)
    (htarget : targetOf s.script i = .ok target) (hlt : target < s.script.size) :
    Moves s { s with frames := s.frames.push { returnTo := some i.next }, address := target } := by
  have hexecute := execute_call h htarget hlt
  by_cases hlimit : s.limits.recursion ≤ s.frames.size
  · rw [if_pos hlimit] at hexecute
    refine ⟨rfl, .inr ⟨⟨.recursionLimit s.limits.recursion, s, ?_, rfl⟩, .inr ?_⟩⟩
    · rw [step_eq hcurrent, hexecute]
    · exact Nat.lt_succ_of_le hlimit
  · rw [if_neg hlimit] at hexecute
    exact moves_of_execute hcurrent hexecute rfl rfl

theorem returns_of_execute (hcurrent : s.current = .ok i) (hexecute : execute i s = .ok flow u)
    (hkeeps : s.Keeps u) (hdestination : flow.destination i = none) : Returns s u := by
  refine ⟨hkeeps, ?_⟩
  rw [step_eq hcurrent, hexecute]
  show settle i flow u = _ ∨ (Limited (settle i flow u) ∧ _)
  rw [settle_eq, hdestination, hkeeps.limits_eq]
  by_cases hstack : s.limits.stack < u.memory.stack.size
  · rw [if_pos hstack]
    exact .inr ⟨limited_stack, hstack⟩
  · rw [if_neg hstack]
    exact .inl rfl

theorem step_of_execute_error {fault : Fault} (hcurrent : s.current = .ok i)
    (hexecute : execute i s = .error fault u) : step s = .error fault u := by
  rw [step_eq hcurrent, hexecute]

/-! ## Chains -/

/-- A machine goes on as another one by so many instructions, with at most so many items and frames on
the way. -/
inductive Chain (items frames : Nat) : Nat → State → State → Prop
  | here {s : State} : Chain items frames 0 s s
  | cons {n : Nat} {s t u : State} (h : Moves s t) (hitems : t.memory.stack.size ≤ items)
    (hframes : t.frames.size ≤ frames) (hrest : Chain items frames n t u) :
    Chain items frames (n + 1) s u

variable {items frames n : Nat}

theorem Chain.single (h : Moves s t) (hitems : t.memory.stack.size ≤ items)
    (hframes : t.frames.size ≤ frames) : Chain items frames 1 s t :=
  .cons h hitems hframes .here

theorem Chain.append {k : Nat} (h : Chain items frames n s t) (h' : Chain items frames k t u) :
    Chain items frames (n + k) s u := by
  induction h with
  | here => exact (Nat.zero_add k).symm ▸ h'
  | @cons n s t _ h hitems hframes _ ih =>
    rw [Nat.add_right_comm]
    exact .cons h hitems hframes (ih h')

theorem Chain.keeps (h : Chain items frames n s t) : s.Keeps t := by
  induction h with
  | here => rfl
  | cons h _ _ _ ih => exact h.keeps.trans ih

/-- At the end of a chain, the items and frames are within its bounds if they are at its start. -/
theorem Chain.within (h : Chain items frames n s t) (hitems : s.memory.stack.size ≤ items)
    (hframes : s.frames.size ≤ frames) : t.memory.stack.size ≤ items ∧ t.frames.size ≤ frames := by
  induction h with
  | here => exact ⟨hitems, hframes⟩
  | cons _ hi hf _ ih => exact ih hi hf

/-! ## Runs along chains -/

theorem limited_loop_zero : Limited (loop 0 s) :=
  ⟨_, _, rfl, rfl⟩

/-- A fault of a limit in a step ends the run. -/
theorem limited_loop {fuel : Nat} (h : Limited (step s)) : Limited (loop (fuel + 1) s) := by
  obtain ⟨fault, t, hstep, hlimit⟩ := h
  rw [loop_succ, hstep]
  exact ⟨fault, t, rfl, hlimit⟩

/-- A run goes along a chain to its end, or ends because of a limit. -/
theorem Chain.loop_or (h : Chain items frames n s t) (fuel : Nat) :
    Limited (loop fuel s) ∨ ∃ rest, fuel = n + rest ∧ loop fuel s = loop rest t := by
  induction h generalizing fuel with
  | here => exact .inr ⟨fuel, (Nat.zero_add _).symm, rfl⟩
  | cons h _ _ _ ih =>
    cases fuel with
    | zero => exact .inl limited_loop_zero
    | succ fuel =>
      rcases h.step with hstep | ⟨hlimited, -⟩
      · rw [loop_succ, hstep]
        rcases ih fuel with hlimited | ⟨rest, rfl, hloop⟩
        · exact .inl hlimited
        · exact .inr ⟨rest, by omega, hloop⟩
      · exact .inl (limited_loop hlimited)

/-- Within the limits, a run goes along a chain to its end. -/
theorem Chain.loop (h : Chain items frames n s t) (hitems : items ≤ s.limits.stack)
    (hframes : frames ≤ s.limits.recursion) (fuel : Nat) :
    Machine.loop (n + fuel) s = Machine.loop fuel t := by
  induction h with
  | here => rw [Nat.zero_add]
  | @cons n s t u h hi hf _ ih =>
    have hlimits := h.keeps.limits_eq
    rw [Nat.add_right_comm, loop_succ]
    rcases h.step with hstep | ⟨-, hlimit⟩
    · rw [hstep]
      exact ih (hlimits ▸ hitems) (hlimits ▸ hframes)
    · omega

end StackContract.Machine
