import StackContract.Proofs.CoreProgress
import StackContract.Proofs.Sample
/-!
# Runs of core programs

A module of the core runs as its source does. Within large enough limits the image comes to whatever the
source machine comes to, and within any limits it comes to what the source machine comes to unless it
exceeds one of them (`refines_of_build`).

An instruction of the source leaves at most one item and one frame more (`Core.Config.bounded_step`), so
the source run itself tells which limits are large enough.
-/

namespace StackContract.Core

open Machine
open Source (Module)

variable {c : Config} {idioms : Bool} {module : Module} {items frames : Nat}

/-! ## Growth -/

/-- There are at most so many items, and so many methods that wait. -/
def Next.Bounded (items frames : Nat) : Next → Prop
  | .running c => c.memory.stack.size ≤ items ∧ c.callers.length ≤ frames
  | .returned result _ => result.length ≤ items
  | .fault _ => True
  | .stuck => True

theorem Next.Bounded.mono {items' frames' : Nat} {next : Next} (h : next.Bounded items frames)
    (hitems : items ≤ items') (hframes : frames ≤ frames') : next.Bounded items' frames' := by
  cases next with
  | running c => exact ⟨Nat.le_trans h.1 hitems, Nat.le_trans h.2 hframes⟩
  | returned result heap => exact Nat.le_trans h hitems
  | fault kind => trivial
  | stuck => trivial

theorem bounded_follow {α : Type} {x : Eval α} {k : Nat} (hx : Eval.Grows k x) {m : Memory}
    {next : α → Memory → Next} (hnext : ∀ a m', m'.stack.size ≤ m.stack.size + k →
      (next a m').Bounded items frames) : (follow x m next).Bounded items frames := by
  unfold follow
  cases hresult : x 0 m with
  | error fault m' => trivial
  | ok a m' => exact hnext a m' (hx hresult)

theorem grows_truth (expected : Bool) : Eval.Grows 0 (truth expected) :=
  .bind .popBoolean fun _ => .pure _

theorem grows_decision {condition : Source.Condition} {decision : Eval Bool}
    (h : decision? condition = some decision) : Eval.Grows 1 decision := by
  have hcompared : ∀ {opcode : Script.Opcode}, opcode ∈ Contract.coreOpcodes →
      Eval.Grows 1 (compared opcode) := fun hopcode =>
    .bind (Contract.grows_computation hopcode) fun _ => grows_truth true
  cases condition <;> cases h
  case always | leave => exact (Eval.Grows.pure true).mono (Nat.zero_le 1)
  case ifTrue | ifFalse => exact (grows_truth _).mono (Nat.zero_le 1)
  all_goals exact hcompared (by decide)

theorem grows_choice (targets : List UInt32) : Eval.Grows 0 (choice targets) := by
  unfold choice
  split
  · exact .bind .pop fun _ => .pure _
  · exact .bind .popInteger fun _ => .pure _

theorem Config.bounded_jump (target : UInt32) {m : Memory} (hitems : m.stack.size ≤ items)
    (hframes : c.callers.length ≤ frames) : (c.jump target m).Bounded items frames := by
  unfold Config.jump
  split
  · exact ⟨hitems, hframes⟩
  · trivial

theorem Config.bounded_leave (hitems : c.memory.stack.size ≤ items)
    (hframes : c.callers.length ≤ frames) : c.leave.Bounded items frames := by
  unfold Config.leave
  cases hcallers : c.callers with
  | nil => exact Nat.le_trans (Nat.le_of_eq c.memory.stack.size_eq.symm) hitems
  | cons caller callers =>
    rw [hcallers] at hframes
    exact ⟨hitems, Nat.le_of_succ_le hframes⟩

/-- An action leaves at most one item and one method in progress more. -/
theorem Config.bounded_perform {action : Action} (next : Nat)
    (hcompute : ∀ opcode, action = .compute opcode → opcode ∈ Contract.coreOpcodes) :
    (c.perform module next action).Bounded (c.memory.stack.size + 1) (c.callers.length + 1) := by
  have hframes : c.callers.length ≤ c.callers.length + 1 := Nat.le_succ _
  unfold Config.perform
  cases action with
  | skip => exact ⟨Nat.le_succ _, hframes⟩
  | push item => exact bounded_follow (.push item) fun _ _ hsize => ⟨hsize, hframes⟩
  | compute opcode =>
    exact bounded_follow (Contract.grows_computation (hcompute opcode rfl))
      fun _ _ hsize => ⟨hsize, hframes⟩
  | load place index =>
    dsimp only
    split
    · next item _ => exact bounded_follow (.push item) fun _ _ hsize => ⟨hsize, hframes⟩
    · trivial
  | store place index =>
    exact bounded_follow .pop fun _ _ hsize => ⟨Nat.le_succ_of_le hsize, hframes⟩
  | branch condition target =>
    dsimp only
    split
    · trivial
    · next decision hdecision =>
      refine bounded_follow (grows_decision hdecision) fun taken m' hsize => ?_
      split
      · exact Config.bounded_jump target hsize hframes
      · exact ⟨hsize, hframes⟩
  | switch targets =>
    refine bounded_follow (grows_choice targets) fun chosen m' hsize => ?_
    cases chosen with
    | some target => exact Config.bounded_jump target (Nat.le_succ_of_le hsize) hframes
    | none => exact ⟨Nat.le_succ_of_le hsize, hframes⟩
  | call name =>
    dsimp only
    unfold Config.call
    split
    · trivial
    · exact bounded_follow (.popMany _) fun _ _ hsize => ⟨Nat.le_succ_of_le hsize, Nat.le_refl _⟩
  | ret => exact Config.bounded_leave (Nat.le_succ _) hframes
  | throw => exact bounded_follow .pop fun _ _ _ => trivial

/-- An instruction leaves at most one item and one method in progress more. -/
theorem Config.bounded_step :
    (c.step idioms module).Bounded (c.memory.stack.size + 1) (c.callers.length + 1) := by
  unfold Config.step
  split
  · exact Config.bounded_leave (Nat.le_succ _) (Nat.le_succ _)
  · split
    · trivial
    · next action next hactionAt =>
      refine Config.bounded_perform next ?_
      rintro opcode rfl
      exact actionAt?_spec hactionAt

theorem Reaches.bounded {k : Nat} {next next' : Next} (h : Reaches idioms module k next next')
    (hnext : next.Bounded items frames) : next'.Bounded (items + k) (frames + k) := by
  induction h generalizing items frames with
  | here => exact hnext
  | step _ ih =>
    have hstep := ih (Config.bounded_step.mono (Nat.succ_le_succ hnext.1) (Nat.succ_le_succ hnext.2))
    refine hstep.mono ?_ ?_ <;> omega

/-- A run from a machine ends as an outcome of the source says. But for its memory, its frames and its
address, the machine is left as it was. -/
def Outcome.Describes (s : State) : Outcome → EStateM.Result Fault State (List Item) → Prop
  | .returned items heap, .ok result t => result = items ∧ t.memory.heap = heap ∧ s.Keeps t
  | .fault kind, .error f t => f.kind = kind ∧ s.Keeps t
  | _, _ => False

theorem Outcome.Describes.unique {s : State} {outcome outcome' : Outcome}
    {result : EStateM.Result Fault State (List Item)} (h : outcome.Describes s result)
    (h' : outcome'.Describes s result) : outcome = outcome' := by
  cases outcome <;> cases outcome' <;> cases result
  case returned.returned.ok => rw [← h.1, ← h.2.1, h'.1, h'.2.1]
  case fault.fault.error => rw [← h.1, h'.1]
  all_goals first | exact h.elim | exact h'.elim

end StackContract.Core

namespace StackContract.Machine

/-- Limits that are all at least as large. -/
structure Limits.Within (limits larger : Limits) : Prop where
  execution : limits.execution ≤ larger.execution
  recursion : limits.recursion ≤ larger.recursion
  stack : limits.stack ≤ larger.stack

end StackContract.Machine

namespace StackContract.Contract

open Assembly Script Lowering Machine
open StackContract.Core (Config Next Outcome ModuleInCore Executes Reaches)
open Source (Module)

/-! ## Runs of the machine -/

theorem describes_of_keeps {s t : State} (h : s.Keeps t) {outcome : Outcome}
    {result : EStateM.Result Fault State (List Item)} (hdescribes : outcome.Describes t result) :
    outcome.Describes s result := by
  cases outcome <;> cases result
  case returned.ok => exact ⟨hdescribes.1, hdescribes.2.1, h.trans hdescribes.2.2⟩
  case fault.error => exact ⟨hdescribes.1, h.trans hdescribes.2⟩
  all_goals exact hdescribes

section

variable {items frames least most : Nat} {s t : State} {P : State → Prop}

/-- A run goes on where a machine comes to, or ends because of a limit. -/
theorem Comes.loop_or (h : Comes items frames least most s P) (fuel : Nat) :
    Limited (loop fuel s) ∨ ∃ rest t, rest + least ≤ fuel ∧ P t ∧ s.Keeps t
      ∧ loop fuel s = loop rest t := by
  obtain ⟨n, t, hleast, -, hchain, hP⟩ := h
  rcases hchain.loop_or fuel with hlimited | ⟨rest, rfl, hloop⟩
  · exact .inl hlimited
  · exact .inr ⟨rest, t, by omega, hP, hchain.keeps, hloop⟩

/-- Within the limits, a run goes on where a machine comes to. -/
theorem Comes.loop (h : Comes items frames least most s P) (hitems : items ≤ s.limits.stack)
    (hframes : frames ≤ s.limits.recursion) {fuel : Nat} (hfuel : most ≤ fuel) :
    ∃ rest t, fuel ≤ rest + most ∧ P t ∧ s.Keeps t ∧ Machine.loop fuel s = Machine.loop rest t := by
  obtain ⟨n, t, -, hmost, hchain, hP⟩ := h
  obtain ⟨rest, rfl⟩ := Nat.exists_eq_add_of_le (Nat.le_trans hmost hfuel)
  exact ⟨rest, t, by omega, hP, hchain.keeps, hchain.loop hitems hframes rest⟩

theorem describes_of_breaks {kind : FaultKind} (h : Breaks s kind) (fuel : Nat) :
    (Outcome.fault kind).Describes s (loop (fuel + 1) s) := by
  obtain ⟨fault, t, hstep, hkeeps, hkind⟩ := h
  rw [loop_succ, hstep]
  exact ⟨hkind, hkeeps⟩

theorem describes_of_returns (hstep : step s = .ok false t) (hkeeps : s.Keeps t) (fuel : Nat) :
    (Outcome.returned t.memory.stack.toList t.memory.heap).Describes s (loop (fuel + 1) s) := by
  rw [loop_succ, hstep]
  exact ⟨rfl, rfl, hkeeps.trans rfl⟩

end

section

variable {limits : Compile.Limits} {module : Module} {program : Program}
  {image : Image limits module program} {s : State} {c : Config}

/-- Whatever a run comes to, the source machine comes to, unless the run exceeds a limit. -/
theorem Matches.executes (hcore : ModuleInCore module) (fuel : Nat) (h : Matches image c s) :
    Limited (loop fuel s) ∨ ∃ n outcome, Executes true module n (.running c) outcome
      ∧ outcome.Describes s (loop fuel s) := by
  -- strong induction, since a round of the machine may use up more than one unit of fuel
  induction fuel using Nat.strongRecOn generalizing c s with
  | ind fuel ih =>
    obtain ⟨k, next, hpos, hreaches, hanswers⟩ :=
      h.progress hcore (Nat.le_refl _) (Nat.le_refl _)
    cases next with
    | running c' =>
      rcases Comes.loop_or hanswers fuel with hlimited | ⟨rest, t, hrest, hmatches, hkeeps, hloop⟩
      · exact .inl hlimited
      · rw [hloop]
        rcases ih rest hrest hmatches with hlimited | ⟨n, outcome, hexecutes, hdescribes⟩
        · exact .inl hlimited
        · exact .inr ⟨n + k, outcome, hreaches.executes hexecutes,
            describes_of_keeps hkeeps hdescribes⟩
    | returned items heap =>
      -- a return whose result exceeds the stack ends the run at that limit
      obtain ⟨t, ⟨hkeeps, hstep⟩, rfl, rfl⟩ := hanswers
      cases fuel with
      | zero => exact .inl limited_loop_zero
      | succ fuel =>
        rcases hstep with hstep | ⟨hlimited, -⟩
        · exact .inr ⟨0 + k, _, hreaches.executes .returned, describes_of_returns hstep hkeeps fuel⟩
        · exact .inl (limited_loop hlimited)
    | fault kind =>
      rcases Comes.loop_or hanswers fuel with hlimited | ⟨rest, t, -, hbreaks, hkeeps, hloop⟩
      · exact .inl hlimited
      · rw [hloop]
        cases rest with
        | zero => exact .inl limited_loop_zero
        | succ rest => exact .inr ⟨0 + k, _, hreaches.executes .fault,
            describes_of_keeps hkeeps (describes_of_breaks hbreaks rest)⟩
    | stuck => exact hanswers.elim

/-- Within large enough limits, a run comes to what the source machine comes to. -/
theorem Matches.loop (hcore : ModuleInCore module) {n : Nat} {outcome : Outcome}
    (hrun : Executes true module n (.running c) outcome) (h : Matches image c s)
    (hitems : c.memory.stack.size + n + 2 ≤ s.limits.stack)
    (hframes : c.callers.length + n + 2 ≤ s.limits.recursion) {fuel : Nat}
    (hfuel : n * paceOf module < fuel) : outcome.Describes s (loop fuel s) := by
  induction n using Nat.strongRecOn generalizing c s fuel with
  | ind n ih =>
    obtain ⟨k, next, hpos, hreaches, hanswers⟩ : ∃ k next, 0 < k
        ∧ Reaches true module k (.running c) next
        ∧ Answers image s.limits.stack s.limits.recursion (paceOf module) s next :=
      h.progress hcore (by omega) (by omega)
    obtain ⟨m, rfl, hrest⟩ := hreaches.rest hrun
    -- the rounds that remain take no more instructions than their share
    have hpace : paceOf module + m * paceOf module ≤ (m + k) * paceOf module := by
      rw [Nat.add_mul, Nat.add_comm]
      exact Nat.add_le_add_left (Nat.le_mul_of_pos_left _ hpos) _
    -- the source adds at most one item and one frame with each instruction
    have hbounded : next.Bounded (c.memory.stack.size + k) (c.callers.length + k) :=
      hreaches.bounded ⟨Nat.le_refl _, Nat.le_refl _⟩
    cases next with
    | running c' =>
      obtain ⟨rest, t, hfuel', hmatches, hkeeps, hloop⟩ :=
        Comes.loop hanswers (Nat.le_refl _) (Nat.le_refl _) (by omega : paceOf module ≤ fuel)
      -- what is left of the limits is enough for the instructions that are left
      have hgrows : c'.memory.stack.size ≤ _ ∧ c'.callers.length ≤ _ := hbounded
      rw [hloop]
      refine describes_of_keeps hkeeps (ih m (by omega) hrest hmatches ?_ ?_ ?_)
      · rw [hkeeps.limits_eq]
        omega
      · rw [hkeeps.limits_eq]
        omega
      · omega
    | returned items heap =>
      cases hrest
      obtain ⟨t, ⟨hkeeps, hstep⟩, rfl, rfl⟩ := hanswers
      obtain ⟨fuel, rfl⟩ := Nat.exists_eq_succ_of_ne_zero (Nat.ne_zero_of_lt hfuel)
      rcases hstep with hstep | ⟨-, hlimit⟩
      · exact describes_of_returns hstep hkeeps fuel
      · have hsize : t.memory.stack.toList.length ≤ _ := hbounded
        rw [← t.memory.stack.size_eq] at hsize
        omega
    | fault kind =>
      cases hrest
      obtain ⟨rest, t, hfuel', hbreaks, hkeeps, hloop⟩ :=
        Comes.loop hanswers (Nat.le_refl _) (Nat.le_refl _) (by omega : paceOf module ≤ fuel)
      rw [hloop]
      obtain ⟨rest, rfl⟩ := Nat.exists_eq_succ_of_ne_zero (by omega : rest ≠ 0)
      exact describes_of_keeps hkeeps (describes_of_breaks hbreaks rest)
    | stuck => exact hanswers.elim

/-! ## Runs of a method -/

/-- A run of a method takes its arguments off the stack, and goes on as the source does at its start. -/
theorem MethodAt.follows_start (method : MethodAt image) (hscript : s.script = program.script.toArray)
    (arguments : List Item) {items frames : Nat} (hitems : arguments.length ≤ items)
    (hframes : 0 < frames) : Follows items frames 0 1 (s.start method.placed.base arguments)
      (Eval.popMany method.entry.2.params.length 0 ⟨.ofList arguments, s.memory.heap⟩)
      fun taken m t => Matches image ⟨m, .enter method.entry.2 taken, []⟩ t := by
  have hfacing : Facing (method.surroundings []) [] (slotPrologue method.routine.scope.locals
      method.routine.scope.params ++ method.ahead method.routine.segments)
      ⟨.ofList arguments, s.memory.heap⟩ { returnTo := none }
      (s.start method.placed.base arguments) :=
    ⟨hscript, method.isAt.resident.loaded, method.code_eq, rfl, rfl, rfl⟩
  have hfollows : Follows items frames 0 1 _ _ _ := follows_enter hfacing hitems hframes
  rw [method.toNat_params] at hfollows
  cases hpop : Eval.popMany method.entry.2.params.length 0 ⟨.ofList arguments, s.memory.heap⟩ with
  | error fault m =>
    rw [hpop] at hfollows
    exact hfollows
  | ok taken m =>
    rw [hpop] at hfollows
    exact Comes.mono hfollows (Nat.le_refl 0) (Nat.le_refl 1) fun t ht =>
      matches_enter (Eval.popMany_eq_ok hpop).1 .nil ht

theorem MethodAt.run_eq (method : MethodAt image) (hscript : s.script = program.script.toArray)
    (arguments : List Item) : run method.placed.base arguments s
      = Machine.loop s.limits.execution (s.start method.placed.base arguments) := by
  have hinside := method.isAt.resident.loaded.inside
  have hpos : 0 < extent method.routine.code := extent_closing_pos _
  rw [Machine.run_eq, hscript, if_neg (by omega)]

end

/-! ## Modules -/

/-- The code at an address does what a method of the source does. -/
structure Refines (idioms : Bool) (module : Module) (script : Array UInt8) (method : Source.Method)
    (base : Nat) : Prop where
  /-- Whatever the source comes to, the code comes to, if the limits are large enough. -/
  complete : ∀ {n : Nat} {arguments : List Item} {heap : Heap} {outcome : Outcome},
    Executes idioms module n (Core.start method arguments heap) outcome →
    ∃ large : Machine.Limits, ∀ s : State, s.script = script → s.memory.heap = heap →
      large.Within s.limits → outcome.Describes s (run base arguments s)
  /-- Whatever the code comes to, the source comes to, unless a limit is exceeded. -/
  sound : ∀ (arguments : List Item) (s : State), s.script = script →
    Limited (run base arguments s) ∨ ∃ n outcome,
      Executes idioms module n (Core.start method arguments s.memory.heap) outcome
        ∧ outcome.Describes s (run base arguments s)

/-- Large enough limits for a run that takes `n` instructions of the source. -/
def ampleLimits (module : Module) (n items : Nat) : Machine.Limits where
  execution := n * paceOf module + 2
  recursion := n + 2
  stack := items + n + 2

section

variable {limits : Compile.Limits} {module : Module} {program : Program}
  {image : Image limits module program}

theorem MethodAt.complete (method : MethodAt image) (hcore : ModuleInCore module) {n : Nat}
    {arguments : List Item} {heap : Heap} {outcome : Outcome}
    (hrun : Executes true module n (Core.start method.entry.2 arguments heap) outcome) {s : State}
    (hscript : s.script = program.script.toArray) (hheap : s.memory.heap = heap)
    (hlimits : (ampleLimits module n arguments.length).Within s.limits) :
    outcome.Describes s (run method.placed.base arguments s) := by
  subst hheap
  have hstack : arguments.length + n + 2 ≤ s.limits.stack := hlimits.stack
  have hrecursion : n + 2 ≤ s.limits.recursion := hlimits.recursion
  have hexecution : n * paceOf module + 2 ≤ s.limits.execution := hlimits.execution
  -- the start of a method keeps all that a run keeps
  have hkept : s.Keeps (s.start method.placed.base arguments) := rfl
  have hfollows := method.follows_start hscript arguments (Nat.le_of_add_right_le (k := n + 2) hstack)
    (by omega : 0 < s.limits.recursion)
  rw [method.run_eq hscript]
  unfold Core.start Core.follow at hrun
  cases hpop : Eval.popMany method.entry.2.params.length 0 ⟨.ofList arguments, s.memory.heap⟩ with
  | error fault m =>
    rw [hpop] at hfollows hrun
    cases hrun
    -- the arguments are missing, and the prologue faults as the source does
    obtain ⟨rest, t, hfuel, hbreaks, hkeeps, hloop⟩ :=
      Comes.loop hfollows (Nat.le_refl _) (Nat.le_refl _) (by omega : 1 ≤ s.limits.execution)
    obtain ⟨rest, rfl⟩ := Nat.exists_eq_succ_of_ne_zero (by omega : rest ≠ 0)
    rw [hloop]
    exact describes_of_keeps (hkept.trans hkeeps) (describes_of_breaks hbreaks rest)
  | ok taken m =>
    rw [hpop] at hfollows hrun
    have hsize : m.stack.size ≤ arguments.length := Eval.Grows.popMany _ hpop
    obtain ⟨rest, t, hfuel, hmatches, hkeeps, hloop⟩ :=
      Comes.loop hfollows (Nat.le_refl _) (Nat.le_refl _) (by omega : 1 ≤ s.limits.execution)
    rw [hloop]
    refine describes_of_keeps (hkept.trans hkeeps)
      (hmatches.loop hcore hrun ?_ ?_ (by omega : n * paceOf module < rest))
    · rw [(hkept.trans hkeeps).limits_eq]
      show m.stack.size + n + 2 ≤ _
      omega
    · rw [(hkept.trans hkeeps).limits_eq]
      show 0 + n + 2 ≤ _
      omega

theorem MethodAt.sound (method : MethodAt image) (hcore : ModuleInCore module)
    (arguments : List Item) {s : State} (hscript : s.script = program.script.toArray) :
    Limited (run method.placed.base arguments s) ∨ ∃ n outcome,
      Executes true module n (Core.start method.entry.2 arguments s.memory.heap) outcome
        ∧ outcome.Describes s (run method.placed.base arguments s) := by
  have hkept : s.Keeps (s.start method.placed.base arguments) := rfl
  have hfollows := method.follows_start hscript arguments (Nat.le_refl _) Nat.one_pos
  rw [method.run_eq hscript]
  unfold Core.start Core.follow
  cases hpop : Eval.popMany method.entry.2.params.length 0 ⟨.ofList arguments, s.memory.heap⟩ with
  | error fault m =>
    rw [hpop] at hfollows
    rcases Comes.loop_or hfollows s.limits.execution with hlimited | ⟨rest, t, -, hbreaks, hkeeps, hloop⟩
    · exact .inl hlimited
    · rw [hloop]
      cases rest with
      | zero => exact .inl limited_loop_zero
      | succ rest => exact .inr ⟨0, _, .fault,
          describes_of_keeps (hkept.trans hkeeps) (describes_of_breaks hbreaks rest)⟩
  | ok taken m =>
    rw [hpop] at hfollows
    rcases Comes.loop_or hfollows s.limits.execution with hlimited | ⟨rest, t, -, hmatches, hkeeps, hloop⟩
    · exact .inl hlimited
    · rw [hloop]
      rcases hmatches.executes hcore rest with hlimited | ⟨n, outcome, hexecutes, hdescribes⟩
      · exact .inl hlimited
      · exact .inr ⟨n, outcome, hexecutes, describes_of_keeps (hkept.trans hkeeps) hdescribes⟩

end

/-- Every method with a body is in the image, where its code does what its source does. -/
def ModuleRefines (idioms : Bool) (module : Module) (program : Program) : Prop :=
  ∀ entry ∈ declaredBodies module, ∃ base, baseOf? program.methods entry.2.name = some base
    ∧ Refines idioms module program.script.toArray entry.2 base

/-- The source machine comes to one outcome with the same code. -/
theorem Refines.outcome_unique {idioms idioms' : Bool} {module : Module} {script : Array UInt8}
    {method : Source.Method} {base : Nat} (h : Refines idioms module script method base)
    (h' : Refines idioms' module script method base) {n n' : Nat} {arguments : List Item} {heap : Heap}
    {outcome outcome' : Outcome}
    (hrun : Executes idioms module n (Core.start method arguments heap) outcome)
    (hrun' : Executes idioms' module n' (Core.start method arguments heap) outcome') :
    outcome = outcome' := by
  obtain ⟨large, hlarge⟩ := h.complete hrun
  obtain ⟨large', hlarge'⟩ := h'.complete hrun'
  -- limits that are large enough for both runs
  let s : State :=
    { script
      limits := ⟨large.execution + large'.execution, large.recursion + large'.recursion,
        large.stack + large'.stack⟩
      memory := ⟨.empty, heap⟩ }
  have hdescribes := hlarge s rfl rfl ⟨Nat.le_add_right _ _, Nat.le_add_right _ _, Nat.le_add_right _ _⟩
  have hdescribes' := hlarge' s rfl rfl ⟨Nat.le_add_left _ _, Nat.le_add_left _ _, Nat.le_add_left _ _⟩
  exact Outcome.Describes.unique hdescribes hdescribes'

theorem Image.refines {limits : Compile.Limits} {module : Module} {program : Program}
    (image : Image limits module program) (hcore : ModuleInCore module) :
    ModuleRefines true module program := by
  intro entry hentry
  obtain ⟨method, rfl⟩ := image.exists_methodAt hentry
  have hbase := method.isAt.base
  rw [method.isMethod.signature] at hbase
  exact ⟨method.placed.base, hbase,
    fun hrun => ⟨_, fun _ hscript hheap hlimits => method.complete hcore hrun hscript hheap hlimits⟩,
    fun arguments _ hscript => method.sound hcore arguments hscript⟩

/-- The image of a module of the core does what its source does. -/
theorem refines_of_build {limits : Compile.Limits} {module : Module} {contract : Contract}
    (h : build limits module = .ok contract) (hcore : ModuleInCore module) :
    ModuleRefines true module contract.program := by
  obtain ⟨⟨image⟩, -⟩ := image_of_build h
  exact image.refines hcore

theorem sample_inCore : ModuleInCore sample := by
  have hpick : ∀ i ∈ samplePick.body, Core.InCore sample i.op := by
    have hcall : "T::twice" ∈ (declaredBodies sample).map (·.2.name) := by decide
    simpa [samplePick, Core.InCore] using hcall
  have htwice : ∀ i ∈ sampleTwice.body, Core.InCore sample i.op := by
    simp [sampleTwice, Core.InCore, Core.arithmetic?]
  rintro entry (_ | ⟨_, _ | ⟨_, ⟨⟩⟩⟩)
  · exact hpick
  · exact htwice

theorem refines_sample : ∃ contract, build {} sample = .ok contract
    ∧ ModuleRefines true sample contract.program := by
  obtain ⟨contract, h⟩ := build_sample
  exact ⟨contract, h, refines_of_build h sample_inCore⟩

/-- Whether an unassigned slot is not greater than 1. -/
def unassigned : Source.Method where
  name := "T::unassigned"
  displayName := "unassigned"
  isPublic := true
  returnType := .boolean
  locals := [.int32]
  body := [⟨0, .load .locals 0⟩, ⟨1, .literal32 1⟩, ⟨2, .compare .greater⟩, ⟨3, .literal32 0⟩,
    ⟨4, .compare .equal⟩, ⟨5, .ret⟩]

def unassignedModule : Source.Module where
  types := [{ name := "T", methods := [unassigned] }]

theorem unassigned_inCore : ModuleInCore unassignedModule := by
  rintro entry (_ | ⟨_, ⟨⟩⟩)
  show ∀ i ∈ unassigned.body, Core.InCore unassignedModule i.op
  simp [unassigned, Core.InCore]

theorem build_unassigned : ∃ contract, build {} unassignedModule = .ok contract :=
  exists_contract (by decide +kernel)

/-- Without its idioms, the source machine differs: no order holds of null, neither the one that is
negated nor the opposite one. -/
theorem not_refines_without_idioms : ¬ ∀ contract, build {} unassignedModule = .ok contract →
    ModuleInCore unassignedModule → ModuleRefines false unassignedModule contract.program := by
  obtain ⟨contract, hbuild⟩ := build_unassigned
  obtain ⟨⟨image⟩, -⟩ := image_of_build hbuild
  intro h
  have hentry : (_, unassigned) ∈ declaredBodies unassignedModule := List.mem_singleton_self _
  obtain ⟨base, hbase, hrefines⟩ := image.refines unassigned_inCore _ hentry
  obtain ⟨base', hbase', hrefines'⟩ := h contract hbuild unassigned_inCore _ hentry
  cases hbase.symm.trans hbase'
  have hopposite : Executes true unassignedModule 4 (Core.start unassigned [] {})
      (.returned [.boolean false] {}) := .running (.running (.running (.running .returned)))
  have hnegated : Executes false unassignedModule 6 (Core.start unassigned [] {})
      (.returned [.boolean true] {}) :=
    .running (.running (.running (.running (.running (.running .returned)))))
  cases hrefines.outcome_unique hrefines' hopposite hnegated

end StackContract.Contract
