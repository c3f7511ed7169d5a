import StackContract.Proofs.ArgumentOrder
import StackContract.Proofs.Regions
/-!
# Code and its exits

Code that may jump goes on at a source offset or right behind itself (`Exits`). Code in sequence is
left where its last part is left, or at a source offset in front of that.

In a method of an accepted module, the exit of what is written for an instruction is an address of the
script: the one bound to the source offset, or the one of the next instruction (`Image.At.exits`).
-/

namespace StackContract.Contract

open Assembly Script Lowering Machine Number
open Compile (StaticLayout)
open Source (Module)

/-! ## Statement -/

/-- What holds of every method of a program and the code that it is written from. -/
def EveryMethod (limits : Compile.Limits) (module : Module) (program : Program)
    (P : PlacedMethod → Routine → Prop) : Prop :=
  ∃ statics, (∃ events events', StaticLayout.ofModule module limits.staticFields events
      = .ok statics events')
    ∧ ∀ method ∈ program.methods, ∃ routine : Routine, routine.BelongsTo limits module statics
      ∧ Linked (baseOf? program.methods) method.base routine method ∧ P method routine

/-- An address at which control goes on behind the code of a source instruction: the one bound to a
source offset, or else the one of the instruction that follows. -/
def ExitsAt (program : Program) (method : PlacedMethod) (routine : Routine) (before : List Segment)
    (segment : Segment) (exit : Option UInt32) (address : Nat) : Prop :=
  StartsIn program method address ∧ match exit with
    | some target => ∃ bound, method.body.marks.find? target = some bound
        ∧ address = method.base + bound
    | none => address = method.base + routine.addressOf before segment segment.lowered.directives

/-- A machine in front of the code of a source instruction comes behind it, with another memory, and
otherwise as it was. -/
def ComesBehind (method : PlacedMethod) (routine : Routine) (before : List Segment) (segment : Segment)
    (s : State) (m : Memory) : Prop :=
  ∃ n, n ≤ instructionCount segment.lowered.directives ∧ Advances n s { s with
    memory := m
    address := method.base + routine.addressOf before segment segment.lowered.directives }

/-! ## Leaving code -/

/-- The address that control goes on at: that of a source offset, or the one behind what is written. -/
def Surroundings.exit (here : Surroundings) (written : List Directive) : Option UInt32 → Option Nat
  | some target => (markIn target 0 here.code).map (here.base + ·)
  | none => some (here.base + extent written)

/-- In a frame, code changes the memory from one to another one, with at most so many items on the way,
and goes on at a source offset or right behind itself. -/
def Exits (items : Nat) (frame : Frame) (code : List Directive) (m m' : Memory)
    (exit : Option UInt32) : Prop :=
  ∀ ⦃here : Surroundings⦄ ⦃before rest : List Directive⦄ ⦃s : State⦄,
    Facing here before (code ++ rest) m frame s → Closed here.code → items ≤ s.limits.stack →
    ∃ n address, n ≤ instructionCount code ∧ here.exit (before ++ code) exit = some address
      ∧ Advances n s { s with memory := m', address }

section

variable {items : Nat} {here : Surroundings} {frame : Frame}
  {before code rest first second : List Directive} {m m' m'' : Memory} {exit : Option UInt32}
  {target : UInt32} {s : State}

/-- A machine at the start of a source offset is at the address bound to it. -/
theorem Lands.exit_eq (h : Lands here target m frame s) (written : List Directive) :
    here.exit written (some target) = some s.address := by
  obtain ⟨front, after, hfirst, -, hthere⟩ := h
  have hmark : markIn target 0 here.code = some (extent front) :=
    markIn_eq_some_iff.mpr ⟨front, after, hthere.code, hfirst, (Nat.zero_add _).symm⟩
  show (markIn target 0 here.code).map (here.base + ·) = _
  rw [hmark, hthere.address]
  rfl

/-- Straight code is left behind itself. -/
theorem Carries.exits (h : Carries items code m m') (frame : Frame) :
    Exits items frame code m m' none := by
  intro here before rest s hfacing _ hitems
  obtain ⟨n, t, hn, hadvances, rfl⟩ := h hfacing hitems
  exact ⟨n, _, hn, rfl, hadvances⟩

namespace Exits

theorem append (h : Exits items frame first m m' none) (h' : Exits items frame second m' m'' exit) :
    Exits items frame (first ++ second) m m'' exit := by
  intro here before rest s hfacing hclosed hitems
  rw [List.append_assoc] at hfacing
  obtain ⟨n, address, hn, hexit, hadvances⟩ := h hfacing hclosed hitems
  cases hexit
  obtain ⟨k, address', hk, hexit', hadvances'⟩ := h' (hfacing.behind m') hclosed hitems
  rw [List.append_assoc] at hexit'
  refine ⟨n + k, address', ?_, hexit', hadvances.append hadvances'⟩
  rw [instructionCount_append]
  omega

/-- What stands behind code does not matter when the code is left for a source offset. -/
theorem stop (h : Exits items frame first m m' (some target)) (second : List Directive) :
    Exits items frame (first ++ second) m m' (some target) := by
  intro here before rest s hfacing hclosed hitems
  rw [List.append_assoc] at hfacing
  obtain ⟨n, address, hn, hexit, hadvances⟩ := h hfacing hclosed hitems
  refine ⟨n, address, ?_, hexit, hadvances⟩
  rw [instructionCount_append]
  omega

/-- Code that may be left for a source offset, with other code behind it. -/
theorem orElse {taken : Option UInt32} (h : Exits items frame first m m' taken)
    (hnext : taken = none → Exits items frame second m' m' exit) :
    Exits items frame (first ++ second) m m' (taken.or exit) := by
  cases taken with
  | none => exact h.append (hnext rfl)
  | some target => exact h.stop second

theorem load (place : Source.Place) {slot : UInt8} {item : Item} {stack : Stack Item} {heap : Heap}
    (hitem : (itemsOf frame place)[slot.toNat]? = some item) (hitems : stack.size < items) :
    Exits items frame [.load (areaOf place) slot] ⟨stack, heap⟩ ⟨stack.push item, heap⟩ none := by
  intro here before rest s hfacing _ hlimit
  have hexecute := execute_accessLoad s.address (slots_areaOf hfacing.frames place slot) hitem
  have hroom : s.memory.stack.size + 1 ≤ s.limits.stack := by
    rw [hfacing.memory]
    exact Nat.le_trans hitems hlimit
  have hstep := step_of_execute hfacing.current hexecute (congrArg some hfacing.address_behind) hroom
  rw [hfacing.memory] at hstep
  exact ⟨1, _, Nat.le_of_eq (instructionCount_instruction _).symm, rfl, .single hstep⟩

theorem jump (target : UInt32) (hitems : m.stack.size ≤ items) :
    Exits items frame [.jump .jmpL target] m m (some target) := by
  intro here before rest s hfacing hclosed hlimit
  obtain ⟨i, address, hcurrent, hop, -, htarget, hlands⟩ := hfacing.landing hclosed
  have hexecute := execute_jump (by rw [hop]; rfl) htarget
  have hroom : s.memory.stack.size ≤ s.limits.stack := by
    rw [hfacing.memory]
    exact Nat.le_trans hitems hlimit
  have hthere : Lands here target m frame { s with address } := hlands rfl rfl hfacing.memory rfl
  refine ⟨1, address, Nat.le_refl 1, hthere.exit_eq _, .single ?_⟩
  rw [step_of_execute hcurrent hexecute rfl hroom, hfacing.memory]

/-- A conditional jump on a truth value goes to its target, or control goes on behind it. -/
theorem jumpOn (expected : Bool) (target : UInt32) (b : Bool) {stack : Stack Item} {heap : Heap}
    (hitems : stack.size ≤ items) :
    Exits items frame [.jump (if expected then .jmpIfL else .jmpIfNotL) target]
      ⟨stack.push (.boolean b), heap⟩ ⟨stack, heap⟩ (if b = expected then some target else none) := by
  intro here before rest s hfacing hclosed hlimit
  obtain ⟨i, address, hcurrent, hop, hnext, htarget, hlands⟩ := hfacing.landing hclosed
  have hjump : operation i.opcode = .jumpIf expected := by
    rw [hop]
    cases expected <;> rfl
  have hpop : Eval.popBoolean 0 ⟨stack.push (.boolean b), heap⟩ = .ok b ⟨stack, heap⟩ := rfl
  have hexecute := (hfacing.evaluate hcurrent (execute_jumpIf hjump htarget) fun _ => .popBoolean).1 hpop
  have hroom : stack.size ≤ s.limits.stack := Nat.le_trans hitems hlimit
  by_cases htaken : b = expected
  · rw [if_pos htaken] at hexecute ⊢
    have hthere : Lands here target ⟨stack, heap⟩ frame { s with memory := ⟨stack, heap⟩, address } :=
      hlands rfl rfl rfl rfl
    exact ⟨1, address, Nat.le_refl 1, hthere.exit_eq _,
      .single (step_of_execute hcurrent hexecute rfl hroom)⟩
  · rw [if_neg htaken] at hexecute ⊢
    have hbehind := congrArg some (hnext.trans hfacing.address_behind)
    exact ⟨1, _, Nat.le_refl 1, rfl, .single (step_of_execute hcurrent hexecute hbehind hroom)⟩

theorem jumpIf (target : UInt32) (b : Bool) {stack : Stack Item} {heap : Heap}
    (hitems : stack.size ≤ items) : Exits items frame [.jump .jmpIfL target]
      ⟨stack.push (.boolean b), heap⟩ ⟨stack, heap⟩ (if b then some target else none) :=
  jumpOn true target b hitems

/-- The jump over the rest of a switch case goes past it if the truth value is false. -/
theorem skip {next : List Directive} {stack : Stack Item} {heap : Heap} (b : Bool)
    (hnext : 0 < extent next) (hitems : stack.size ≤ items)
    (htrue : b = true →
      Exits items frame ([.op .drop, .jump .jmpL target] ++ next) ⟨stack, heap⟩ m' exit)
    (hfalse : b = false → Exits items frame next ⟨stack, heap⟩ m' exit) :
    Exits items frame ([.instruction skipCase, .op .drop, .jump .jmpL target] ++ next)
      ⟨stack.push (.boolean b), heap⟩ m' exit := by
  intro here before rest s hfacing hclosed hlimit
  rw [List.append_assoc] at hfacing
  have hbehind : 0 < extent (next ++ rest) := by
    rw [extent_append]
    omega
  obtain ⟨htarget, haddress⟩ := hfacing.targetOf_skipCase hbehind
  have hpop : Eval.popBoolean 0 ⟨stack.push (.boolean b), heap⟩ = .ok b ⟨stack, heap⟩ := rfl
  have hjump : operation skipCase.opcode = .jumpIf false := rfl
  have hcurrent := hfacing.current
  have hexecute := (hfacing.evaluate hcurrent (execute_jumpIf hjump htarget) fun _ => .popBoolean).1 hpop
  have hroom : stack.size ≤ s.limits.stack := Nat.le_trans hitems hlimit
  cases b with
  | true =>
    have hstep := step_of_execute hcurrent hexecute (congrArg some hfacing.address_behind) hroom
    -- the rest of the case is next
    have hstay : Facing here before ([.instruction skipCase]
        ++ (([.op .drop, .jump .jmpL target] ++ next) ++ rest)) _ frame s := hfacing
    obtain ⟨n, address, hn, hexit, hadvances⟩ := htrue rfl (hstay.behind ⟨stack, heap⟩) hclosed hlimit
    rw [List.append_assoc] at hexit
    refine ⟨n + 1, address, ?_, hexit, .next hstep hadvances⟩
    show n + 1 ≤ instructionCount ([.instruction skipCase] ++ ([.op .drop, .jump .jmpL target] ++ next))
    rw [instructionCount_append, instructionCount_instruction]
    omega
  | false =>
    have hstep := step_of_execute hcurrent hexecute (congrArg some haddress) hroom
    obtain ⟨n, address, hn, hexit, hadvances⟩ :=
      hfalse rfl (hfacing.behind ⟨stack, heap⟩) hclosed hlimit
    rw [List.append_assoc] at hexit
    refine ⟨n + 1, address, ?_, hexit, .next hstep hadvances⟩
    have hcount : instructionCount [.instruction skipCase, .op .drop, .jump .jmpL target] = 3 := rfl
    rw [instructionCount_append, hcount]
    omega

end Exits

end

/-! ## Code in an image -/

section

variable {limits : Compile.Limits} {module : Module} {program : Program}
  {image : Image limits module program} {routine : Routine} {method : PlacedMethod}
  {before after : List Segment} {segment : Segment} {items : Nat} {frame : Frame} {below : List Frame}
  {m : Memory} {exit : Option UInt32} {s : State}

/-- A machine behind the code of an instruction is in front of the next one. -/
theorem InFrontOf.goesOn (h : InFrontOf program method routine before segment s) (next : Segment)
    (m : Memory) : InFrontOf program method routine (before ++ [segment]) next { s with
      memory := m
      address := method.base + routine.addressOf before segment segment.lowered.directives } := by
  refine ⟨h.script, congrArg (method.base + ·) ?_, h.running⟩
  unfold Routine.addressOf Segment.code
  simp only [List.flatMap_append, List.flatMap_singleton, extent_append, extent_mark, Nat.add_assoc]
  rfl

/-- An instruction of a method has code of its own, unless others cover it. -/
theorem Image.At.exists_segment (hat : image.At routine method) {position : Nat}
    {i : Source.Instruction} (hi : routine.scope.body[position]? = some i)
    (hown : isCovered i.op = false) :
    ∃ before segment after, routine.segments = before ++ segment :: after ∧ segment.position = position
      ∧ segment.source = i ∧ ∃ carry carry',
        (lower routine.scope position i).run carry = .ok (segment.lowered, carry') :=
  (image.lowers hat.routine_mem).exists_segment (Nat.zero_le _) hi hown

/-- A machine in front of the code of an instruction in an image goes on at the exit of the code. Code
that ends with a terminator does not go on behind itself. -/
theorem Image.At.exits (hat : image.At routine method)
    (hsegments : routine.segments = before ++ segment :: after)
    (hfront : InFrontOf program method routine before segment s)
    (hframes : s.frames.toList = frame :: below) (hitems : items ≤ s.limits.stack)
    (hleaves : Exits items frame segment.lowered.directives s.memory m exit)
    (hends : exit = none → ∃ first d, segment.lowered.directives = first ++ [d] ∧ 0 < d.size
      ∧ d.isTerminator = false) :
    ∃ n address, n ≤ instructionCount segment.lowered.directives
      ∧ Advances n s { s with memory := m, address }
      ∧ ExitsAt program method routine before segment exit address := by
  obtain ⟨frame', below', front, hframes', hfacing, hextent⟩ := hfront.facing hat hsegments
  rw [hframes] at hframes'
  cases hframes'
  have hclosed : Closed routine.code := closed_closing routine.directives
  obtain ⟨n, address, hn, hexit, hadvances⟩ := hleaves hfacing hclosed hitems
  refine ⟨n, address, hn, hadvances, ?_⟩
  cases exit with
  | some target =>
    obtain ⟨bound, hbound, rfl⟩ := Option.map_eq_some_iff.mp hexit
    exact ⟨hat.resident.startsIn_start hbound, bound,
      (hat.resident.linked.marks target).trans hbound, rfl⟩
  | none =>
    cases hexit
    refine ⟨?_, congrArg (method.base + ·) (hextent _)⟩
    obtain ⟨first, d, hdirectives, hsize, hfalls⟩ := hends rfl
    have hcode : routine.code = (front ++ segment.lowered.directives)
        ++ (after.flatMap Segment.code ++ routine.close) := by
      rw [List.append_assoc]
      exact hfacing.code
    have hlast : routine.code = (front ++ first)
        ++ d :: (after.flatMap Segment.code ++ routine.close) := by
      rw [hcode, hdirectives]
      simp only [List.append_assoc, List.cons_append, List.nil_append]
    exact hat.resident.startsIn hcode (hclosed.falls hlast hsize hfalls)

/-- A machine in front of straight code in an image comes behind it. -/
theorem Image.At.comesBehind (hat : image.At routine method)
    (hsegments : routine.segments = before ++ segment :: after)
    (hfront : InFrontOf program method routine before segment s) (hitems : items ≤ s.limits.stack)
    (hcarries : Carries items segment.lowered.directives s.memory m) :
    ComesBehind method routine before segment s m := by
  obtain ⟨frame, below, front, -, hfacing, hextent⟩ := hfront.facing hat hsegments
  obtain ⟨n, t, hn, hadvances, rfl⟩ := hcarries hfacing hitems
  rw [hextent] at hadvances
  exact ⟨n, hn, hadvances⟩

/-- What holds of all routines of images holds of the methods of accepted modules. -/
theorem everyMethod_of_build {P : Program → PlacedMethod → Routine → Prop} {contract : Contract}
    (h : build limits module = .ok contract)
    (hP : ∀ (image : Image limits module contract.program) {routine method}, image.At routine method →
      P contract.program method routine) :
    EveryMethod limits module contract.program (P contract.program) := by
  obtain ⟨⟨image⟩, -⟩ := image_of_build h
  refine ⟨image.statics, image.statics_eq, fun method hmethod => ?_⟩
  obtain ⟨routine, hat⟩ := image.exists_at_of_mem hmethod
  have hlinked := hat.resident.linked
  rw [← hlinked.base_eq] at hlinked
  exact ⟨routine, image.mem_all hat.routine_mem, hlinked, hP image hat⟩

end

end StackContract.Contract
