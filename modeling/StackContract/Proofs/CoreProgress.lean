import StackContract.Proofs.CoreStates
/-!
# The code goes on with the source

Where the source machine and the machine of the image match (`Matches`), the source machine goes on by
one instruction, or by the three of a negated comparison, and the machine of the image does what these
do (`Matches.progress`).
-/

/-! ## Negated equalities -/

namespace StackContract.Machine

theorem Relation.test_eq (relation : Relation) (address : Nat) (m : Memory) :
    relation.test address m = match Eval.popInteger address m with
      | .error fault m => .error fault m
      | .ok b m => match Eval.popInteger address m with
        | .error fault m => .error fault m
        | .ok a m => .ok (relation.holds a.val b.val) m := by
  unfold Relation.test
  rw [Eval.bind_apply]
  cases Eval.popInteger address m with
  | error fault m => rfl
  | ok b m =>
    dsimp only
    rw [Eval.bind_apply]
    cases Eval.popInteger address m <;> rfl

/-- Two integers differ where they are not the same. -/
theorem Relation.test_ne (address : Nat) (m : Memory) : Relation.ne.test address m
    = match Relation.eq.test address m with
      | .ok b m => .ok (!b) m
      | .error fault m => .error fault m := by
  rw [Relation.test_eq, Relation.test_eq]
  -- both tests take off the same two operands, and fault alike where there are none
  cases Eval.popInteger address m with
  | error fault m => rfl
  | ok b m =>
    dsimp only
    cases Eval.popInteger address m with
    | error fault m => rfl
    | ok a m =>
      show EStateM.Result.ok (decide (a.val ≠ b.val)) m = .ok (!decide (a.val = b.val)) m
      rw [decide_not]

end StackContract.Machine

namespace StackContract.Core

open Machine Number
open Source (Module Op)
open Compile (ofInt32)

/-- A test of two integers pushes its truth value. -/
theorem computation_test {opcode : Script.Opcode} {relation : Relation}
    (h : simpleOp? opcode = some (.numeric relation)) (m : Memory) : computation opcode 0 m
      = match relation.test 0 m with
        | .ok b m => .ok () { m with stack := m.stack.push (.boolean b) }
        | .error fault m => .error fault m := by
  unfold computation
  rw [h]
  show (relation.test >>= _ : Eval Unit) 0 m = _
  rw [Eval.bind_apply]
  cases relation.test 0 m <;> rfl

theorem eq_of_inline? {body : List Source.Instruction} {position : Nat} {op : Source.Op}
    (h : inline? body position = some op) : ∃ i, body[position]? = some i ∧ i.op = op := by
  unfold inline? at h
  obtain ⟨i, hi, hop⟩ := Option.bind_eq_some_iff.mp h
  split at hop
  · cases hop
  · exact ⟨i, hi, Option.some.inj hop⟩

/-- What follows an equality that is negated. -/
theorem followers_of_isNegated {body : List Source.Instruction} {position : Nat}
    (h : isNegated body position = true) : ∃ zero equal, body[position + 1]? = some zero
      ∧ zero.op = .literal32 0 ∧ body[position + 2]? = some equal ∧ equal.op = .compare .equal
      ∧ inline? body (position + 2) = some (.compare .equal) := by
  unfold isNegated at h
  split at h
  · next v hzero hequal =>
    obtain ⟨zero, hfirst, hop⟩ := eq_of_inline? hzero
    obtain ⟨equal, hsecond, hop'⟩ := eq_of_inline? hequal
    refine ⟨zero, equal, hfirst, ?_, hsecond, hop', hequal⟩
    rw [hop, of_decide_eq_true h]
  · cases h

theorem Config.step_eq {c : Config} {idioms : Bool} {module : Module} {i : Source.Instruction}
    {action : Action} {next : Nat} (hi : c.top.method.body[c.top.position]? = some i)
    (haction : actionAt? idioms c.top.method.body c.top.position i.op = some (action, next)) :
    c.step idioms module = c.perform module next action := by
  unfold Config.step
  rw [hi]
  dsimp only
  rw [haction]

theorem Config.perform_numeric {c : Config} {module : Module} {opcode : Script.Opcode}
    {relation : Relation} (h : simpleOp? opcode = some (.numeric relation)) (next : Nat) :
    c.perform module next (.compute opcode) = follow relation.test c.memory fun b m =>
      c.goTo next { m with stack := m.stack.push (.boolean b) } := by
  show follow (computation opcode) c.memory _ = _
  unfold follow
  rw [computation_test h]
  cases relation.test 0 c.memory <;> rfl

/-- A literal zero and an equality negate the truth value in front of them. -/
theorem reaches_negation {c : Config} {idioms : Bool} {module : Module}
    (h : isNegated c.top.method.body c.top.position = true) (m : Memory) (b : Bool) :
    Reaches idioms module 2
      (c.goTo (c.top.position + 1) { m with stack := m.stack.push (.boolean b) })
      (c.goTo (c.top.position + 3) { m with stack := m.stack.push (.boolean (!b)) }) := by
  obtain ⟨zero, equal, hzero, hzeroOp, hequal, hequalOp, hinline⟩ := followers_of_isNegated h
  -- no conversion takes in the zero: an equality is behind it
  have hliteral : actionAt? idioms c.top.method.body (c.top.position + 1) zero.op
      = some (.push (.integer (ofInt32 0)), c.top.position + 1 + 1) := by
    rw [hzeroOp]
    show some (literal _ _ _ _) = _
    unfold literal
    rw [hinline]
  refine .step ?_
  rw [Config.step_eq hzero hliteral]
  refine .step ?_
  rw [Config.step_eq hequal (by rw [hequalOp]; rfl)]
  show Reaches idioms module 0 (follow (computation .numEqual)
    ⟨(m.stack.push (.boolean b)).push (.integer (ofInt32 0)), m.heap⟩
    fun _ memory => c.goTo (c.top.position + 3) memory) _
  unfold follow
  rw [Contract.computation_numEqual]
  cases b <;> exact .here

/-- An equality and its negation behind it make one inequality. -/
theorem reaches_notEqual {c : Config} {idioms : Bool} {module : Module} {i : Source.Instruction}
    (hi : c.top.method.body[c.top.position]? = some i) (hop : i.op = .compare .equal)
    (h : isNegated c.top.method.body c.top.position = true) :
    ∃ k, 0 < k ∧ Reaches idioms module k (.running c)
      (c.perform module (c.top.position + 3) (.compute .numNotEqual)) := by
  have hfirst : c.step idioms module = c.perform module (c.top.position + 1) (.compute .numEqual) :=
    Config.step_eq hi (by rw [hop]; rfl)
  have heq : simpleOp? .numEqual = some (.numeric .eq) := rfl
  have hne : simpleOp? .numNotEqual = some (.numeric .ne) := rfl
  rw [Config.perform_numeric heq] at hfirst
  rw [Config.perform_numeric hne]
  unfold follow at hfirst ⊢
  rw [Relation.test_ne]
  cases htest : Relation.eq.test 0 c.memory with
  | error fault m =>
    -- operands that are no integers fault in both tests
    rw [htest] at hfirst
    refine ⟨1, Nat.one_pos, .step ?_⟩
    rw [hfirst]
    exact .here
  | ok b m =>
    rw [htest] at hfirst
    refine ⟨3, by decide, .step ?_⟩
    rw [hfirst]
    exact reaches_negation h m b

/-- What an action tells of its instruction. -/
theorem actionAt?_spec {idioms : Bool} {body : List Source.Instruction} {position next : Nat}
    {op : Op} {action : Action} (h : actionAt? idioms body position op = some (action, next)) :
    match action with
    | .branch _ target => op.targets = [target]
    | .switch targets => targets = op.targets
    | .compute opcode => opcode ∈ Contract.coreOpcodes
    | _ => True := by
  -- a literal is pushed as one of two items, depending on the conversion behind it
  have hliteral : ∀ {v : Number.Int128} {bits : Nat}, literal body position v bits = (action, next) →
      ∃ item, action = .push item := by
    intro v bits hequal
    unfold literal at hequal
    split at hequal <;> exact ⟨_, (congrArg Prod.fst hequal).symm⟩
  cases op with
  | nop | ret | throw | loadString _ | load _ _ | store _ _ | convert _ =>
    cases h
    trivial
  | pop | dup =>
    cases h
    show _ ∈ Contract.coreOpcodes
    decide
  | branch condition target | switch targets =>
    cases h
    rfl
  | literal32 v | literal64 v =>
    obtain ⟨item, rfl⟩ := hliteral (Option.some.inj h)
    trivial
  | arithmetic operation =>
    cases operation <;> cases h <;> (show _ ∈ Contract.coreOpcodes; decide)
  | compare comparison =>
    cases comparison with
    | equal =>
      cases h
      show _ ∈ Contract.coreOpcodes
      decide
    | greater =>
      have h : (if _ then some (Action.compute .le, _) else some (.compute .gt, _))
          = some (action, next) := h
      split at h <;> cases h <;> (show _ ∈ Contract.coreOpcodes; decide)
    | less =>
      have h : (if _ then some (Action.compute .ge, _) else some (.compute .lt, _))
          = some (action, next) := h
      split at h <;> cases h <;> (show _ ∈ Contract.coreOpcodes; decide)
    | _ => cases h
  | call callee =>
    cases callee <;> cases h
    trivial
  | _ => cases h

end StackContract.Core

namespace StackContract.Contract

open Assembly Script Lowering Machine
open StackContract.Core (Activation Config Next Action ModuleInCore Reaches actionAt? follow choice)
open Source (Module)

variable {limits : Compile.Limits} {module : Module} {program : Program}
  {image : Image limits module program}

/-! ## Matching states -/

/-- A method in progress, and its frame in the machine of the image, at a gap of the method. -/
structure Stands (method : MethodAt image) (before after : List Segment) (carry : Carry)
    (activation : Activation) (frame : Frame) : Prop where
  gap : Gap method before after activation.position carry
  method_eq : activation.method = method.entry.2
  locals : frame.locals = activation.locals
  arguments : frame.arguments = activation.arguments
  sized : Sized method.routine.scope frame
  /-- There is code behind the gap. -/
  ahead : 0 < extent (method.ahead after)

/-- The frames of the methods in progress, the innermost at an address. -/
inductive Stacked (image : Image limits module program) :
    Option Nat → List Activation → List Frame → Prop
  | nil : Stacked image none [] []
  | cons {method : MethodAt image} {before after : List Segment} {carry : Carry}
    {activation : Activation} {frame : Frame} {activations : List Activation} {frames : List Frame}
    (h : Stands method before after carry activation frame)
    (hrest : Stacked image frame.returnTo activations frames) :
    Stacked image (some (method.placed.base + extent (method.written before)))
      (activation :: activations) (frame :: frames)

theorem Stacked.length_eq {address : Option Nat} {activations : List Activation}
    {frames : List Frame} (h : Stacked image address activations frames) :
    frames.length = activations.length := by
  induction h with
  | nil => rfl
  | cons _ _ ih => rw [List.length_cons, List.length_cons, ih]

theorem Stacked.isSome_eq {address : Option Nat} {activations : List Activation}
    {frames : List Frame} (h : Stacked image address activations frames) :
    address.isSome = !activations.isEmpty := by
  cases h <;> rfl

/-- The machine of an image is where the source machine is. -/
structure Matches (image : Image limits module program) (c : Config) (s : State) : Prop where
  script : s.script = program.script.toArray
  memory : s.memory = c.memory
  stacked : Stacked image (some s.address) (c.top :: c.callers) s.frames.toList

section

variable {method : MethodAt image} {before after : List Segment} {carry : Carry}
  {activation : Activation} {callers : List Activation} {frame : Frame} {below : List Frame}
  {m : Memory} {s : State}

theorem MethodAt.loaded (method : MethodAt image) (below : List Frame) :
    Loaded (method.surroundings below).script (method.surroundings below).bases
      (method.surroundings below).base (method.surroundings below).code :=
  method.isAt.resident.loaded

/-- The next gap, in front of the next instruction. -/
theorem Stands.next {segment : Segment}
    (h : Stands method before (segment :: after) carry activation frame)
    (hahead : 0 < extent (method.ahead after)) : ∃ carry', Stands method (before ++ [segment]) after
      carry' { activation with position := activation.position + 1 + segment.lowered.consumed }
      frame := by
  obtain ⟨carry', hnext⟩ := h.gap.next
  exact ⟨carry', hnext, h.method_eq, h.locals, h.arguments, h.sized, hahead⟩

theorem Stands.itemsOf_eq (h : Stands method before after carry activation frame)
    (place : Source.Place) : itemsOf frame place = activation.slots place := by
  cases place
  · exact h.locals
  · exact h.arguments

/-- With other items in the slots of a place. -/
theorem Stands.withSlots (h : Stands method before after carry activation frame)
    (place : Source.Place) {items : Array Item} (hsize : items.size = (itemsOf frame place).size) :
    Stands method before after carry (activation.withSlots place items)
      (withItems frame place items) := by
  -- the gap only depends on the position, so it stays
  have hsized := sized_withItems h.sized (hsize.trans (size_itemsOf h.sized place))
  cases place
  · exact ⟨h.gap, h.method_eq, rfl, h.arguments, hsized, h.ahead⟩
  · exact ⟨h.gap, h.method_eq, h.locals, rfl, hsized, h.ahead⟩

/-- A machine in front of the code behind a gap. -/
theorem matches_of_facing
    (h : Facing (method.surroundings below) (method.written before) (method.ahead after) m frame s)
    (hstands : Stands method before after carry activation frame)
    (hbelow : Stacked image frame.returnTo callers below) :
    Matches image ⟨m, activation, callers⟩ s where
  script := h.script
  memory := h.memory
  stacked := by
    rw [h.frames, h.address]
    exact .cons hstands hbelow

theorem Matches.facing {c : Config} (h : Matches image c s) :
    ∃ (method : MethodAt image) (before after : List Segment) (carry : Carry) (frame : Frame)
      (below : List Frame), Stands method before after carry c.top frame
        ∧ Stacked image frame.returnTo c.callers below
        ∧ Facing (method.surroundings below) (method.written before) (method.ahead after) c.memory
          frame s := by
  obtain ⟨hscript, hmemory, hstacked⟩ := h
  -- in terms of variables, so that the stack of methods can be taken apart
  generalize haddress : some s.address = address, hframes : s.frames.toList = frames,
    hactivations : c.top :: c.callers = activations at hstacked
  cases hstacked with
  | nil => cases hactivations
  | @cons method before after carry _ frame _ below hstands hbelow =>
    obtain ⟨rfl, rfl⟩ := List.cons.inj hactivations
    exact ⟨method, before, after, carry, frame, below, hstands, hbelow, hscript, method.loaded below,
      hstands.gap.code, Option.some.inj haddress, hmemory, hframes⟩

end

/-! ## Actions -/

/-- What the machine of the image does where the source machine goes on as `next`. -/
def Answers (image : Image limits module program) (items frames most : Nat) (s : State) :
    Next → Prop
  | .running c => Comes items frames 1 most s (Matches image c)
  | .returned result heap =>
    ∃ t, Returns s t ∧ t.memory.stack.toList = result ∧ t.memory.heap = heap
  | .fault kind => Comes items frames 0 most s (Breaks · kind)
  | .stuck => False

/-- A machine that follows a computation comes to where the source machine goes on with its result. -/
theorem answers_follow {α : Type} {x : Eval α} {next : α → Memory → Next} {items frames most : Nat}
    {m : Memory} {s : State} {R : α → Memory → State → Prop}
    (h : Follows items frames 1 most s (x 0 m) R)
    (hnext : ∀ a m' t, x 0 m = .ok a m' → R a m' t →
      ∃ c, next a m' = .running c ∧ Matches image c t) :
    Answers image items frames most s (follow x m next) := by
  unfold follow
  generalize x 0 m = result at h hnext
  cases result with
  | error fault m' => exact h
  | ok a m' =>
    obtain ⟨n, t, hleast, hmost, hchain, hR⟩ := h
    obtain ⟨c, hrunning, hmatches⟩ := hnext a m' t rfl hR
    show Answers image items frames most s (next a m')
    rw [hrunning]
    exact ⟨n, t, hleast, hmost, hchain, hmatches⟩

/-- An instruction is due: the machine of the image is in front of what is written for it. -/
structure Due (method : MethodAt image) (before : List Segment) (segment : Segment)
    (after : List Segment) (carry : Carry) (c : Config) (frame : Frame) (below : List Frame)
    (s : State) : Prop where
  stands : Stands method before (segment :: after) carry c.top frame
  stacked : Stacked image frame.returnTo c.callers below
  facing : Facing (method.surroundings below) (method.written before ++ [.mark segment.source.offset])
    (segment.lowered.directives ++ method.ahead after) c.memory frame s

namespace Due

variable {method : MethodAt image} {before after : List Segment} {segment : Segment} {carry : Carry}
  {c : Config} {frame : Frame} {below : List Frame} {m : Memory} {s t : State} {items frames : Nat}

/-- Behind an instruction that is no terminator there is code. -/
theorem reached (h : Due method before segment after carry c frame below s) (front : List Directive)
    {last : Directive} (hcode : segment.lowered.directives = front ++ [last]) (hsize : 0 < last.size)
    (hterminator : last.isTerminator = false) : 0 < extent (method.ahead after) := by
  have hsplit : (method.surroundings below).code = (method.written before
      ++ [.mark segment.source.offset] ++ front) ++ last :: method.ahead after := by
    rw [h.facing.code, hcode, ← List.append_assoc, ← List.append_assoc, List.append_assoc _ [last]]
    rfl
  exact (method.closed below).falls hsplit hsize hterminator

/-- Where the next instruction is due. -/
theorem goTo (h : Due method before segment after carry c frame below s)
    (hahead : 0 < extent (method.ahead after))
    (hfacing : Facing (method.surroundings below)
      (method.written before ++ [.mark segment.source.offset] ++ segment.lowered.directives)
      (method.ahead after) m frame t) :
    Matches image { c with
      memory := m
      top := { c.top with position := c.top.position + 1 + segment.lowered.consumed } } t := by
  obtain ⟨carry', hstands⟩ := h.stands.next hahead
  rw [← Gap.written_next] at hfacing
  exact matches_of_facing hfacing hstands h.stacked

/-- A jump leads to the gap in front of the first instruction with the offset. -/
theorem landing (h : Due method before segment after carry c frame below s)
    (hcore : ModuleInCore module) {target : UInt32} (htarget : target ∈ segment.source.op.targets)
    (hlands : Lands (method.surroundings below) target m frame t) :
    ∃ c', c.jump target m = .running c' ∧ Matches image c' t := by
  have hbranch : Core.isTarget method.entry.2.body target = true := by
    refine List.any_eq_true.mpr ⟨segment.source, ?_, List.contains_iff_mem.mpr htarget⟩
    exact List.mem_of_getElem? h.stands.gap.instruction.1
  obtain ⟨front, rest, hfirst, hpos, hthere⟩ := hlands
  obtain ⟨position, before', after', carry', hposition, hgap, hextent, hahead⟩ :=
    method.gap_of_mark hcore hbranch hthere.code hfirst hpos
  refine ⟨{ c with memory := m, top := { c.top with position } }, ?_, ?_⟩
  · unfold Config.jump Config.goTo
    rw [h.stands.method_eq, hposition]
  · refine matches_of_facing ⟨hthere.script, hthere.loaded, hgap.code, ?_, hthere.memory,
      hthere.frames⟩ ⟨hgap, h.stands.method_eq, h.stands.locals, h.stands.arguments, h.stands.sized,
        hahead⟩ h.stacked
    rw [hthere.address, hextent]

/-- An instruction that works on the memory alone. -/
theorem compute (h : Due method before segment after carry c frame below s) {x : Eval Unit}
    {d : Directive} (hcode : segment.lowered.directives = [d]) (hsize : 0 < d.size)
    (hterminator : d.isTerminator = false)
    (hfollows : Follows items frames 1 1 s (x 0 c.memory) fun _ m' => Facing (method.surroundings below)
      (method.written before ++ [.mark segment.source.offset] ++ [d]) (method.ahead after) m' frame) :
    Answers image items frames 1 s (follow x c.memory fun _ m' =>
      c.goTo (c.top.position + 1 + segment.lowered.consumed) m') := by
  refine answers_follow hfollows fun _ m' t _ ht => ⟨_, rfl, ?_⟩
  rw [← hcode] at ht
  exact h.goTo (h.reached [] hcode hsize hterminator) ht

/-- In front of the one directive that is written for an instruction. -/
theorem facing_single (h : Due method before segment after carry c frame below s) {d : Directive}
    (hcode : segment.lowered.directives = [d]) : Facing (method.surroundings below)
      (method.written before ++ [.mark segment.source.offset]) (d :: method.ahead after) c.memory
      frame s := by
  have hfacing := h.facing
  rw [hcode] at hfacing
  exact hfacing

theorem push (h : Due method before segment after carry c frame below s) {d : Directive} {item : Item}
    (hcode : segment.lowered.directives = [d]) (hpushes : Pushes d item)
    (hitems : c.memory.stack.size + 2 ≤ items) (hframes : below.length + 2 ≤ frames) :
    Answers image items frames 1 s
      (c.perform module (c.top.position + 1 + segment.lowered.consumed) (.push item)) := by
  obtain ⟨i, _, rfl, -, -, hterminator, -⟩ := id hpushes.run_eq
  exact h.compute hcode i.size_pos hterminator
    (follows_push hpushes (h.facing_single hcode) (Nat.le_of_succ_le hitems) (Nat.lt_of_succ_lt hframes))

theorem opcode (h : Due method before segment after carry c frame below s) {opcode : Opcode}
    (hcode : segment.lowered.directives = [.op opcode]) (hopcode : opcode ∈ coreOpcodes)
    (hitems : c.memory.stack.size + 2 ≤ items) (hframes : below.length + 2 ≤ frames) :
    Answers image items frames 1 s
      (c.perform module (c.top.position + 1 + segment.lowered.consumed) (.compute opcode)) := by
  obtain ⟨_, hop, -⟩ := exists_simpleOp hopcode
  exact h.compute hcode (Instruction.size_pos _) (isTerminator_of_simple hop)
    (follows_compute hopcode (h.facing_single hcode) (Nat.le_of_succ_le hitems)
      (Nat.lt_of_succ_lt hframes))

theorem load (h : Due method before segment after carry c frame below s) {place : Source.Place}
    {index : UInt16} {slot : UInt8} (hcode : segment.lowered.directives = [.load (areaOf place) slot])
    (hslot : slot.toNat = index.toNat)
    (hdeclared : slot.toNat < (method.routine.scope.declared place).toNat)
    (hitems : c.memory.stack.size + 2 ≤ items) (hframes : below.length + 2 ≤ frames) :
    Answers image items frames 1 s
      (c.perform module (c.top.position + 1 + segment.lowered.consumed) (.load place index)) := by
  have hsize := size_itemsOf h.stands.sized place
  have hitem : (itemsOf frame place)[slot.toNat]? = some (itemsOf frame place)[slot.toNat] :=
    Array.getElem?_eq_getElem (by omega)
  have hthere : (c.top.slots place)[index.toNat]? = some (itemsOf frame place)[slot.toNat] := by
    rw [← h.stands.itemsOf_eq, ← hslot]
    exact hitem
  rw [Config.perform_load hthere]
  exact h.compute hcode (Instruction.size_pos _) (isTerminator_access _)
    (follows_load (h.facing_single hcode) hitem (Nat.le_of_succ_le hitems) (Nat.lt_of_succ_lt hframes))

theorem store (h : Due method before segment after carry c frame below s) {place : Source.Place}
    {index : UInt16} {slot : UInt8} (hcode : segment.lowered.directives = [.store (areaOf place) slot])
    (hslot : slot.toNat = index.toNat)
    (hdeclared : slot.toNat < (method.routine.scope.declared place).toNat)
    (hitems : c.memory.stack.size + 2 ≤ items) (hframes : below.length + 2 ≤ frames) :
    Answers image items frames 1 s
      (c.perform module (c.top.position + 1 + segment.lowered.consumed) (.store place index)) := by
  have hsize := size_itemsOf h.stands.sized place
  have hfollows := follows_store (h.facing_single hcode) (by omega)
    (by omega : c.memory.stack.size ≤ items) (Nat.lt_of_succ_lt hframes)
  refine answers_follow hfollows fun item m' t _ ht => ⟨_, rfl, ?_⟩
  obtain ⟨carry', hstands⟩ := h.stands.next
    (h.reached [] hcode (Instruction.size_pos _) (isTerminator_access _))
  rw [← hcode, ← Gap.written_next, hslot, h.stands.itemsOf_eq] at ht
  have hsame : ((c.top.slots place).setIfInBounds index.toNat item).size = (itemsOf frame place).size := by
    rw [Array.size_setIfInBounds, h.stands.itemsOf_eq]
  have hmatches := matches_of_facing ht (hstands.withSlots place hsame)
    (returnTo_withItems frame place _ ▸ h.stacked)
  cases place <;> exact hmatches

/-! ### Branches -/

/-- A branch goes where its decision leads. -/
theorem branch (h : Due method before segment after carry c frame below s)
    (hcore : ModuleInCore module) {condition : Source.Condition} {target : UInt32} {decision : Eval Bool}
    (hdecision : Core.decision? condition = some decision) (htarget : target ∈ segment.source.op.targets)
    {most : Nat} (hfollows : Follows items frames 1 most s (decision 0 c.memory) fun taken m' t =>
      if taken then Lands (method.surroundings below) target m' frame t
      else 0 < extent (method.ahead after) ∧ Facing (method.surroundings below)
        (method.written before ++ [.mark segment.source.offset] ++ segment.lowered.directives)
        (method.ahead after) m' frame t) :
    Answers image items frames most s
      (c.perform module (c.top.position + 1 + segment.lowered.consumed) (.branch condition target)) := by
  rw [Config.perform_branch hdecision]
  refine answers_follow hfollows fun taken m' t _ ht => ?_
  cases taken with
  | true => exact h.landing hcore htarget ht
  | false => exact ⟨_, rfl, h.goTo ht.1 ht.2⟩

theorem jump (h : Due method before segment after carry c frame below s)
    (hcore : ModuleInCore module) {condition : Source.Condition} {target : UInt32}
    (hcode : segment.lowered.directives = [.jump .jmpL target])
    (hdecision : Core.decision? condition = some (return true))
    (htarget : target ∈ segment.source.op.targets)
    (hitems : c.memory.stack.size + 2 ≤ items) (hframes : below.length + 2 ≤ frames) :
    Answers image items frames 1 s
      (c.perform module (c.top.position + 1 + segment.lowered.consumed) (.branch condition target)) := by
  refine h.branch hcore hdecision htarget ?_
  obtain ⟨t, hmoves, hlands⟩ := (h.facing_single hcode).jump (method.closed below)
  obtain ⟨_, _, -, -, hthere⟩ := id hlands
  exact hthere.single hmoves (by omega) (Nat.lt_of_succ_lt hframes) hlands

theorem jumpIf (h : Due method before segment after carry c frame below s)
    (hcore : ModuleInCore module) {condition : Source.Condition} {target : UInt32} {expected : Bool}
    (hcode : segment.lowered.directives = [.jump (if expected then .jmpIfL else .jmpIfNotL) target])
    (hdecision : Core.decision? condition = some (Core.truth expected))
    (htarget : target ∈ segment.source.op.targets)
    (hitems : c.memory.stack.size + 2 ≤ items) (hframes : below.length + 2 ≤ frames) :
    Answers image items frames 1 s
      (c.perform module (c.top.position + 1 + segment.lowered.consumed) (.branch condition target)) := by
  refine h.branch hcore hdecision htarget ?_
  have hahead : 0 < extent (method.ahead after) :=
    h.reached [] hcode (Nat.succ_pos _) (by cases expected <;> rfl)
  refine (follows_truth (h.facing_single hcode) (method.closed below) (by omega)
    (Nat.lt_of_succ_lt hframes)).mono (Nat.le_refl 1) (Nat.le_refl 1) fun taken m' t ht => ?_
  cases taken with
  | true => exact ht
  | false =>
    rw [hcode]
    exact ⟨hahead, ht⟩

theorem jumpCompare (h : Due method before segment after carry c frame below s)
    (hcore : ModuleInCore module) {condition : Source.Condition} {target : UInt32} {opcode : Opcode}
    (hcode : segment.lowered.directives = [.op opcode, .jump .jmpIfL target])
    (hdecision : Core.decision? condition = some (Core.compared opcode)) (hopcode : opcode ∈ coreOpcodes)
    (htarget : target ∈ segment.source.op.targets)
    (hitems : c.memory.stack.size + 2 ≤ items) (hframes : below.length + 2 ≤ frames) :
    Answers image items frames 2 s
      (c.perform module (c.top.position + 1 + segment.lowered.consumed) (.branch condition target)) := by
  refine h.branch hcore hdecision htarget ?_
  have hahead : 0 < extent (method.ahead after) :=
    h.reached [.op opcode] hcode (Nat.succ_pos _) rfl
  have hfacing := h.facing
  rw [hcode] at hfacing ⊢
  refine (follows_compared hopcode hfacing (method.closed below) (by omega)
    (Nat.lt_of_succ_lt hframes)).mono (by decide) (Nat.le_refl 2) fun taken m' t ht => ?_
  cases taken with
  | true => exact ht
  | false =>
    refine ⟨hahead, ?_⟩
    rw [List.append_assoc _ [_] [_]] at ht
    exact ht

theorem mem_of_choice {targets : List UInt32} {target : UInt32} {address : Nat} {m m' : Memory}
    (h : choice targets address m = .ok (some target) m') : target ∈ targets := by
  unfold choice at h
  split at h
  · obtain ⟨_, _, -, hnone⟩ := bind_eq_ok (x := Eval.pop address) h
    cases hnone
  · obtain ⟨v, _, -, hsome⟩ := bind_eq_ok (x := Eval.popInteger address) h
    have hchosen : (if 0 ≤ v.val then targets[v.val.toNat]? else none) = some target := by
      injection hsome
    split at hchosen
    · exact List.mem_of_getElem? hchosen
    · cases hchosen

theorem switch (h : Due method before segment after carry c frame below s)
    (hcore : ModuleInCore module) {targets : List UInt32}
    (hcode : segment.lowered.directives = lowerSwitch targets) (hlength : targets.length < 2 ^ 127)
    (htargets : targets = segment.source.op.targets)
    (hitems : c.memory.stack.size + 2 ≤ items) (hframes : below.length + 2 ≤ frames) :
    Answers image items frames (4 * targets.length + 2) s
      (c.perform module (c.top.position + 1 + segment.lowered.consumed) (.switch targets)) := by
  have hahead : 0 < extent (method.ahead after) := h.reached _ hcode (Nat.succ_pos _) rfl
  have hfacing := h.facing
  rw [hcode] at hfacing
  have hfollows := follows_switch hlength hfacing (method.closed below) hitems
    (Nat.lt_of_succ_lt hframes)
  refine answers_follow hfollows fun chosen m' t hchoice ht => ?_
  cases chosen with
  | none =>
    rw [← hcode] at ht
    exact ⟨_, rfl, h.goTo hahead ht⟩
  | some target => exact h.landing hcore (htargets ▸ mem_of_choice hchoice) ht

/-! ### Calls and returns -/

/-- A throw faults, with whatever it throws. -/
theorem throw (h : Due method before segment after carry c frame below s)
    (hcode : segment.lowered.directives = [.op .throw]) (next : Nat) :
    Answers image items frames 1 s (c.perform module next .throw) := by
  show Answers image items frames 1 s (follow Eval.pop c.memory fun _ _ => .fault .thrown)
  unfold follow
  cases hpop : Eval.pop 0 c.memory with
  | ok item m' => exact .here (((h.facing_single hcode).raise rfl).1 hpop)
  | error fault m' => exact .here (((h.facing_single hcode).raise rfl).2 hpop)

end Due

/-- A return leads to the caller, or ends the run. -/
theorem answers_leave {here : Surroundings} {before rest : List Directive} {c : Config} {frame : Frame}
    {s : State} {items frames : Nat} (hscript : here.script = program.script.toArray)
    (hstacked : Stacked image frame.returnTo c.callers here.below)
    (hfacing : Facing here before (.op .ret :: rest) c.memory frame s)
    (hitems : c.memory.stack.size ≤ items) (hframes : here.below.length ≤ frames) :
    Answers image items frames 1 s c.leave := by
  unfold Config.leave
  -- the frame returns somewhere if and only if a method is waiting
  have hreturn := hstacked.isSome_eq
  cases hcallers : c.callers with
  | nil =>
    rw [hcallers] at hreturn
    have hnone := Option.not_isSome_iff_eq_none.mp (Bool.eq_false_iff.mp hreturn)
    obtain ⟨t, hreturns, hmemory⟩ := hfacing.ret.2 hnone
    exact ⟨t, hreturns, by rw [hmemory], by rw [hmemory]⟩
  | cons caller callers =>
    rw [hcallers] at hreturn hstacked
    obtain ⟨a, ha⟩ := Option.isSome_iff_exists.mp hreturn
    obtain ⟨t, hmoves, hmemory, haddress, hbelow⟩ := hfacing.ret.1 ha
    refine ⟨1, t, Nat.le_refl 1, Nat.le_refl 1, .single hmoves ?_ ?_, ?_, hmemory, ?_⟩
    · rw [hmemory]
      exact hitems
    · rw [t.frames.size_eq, hbelow]
      exact hframes
    · rw [hmoves.keeps.script_eq, hfacing.script, hscript]
    · rw [haddress, hbelow, ← ha]
      exact hstacked

/-- A method that is entered stands at its first gap. -/
theorem stands_enter (method : MethodAt image) {returnTo : Option Nat} {arguments : List Item}
    (harguments : arguments.length = method.entry.2.params.length) :
    Stands method [] method.routine.segments {} (.enter method.entry.2 arguments)
      ⟨returnTo, Array.replicate method.routine.scope.locals.toNat .null, arguments.toArray⟩ where
  gap := method.gap_first
  method_eq := rfl
  locals := by
    rw [method.toNat_locals]
    rfl
  arguments := rfl
  sized := by
    refine ⟨Array.size_replicate, ?_⟩
    rw [List.size_toArray, harguments, method.toNat_params]
  ahead := method.ahead_first

/-- A method that is entered matches the source machine at its start. -/
theorem matches_enter {method : MethodAt image} {returnTo : Option Nat} {arguments : List Item}
    {callers : List Activation} {below : List Frame} {m : Memory} {s : State}
    (harguments : arguments.length = method.entry.2.params.length)
    (hstacked : Stacked image returnTo callers below)
    (h : Facing (method.surroundings below)
      (slotPrologue method.routine.scope.locals method.routine.scope.params)
      (method.ahead method.routine.segments) m ⟨returnTo,
        Array.replicate method.routine.scope.locals.toNat .null, arguments.toArray⟩ s) :
    Matches image ⟨m, .enter method.entry.2 arguments, callers⟩ s := by
  have hwritten : slotPrologue method.routine.scope.locals method.routine.scope.params
      = method.written [] := by
    unfold MethodAt.written
    rw [← method.isMethod.prologue]
    exact (List.append_nil _).symm
  rw [hwritten] at h
  exact matches_of_facing h (stands_enter method harguments) hstacked

theorem Due.call {method callee : MethodAt image} {before after : List Segment} {segment : Segment}
    {carry : Carry} {c : Config} {frame : Frame} {below : List Frame} {s : State} {items frames : Nat}
    (h : Due method before segment after carry c frame below s)
    (hcode : segment.lowered.directives
      = Directive.reverse callee.entry.2.params.length ++ [.call callee.entry.2.name])
    (hfind : ((declaredMethods module).find? fun method => method.name = callee.entry.2.name)
      = some callee.entry.2)
    (hitems : c.memory.stack.size + 2 ≤ items) (hframes : below.length + 2 ≤ frames) :
    Answers image items frames 4 s
      (c.perform module (c.top.position + 1 + segment.lowered.consumed) (.call callee.entry.2.name)) := by
  obtain ⟨carry', hstands⟩ := h.stands.next (h.reached _ hcode (Nat.succ_pos _) rfl)
  -- the frame of the caller returns to the gap behind the call
  have hstacked : Stacked image _ _ (frame :: below) := .cons hstands h.stacked
  have hbase := callee.isAt.base
  rw [callee.isMethod.signature] at hbase
  have hfacing := h.facing
  rw [hcode, List.append_assoc] at hfacing
  have hfollows := follows_call callee.toNat_params hfacing hbase
    (callee.code_eq ▸ callee.isAt.resident.loaded) (callee.code_eq ▸ extent_closing_pos _)
    (Nat.le_of_succ_le hitems) hframes
  show Answers image items frames 4 s (c.call module callee.entry.2.name _)
  unfold Config.call
  rw [hfind]
  refine answers_follow hfollows fun arguments m' t hpop ht => ⟨_, rfl, ?_⟩
  have hlength := (Eval.popMany_eq_ok hpop).1
  rw [← callee.code_eq, List.append_assoc _ (Directive.reverse _), ← hcode, ← Gap.written_next] at ht
  exact matches_enter (by rw [List.length_reverse, hlength]) hstacked ht

/-! ## Progress -/

/-- Every method with a body is in the image. -/
theorem Image.exists_methodAt (image : Image limits module program)
    {entry : Source.TypeDecl × Source.Method} (h : entry ∈ declaredBodies module) :
    ∃ method : MethodAt image, method.entry = entry := by
  obtain ⟨routine, hroutine, hmethod⟩ := exists_right_of_mem image.methods h
  obtain ⟨placed, hat⟩ := image.exists_at (List.mem_append_left _ hroutine)
  exact ⟨⟨entry, routine, placed, h, hat, hmethod⟩, rfl⟩

/-- All targets of the branches and switches of a module. -/
def targetsOf (module : Module) : List UInt32 :=
  ((declaredBodies module).flatMap (·.2.body)).flatMap (·.op.targets)

theorem length_targets_le {entry : Source.TypeDecl × Source.Method} {i : Source.Instruction}
    (hentry : entry ∈ declaredBodies module) (hi : i ∈ entry.2.body) :
    i.op.targets.length ≤ (targetsOf module).length := by
  have hmem : i ∈ (declaredBodies module).flatMap (·.2.body) := List.mem_flatMap.mpr ⟨entry, hentry, hi⟩
  have hsublist : (i.op.targets).Sublist (targetsOf module) :=
    List.sublist_flatten_of_mem (List.mem_map.mpr ⟨i, hmem, rfl⟩)
  exact hsublist.length_le

/-- The most instructions of the machine for one of the source that is not skipped. -/
def paceOf (module : Module) : Nat := 4 * (targetsOf module).length + 4

theorem Answers.mono {items frames most most' : Nat} {s : State} {next : Next}
    (h : Answers image items frames most s next) (hle : most ≤ most') :
    Answers image items frames most' s next := by
  cases next with
  | running c => exact Comes.mono h (Nat.le_refl 1) hle fun _ h => h
  | returned result heap => exact h
  | fault kind => exact Comes.mono h (Nat.le_refl 0) hle fun _ h => h
  | stuck => exact h

section

variable {method : MethodAt image} {before after : List Segment} {segment : Segment} {carry : Carry}
  {c : Config} {frame : Frame} {below : List Frame} {s : State} {items frames : Nat}

/-- The machine of the image does what the action of an instruction says, unless that is nothing. -/
theorem Due.perform (h : Due method before segment after carry c frame below s)
    (hcore : ModuleInCore module) {action : Action} (haction : action ≠ .skip)
    (hactionAt : actionAt? true method.entry.2.body c.top.position segment.source.op
      = some (action, c.top.position + 1 + segment.lowered.consumed))
    (hcode : CodeFor method.routine.scope action segment.lowered.directives)
    (hitems : c.memory.stack.size + 2 ≤ items) (hframes : below.length + 2 ≤ frames) :
    Answers image items frames (paceOf module) s
      (c.perform module (c.top.position + 1 + segment.lowered.consumed) action) := by
  have hsource := h.stands.gap.instruction.1
  -- a switch takes four instructions for each target, so the pace counts the targets of the module
  have hcount := length_targets_le method.mem (List.mem_of_getElem? hsource)
  have hone : 1 ≤ paceOf module := Nat.le_add_left _ _
  have htwo : 2 ≤ paceOf module := Nat.le_add_left _ _
  have hfour : 4 ≤ paceOf module := Nat.le_add_left _ _
  have htargets := Core.actionAt?_spec hactionAt
  generalize hdirectives : segment.lowered.directives = directives at hcode
  cases hcode with
  | skip => exact absurd rfl haction
  | push hpushes => exact (h.push hdirectives hpushes hitems hframes).mono hone
  | compute hopcode => exact (h.opcode hdirectives hopcode hitems hframes).mono hone
  | load hslot hdeclared => exact (h.load hdirectives hslot hdeclared hitems hframes).mono hone
  | store hslot hdeclared => exact (h.store hdirectives hslot hdeclared hitems hframes).mono hone
  | @jump condition target hdecision =>
    exact (h.jump hcore hdirectives hdecision (htargets ▸ List.mem_singleton_self target) hitems
      hframes).mono hone
  | @jumpIf condition target expected hdecision =>
    exact (h.jumpIf hcore hdirectives hdecision (htargets ▸ List.mem_singleton_self target) hitems
      hframes).mono hone
  | @jumpCompare condition target opcode hdecision hopcode =>
    exact (h.jumpCompare hcore hdirectives hdecision hopcode
      (htargets ▸ List.mem_singleton_self target) hitems hframes).mono htwo
  | @switch targets hlength =>
    refine (h.switch hcore hdirectives hlength htargets hitems hframes).mono ?_
    have hsame : targets.length = segment.source.op.targets.length := congrArg List.length htargets
    unfold paceOf
    omega
  | @call name callee hfind hcompiled =>
    -- the catalogue names the methods of the module, so the callee is in the image
    rw [method.catalogue_eq] at hfind hcompiled
    obtain ⟨entry, hentry, rfl⟩ := List.mem_map.mp hcompiled
    obtain ⟨callee, rfl⟩ := image.exists_methodAt hentry
    have hdeclared := find?_of_mem_declaredBodies image.names_nodup hentry
    rw [find?_catalogueOf, hdeclared] at hfind
    cases hfind
    exact (h.call hdirectives hdeclared hitems hframes).mono hfour
  | ret =>
    have hfacing := h.facing_single hdirectives
    exact (answers_leave rfl h.stacked hfacing (by omega) (by
      show below.length ≤ frames
      omega)).mono hone
  | throw => exact (h.throw hdirectives _).mono hone

theorem Gap.due (hstands : Stands method before (segment :: after) carry c.top frame)
    (hstacked : Stacked image frame.returnTo c.callers below)
    (h : Facing (method.surroundings below) (method.written before) (method.ahead (segment :: after))
      c.memory frame s) : Due method before segment after carry c frame below s := by
  rw [Gap.ahead_cons] at h
  exact ⟨hstands, hstacked, h.mark⟩

/-- From a gap on, the source machine goes on by at least one instruction, past those that are skipped,
and the machine of the image does what these do. -/
theorem Stands.progress (hcore : ModuleInCore module)
    (hstands : Stands method before after carry c.top frame)
    (hstacked : Stacked image frame.returnTo c.callers below)
    (h : Facing (method.surroundings below) (method.written before) (method.ahead after) c.memory frame s)
    (hitems : c.memory.stack.size + 2 ≤ items) (hframes : below.length + 2 ≤ frames) :
    ∃ k next, 0 < k ∧ Reaches true module k (.running c) next
      ∧ Answers image items frames (paceOf module) s next := by
  -- on the segments behind the gap: those without code are passed until one does something
  induction after generalizing before carry c with
  | nil =>
    -- behind the last segment only the closing return can follow, and the source is at its end
    obtain ⟨hend, hahead⟩ := hstands.gap.last hstands.ahead
    have hleave : c.step true module = c.leave := by
      unfold Config.step
      rw [hstands.method_eq, hend]
    rw [hahead] at h
    refine ⟨1, c.step true module, Nat.one_pos, .step .here, ?_⟩
    rw [hleave]
    exact (answers_leave rfl hstacked h (by omega) (by
      show below.length ≤ frames
      omega)).mono (Nat.le_add_left _ _)
  | cons segment after ih =>
    have hdue := Gap.due hstands hstacked h
    have hsource := hstands.gap.instruction.1
    rw [← hstands.method_eq] at hsource
    rcases hstands.gap.lowered hcore with ⟨action, hactionAt, hcode⟩ | ⟨hop, hnegated, hlowered⟩
    · have hstep : c.step true module = _ :=
        Core.Config.step_eq hsource (hstands.method_eq ▸ hactionAt)
      by_cases hskip : action = .skip
      · -- nothing is written for the instruction, and the machine of the image stays where it is
        subst hskip
        generalize hdirectives : segment.lowered.directives = directives at hcode
        cases hcode
        have hahead : 0 < extent (method.ahead after) := by
          have hthere := hstands.ahead
          rw [Gap.ahead_cons, hdirectives, extent_mark] at hthere
          exact hthere
        obtain ⟨carry', hnext⟩ := hstands.next hahead
        have hfacing := hdue.facing
        rw [hdirectives] at hfacing
        have hwritten := Gap.written_next method before segment
        rw [hdirectives, List.append_nil] at hwritten
        rw [← hwritten] at hfacing
        obtain ⟨k, next, -, hreaches, hanswers⟩ := ih (c := { c with
          top := { c.top with position := c.top.position + 1 + segment.lowered.consumed } })
          hnext hstacked hfacing hitems
        exact ⟨k + 1, next, Nat.succ_pos k, .step (hstep ▸ hreaches), hanswers⟩
      · refine ⟨1, c.step true module, Nat.one_pos, .step .here, ?_⟩
        rw [hstep]
        exact hdue.perform hcore hskip hactionAt hcode hitems hframes
    · -- the source takes three instructions for the one that is written for a negated equality
      obtain ⟨k, hpos, hreaches⟩ : ∃ k, 0 < k ∧ Reaches true module k (.running c) _ :=
        Core.reaches_notEqual hsource hop (hstands.method_eq ▸ hnegated)
      refine ⟨k, _, hpos, hreaches, ?_⟩
      have hanswers : Answers image items frames 1 s
          (c.perform module (c.top.position + 1 + segment.lowered.consumed) (.compute .numNotEqual)) :=
        hdue.opcode (by rw [hlowered]) (by decide) hitems hframes
      rw [hlowered] at hanswers
      exact hanswers.mono (Nat.le_add_left _ _)

/-- Where the source machine and the machine of the image match, both go on alike. -/
theorem Matches.progress (hcore : ModuleInCore module) (h : Matches image c s)
    (hitems : c.memory.stack.size + 2 ≤ items) (hframes : c.callers.length + 2 ≤ frames) :
    ∃ k next, 0 < k ∧ Reaches true module k (.running c) next
      ∧ Answers image items frames (paceOf module) s next := by
  obtain ⟨method, before, after, carry, frame, below, hstands, hstacked, hfacing⟩ := h.facing
  exact hstands.progress hcore hstacked hfacing hitems (hstacked.length_eq ▸ hframes)

end

end StackContract.Contract
