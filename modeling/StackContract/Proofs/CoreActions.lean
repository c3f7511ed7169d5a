import StackContract.Proofs.Computations
import StackContract.Proofs.CoreLowering
import StackContract.Proofs.Facing
/-!
# What the code of the core does

The machine in front of the code of an action does what the action says: it computes the same on the
memory and goes on where the action does (`compute`, `truth`, `switch`, `reverse`, `enter`). On the way
it needs at most two items more than there were.
-/

namespace StackContract.Machine

open Script StackContract.Core

/-! ## How much computations push -/

/-- A computation leaves at most `k` items more on the stack than there were. -/
def Eval.Grows {α : Type} (k : Nat) (x : Eval α) : Prop :=
  ∀ ⦃address : Nat⦄ ⦃m m' : Memory⦄ ⦃a : α⦄, x address m = .ok a m' →
    m'.stack.size ≤ m.stack.size + k

namespace Eval.Grows

variable {α β : Type} {k l : Nat}

theorem pure (a : α) : Grows 0 (Pure.pure a : Eval α) := by
  rintro address m _ _ ⟨⟩
  exact Nat.le_refl _

theorem bind {x : Eval α} {f : α → Eval β} (hx : Grows k x) (hf : ∀ a, Grows l (f a)) :
    Grows (k + l) (x >>= f) := by
  intro address m m' b h
  obtain ⟨a, n, ha, hb⟩ := bind_eq_ok (x := x address) (f := fun a => f a address) h
  have hfirst := hx ha
  have hsecond := hf a hb
  omega

theorem mono {x : Eval α} (h : Grows k x) (hle : k ≤ l) : Grows l x := by
  intro address m m' a ha
  have := h ha
  omega

theorem orFault (x : Except Fault α) : Grows 0 (Eval.orFault x) := by
  cases x with
  | ok a => exact .pure a
  | error fault => rintro address m _ _ ⟨⟩

theorem heap : Grows 0 Eval.heap := by
  rintro address m _ _ ⟨⟩
  exact Nat.le_refl _

theorem push (item : Item) : Grows 1 (Eval.push item) := by
  rintro address m _ _ ⟨⟩
  exact Nat.le_refl _

theorem pop : Grows 0 Eval.pop := by
  intro address m m' a h
  rw [Eval.pop_eq] at h
  cases hpop : m.stack.pop? with
  | none =>
    rw [hpop] at h
    cases h
  | some top =>
    rw [hpop] at h
    cases h
    rw [Stack.pop?_eq_some_iff.mp hpop]
    exact Nat.le_succ _

theorem popMany (n : Nat) : Grows 0 (Eval.popMany n) := by
  intro address m m' items h
  rw [(Eval.popMany_eq_ok h).2.1]
  exact Nat.le_add_left ..

theorem popInteger : Grows 0 Eval.popInteger :=
  .bind .pop fun _ => .bind .heap fun _ => .orFault _

theorem popBoolean : Grows 0 Eval.popBoolean :=
  .bind .pop fun _ => .orFault _

theorem dup : Grows 1 (Shuffle.run .dup) := by
  intro address m m' a h
  have hrun : Shuffle.run .dup address m = rearrange (pickAt 0) address m := rfl
  rw [hrun, rearrange_eq] at h
  unfold pickAt at h
  cases htop : m.stack.toList[0]? with
  | none =>
    rw [htop] at h
    cases h
  | some item =>
    rw [htop] at h
    cases h
    exact Nat.le_refl _

theorem unary (op : UnaryOp) : Grows 1 op.run :=
  .bind .popInteger fun _ => .bind (.orFault _) fun _ => .push _

theorem binary (op : BinaryOp) : Grows 1 op.run :=
  .bind .popInteger fun _ => .bind .popInteger fun _ => .bind (.orFault _) fun _ => .push _

theorem test (relation : Relation) : Grows 0 relation.test :=
  .bind .popInteger fun _ => .bind .popInteger fun _ => .pure _

theorem compare (relation : Relation) : Grows 1 relation.compare := by
  refine .bind (k := 0) (l := 1) .pop fun b => .bind (k := 0) (l := 1) .pop fun a => ?_
  by_cases hnull : (a.isNull || b.isNull) = true
  · rw [if_pos hnull]
    exact .push _
  · rw [if_neg hnull]
    exact .bind .heap fun _ => .bind (.orFault _) fun _ => .bind (.orFault _) fun _ => .push _

end Eval.Grows

end StackContract.Machine

namespace StackContract.Contract

open Assembly Compile Script Lowering Machine Number
open StackContract.Core (computation truth compared choice)

theorem grows_computation {opcode : Opcode} (h : opcode ∈ coreOpcodes) :
    Eval.Grows 1 (computation opcode) := by
  simp only [coreOpcodes, List.mem_cons, List.not_mem_nil, or_false] at h
  rcases h with rfl | rfl | rfl | rfl | rfl | rfl | rfl | rfl | rfl | rfl | rfl | rfl | rfl | rfl | rfl
    | rfl | rfl | rfl | rfl | rfl
  case inl => exact Eval.Grows.mono (.bind .pop fun _ => .pure _) (Nat.zero_le 1)
  case inr.inl => exact .dup
  all_goals first
    | exact .binary _
    | exact .unary _
    | exact .compare _
    | exact .bind (.test _) fun _ => .push _

/-- What the instruction of an opcode of the core does is what the opcode computes. -/
theorem exists_simpleOp {opcode : Opcode} (h : opcode ∈ coreOpcodes) :
    ∃ op, simpleOp? opcode = some op ∧ op.run ⟨opcode, []⟩ = computation opcode
      ∧ op.HasOperand ⟨opcode, []⟩ := by
  simp only [coreOpcodes, List.mem_cons, List.not_mem_nil, or_false] at h
  rcases h with rfl | rfl | rfl | rfl | rfl | rfl | rfl | rfl | rfl | rfl | rfl | rfl | rfl | rfl | rfl
    | rfl | rfl | rfl | rfl | rfl <;> exact ⟨_, rfl, rfl, trivial⟩

/-! ## Coming to a place -/

/-- A machine comes to a state of some kind by at least `least` and at most `most` instructions. -/
def Comes (items frames least most : Nat) (s : State) (P : State → Prop) : Prop :=
  ∃ n t, least ≤ n ∧ n ≤ most ∧ Chain items frames n s t ∧ P t

/-- A machine follows a computation: it comes to a state for its result, or faults as it does. -/
def Follows {α : Type} (items frames least most : Nat) (s : State)
    (result : EStateM.Result Fault Memory α) (P : α → Memory → State → Prop) : Prop :=
  match result with
  | .ok a m => Comes items frames least most s (P a m)
  | .error fault _ => Comes items frames 0 most s (Breaks · fault.kind)

section

variable {items frames least least' most most' : Nat} {s t : State} {P Q : State → Prop}

theorem Comes.here (h : P s) : Comes items frames 0 most s P :=
  ⟨0, s, Nat.le_refl 0, Nat.zero_le most, .here, h⟩

theorem Comes.single (h : Moves s t) (hitems : t.memory.stack.size ≤ items)
    (hframes : t.frames.size ≤ frames) (hP : P t) : Comes items frames 1 1 s P :=
  ⟨1, t, Nat.le_refl 1, Nat.le_refl 1, .single h hitems hframes, hP⟩

theorem Comes.bind (h : Comes items frames least most s P)
    (hnext : ∀ t, P t → Comes items frames least' most' t Q) :
    Comes items frames (least + least') (most + most') s Q := by
  obtain ⟨n, t, hleast, hmost, hchain, hP⟩ := h
  obtain ⟨k, u, hleast', hmost', hchain', hQ⟩ := hnext t hP
  exact ⟨n + k, u, by omega, by omega, hchain.append hchain', hQ⟩

theorem Comes.mono (h : Comes items frames least most s P) (hleast : least' ≤ least)
    (hmost : most ≤ most') (himp : ∀ t, P t → Q t) : Comes items frames least' most' s Q := by
  obtain ⟨n, t, hn, hn', hchain, hP⟩ := h
  exact ⟨n, t, by omega, by omega, hchain, himp t hP⟩

variable {α β : Type} {R : α → Memory → State → Prop} {S : β → Memory → State → Prop}

theorem Follows.bounded {result : EStateM.Result Fault Memory α}
    (h : Follows items frames least most s result R) (hitems : s.memory.stack.size ≤ items)
    (hframes : s.frames.size ≤ frames) : Follows items frames least most s result
      fun a m t => R a m t ∧ t.memory.stack.size ≤ items := by
  cases result with
  | error fault m => exact h
  | ok a m =>
    obtain ⟨n, t, hn, hn', hchain, hR⟩ := h
    exact ⟨n, t, hn, hn', hchain, hR, (hchain.within hitems hframes).1⟩

theorem Follows.mono {result : EStateM.Result Fault Memory α}
    (h : Follows items frames least most s result R) (hleast : least' ≤ least) (hmost : most ≤ most')
    {R' : α → Memory → State → Prop} (himp : ∀ a m t, R a m t → R' a m t) :
    Follows items frames least' most' s result R' := by
  cases result with
  | ok a m => exact Comes.mono h hleast hmost (himp a m)
  | error fault m => exact Comes.mono h (Nat.le_refl 0) hmost fun _ => id

/-- Behind instructions that come to the start of a computation, the machine follows it. -/
theorem Comes.follow {result : EStateM.Result Fault Memory α}
    (h : Comes items frames least most s P)
    (hnext : ∀ t, P t → Follows items frames least' most' t result R) :
    Follows items frames (least + least') (most + most') s result R := by
  cases result with
  | ok a m => exact h.bind hnext
  | error fault m => exact (h.bind hnext).mono (Nat.zero_le _) (Nat.le_refl _) fun _ => id

/-- Instructions that follow two computations follow the one behind the other. -/
theorem Follows.bind {x : Eval α} {f : α → Eval β} {m : Memory}
    (h : Follows items frames least most s (x 0 m) R)
    (hnext : ∀ a m' t, R a m' t → Follows items frames least' most' t (f a 0 m') S) :
    Follows items frames (least + least') (most + most') s ((x >>= f) 0 m) S := by
  rw [Eval.bind_apply]
  generalize x 0 m = result at h
  cases result with
  | error fault m' => exact Comes.mono h (Nat.le_refl 0) (Nat.le_add_right ..) fun _ => id
  | ok a m' => exact Comes.follow h (hnext a m')

end

/-! ## Computations and slots -/

section

variable {here : Surroundings} {before rest : List Directive} {m : Memory} {frame : Frame}
  {s t : State} {items frames : Nat}

theorem Facing.single {P : State → Prop} (h : Facing here before rest m frame t) (hmoves : Moves s t)
    (hitems : m.stack.size ≤ items) (hframes : here.below.length < frames) (hP : P t) :
    Comes items frames 1 1 s P := by
  refine .single hmoves ?_ ?_ hP
  · rw [h.memory]
    exact hitems
  · rw [h.size_frames]
    exact hframes

/-- An instruction that works on the memory alone follows its operation. -/
theorem follows_simple {i : Instruction} {op : SimpleOp} (hop : operation i.opcode = .simple op)
    (hoperand : op.HasOperand i) (h : Facing here before (.instruction i :: rest) m frame s)
    (hitems : ∀ {m'}, op.run i 0 m = .ok () m' → m'.stack.size ≤ items)
    (hframes : here.below.length < frames) : Follows items frames 1 1 s (op.run i 0 m)
      fun _ m' => Facing here (before ++ [.instruction i]) rest m' frame := by
  cases hresult : op.run i 0 m with
  | ok a m' =>
    obtain ⟨t, hmoves, hfacing⟩ := (h.simple hop hoperand).1 hresult
    exact hfacing.single hmoves (hitems hresult) hframes hfacing
  | error fault m' => exact .here ((h.simple hop hoperand).2 hresult)

/-- The instruction of an opcode follows what the opcode computes. -/
theorem follows_opcode {opcode : Opcode} (hopcode : opcode ∈ coreOpcodes)
    (h : Facing here before (.op opcode :: rest) m frame s)
    (hitems : ∀ {m'}, computation opcode 0 m = .ok () m' → m'.stack.size ≤ items)
    (hframes : here.below.length < frames) : Follows items frames 1 1 s (computation opcode 0 m)
      fun _ m' => Facing here (before ++ [.op opcode]) rest m' frame := by
  obtain ⟨op, hop, hrun, hoperand⟩ := exists_simpleOp hopcode
  rw [← hrun] at hitems ⊢
  exact follows_simple (operation_of_simple hop) hoperand h hitems hframes

theorem follows_compute {opcode : Opcode} (hopcode : opcode ∈ coreOpcodes)
    (h : Facing here before (.op opcode :: rest) m frame s) (hitems : m.stack.size + 1 ≤ items)
    (hframes : here.below.length < frames) : Follows items frames 1 1 s (computation opcode 0 m)
      fun _ m' => Facing here (before ++ [.op opcode]) rest m' frame :=
  follows_opcode hopcode h (fun hresult => Nat.le_trans (grows_computation hopcode hresult) hitems)
    hframes

theorem follows_push {d : Directive} {item : Item} (hpushes : Pushes d item)
    (h : Facing here before (d :: rest) m frame s) (hitems : m.stack.size + 1 ≤ items)
    (hframes : here.below.length < frames) : Follows items frames 1 1 s (Eval.push item 0 m)
      fun _ m' => Facing here (before ++ [d]) rest m' frame := by
  obtain ⟨i, op, rfl, hop, hrun, -, hoperand⟩ := hpushes.run_eq
  rw [← hrun]
  refine follows_simple hop hoperand h ?_ hframes
  rw [hrun]
  rintro _ ⟨⟩
  exact hitems

theorem follows_load {place : Source.Place} {slot : UInt8} {item : Item}
    (h : Facing here before (.load (areaOf place) slot :: rest) m frame s)
    (hitem : (itemsOf frame place)[slot.toNat]? = some item) (hitems : m.stack.size + 1 ≤ items)
    (hframes : here.below.length < frames) : Follows items frames 1 1 s (Eval.push item 0 m)
      fun _ m' => Facing here (before ++ [.load (areaOf place) slot]) rest m' frame := by
  obtain ⟨t, hmoves, hfacing⟩ := h.loadSlot place hitem
  exact hfacing.single hmoves hitems hframes hfacing

theorem follows_store {place : Source.Place} {slot : UInt8}
    (h : Facing here before (.store (areaOf place) slot :: rest) m frame s)
    (hslot : slot.toNat < (itemsOf frame place).size) (hitems : m.stack.size ≤ items)
    (hframes : here.below.length < frames) : Follows items frames 1 1 s (Eval.pop 0 m)
      fun item m' => Facing here (before ++ [.store (areaOf place) slot]) rest m'
        (withItems frame place ((itemsOf frame place).setIfInBounds slot.toNat item)) := by
  cases hresult : Eval.pop 0 m with
  | ok item m' =>
    have hsize := Eval.Grows.pop hresult
    obtain ⟨t, hmoves, hfacing⟩ := (h.storeSlot place hslot).1 hresult
    exact hfacing.single hmoves (by omega) hframes hfacing
  | error fault m' => exact .here ((h.storeSlot place hslot).2 hresult)

/-! ## Branches -/

/-- A conditional jump follows its truth value. -/
theorem follows_truth {expected : Bool} {target : UInt32}
    (h : Facing here before (.jump (if expected then .jmpIfL else .jmpIfNotL) target :: rest) m frame s)
    (hclosed : Closed here.code) (hitems : m.stack.size ≤ items)
    (hframes : here.below.length < frames) : Follows items frames 1 1 s (truth expected 0 m)
      fun taken m' t => if taken then Lands here target m' frame t
        else Facing here (before ++ [.jump (if expected then .jmpIfL else .jmpIfNotL) target]) rest m'
          frame t := by
  have htruth : truth expected 0 m = match Eval.popBoolean 0 m with
      | .ok b m' => .ok (b == expected) m'
      | .error fault m' => .error fault m' := by
    unfold truth
    rw [Eval.bind_apply]
    cases Eval.popBoolean 0 m <;> rfl
  rw [htruth]
  cases hresult : Eval.popBoolean 0 m with
  | error fault m' => exact .here ((h.jumpIf hclosed).2 hresult)
  | ok b m' =>
    have hsize := Eval.Grows.popBoolean hresult
    obtain ⟨t, hmoves, hfacing⟩ := (h.jumpIf hclosed).1 hresult
    by_cases hb : b = expected
    · rw [if_pos hb] at hfacing
      have hlands := hfacing
      obtain ⟨front, after, -, -, hthere⟩ := hfacing
      refine hthere.single hmoves (by omega) hframes ?_
      rw [beq_iff_eq.mpr hb]
      exact hlands
    · rw [if_neg hb] at hfacing
      refine hfacing.single hmoves (by omega) hframes ?_
      rw [beq_eq_false_iff_ne.mpr hb]
      exact hfacing

/-- A comparison and the jump behind it follow the comparison of a branch. -/
theorem follows_compared {opcode : Opcode} {target : UInt32} (hopcode : opcode ∈ coreOpcodes)
    (h : Facing here before (.op opcode :: .jump .jmpIfL target :: rest) m frame s)
    (hclosed : Closed here.code) (hitems : m.stack.size + 1 ≤ items)
    (hframes : here.below.length < frames) : Follows items frames 2 2 s (compared opcode 0 m)
      fun taken m' t => if taken then Lands here target m' frame t
        else Facing here (before ++ [.op opcode] ++ [.jump .jmpIfL target]) rest m' frame t := by
  have hcompute := (follows_compute hopcode h hitems hframes).bounded
    (by rw [h.memory]; omega) (by rw [h.size_frames]; omega)
  show Follows items frames (1 + 1) (1 + 1) s ((computation opcode >>= fun _ => truth true) 0 m) _
  refine hcompute.bind fun _ m' t ht => ?_
  have htruth : Facing here (before ++ [.op opcode])
      (.jump (if true then .jmpIfL else .jmpIfNotL) target :: rest) m' frame t := ht.1
  exact follows_truth htruth hclosed (htruth.memory ▸ ht.2) hframes

/-! ## Switches -/

theorem computation_numEqual (address : Nat) (stack : Stack Item) (item : Item) (w : Int128)
    (heap : Heap) : computation .numEqual address ⟨(stack.push item).push (.integer w), heap⟩
      = match item.asInteger heap with
      | .ok v => .ok () ⟨stack.push (.boolean (v.val = w.val)), heap⟩
      | .error fault => .error fault ⟨stack, heap⟩ := by
  have hpop := popInteger_push address stack item heap
  show ((Eval.popInteger >>= _) >>= _ : Eval Unit) address ⟨stack.push item, heap⟩ = _
  rw [Eval.bind_apply, Eval.bind_apply, hpop]
  cases item.asInteger heap <;> rfl

theorem pushes_pushNat {n : Nat} {w : Int128} (hw : w.val = n) : Pushes (.pushNat n) (.integer w) := by
  unfold Directive.pushNat
  rw [Int128.ofInt?_eq_some_iff.mpr hw]
  exact .integer w

theorem comes_drop {stack : Stack Item} {item : Item} {heap : Heap}
    (h : Facing here before (.op .drop :: rest) ⟨stack.push item, heap⟩ frame s)
    (hitems : stack.size ≤ items) (hframes : here.below.length < frames) :
    Comes items frames 1 1 s (Facing here (before ++ [.op .drop]) rest ⟨stack, heap⟩ frame) := by
  refine follows_opcode (by decide) h ?_ hframes
  rintro _ ⟨⟩
  exact hitems

/-- A case of a switch compares the tag with its index. -/
theorem comes_tag {index : Nat} {target : UInt32} {stack : Stack Item} {item : Item} {heap : Heap}
    (h : Facing here before (switchCase index target ++ rest) ⟨stack.push item, heap⟩ frame s)
    (hindex : index < 2 ^ 127) (hitems : stack.size + 3 ≤ items)
    (hframes : here.below.length < frames) :
    match item.asInteger heap with
    | .ok v => Comes items frames 3 3 s
        (Facing here (before ++ [.op .dup] ++ [.pushNat index] ++ [.op .numEqual])
          (.instruction skipCase :: .op .drop :: .jump .jmpL target :: rest)
          ⟨(stack.push item).push (.boolean (v.val = index)), heap⟩ frame)
    | .error fault => Comes items frames 0 3 s (Breaks · fault.kind) := by
  obtain ⟨w, hw⟩ : ∃ w : Int128, w.val = index := ⟨.ofNat index hindex, rfl⟩
  have hsize : stack.size + 2 ≤ items := by omega
  -- a copy of the tag is compared, the tag itself stays for the next case
  have hdup : Comes items frames 1 1 s (Facing here (before ++ [.op .dup]) _
      ⟨(stack.push item).push item, heap⟩ frame) := follows_compute (by decide) h hsize hframes
  have hpush : Comes items frames 2 2 s (Facing here (before ++ [.op .dup] ++ [.pushNat index]) _
      ⟨((stack.push item).push item).push (.integer w), heap⟩ frame) :=
    hdup.bind fun t ht => follows_push (pushes_pushNat hw) ht hitems hframes
  have hcompare : Follows items frames 3 3 s
      (computation .numEqual 0 ⟨((stack.push item).push item).push (.integer w), heap⟩)
      fun _ m' => Facing here (before ++ [.op .dup] ++ [.pushNat index] ++ [.op .numEqual])
        (.instruction skipCase :: .op .drop :: .jump .jmpL target :: rest) m' frame := by
    refine hpush.follow fun t ht => follows_opcode (by decide) ht ?_ hframes
    intro m' hresult
    rw [computation_numEqual] at hresult
    cases hv : item.asInteger heap with
    | error fault =>
      rw [hv] at hresult
      cases hresult
    | ok v =>
      rw [hv] at hresult
      cases hresult
      exact hsize
  rw [computation_numEqual, hw] at hcompare
  cases hv : item.asInteger heap with
  | error fault =>
    rw [hv] at hcompare
    exact hcompare
  | ok v =>
    rw [hv] at hcompare
    exact hcompare

/-- A case of a switch leads to its target if the tag is its index, and else to what is behind it. -/
theorem comes_case {index : Nat} {target : UInt32} {stack : Stack Item} {item : Item} {heap : Heap}
    (h : Facing here before (switchCase index target ++ rest) ⟨stack.push item, heap⟩ frame s)
    (hclosed : Closed here.code) (hrest : 0 < extent rest) (hindex : index < 2 ^ 127)
    (hitems : stack.size + 3 ≤ items) (hframes : here.below.length < frames) :
    match item.asInteger heap with
    | .ok v => if v.val = index then
          Comes items frames 6 6 s (Lands here target ⟨stack, heap⟩ frame)
        else Comes items frames 4 4 s
          (Facing here (before ++ switchCase index target) rest ⟨stack.push item, heap⟩ frame)
    | .error fault => Comes items frames 0 3 s (Breaks · fault.kind) := by
  have htag := comes_tag h hindex hitems hframes
  have hsize : stack.size + 1 ≤ items := by omega
  cases hv : item.asInteger heap with
  | error fault =>
    rw [hv] at htag
    exact htag
  | ok v =>
    rw [hv] at htag
    dsimp only at htag ⊢
    have hpop : ∀ b, Eval.popBoolean 0 ⟨(stack.push item).push (.boolean b), heap⟩
        = .ok b ⟨stack.push item, heap⟩ := fun _ => rfl
    by_cases heq : v.val = index
    · rw [if_pos heq]
      rw [decide_eq_true heq] at htag
      -- past the jump to the next case, the tag is removed
      have hstay : Comes items frames (3 + 1) (3 + 1) s fun t => ∃ front, Facing here front
          (.op .drop :: .jump .jmpL target :: rest) ⟨stack.push item, heap⟩ frame t := by
        refine htag.bind fun t ht => ?_
        obtain ⟨u, hmoves, hfacing⟩ := (ht.skip hrest).1 (hpop true)
        exact hfacing.single hmoves hsize hframes ⟨_, hfacing⟩
      have hdrop : Comes items frames (4 + 1) (4 + 1) s fun t => ∃ front,
          Facing here front (.jump .jmpL target :: rest) ⟨stack, heap⟩ frame t :=
        hstay.bind fun t ⟨front, ht⟩ => (comes_drop ht (Nat.le_of_succ_le hsize) hframes).mono
          (Nat.le_refl 1) (Nat.le_refl 1) fun u hu => ⟨_, hu⟩
      show Comes items frames (5 + 1) (5 + 1) s _
      refine hdrop.bind fun t ⟨_, ht⟩ => ?_
      obtain ⟨u, hmoves, hlands⟩ := ht.jump hclosed
      obtain ⟨front, after, -, -, hthere⟩ := id hlands
      exact hthere.single hmoves (Nat.le_trans (Nat.le_succ _) hsize) hframes hlands
    · rw [if_neg heq]
      rw [decide_eq_false heq] at htag
      show Comes items frames (3 + 1) (3 + 1) s _
      refine htag.bind fun t ht => ?_
      -- the jump leads past the drop and the jump of this case
      obtain ⟨u, hmoves, hfacing⟩ := (ht.skip hrest).1 (hpop false)
      rw [if_pos rfl] at hfacing
      have hbefore : before ++ [.op .dup] ++ [.pushNat index] ++ [.op .numEqual]
          ++ [.instruction skipCase, .op .drop, .jump .jmpL target]
          = before ++ switchCase index target := by
        simp only [List.append_assoc]
        rfl
      rw [hbefore] at hfacing
      exact hfacing.single hmoves hsize hframes hfacing

/-- The target that a switch goes to, its first case being number `k`. -/
def chosen (targets : List UInt32) (k : Nat) (v : Int) : Option UInt32 :=
  if (k : Int) ≤ v then targets[(v - k).toNat]? else none

theorem chosen_zero (targets : List UInt32) (v : Int) :
    chosen targets 0 v = if 0 ≤ v then targets[v.toNat]? else none := by
  show (if 0 ≤ v then targets[(v - 0).toNat]? else none) = _
  rw [Int.sub_zero]

theorem chosen_cons (target : UInt32) (targets : List UInt32) (k : Nat) (v : Int) :
    chosen (target :: targets) k v = if v = k then some target else chosen targets (k + 1) v := by
  unfold chosen
  by_cases heq : v = k
  · rw [if_pos heq, heq, if_pos (Int.le_refl _), Int.sub_self]
    rfl
  · rw [if_neg heq]
    by_cases hle : (k : Int) ≤ v
    · have hsucc : (v - k).toNat = (v - (k + 1 : Nat)).toNat + 1 := by omega
      rw [if_pos hle, if_pos (by omega), hsucc, List.getElem?_cons_succ]
    · rw [if_neg hle, if_neg (by omega)]

/-- The machine goes through the cases of a switch until one has the tag as its index. -/
theorem comes_cases {stack : Stack Item} {item : Item} {heap : Heap} {v : Int128}
    (hv : item.asInteger heap = .ok v) (targets : List UInt32) {k : Nat}
    (h : Facing here before (((targets.zipIdx k).flatMap fun (target, index) =>
        switchCase index target) ++ .op .drop :: rest) ⟨stack.push item, heap⟩ frame s)
    (hclosed : Closed here.code) (hrange : k + targets.length ≤ 2 ^ 127)
    (hitems : stack.size + 3 ≤ items) (hframes : here.below.length < frames) :
    Comes items frames 1 (4 * targets.length + 2) s fun t => match chosen targets k v.val with
      | some target => Lands here target ⟨stack, heap⟩ frame t
      | none => Facing here (before ++ (((targets.zipIdx k).flatMap fun (target, index) =>
          switchCase index target) ++ [.op .drop])) rest ⟨stack, heap⟩ frame t := by
  induction targets generalizing k before s with
  | nil =>
    have hnone : chosen [] k v.val = none := by
      unfold chosen
      split <;> rfl
    rw [hnone]
    exact (comes_drop h (by omega) hframes).mono (Nat.le_refl 1) (by omega) fun _ => id
  | cons target targets ih =>
    rw [List.zipIdx_cons, List.flatMap_cons, List.append_assoc] at h
    rw [List.length_cons] at hrange ⊢
    rw [chosen_cons]
    have hbehind : 0 < extent (((targets.zipIdx (k + 1)).flatMap fun (target, index) =>
        switchCase index target) ++ .op .drop :: rest) := by
      rw [extent_append]
      exact Nat.lt_of_lt_of_le (Nat.lt_of_lt_of_le (Instruction.size_pos ⟨.drop, []⟩)
        (Nat.le_add_right ..)) (Nat.le_add_left ..)
    have hcase := comes_case h hclosed hbehind (by omega) hitems hframes
    rw [hv] at hcase
    dsimp only at hcase
    by_cases heq : v.val = k
    · rw [if_pos heq] at hcase ⊢
      exact hcase.mono (by decide) (by omega) fun _ => id
    · rw [if_neg heq] at hcase ⊢
      refine (hcase.bind fun t ht => ih ht (by omega)).mono (by omega) (by omega) ?_
      intro t ht
      rw [List.zipIdx_cons, List.flatMap_cons, List.append_assoc, ← List.append_assoc before]
      exact ht

/-- Without a tag, the first instruction of a switch breaks. -/
theorem breaks_switch {targets : List UInt32} (hempty : m.stack.toList = [])
    (h : Facing here before (lowerSwitch targets ++ rest) m frame s)
    (hframes : here.below.length < frames) :
    Comes items frames 0 1 s (Breaks · .stackUnderflow) := by
  obtain ⟨⟨_ | ⟨item, below⟩, size, hsize⟩, heap⟩ := m
  · have hbreaks : ∀ {opcode : Opcode} {others : List Directive}, opcode ∈ coreOpcodes →
        computation opcode 0 ⟨⟨[], size, hsize⟩, heap⟩
          = .error (.stackUnderflow 0) ⟨⟨[], size, hsize⟩, heap⟩ →
        Facing here before (.op opcode :: others) ⟨⟨[], size, hsize⟩, heap⟩ frame s →
        Comes items frames 0 1 s (Breaks · .stackUnderflow) := by
      intro opcode others hopcode hresult hfacing
      have hfollows : Follows items frames 1 1 s (computation opcode 0 _) _ :=
        follows_opcode hopcode hfacing (by rw [hresult]; rintro _ ⟨⟩) hframes
      rw [hresult] at hfollows
      exact hfollows
    cases targets with
    | nil =>
      have hdrop : Facing here before (.op .drop :: rest) _ frame s := h
      exact hbreaks (by decide) rfl hdrop
    | cons target targets =>
      have hdup : Facing here before (.op .dup :: _) _ frame s := h
      exact hbreaks (by decide) rfl hdup
  · cases hempty

/-- The choice among targets for the tag on top of the stack. -/
theorem choice_push (target : UInt32) (targets : List UInt32) (stack : Stack Item) (item : Item)
    (heap : Heap) : choice (target :: targets) 0 ⟨stack.push item, heap⟩ = match item.asInteger heap with
      | .ok v => .ok (chosen (target :: targets) 0 v.val) ⟨stack, heap⟩
      | .error fault => .error fault ⟨stack, heap⟩ := by
  show (Eval.popInteger >>= _ : Eval _) 0 ⟨stack.push item, heap⟩ = _
  rw [Eval.bind_apply, popInteger_push]
  cases item.asInteger heap with
  | error fault => rfl
  | ok v =>
    show _ = EStateM.Result.ok (chosen (target :: targets) 0 v.val) _
    rw [chosen_zero]
    rfl

/-- A switch follows the choice among its targets. -/
theorem follows_switch {targets : List UInt32} (htargets : targets.length < 2 ^ 127)
    (h : Facing here before (lowerSwitch targets ++ rest) m frame s) (hclosed : Closed here.code)
    (hitems : m.stack.size + 2 ≤ items) (hframes : here.below.length < frames) :
    Follows items frames 1 (4 * targets.length + 2) s (choice targets 0 m) fun chosen m' t =>
      match chosen with
      | some target => Lands here target m' frame t
      | none => Facing here (before ++ lowerSwitch targets) rest m' frame t := by
  obtain ⟨stack, heap⟩ := m
  rcases hstack : stack.toList with _ | ⟨item, below⟩
  · have hunderflow : choice targets 0 ⟨stack, heap⟩ = .error (.stackUnderflow 0) ⟨stack, heap⟩ := by
      obtain ⟨_, size, hsize⟩ := stack
      cases hstack
      cases targets <;> rfl
    rw [hunderflow]
    exact (breaks_switch hstack h hframes).mono (Nat.le_refl 0) (by omega) fun _ => id
  · obtain ⟨rest', hpop, -⟩ := Stack.pop?_of_toList hstack
    obtain rfl : stack = rest'.push item := Stack.pop?_eq_some_iff.mp hpop
    -- a case needs room for the copy of the tag, its index and the truth value
    have hbound : rest'.size + 3 ≤ items := hitems
    cases targets with
    | nil =>
      exact (comes_drop h (by omega) hframes).mono (Nat.le_refl 1) (by decide) fun _ => id
    | cons target targets =>
      rw [choice_push]
      unfold lowerSwitch at h ⊢
      rw [List.append_assoc] at h
      cases hv : item.asInteger heap with
      | ok v =>
        exact comes_cases hv (target :: targets) h hclosed (by omega) hbound hframes
      | error fault =>
        -- a tag that is no integer breaks the first case
        rw [List.zipIdx_cons, List.flatMap_cons, List.append_assoc] at h
        have htag := comes_tag h (by decide) hbound hframes
        rw [hv] at htag
        exact htag.mono (Nat.le_refl 0) (by rw [List.length_cons]; omega) fun _ => id

/-! ## Calls -/

theorem rearrange_reverseTop (n : Nat) (m : Memory) :
    rearrange (reverseTop n) 0 m = match m.stack.popList? n with
      | none => .error (.stackUnderflow 0) m
      | some (items, stack) => .ok () { m with stack := stack.pushList items.reverse } := by
  rw [rearrange_eq]
  unfold reverseTop
  cases m.stack.popList? n <;> rfl

/-- Reversing items of the stack leaves as many of them. -/
theorem size_reverseTop {n : Nat} {stack below : Stack Item} {top : List Item}
    (h : stack.popList? n = some (top, below)) :
    (below.pushList top.reverse).size = stack.size ∧ top.length = n := by
  unfold Stack.popList? at h
  split at h
  · next hn =>
    cases h
    have hlength : (stack.toList.take n).length = n := by
      rw [List.length_take, ← stack.size_eq]
      exact Nat.min_eq_left hn
    refine ⟨?_, hlength⟩
    show (stack.toList.take n).reverse.length + (stack.size - n) = stack.size
    rw [List.length_reverse, hlength]
    omega
  · cases h

/-- An instruction that reverses the top items follows the removal of them, and puts them back. -/
theorem follows_reverseTop {n : Nat} {i : Instruction} {op : SimpleOp} {stack : Stack Item}
    {heap : Heap} {below : Stack Item}
    (hop : operation i.opcode = .simple op) (hoperand : op.HasOperand i)
    (hrun : op.run i 0 ⟨below, heap⟩ = rearrange (reverseTop n) 0 ⟨stack, heap⟩)
    (h : Facing here before (.instruction i :: rest) ⟨below, heap⟩ frame s)
    (hitems : stack.size ≤ items) (hframes : here.below.length < frames) :
    Follows items frames 1 1 s (Eval.popMany n 0 ⟨stack, heap⟩) fun top m' =>
      Facing here (before ++ [.instruction i]) rest
        { m' with stack := m'.stack.pushList top.reverse } frame := by
  -- the items are put back, so there are as many as before
  have hbound : ∀ {m' : Memory}, op.run i 0 ⟨below, heap⟩ = .ok () m' → m'.stack.size ≤ items := by
    intro m' hresult
    rw [hrun, rearrange_reverseTop] at hresult
    dsimp only at hresult
    cases hpop : stack.popList? n with
    | none =>
      rw [hpop] at hresult
      cases hresult
    | some found =>
      rw [hpop] at hresult
      cases hresult
      dsimp only
      rw [(size_reverseTop hpop).1]
      exact hitems
  have hfollows := follows_simple hop hoperand h hbound hframes
  rw [hrun, rearrange_reverseTop] at hfollows
  rw [Eval.popMany_eq]
  dsimp only at hfollows ⊢
  cases hpop : stack.popList? n with
  | none =>
    rw [hpop] at hfollows
    exact hfollows
  | some found =>
    rw [hpop] at hfollows
    exact hfollows

theorem popCount_push {n : Nat} {w : Int128} (hw : w.val = n) (hn : n < 2 ^ 64) (address : Nat)
    (stack : Stack Item) (heap : Heap) :
    Eval.popCount address ⟨stack.push (.integer w), heap⟩ = .ok n ⟨stack, heap⟩ :=
  popCount_eq rfl hw hn address stack

/-- The reversal of the arguments of a call follows their removal. -/
theorem follows_reverse {n : Nat} (hn : 2 ≤ n) (hbyte : n < 256)
    (h : Facing here before (Directive.reverse n ++ rest) m frame s)
    (hitems : m.stack.size + 1 ≤ items) (hframes : here.below.length < frames) :
    Follows items frames 1 2 s (Eval.popMany n 0 m) fun top m' =>
      Facing here (before ++ Directive.reverse n) rest
        { m' with stack := m'.stack.pushList top.reverse } frame := by
  have hsize : m.stack.size ≤ items := Nat.le_of_succ_le hitems
  -- up to four items are reversed by an instruction of their own
  have hone : ∀ {i : Instruction} {op : SimpleOp}, operation i.opcode = .simple op →
      op.HasOperand i → op.run i 0 m = rearrange (reverseTop n) 0 m →
      Directive.reverse n = [.instruction i] →
      Follows items frames 1 2 s (Eval.popMany n 0 m) fun top m' =>
        Facing here (before ++ Directive.reverse n) rest
          { m' with stack := m'.stack.pushList top.reverse } frame := by
    intro i op hop hoperand hrun hreverse
    rw [hreverse] at h ⊢
    exact (follows_reverseTop hop hoperand hrun h hsize hframes).mono (Nat.le_refl 1) (by decide)
      fun _ _ _ => id
  match n, hn with
  | 2, _ => exact hone (i := ⟨.swap, []⟩) rfl trivial rfl rfl
  | 3, _ => exact hone (i := ⟨.reverse3, []⟩) rfl trivial rfl rfl
  | 4, _ => exact hone (i := ⟨.reverse4, []⟩) rfl trivial rfl rfl
  | n + 5, _ =>
    -- there is an instruction for any number, which takes it off the stack
    obtain ⟨w, hw⟩ : ∃ w : Int128, w.val = (n + 5 : Nat) := ⟨.ofNat (n + 5) (by omega), rfl⟩
    have hpush : Comes items frames 1 1 s (Facing here (before ++ [.pushNat (n + 5)])
        (.op .reverseN :: rest) { m with stack := m.stack.push (.integer w) } frame) :=
      follows_push (pushes_pushNat hw) h hitems hframes
    have hrun : SimpleOp.run ⟨.reverseN, []⟩ (.shuffle .reverseCount) 0
        ⟨m.stack.push (.integer w), m.heap⟩ = rearrange (reverseTop (n + 5)) 0 ⟨m.stack, m.heap⟩ := by
      show (Eval.popCount >>= _ : Eval Unit) 0 ⟨m.stack.push (.integer w), m.heap⟩ = _
      rw [Eval.bind_apply, popCount_push hw (Nat.lt_trans hbyte (by decide))]
    have hreverse : ∀ t, Facing here (before ++ [.pushNat (n + 5)]) (.op .reverseN :: rest)
        { m with stack := m.stack.push (.integer w) } frame t → _ := fun t ht =>
      follows_reverseTop (rfl : operation _ = .simple (.shuffle .reverseCount)) trivial hrun ht hsize
        hframes
    refine (hpush.follow hreverse).mono (by decide) (by decide) ?_
    intro top m' t ht
    rw [List.append_assoc] at ht
    exact ht

/-- A method takes its arguments off the stack before its body starts. -/
theorem follows_enter {locals params : UInt8} {body : List Directive} {returnTo : Option Nat}
    (h : Facing here [] (slotPrologue locals params ++ body) m { returnTo } s)
    (hitems : m.stack.size ≤ items) (hframes : here.below.length < frames) :
    Follows items frames 0 1 s (Eval.popMany params.toNat 0 m) fun arguments m' =>
      Facing here (slotPrologue locals params) body m'
        ⟨returnTo, Array.replicate locals.toNat .null, arguments.toArray⟩ := by
  unfold slotPrologue at h ⊢
  by_cases hnone : locals = 0 ∧ params = 0
  · obtain ⟨rfl, rfl⟩ := hnone
    rw [if_pos ⟨rfl, rfl⟩] at h ⊢
    rw [Eval.popMany_eq]
    exact .here h
  · rw [if_neg hnone] at h ⊢
    cases hresult : Eval.popMany params.toNat 0 m with
    | error fault m' => exact .here (h.initSlots.2 hresult)
    | ok arguments m' =>
      have hsize := Eval.Grows.popMany _ hresult
      obtain ⟨t, hmoves, hfacing⟩ := h.initSlots.1 hresult
      exact (hfacing.single hmoves (by omega) hframes hfacing).mono (by decide) (Nat.le_refl 1)
        fun _ => id

/-- The surroundings of a method that is called. -/
def Surroundings.callee (here : Surroundings) (frame : Frame) (c : Nat) (code : List Directive) :
    Surroundings :=
  ⟨here.script, here.bases, c, code, frame :: here.below⟩

/-- A call leads to the entry of its method. -/
theorem comes_call {name : String} {c : Nat} {code : List Directive}
    (h : Facing here before (.call name :: rest) m frame s) (hbase : here.bases name = some c)
    (hcallee : Loaded here.script here.bases c code) (hpos : 0 < extent code)
    (hitems : m.stack.size ≤ items) (hframes : here.below.length + 1 < frames) :
    Comes items frames 1 1 s (Facing (here.callee frame c code) [] code m
      { returnTo := some (here.base + extent (before ++ [.call name])) }) := by
  have hinside := hcallee.inside
  rw [← h.script] at hinside
  obtain ⟨t, hmoves, hmemory, haddress, hstack⟩ := h.call hbase (by omega)
  have hfacing : Facing (here.callee frame c code) [] code m
      { returnTo := some (here.base + extent (before ++ [.call name])) } t :=
    ⟨hmoves.keeps.script_eq.trans h.script, hcallee, rfl, haddress, hmemory, hstack⟩
  exact hfacing.single hmoves hitems hframes hfacing

/-- Fewer than two items are in order. -/
theorem reverse_of_lt_two {items : List Item} (h : items.length < 2) : items.reverse = items := by
  rcases items with _ | ⟨a, _ | ⟨b, items⟩⟩
  · rfl
  · rfl
  · rw [List.length_cons, List.length_cons] at h
    omega

/-- A call follows the removal of its arguments, which the method called has in its slots. -/
theorem follows_call {name : String} {c n : Nat} {locals params : UInt8} {body : List Directive}
    (hparams : params.toNat = n)
    (h : Facing here before (Directive.reverse n ++ .call name :: rest) m frame s)
    (hbase : here.bases name = some c)
    (hcallee : Loaded here.script here.bases c (slotPrologue locals params ++ body))
    (hpos : 0 < extent (slotPrologue locals params ++ body))
    (hitems : m.stack.size + 1 ≤ items) (hframes : here.below.length + 1 < frames) :
    Follows items frames 1 4 s (Eval.popMany n 0 m) fun arguments m' =>
      Facing (here.callee frame c (slotPrologue locals params ++ body)) (slotPrologue locals params)
        body m' ⟨some (here.base + extent (before ++ Directive.reverse n ++ [.call name])),
          Array.replicate locals.toNat .null, arguments.reverse.toArray⟩ := by
  subst hparams
  have hsize : m.stack.size ≤ items := Nat.le_of_succ_le hitems
  by_cases hfew : params.toNat < 2
  · -- nothing is reversed, and the method that is called takes off what is there
    have hreverse : Directive.reverse params.toNat = [] := by
      rcases hn : params.toNat with _ | _ | n
      · rfl
      · rfl
      · omega
    rw [hreverse] at h ⊢
    rw [List.append_nil]
    have hfollows := (comes_call h hbase hcallee hpos hsize hframes).follow fun t ht =>
      follows_enter ht hsize hframes
    cases hresult : Eval.popMany params.toNat 0 m with
    | error fault m' =>
      rw [hresult] at hfollows
      exact Comes.mono hfollows (Nat.le_refl 0) (by decide) fun _ => id
    | ok arguments m' =>
      rw [hresult] at hfollows
      refine Comes.mono hfollows (Nat.le_refl 1) (by decide) fun t ht => ?_
      have hlength := (Eval.popMany_eq_ok hresult).1
      dsimp only
      rw [reverse_of_lt_two (Nat.lt_of_le_of_lt (Nat.le_of_eq hlength) hfew)]
      exact ht
  · -- the arguments are put back in reverse before the method that is called takes them off
    have hreverse := follows_reverse (by omega) params.toNat_lt h hitems (Nat.lt_of_succ_lt hframes)
    cases hresult : Eval.popMany params.toNat 0 m with
    | error fault m' =>
      rw [hresult] at hreverse
      exact Comes.mono hreverse (Nat.le_refl 0) (by decide) fun _ => id
    | ok arguments m' =>
      rw [hresult] at hreverse
      obtain ⟨hlength, hstack, -⟩ := Eval.popMany_eq_ok hresult
      have hreversed : (m'.stack.pushList arguments.reverse).size ≤ items := by
        rw [hstack] at hsize
        show arguments.reverse.length + m'.stack.size ≤ items
        rw [List.length_reverse]
        exact hsize
      have hpop : Eval.popMany params.toNat 0 { m' with stack := m'.stack.pushList arguments.reverse }
          = .ok arguments.reverse m' := by
        rw [Eval.popMany_eq, ← hlength, ← List.length_reverse, Stack.popList?_pushList]
      have hfollows := Comes.follow hreverse fun t ht =>
        (comes_call ht hbase hcallee hpos hreversed hframes).follow fun t ht =>
          follows_enter ht hreversed hframes
      rw [hpop] at hfollows
      exact Comes.mono hfollows (by decide) (by decide) fun _ => id

end

end StackContract.Contract
