import StackContract.Proofs.Bodies
import StackContract.Proofs.Core
import StackContract.Proofs.Correspondence
import StackContract.Proofs.Operations
/-!
# The code of the core

What is written for an instruction of the core, by its action (`lower_core`). An equality that is
negated right behind it is one inequality in the code and three instructions to the source machine.
-/

namespace StackContract.Contract

open Assembly Compile Script Lowering Machine Number
open StackContract.Core (Action InCore actionAt? decision? truth compared)
open Source (Op Module)

/-- The opcodes that the core computes with. -/
def coreOpcodes : List Opcode :=
  [.drop, .dup, .add, .sub, .mul, .div, .mod, .negate, .invert, .and, .or, .xor, .shl, .shr, .numEqual,
    .numNotEqual, .lt, .le, .gt, .ge]

/-- The code of an action. -/
inductive CodeFor (scope : Scope) : Action → List Directive → Prop
  | skip : CodeFor scope .skip []
  | push {d : Directive} {item : Item} (h : Pushes d item) : CodeFor scope (.push item) [d]
  | compute {opcode : Opcode} (h : opcode ∈ coreOpcodes) : CodeFor scope (.compute opcode) [.op opcode]
  | load {place : Source.Place} {index : UInt16} {slot : UInt8} (hslot : slot.toNat = index.toNat)
    (h : slot.toNat < (scope.declared place).toNat) :
    CodeFor scope (.load place index) [.load (areaOf place) slot]
  | store {place : Source.Place} {index : UInt16} {slot : UInt8} (hslot : slot.toNat = index.toNat)
    (h : slot.toNat < (scope.declared place).toNat) :
    CodeFor scope (.store place index) [.store (areaOf place) slot]
  | jump {condition : Source.Condition} {target : UInt32}
    (h : decision? condition = some (return true)) :
    CodeFor scope (.branch condition target) [.jump .jmpL target]
  | jumpIf {condition : Source.Condition} {target : UInt32} {expected : Bool}
    (h : decision? condition = some (truth expected)) :
    CodeFor scope (.branch condition target)
      [.jump (if expected then .jmpIfL else .jmpIfNotL) target]
  | jumpCompare {condition : Source.Condition} {target : UInt32} {opcode : Opcode}
    (h : decision? condition = some (compared opcode)) (hopcode : opcode ∈ coreOpcodes) :
    CodeFor scope (.branch condition target) [.op opcode, .jump .jmpIfL target]
  | switch {targets : List UInt32} (h : targets.length < 2 ^ 127) :
    CodeFor scope (.switch targets) (lowerSwitch targets)
  | call {name : String} {method : Source.Method}
    (hfind : scope.catalogue.methods.find? name = some method)
    (hcompiled : name ∈ scope.catalogue.compiled) :
    CodeFor scope (.call name) (Directive.reverse method.params.length ++ [.call name])
  | ret : CodeFor scope .ret [.op .ret]
  | throw : CodeFor scope .throw [.op .throw]

/-! ## Looking ahead -/

section

variable {scope : Scope} {body : List Source.Instruction}

theorem isTarget_eq (hbody : scope.body = body.toArray) (offset : UInt32) :
    scope.isTarget offset = Core.isTarget body offset := by
  unfold Scope.isTarget Core.isTarget
  rw [hbody, List.any_toArray]

theorem inline?_eq (hbody : scope.body = body.toArray) (position : Nat) :
    scope.inline? position = Core.inline? body position := by
  unfold Scope.inline? Core.inline?
  rw [hbody, List.getElem?_toArray]
  cases body[position]? with
  | none => rfl
  | some i =>
    show (if scope.isTarget i.offset then none else some i.op) = _
    rw [isTarget_eq hbody]
    rfl

theorem isNegated_eq (hbody : scope.body = body.toArray) (position : Nat) :
    isNegated scope position = Core.isNegated body position := by
  unfold isNegated Core.isNegated
  rewrite [inline?_eq hbody, inline?_eq hbody]
  rfl

/-- The core has no null to compare with. -/
theorem isAfterNull_eq_false {module : Module} (hbody : scope.body = body.toArray)
    (hcore : ∀ i ∈ body, InCore module i.op) (position : Nat) :
    isAfterNull scope position = false := by
  cases position with
  | zero => rfl
  | succ previous =>
    unfold isAfterNull
    dsimp only
    rw [hbody, List.getElem?_toArray]
    split
    · next heq => exact (hcore _ (List.mem_of_getElem? heq)).elim
    · rfl

/-- A literal and what is written for it take in the same conversion. -/
theorem literal_spec (hbody : scope.body = body.toArray) (position : Nat) (v : Int128) (bits : Nat) :
    ∃ w, Core.literal body position v bits
        = (.push (.integer w), position + 1 + (lowerLiteral scope position v bits).consumed)
      ∧ (lowerLiteral scope position v bits).directives = [.pushInteger w] := by
  unfold Core.literal lowerLiteral
  rw [inline?_eq hbody]
  rcases Core.inline? body (position + 1) with _ | op
  · exact ⟨_, rfl, rfl⟩
  · cases op <;> exact ⟨_, rfl, rfl⟩

end

/-! ## Comparisons and branches -/

section

variable {scope : Scope} {body : List Source.Instruction} {position : Nat}

/-- An order is one opcode, and its negation the opposite one. -/
theorem code_order {comparison : Source.Comparison} (hbody : scope.body = body.toArray)
    (h : comparison = .greater ∨ comparison = .less) :
    ∃ action, actionAt? true body position (.compare comparison)
        = some (action, position + 1 + (lowerComparison scope position comparison).consumed)
      ∧ CodeFor scope action (lowerComparison scope position comparison).directives := by
  have hwritten : lowerComparison scope position comparison
      = if Core.isNegated body position
        then ⟨[.op (comparisonOpcode false comparison).2], 2⟩
        else ⟨[.op (comparisonOpcode false comparison).1], 0⟩ := by
    rw [← isNegated_eq hbody]
    rcases h with rfl | rfl <;> rfl
  rw [hwritten]
  rcases h with rfl | rfl <;> cases hnegated : Core.isNegated body position <;>
  · refine ⟨_, ?_, .compute (by decide)⟩
    simp only [actionAt?, hnegated]
    rfl

/-- An equality is one opcode, as its negation. -/
theorem lowerComparison_equal {module : Module} (hbody : scope.body = body.toArray)
    (hcore : ∀ i ∈ body, InCore module i.op) :
    lowerComparison scope position .equal = if Core.isNegated body position
      then ⟨[.op .numNotEqual], 2⟩ else ⟨[.op .numEqual], 0⟩ := by
  unfold lowerComparison
  rw [isAfterNull_eq_false hbody hcore, isNegated_eq hbody]
  rfl

theorem code_branch {condition : Source.Condition} {target : UInt32}
    (h : (decision? condition).isSome = true) :
    CodeFor scope (.branch condition target) (lowerBranch condition target) := by
  cases condition
  case always | leave => exact .jump rfl
  case ifTrue =>
    have htruth : decision? .ifTrue = some (truth true) := rfl
    exact .jumpIf htruth
  case ifFalse =>
    have htruth : decision? .ifFalse = some (truth false) := rfl
    exact .jumpIf htruth
  case equal | notEqual | less | lessEqual | greater | greaterEqual =>
    exact .jumpCompare rfl (by decide)
  case lessUnsigned | lessEqualUnsigned | greaterUnsigned | greaterEqualUnsigned => cases h

/-- Each target of a switch takes room in the code. -/
theorem length_le_extent_lowerSwitch (targets : List UInt32) :
    targets.length ≤ extent (lowerSwitch targets) := by
  unfold lowerSwitch
  rw [← List.length_zipIdx (i := 0) (l := targets), extent_append]
  generalize targets.zipIdx = cases
  induction cases with
  | nil => exact Nat.zero_le _
  | cons head cases ih =>
    obtain ⟨target, index⟩ := head
    rw [List.flatMap_cons, extent_append, List.length_cons]
    have hcase : 0 < extent (switchCase index target) :=
      Nat.lt_of_lt_of_le (Instruction.size_pos ⟨.dup, []⟩) (Nat.le_add_right ..)
    dsimp only at ih ⊢
    omega

end

/-! ## Calls -/

section

variable {module : Module} {statics : StaticLayout}

/-- The methods of a catalogue are found by their names. -/
theorem find?_catalogueOf (name : String) : (catalogueOf module statics).methods.find? name
    = (declaredMethods module).find? fun method => method.name = name := by
  show Table.findIn name ((declaredMethods module).map fun method => (method.name, method)) = _
  induction declaredMethods module with
  | nil => rfl
  | cons method methods ih =>
    rw [List.map_cons, List.find?_cons]
    by_cases hname : method.name = name
    · rw [decide_eq_true hname]
      exact if_pos hname
    · rw [decide_eq_false hname, ← ih]
      exact if_neg hname

/-- A method with a body is the only one of its name. -/
theorem find?_of_mem_declaredBodies (hnodup : ((declaredMethods module).map (·.name)).Nodup)
    {entry : Source.TypeDecl × Source.Method} (h : entry ∈ declaredBodies module) :
    ((declaredMethods module).find? fun method => method.name = entry.2.name) = some entry.2 := by
  have hmem : entry.2 ∈ declaredMethods module := by
    obtain ⟨type, htype, hentry⟩ := List.mem_flatMap.mp h
    obtain ⟨method, hmethod, rfl⟩ := List.mem_map.mp hentry
    exact List.mem_flatMap.mpr ⟨type, htype, (List.mem_filter.mp hmethod).1⟩
  clear h
  generalize declaredMethods module = methods at hnodup hmem
  induction methods with
  | nil => cases hmem
  | cons method methods ih =>
    rw [List.map_cons, List.nodup_cons] at hnodup
    rw [List.find?_cons]
    rcases List.mem_cons.mp hmem with heq | hmem
    · rw [heq, decide_eq_true rfl]
    · have hname : method.name ≠ entry.2.name := by
        intro hname
        rw [hname] at hnodup
        exact hnodup.1 (List.mem_map_of_mem hmem)
      rw [decide_eq_false hname]
      exact ih hnodup.2 hmem

theorem binding_of_mem_declaredBodies {entry : Source.TypeDecl × Source.Method}
    (h : entry ∈ declaredBodies module) : entry.2.binding = none := by
  obtain ⟨type, -, hentry⟩ := List.mem_flatMap.mp h
  obtain ⟨method, hmethod, rfl⟩ := List.mem_map.mp hentry
  have hbody := (List.mem_filter.mp hmethod).2
  unfold hasBody at hbody
  rw [Bool.and_eq_true] at hbody
  exact Option.isNone_iff_eq_none.mp hbody.2

theorem code_call {scope : Scope} {i : Source.Instruction} {name : String}
    {directives : List Directive} (hcatalogue : scope.catalogue = catalogueOf module statics)
    (hnodup : ((declaredMethods module).map (·.name)).Nodup)
    (hcore : InCore module (.call (.method name)))
    (h : callMethod scope i name = .ok directives) : CodeFor scope (.call name) directives := by
  obtain ⟨entry, hentry, rfl⟩ := List.mem_map.mp hcore
  have hcompiled : entry.2.name ∈ scope.catalogue.compiled := by
    rw [hcatalogue]
    exact hcore
  have hfind : scope.catalogue.methods.find? entry.2.name = some entry.2 := by
    rw [hcatalogue, find?_catalogueOf]
    exact find?_of_mem_declaredBodies hnodup hentry
  unfold callMethod at h
  simp only [hfind, binding_of_mem_declaredBodies hentry, List.contains_iff_mem.mpr hcompiled,
    if_pos] at h
  cases h
  exact .call hfind hcompiled

end

/-! ## Lowering -/

/-- What lowering writes for an instruction of the core is the code of its action, but for an equality
that is negated behind it. -/
theorem lower_core {module : Module} {statics : StaticLayout} {scope : Scope}
    {body : List Source.Instruction} {position : Nat} {i : Source.Instruction} {carry carry' : Carry}
    {lowered : Lowered} (hbody : scope.body = body.toArray)
    (hcore : ∀ i ∈ body, InCore module i.op) (hi : i ∈ body)
    (hcatalogue : scope.catalogue = catalogueOf module statics)
    (hnodup : ((declaredMethods module).map (·.name)).Nodup)
    (hsmall : extent lowered.directives ≤ maxScriptSize)
    (h : (lower scope position i).run carry = .ok (lowered, carry')) :
    (∃ action, actionAt? true body position i.op = some (action, position + 1 + lowered.consumed)
      ∧ CodeFor scope action lowered.directives)
    ∨ (i.op = .compare .equal ∧ Core.isNegated body position = true
      ∧ lowered = ⟨[.op .numNotEqual], 2⟩) := by
  have hhere := hcore i hi
  obtain ⟨offset, op⟩ := i
  cases op
  case nop | convert =>
    cases h
    exact .inl ⟨_, rfl, .skip⟩
  case pop | dup =>
    cases h
    exact .inl ⟨_, rfl, .compute (by decide)⟩
  case ret =>
    cases h
    exact .inl ⟨_, rfl, .ret⟩
  case throw =>
    cases h
    exact .inl ⟨_, rfl, .throw⟩
  case literal32 v | literal64 v =>
    cases h
    obtain ⟨w, haction, hwritten⟩ := literal_spec hbody position _ _
    refine .inl ⟨_, congrArg some haction, ?_⟩
    rw [hwritten]
    exact .push (.integer w)
  case loadString s =>
    cases h
    refine .inl ⟨_, rfl, .push (.byteString ?_)⟩
    have hsize := Instruction.size_pushData (Text.utf8 s)
    -- the data is part of a script, and so not longer than one
    exact Nat.lt_of_lt_of_le hsize (Nat.le_trans (Nat.le_add_right ..) (Nat.le_trans hsmall (by decide)))
  case load place index =>
    obtain ⟨d, next, hload, hrest⟩ := run_bind_eq_ok h
    obtain ⟨hresult, rfl⟩ := run_liftM_eq_ok hload
    cases hrest
    obtain ⟨slot, hslot, rfl⟩ := exceptMap_eq_ok hresult
    exact .inl ⟨_, rfl, .load (slot_bounded hslot).1 (slot_bounded hslot).2⟩
  case store place index =>
    obtain ⟨slot, next, hslot, hrest⟩ := run_bind_eq_ok h
    obtain ⟨hresult, rfl⟩ := run_liftM_eq_ok hslot
    cases hrest
    exact .inl ⟨_, rfl, .store (slot_bounded hresult).1 (slot_bounded hresult).2⟩
  case branch condition target =>
    cases h
    exact .inl ⟨_, rfl, code_branch hhere⟩
  case switch targets =>
    cases h
    refine .inl ⟨_, rfl, .switch ?_⟩
    exact Nat.lt_of_le_of_lt (Nat.le_trans (length_le_extent_lowerSwitch targets) hsmall) (by decide)
  case arithmetic operation =>
    cases h
    cases operation
    case divUnsigned | remUnsigned | shrUnsigned => cases hhere
    all_goals exact .inl ⟨_, rfl, .compute (by decide)⟩
  case compare comparison =>
    cases h
    rcases hhere with rfl | hordered
    · rw [lowerComparison_equal hbody hcore]
      cases hnegated : Core.isNegated body position with
      | true => exact .inr ⟨rfl, rfl, rfl⟩
      | false => exact .inl ⟨_, rfl, .compute (by decide)⟩
    · exact .inl (code_order hbody hordered)
  case call callee =>
    cases callee with
    | method name =>
      obtain ⟨directives, next, hcall, hrest⟩ := run_bind_eq_ok h
      obtain ⟨hresult, rfl⟩ := run_liftM_eq_ok hcall
      cases hrest
      exact .inl ⟨_, rfl, code_call hcatalogue hnodup hhere hresult⟩
    | _ => exact hhere.elim
  all_goals exact hhere.elim

/-! ## Instructions that are written as part of others -/

theorem inline?_of_isNegated {body : List Source.Instruction} {position : Nat}
    (h : Core.isNegated body position = true) : (Core.inline? body (position + 1)).isSome = true
      ∧ (Core.inline? body (position + 2)).isSome = true := by
  unfold Core.isNegated at h
  split at h
  · next hfirst hsecond =>
    rw [hfirst, hsecond]
    exact ⟨rfl, rfl⟩
  · cases h

/-- What an action covers but for its first instruction is no target of a branch. -/
theorem inline?_of_covered {body : List Source.Instruction} {position next j : Nat} {op : Op}
    {action : Action} (h : actionAt? true body position op = some (action, next))
    (hposition : position < j) (hnext : j < next) : (Core.inline? body j).isSome = true := by
  -- an action of a single instruction covers nothing
  have hnone : ∀ {action' : Action}, some (action', position + 1) = some (action, next) → False := by
    rintro _ ⟨⟩
    omega
  -- a literal covers the conversion behind it
  have hliteral : ∀ {v : Int128} {bits : Nat},
      some (Core.literal body position v bits) = some (action, next) →
      (Core.inline? body j).isSome = true := by
    intro v bits hliteral
    unfold Core.literal at hliteral
    split at hliteral
    · next heq =>
      cases hliteral
      obtain rfl : j = position + 1 := by omega
      rw [heq]
      rfl
    · exact (hnone hliteral).elim
  -- an order covers the literal and the equality that negate it
  have hordered : ∀ {first second : Action},
      (if (true && Core.isNegated body position) = true then some (first, position + 3)
        else some (second, position + 1)) = some (action, next) →
      (Core.inline? body j).isSome = true := by
    intro first second hordered
    split at hordered
    · next hnegated =>
      cases hordered
      obtain ⟨hfirst, hsecond⟩ := inline?_of_isNegated hnegated
      rcases (by omega : j = position + 1 ∨ j = position + 2) with rfl | rfl
      · exact hfirst
      · exact hsecond
    · exact (hnone hordered).elim
  cases op
  case literal32 | literal64 => exact hliteral h
  case arithmetic operation =>
    cases operation <;> first | cases h; done | exact (hnone h).elim
  case compare comparison =>
    cases comparison
    case greater | less => exact hordered h
    case equal => exact (hnone h).elim
    case greaterUnsigned | lessUnsigned => cases h
  case call callee =>
    cases callee
    case method => exact (hnone h).elim
    all_goals cases h
  all_goals first | exact (hnone h).elim | cases h

theorem not_mark_reverse (n : Nat) (source : UInt32) : .mark source ∉ Directive.reverse n := by
  unfold Directive.reverse
  split <;> simp [Directive.op, Directive.pushNat, Directive.pushInteger]

/-- The code of an action starts no source offset. -/
theorem CodeFor.not_mark {scope : Scope} {action : Action} {code : List Directive}
    (h : CodeFor scope action code) (source : UInt32) : .mark source ∉ code := by
  cases h with
  | push h =>
    cases h <;> simp [Directive.pushInteger, Directive.pushBoolean, Directive.pushData]
  | switch h =>
    unfold lowerSwitch
    rw [List.mem_append, not_or]
    refine ⟨?_, by simp [Directive.op]⟩
    intro hmem
    obtain ⟨⟨target, index⟩, -, hmem⟩ := List.mem_flatMap.mp hmem
    simp [switchCase, Directive.op, Directive.pushNat, Directive.pushInteger, Directive.jump] at hmem
  | call =>
    rw [List.mem_append, not_or]
    exact ⟨not_mark_reverse _ source, by simp [Directive.call]⟩
  | _ => simp [Directive.op, Directive.load, Directive.store, Directive.jump]

end StackContract.Contract
