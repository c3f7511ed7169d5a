import StackContract.Proofs.Loading
/-!
# Corresponding code

Two programs may differ in the order of their methods, in the slots of their static fields, and in
whether a static field is a constant or kept in a slot, and still do the same. `CodeAlike` says so of
code, directive by directive, and `RoutinesAlike` of whole methods, which may start with a prologue.
-/

namespace StackContract.Contract

open Assembly Script Lowering Machine

/-- How the static slots of two programs stand for each other. -/
structure SlotLink where
  slots : UInt8 → UInt8 → Prop
  /-- A constant of the first program, and the slot in which the second one keeps it. -/
  constants : Item → UInt8 → Prop
  /-- Whether both programs make room for static fields. -/
  together : Prop
  unique : ∀ {s s' t t'}, slots s s' → slots t t' → (s = t ↔ s' = t')
  apart : ∀ {s s' v}, slots s s' → ¬ constants v s'

/-- A directive that pushes an item without looking at the memory. -/
inductive Pushes : Directive → Item → Prop
  | integer (v : Number.Int128) : Pushes (.pushInteger v) (.integer v)
  | boolean (b : Bool) : Pushes (.pushBoolean b) (.boolean b)
  | byteString {bytes : List UInt8} (h : bytes.length < 256 ^ 4) :
    Pushes (.pushData bytes) (.byteString bytes)

/-- Directives that do the same in two programs. -/
inductive DirectivesAlike (link : SlotLink) (scope : Scope) : Directive → Directive → Prop
  | common {d : Directive} (h : Common scope d) : DirectivesAlike link scope d d
  | static (isLoad : Bool) {slot slot' : UInt8} (h : link.slots slot slot') :
    DirectivesAlike link scope (.instruction (Access.mk .static isLoad slot).instruction)
      (.instruction (Access.mk .static isLoad slot').instruction)
  | constant {d : Directive} {v : Item} {slot : UInt8} (h : link.constants v slot)
    (hpushes : Pushes d v) : DirectivesAlike link scope d (.load .static slot)

/-- Code that does the same in two programs. A jump over a switch case has the same behind it in
both. -/
inductive CodeAlike (link : SlotLink) (scope : Scope) : List Directive → List Directive → Prop
  | nil : CodeAlike link scope [] []
  | cons {d d' : Directive} {rest rest' : List Directive} (h : DirectivesAlike link scope d d')
    (hrest : CodeAlike link scope rest rest') : CodeAlike link scope (d :: rest) (d' :: rest')
  | skip {target : UInt32} {op : Opcode} {rest rest' : List Directive}
    (hrest : CodeAlike link scope (.op .drop :: .jump .jmpL target :: .op op :: rest)
      (.op .drop :: .jump .jmpL target :: .op op :: rest')) :
    CodeAlike link scope
      (.instruction skipCase :: .op .drop :: .jump .jmpL target :: .op op :: rest)
      (.instruction skipCase :: .op .drop :: .jump .jmpL target :: .op op :: rest')

variable {link : SlotLink} {scope : Scope}

theorem CodeAlike.tail {d d' : Directive} {rest rest' : List Directive}
    (h : CodeAlike link scope (d :: rest) (d' :: rest')) : CodeAlike link scope rest rest' := by
  cases h with
  | cons _ hrest => exact hrest
  | skip hrest => exact hrest

theorem CodeAlike.exists_cons {d : Directive} {rest code' : List Directive}
    (h : CodeAlike link scope (d :: rest) code') : ∃ d' rest', code' = d' :: rest' := by
  cases h <;> exact ⟨_, _, rfl⟩

/-- Alike directives are the same mark, or none is a mark. -/
theorem DirectivesAlike.mark {d d' : Directive} (h : DirectivesAlike link scope d d') :
    (∃ source, d = .mark source ∧ d' = .mark source) ∨ (0 < d.size ∧ 0 < d'.size) := by
  have hpos : ∀ i : Instruction, 0 < Directive.size (.instruction i) := fun i => i.size_pos
  cases h with
  | common h =>
    cases h with
    | mark source => exact .inl ⟨source, rfl, rfl⟩
    | jump | call | pushAddress => exact .inr ⟨Nat.succ_pos _, Nat.succ_pos _⟩
    | _ => exact .inr ⟨hpos _, hpos _⟩
  | static isLoad h => exact .inr ⟨hpos _, hpos _⟩
  | constant h hpushes => cases hpushes <;> exact .inr ⟨hpos _, hpos _⟩

theorem CodeAlike.head {d d' : Directive} {rest rest' : List Directive}
    (h : CodeAlike link scope (d :: rest) (d' :: rest')) :
    (∃ source, d = .mark source ∧ d' = .mark source) ∨ (0 < d.size ∧ 0 < d'.size) := by
  cases h with
  | cons hd _ => exact hd.mark
  | skip _ => exact .inr ⟨Instruction.size_pos _, Instruction.size_pos _⟩

/-- Alike code with bytes has alike first instructions, behind marks at most. -/
theorem CodeAlike.first {code code' : List Directive} (h : CodeAlike link scope code code')
    (hpos : 0 < extent code) : ∃ marks d rest marks' d' rest', code = marks ++ d :: rest
      ∧ code' = marks' ++ d' :: rest' ∧ extent marks = 0 ∧ extent marks' = 0 ∧ 0 < d.size
      ∧ 0 < d'.size ∧ CodeAlike link scope (d :: rest) (d' :: rest') := by
  induction code generalizing code' with
  | nil => exact absurd hpos (Nat.lt_irrefl 0)
  | cons d rest ih =>
    obtain ⟨d', rest', rfl⟩ := h.exists_cons
    rcases h.head with ⟨source, rfl, rfl⟩ | ⟨hsize, hsize'⟩
    · rw [extent_mark] at hpos
      obtain ⟨marks, first, others, marks', first', others', rfl, rfl, hmarks, hmarks', hfirst⟩ :=
        ih h.tail hpos
      exact ⟨.mark source :: marks, first, others, .mark source :: marks', first', others', rfl,
        rfl, (extent_mark ..).trans hmarks, (extent_mark ..).trans hmarks', hfirst⟩
    · exact ⟨[], d, rest, [], d', rest', rfl, rfl, rfl, rfl, hsize, hsize', h⟩

/-- The first mark of an offset has the same behind it in alike code. -/
theorem CodeAlike.mark {before after code' : List Directive} {source : UInt32}
    (h : CodeAlike link scope (before ++ .mark source :: after) code')
    (hfirst : .mark source ∉ before) : ∃ before' after', code' = before' ++ .mark source :: after'
      ∧ .mark source ∉ before' ∧ CodeAlike link scope after after' := by
  induction before generalizing code' with
  | nil =>
    obtain ⟨d', rest', rfl⟩ := h.exists_cons
    rcases h.head with ⟨other, hmark, rfl⟩ | ⟨hsize, -⟩
    · cases hmark
      exact ⟨[], rest', rfl, List.not_mem_nil, h.tail⟩
    · exact absurd hsize (Nat.lt_irrefl 0)
  | cons d before ih =>
    rw [List.mem_cons, not_or] at hfirst
    obtain ⟨d', rest', rfl⟩ := h.exists_cons
    obtain ⟨before', after', rfl, hbefore, hafter⟩ := ih h.tail hfirst.2
    refine ⟨d' :: before', after', rfl, ?_, hafter⟩
    rw [List.mem_cons, not_or]
    refine ⟨?_, hbefore⟩
    rintro rfl
    rcases h.head with ⟨other, rfl, hmark⟩ | ⟨-, hsize⟩
    · exact hfirst.1 hmark
    · exact absurd hsize (Nat.lt_irrefl 0)

/-- Code is alike to itself as far as the slots are that it accesses. -/
theorem CodeAlike.refl {code : List Directive} (h : Code scope code)
    (hslots : ∀ slot : UInt8, slot.toNat < scope.catalogue.statics.slots.size →
      link.slots slot slot) : CodeAlike link scope code code := by
  induction h with
  | nil => exact .nil
  | cons hd _ ih =>
    cases hd with
    | common h => exact .cons (.common h) ih
    | static isLoad h => exact .cons (.static isLoad (hslots _ h)) ih
  | skip _ ih => exact .skip ih

/-! ## What is left to do in a method -/

/-- What is left of two methods: their bodies, once the slots are in place, and what makes room for
the slots of the method and the static fields before that. -/
inductive RestAlike (link : SlotLink) (scope : Scope) (sized : Prop) :
    Prop → List Directive → List Directive → Prop
  | body {ready : Prop} {rest rest' : List Directive} (hready : ready) (hsized : sized)
    (h : CodeAlike link scope rest rest') : RestAlike link scope sized ready rest rest'
  | slots {ready : Prop} {rest rest' : List Directive} (hready : ready)
    (h : CodeAlike link scope rest rest') : RestAlike link scope sized ready
      (.instruction ⟨.initSlot, [scope.locals, scope.params]⟩ :: rest)
      (.instruction ⟨.initSlot, [scope.locals, scope.params]⟩ :: rest')
  | statics {ready : Prop} {n n' : UInt8} {rest rest' : List Directive} (htogether : link.together)
    (hbounds : ∀ {s s'}, link.slots s s' → s.toNat < n.toNat ∧ s'.toNat < n'.toNat)
    (h : RestAlike link scope sized True rest rest') : RestAlike link scope sized ready
      (.instruction ⟨.initSSlot, [n]⟩ :: rest) (.instruction ⟨.initSSlot, [n']⟩ :: rest')

theorem RestAlike.mono {sized ready sized' ready' : Prop} {rest rest' : List Directive}
    (h : RestAlike link scope sized ready rest rest') (hready : ready → ready')
    (hsized : sized → sized') : RestAlike link scope sized' ready' rest rest' := by
  induction h generalizing ready' with
  | body hr hs h => exact .body (hready hr) (hsized hs) h
  | slots hr h => exact .slots (hready hr) h
  | statics htogether hbounds _ ih => exact .statics htogether hbounds (ih id)

/-- Routines that do the same in two programs. -/
structure RoutinesAlike (link : SlotLink) (routine routine' : Routine) : Prop where
  /-- Both methods have the same slots. -/
  locals : routine.scope.locals = routine'.scope.locals
  params : routine.scope.params = routine'.scope.params
  /-- A method starts with its prologue, unless it needs none. -/
  entry : ∀ {sized : Prop}, (routine.scope.locals = 0 → routine.scope.params = 0 → sized) →
    RestAlike link routine.scope sized True routine.code routine'.code
  bodies : ∃ before body before' body', routine.code = before ++ body
    ∧ routine'.code = before' ++ body' ∧ (∀ source, .mark source ∉ before)
    ∧ (∀ source, .mark source ∉ before') ∧ CodeAlike link routine.scope body body'

/-- An offset that starts in one of two alike routines starts in the other one, with alike code behind
it. -/
theorem RoutinesAlike.start {routine routine' : Routine} (h : RoutinesAlike link routine routine')
    {source : UInt32} {address : Nat} (hstart : markIn source 0 routine.code = some address) :
    ∃ before after before' after', routine.code = before ++ .mark source :: after
      ∧ .mark source ∉ before ∧ address = extent before
      ∧ routine'.code = before' ++ .mark source :: after' ∧ .mark source ∉ before'
      ∧ markIn source 0 routine'.code = some (extent before')
      ∧ CodeAlike link routine.scope after after' := by
  obtain ⟨before, after, hcode, hfirst, rfl⟩ := markIn_eq_some_iff.mp hstart
  obtain ⟨prologue, body, prologue', body', hsplit, hsplit', hnone, hnone', hbodies⟩ := h.bodies
  -- the first mark stands behind the prologue
  obtain ⟨front, rfl, rfl⟩ : ∃ front, before = prologue ++ front
      ∧ body = front ++ .mark source :: after := by
    rcases List.append_eq_append_iff.mp (hsplit.symm.trans hcode) with
      ⟨front, hbefore, hbody⟩ | ⟨middle, hprologue, hmark⟩
    · exact ⟨front, hbefore, hbody⟩
    · cases middle with
      | nil =>
        rw [List.append_nil] at hprologue
        exact ⟨[], by rw [List.append_nil, hprologue], hmark.symm⟩
      | cons d middle =>
        rw [List.cons_append] at hmark
        refine absurd ?_ (hnone source)
        rw [hprologue, (List.cons.inj hmark).1]
        exact List.mem_append_right _ (List.mem_cons_self ..)
  have hfront : .mark source ∉ front := fun hmem => hfirst (List.mem_append_right _ hmem)
  obtain ⟨front', after', rfl, hfront', hafter⟩ := hbodies.mark hfront
  have hfirst' : .mark source ∉ prologue' ++ front' := by
    rw [List.mem_append, not_or]
    exact ⟨hnone' source, hfront'⟩
  have hcode' : routine'.code = prologue' ++ front' ++ .mark source :: after' := by
    rw [hsplit', List.append_assoc]
  refine ⟨_, after, _, after', hcode, hfirst, Nat.zero_add _, hcode', hfirst', ?_, hafter⟩
  exact markIn_eq_some_iff.mpr ⟨_, _, hcode', hfirst', (Nat.zero_add _).symm⟩

end StackContract.Contract
