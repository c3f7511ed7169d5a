import StackContract.Proofs.CoreStates
import StackContract.Proofs.LinkedImage
import StackContract.Proofs.OutermostCall
/-!
# Places in the code of a method

The code of a method is a prologue, the code of one source instruction behind the other, and perhaps a
closing return (`Routine.Place`). Control goes from a directive in it to the one behind, over the rest of
a switch case, or to where a source offset starts (`GoesTo`), as long as nothing is spliced in. That is
what the outermost call of a run does with the code of its method (`InMethod.step`).
-/

namespace StackContract.Contract

open Assembly Compile Script Lowering Machine
open Source (Module)

/-! ## Places -/

/-- Where a directive stands in the code of a method, with what is in front of it and behind it. -/
inductive Routine.Place (routine : Routine) : List Directive → Directive → List Directive → Prop
  | prologue {before after behind : List Directive} {d : Directive}
    (h : routine.prologue = before ++ d :: after) : routine.Place before d (after ++ behind)
  | segment {front behind : List Segment} {segment : Segment} {first rest : List Directive}
    {d : Directive} (hsegments : routine.segments = front ++ segment :: behind)
    (hdirectives : segment.lowered.directives = first ++ d :: rest) :
    routine.Place (routine.prologue ++ (front.flatMap Segment.code ++ .mark segment.source.offset :: first))
      d (rest ++ (behind.flatMap Segment.code ++ routine.close))
  | close : routine.Place routine.directives (.op .ret) []

/-- An element of two lists in a row is one of the first or of the second. -/
theorem append_eq_append_cons {α : Type} {xs ys before after : List α} {x : α}
    (h : xs ++ ys = before ++ x :: after) :
    (∃ rest, xs = before ++ x :: rest ∧ after = rest ++ ys)
      ∨ ∃ first, before = xs ++ first ∧ ys = first ++ x :: after := by
  rcases List.append_eq_append_iff.mp h with ⟨first, rfl, hys⟩ | ⟨rest, rfl, hafter⟩
  · exact .inr ⟨first, rfl, hys⟩
  · cases rest with
    | nil => exact .inr ⟨[], by simp, hafter.symm⟩
    | cons y rest =>
      cases hafter
      exact .inl ⟨rest, rfl, rfl⟩

theorem exists_segment_of_flatMap {segments : List Segment} {before after : List Directive}
    {d : Directive} (hsize : 0 < d.size)
    (h : segments.flatMap Segment.code = before ++ d :: after) :
    ∃ front segment behind first rest, segments = front ++ segment :: behind
      ∧ segment.lowered.directives = first ++ d :: rest
      ∧ before = front.flatMap Segment.code ++ .mark segment.source.offset :: first
      ∧ after = rest ++ behind.flatMap Segment.code := by
  induction segments generalizing before with
  | nil => cases before <;> cases h
  | cons segment segments ih =>
    rw [List.flatMap_cons] at h
    rcases append_eq_append_cons h with ⟨rest, hcode, rfl⟩ | ⟨first, rfl, hrest⟩
    · -- a mark has no size
      cases before with
      | nil =>
        cases hcode
        cases hsize
      | cons mark first =>
        obtain ⟨rfl, hdirectives⟩ := List.cons.inj hcode
        exact ⟨[], segment, segments, first, rest, rfl, hdirectives, rfl, rfl⟩
    · obtain ⟨front, other, behind, first, rest, rfl, hdirectives, rfl, rfl⟩ := ih hrest
      exact ⟨segment :: front, other, behind, first, rest, rfl, hdirectives,
        (List.append_assoc ..).symm, rfl⟩

/-- Every directive of a method that has a size has its place. -/
theorem Routine.place {routine : Routine} {before after : List Directive} {d : Directive}
    (hcode : routine.code = before ++ d :: after) (hsize : 0 < d.size) :
    routine.Place before d after := by
  rw [routine.code_eq] at hcode
  rcases append_eq_append_cons hcode with ⟨rest, hprologue, rfl⟩ | ⟨first, rfl, hrest⟩
  · exact .prologue hprologue
  · rcases append_eq_append_cons hrest with ⟨rest, hsegments, rfl⟩ | ⟨last, rfl, hclose⟩
    · obtain ⟨front, segment, behind, first, rest, hfront, hdirectives, rfl, rfl⟩ :=
        exists_segment_of_flatMap hsize hsegments
      rw [List.append_assoc]
      exact .segment hfront hdirectives
    · -- the closing return stands alone
      unfold Routine.close at hclose
      split at hclose
      · cases last with
        | nil =>
          cases hclose
          rw [List.append_nil]
          exact .close
        | cons _ last => cases last <;> cases hclose
      · cases last <;> cases hclose

/-! ## Where control goes -/

/-- Where control goes from a directive in the code of a method: behind it, over the rest of a switch
case, or to where a source offset starts. -/
inductive GoesTo (code before : List Directive) : Directive → List Directive → Nat → Prop
  | behind {d : Directive} {after : List Directive} (hpos : 0 < extent after) :
    GoesTo code before d after (extent (before ++ [d]))
  | skip {target : UInt32} {op : Opcode} {rest : List Directive} :
    GoesTo code before (.instruction skipCase) (.op .drop :: .jump .jmpL target :: .op op :: rest)
      (extent (before ++ [.instruction skipCase, .op .drop, .jump .jmpL target]))
  | start {opcode : Opcode} {source : UInt32} {after : List Directive} {address : Nat}
    (hmark : markIn source 0 code = some address) :
    GoesTo code before (.jump opcode source) after address

/-- Control goes to a place with an instruction. -/
theorem GoesTo.place {routine : Routine} {before after : List Directive} {d : Directive} {address : Nat}
    (hcode : routine.code = before ++ d :: after) (h : GoesTo routine.code before d after address) :
    ∃ front rest, routine.code = front ++ rest ∧ 0 < extent rest ∧ address = extent front := by
  cases h with
  | behind hpos => exact ⟨_, after, hcode.trans (List.append_cons ..), hpos, rfl⟩
  | @skip target op rest =>
    refine ⟨_, .op op :: rest, hcode.trans ?_,
      Nat.lt_of_lt_of_le Nat.zero_lt_one (Nat.le_add_right ..), rfl⟩
    rw [List.append_assoc]
    rfl
  | start hmark =>
    obtain ⟨front, rest, hsplit, hnew, rfl⟩ := markIn_eq_some_iff.mp hmark
    refine ⟨front, _, hsplit, ?_, Nat.zero_add _⟩
    rw [extent_mark]
    exact (closed_closing routine.directives).starts hsplit hnew

/-- Code of a method in which nothing is spliced. -/
structure Routine.Formed (routine : Routine) : Prop where
  prologue : ∀ d ∈ routine.prologue, ∃ i, d = .instruction i ∧ i.opcode.isRelative = false
  code : ∃ body, routine.code = routine.prologue ++ body ∧ Code routine.scope body

/-- A directive of such code is an instruction of the prologue, or the first one of the rest. -/
theorem Routine.Formed.split {routine : Routine} (h : routine.Formed) {before after : List Directive}
    {d : Directive} (hcode : routine.code = before ++ d :: after) :
    (∃ i, d = .instruction i ∧ i.opcode.isRelative = false) ∨ Code routine.scope (d :: after) := by
  obtain ⟨body, hbody, hform⟩ := h.code
  rcases append_eq_append_cons (hbody.symm.trans hcode) with ⟨rest, hprologue, -⟩ | ⟨first, -, hrest⟩
  · exact .inl (h.prologue d (hprologue ▸ List.mem_append_right _ (List.mem_cons_self ..)))
  · exact .inr (hrest ▸ hform).drop

section

variable {script : Array UInt8} {bases : String → Option Nat} {base : Nat} {routine : Routine}
  {before after : List Directive} {d : Directive} {s t : State} {i : Located} {flow : Flow}
  {address : Nat}

/-- A reference to a method calls it or pushes its address, and does not jump. -/
theorem ne_jump_of_reference {scope : Scope} {opcode : Opcode} {name : String} {operand : List UInt8}
    (h : Emitted scope (.reference opcode (.method name))) {target : Nat}
    (hexecute : execute ⟨⟨opcode, operand⟩, address⟩ s = .ok flow t) : flow ≠ .jump target := by
  rintro rfl
  have hleads := leads_of_execute hexecute
  cases h with
  | common h =>
    cases h with
    | call => exact nomatch hleads
    | pushAddress => exact nomatch hleads

/-- An instruction that does not jump moves the call behind its directive. -/
theorem goesBehind_of_execute (hcode : routine.code = before ++ d :: after) (hsize : 0 < d.size)
    (hterminator : i.opcode.isTerminator = d.isTerminator)
    (hnext : i.next = base + extent before + d.size) (hexecute : execute i s = .ok flow t)
    (hmoves : flow.MovesTo i address) (hjump : ∀ target, flow ≠ .jump target) :
    ∃ there, address = base + there ∧ GoesTo routine.code before d after there := by
  have hfalls : d.isTerminator = false := by
    rw [← hterminator, ← Bool.not_eq_true]
    intro hthere
    rcases jump_or_leave_of_terminator hexecute hthere with ⟨target, rfl⟩ | ⟨returnTo, rfl⟩
    · exact hjump target rfl
    · exact hmoves
  refine ⟨_, ?_, .behind ((closed_closing routine.directives).falls hcode hsize hfalls)⟩
  rw [extent_append, ← Nat.add_assoc]
  cases flow with
  | next | enter => exact hmoves.trans hnext
  | jump target => exact absurd rfl (hjump target)
  | leave => exact hmoves.elim

/-- An instruction of a method moves the call of the method as its directive says. -/
theorem goesTo_of_execute (hloaded : Loaded script bases base routine.code) (hformed : routine.Formed)
    (hcode : routine.code = before ++ d :: after) (hsize : 0 < d.size)
    (hdecode : decode script (base + extent before) = .ok i) (hexecute : execute i s = .ok flow t)
    (hmoves : flow.MovesTo i address) :
    ∃ there, address = base + there ∧ GoesTo routine.code before d after there := by
  have hform := hformed.split hcode
  -- control that jumps goes to the target
  have hjumps : ∀ {there : Nat}, i.target? = some (base + there) → (∃ target, flow = .jump target) →
      address = base + there := by
    rintro there htarget ⟨target, rfl⟩
    rw [target?_of_jump hexecute] at htarget
    exact hmoves.trans (Option.some.inj htarget)
  have hflow : (∃ target, flow = .jump target) ∨ ∀ target, flow ≠ .jump target := by
    by_cases h : ∃ target, flow = .jump target
    · exact .inl h
    · exact .inr fun target heq => h ⟨target, heq⟩
  cases d with
  | mark source => cases hsize
  | instruction instruction =>
    obtain rfl := Except.ok.inj ((hloaded.instruction hcode).symm.trans hdecode)
    rcases hflow with hjump | hjump
    · have hrelative : instruction.opcode.isRelative = true := by
        obtain ⟨target, rfl⟩ := hjump
        have htarget := target?_of_jump hexecute
        by_contra hnot
        unfold Located.target? Instruction.displacement? at htarget
        rw [if_neg hnot] at htarget
        cases htarget
      rcases hform with ⟨i, hi, hplain⟩ | hform
      · cases hi
        rw [hplain] at hrelative
        cases hrelative
      · cases hform with
        | cons hemitted =>
          rw [isRelative_of_emitted hemitted] at hrelative
          cases hrelative
        | @skip target op rest =>
          refine ⟨_, hjumps ?_ hjump, .skip⟩
          rw [target?_skipCase, extent_append, ← Nat.add_assoc]
          rfl
    · exact goesBehind_of_execute hcode hsize rfl rfl hexecute hmoves hjump
  | reference opcode target =>
    cases target with
    | source source =>
      obtain ⟨operand, there, hlength, hmark, hread, htarget⟩ := hloaded.branch hcode
      obtain rfl := Except.ok.inj (hread.symm.trans hdecode)
      rcases hflow with hjump | hjump
      · exact ⟨there, hjumps htarget hjump, .start hmark⟩
      · refine goesBehind_of_execute hcode hsize rfl ?_ hexecute hmoves hjump
        unfold Located.next Instruction.size
        rw [hlength]
        rfl
    | method name =>
      obtain ⟨operand, callee, hlength, -, hread, -⟩ := hloaded.callee hcode
      obtain rfl := Except.ok.inj (hread.symm.trans hdecode)
      refine goesBehind_of_execute hcode hsize rfl ?_ hexecute hmoves fun target => ?_
      · unfold Located.next Instruction.size
        rw [hlength]
        rfl
      · rcases hform with ⟨i, hi, -⟩ | hform
        · cases hi
        · cases hform with
          | cons hemitted => exact ne_jump_of_reference hemitted hexecute

end

/-! ## The call of a method -/

/-- The outermost call is one of a method, in front of an instruction. -/
structure InMethod (script : Array UInt8) (base : Nat) (routine : Routine) (s : State) : Prop where
  framed : Framed s
  script : s.script = script
  place : ∃ front rest, routine.code = front ++ rest ∧ 0 < extent rest
    ∧ s.outermost = base + extent front

namespace InMethod

variable {script : Array UInt8} {bases : String → Option Nat} {base : Nat} {routine : Routine}
  {s t : State}

theorem start (hscript : s.script = script) (base : Nat) (routine : Routine) (arguments : List Item) :
    InMethod script base routine (s.start base arguments) :=
  ⟨framed_start .., hscript, [], routine.code, rfl, extent_closing_pos _, rfl⟩

theorem lt (h : InMethod script base routine s) : s.outermost < base + extent routine.code := by
  obtain ⟨front, rest, hcode, hpos, hat⟩ := h.place
  rw [hat, hcode, extent_append]
  omega

/-- The directive that the outermost call is in front of. -/
theorem exists_directive (h : InMethod script base routine s) : ∃ before d after,
    routine.code = before ++ d :: after ∧ 0 < d.size ∧ s.outermost = base + extent before := by
  obtain ⟨front, rest, hcode, hpos, hat⟩ := h.place
  obtain ⟨marks, d, after, rfl, hmarks, hsize⟩ := exists_first_of_extent_pos hpos
  refine ⟨front ++ marks, d, after, by rw [hcode, List.append_assoc], hsize, ?_⟩
  rw [hat, extent_append, hmarks, Nat.add_zero]

theorem decode (h : InMethod script base routine s) (haddress : s.outermost = s.address) {address : Nat}
    (hat : s.outermost = address) {i : Located} (hcurrent : s.current = .ok i) :
    Script.decode script address = .ok i := by
  unfold State.current at hcurrent
  rw [h.script, ← haddress, hat] at hcurrent
  split at hcurrent <;> cases hcurrent
  assumption

/-- A step leaves the outermost call where it is, or moves it as the directive says that it is in front
of. -/
theorem step (h : InMethod script base routine s) (hloaded : Loaded script bases base routine.code)
    (hformed : routine.Formed) (hstep : Machine.step s = .ok true t) :
    InMethod script base routine t ∧ (t.outermost = s.outermost ∨ ∃ before d after there,
      routine.code = before ++ d :: after ∧ 0 < d.size ∧ s.outermost = base + extent before
        ∧ t.outermost = base + there ∧ GoesTo routine.code before d after there) := by
  have hframed : Framed t := h.framed.step hstep
  have hscript : t.script = script := by
    have hkeeps := step_keeps s
    rw [hstep] at hkeeps
    exact (congrArg Settings.script hkeeps).trans h.script
  rcases outermost_step h.framed hstep with hsame | ⟨haddress, i, flow, u, hcurrent, hexecute, hmoves⟩
  · exact ⟨⟨hframed, hscript, hsame ▸ h.place⟩, .inl hsame⟩
  · obtain ⟨before, d, after, hcode, hsize, hat⟩ := h.exists_directive
    have hdecode := h.decode haddress hat hcurrent
    obtain ⟨there, hthere, hgoes⟩ := goesTo_of_execute hloaded hformed hcode hsize hdecode hexecute hmoves
    refine ⟨⟨hframed, hscript, ?_⟩, .inr ⟨before, d, after, there, hcode, hsize, hat, hthere, hgoes⟩⟩
    obtain ⟨front, rest, hplace, hpos, rfl⟩ := hgoes.place hcode
    exact ⟨front, rest, hplace, hpos, hthere⟩

end InMethod

end StackContract.Contract
