import StackContract.Proofs.CodePlaces
import StackContract.Proofs.JoinedInitializers
import StackContract.Proofs.StaticStorage
import StackContract.Proofs.WrittenReturns
/-!
# The order of initializers

The initializers of all types are one method. A run of it goes through the code for the types in their
order, from the start of each to its end: no jump leads from one type to another, so that nothing is left
out and nothing is done twice (`runsInOrder_of_build`).

There is one way to end such a run early. Returns are left out at the end of an initializer, but not in
front of a store, and a return that is kept ends the initializers of all types behind, too
(`RunsInOrder.returns`).
-/

namespace StackContract.Contract

open Assembly Compile Script Lowering Machine
open Source (Module TypeDecl)

/-! ## Stops -/

/-- Whether code is that of an offset below a number. -/
def isBelow (n : Nat) (segment : Segment) : Bool :=
  segment.source.offset.toNat < n

namespace Routine

/-- The code of a method up to the offsets from a number on. -/
def upTo (routine : Routine) (n : Nat) : List Directive :=
  routine.prologue ++ (routine.segments.takeWhile (isBelow n)).flatMap Segment.code

/-- The local address behind the code for the offsets below a number. -/
def stop (routine : Routine) (n : Nat) : Nat :=
  extent (routine.upTo n)

/-- The local addresses at which the code for types starts whose offsets go from a number on, with that
of the closing return and the end of the method. -/
def stopsFrom (routine : Routine) (start : Nat) (types : List TypeDecl) : List Nat :=
  (parts start types).map (fun part => routine.stop part.base)
    ++ [routine.stop (start + (types.map spanOf).sum), extent routine.code]

/-- The local addresses that a run of the initializer comes by: the start of the method, the starts of
the code for the types, that of the closing return and the end of the method. -/
def stops (routine : Routine) (types : List TypeDecl) : List Nat :=
  0 :: routine.stopsFrom 0 types

theorem stopsFrom_cons (routine : Routine) (start : Nat) (type : TypeDecl) (types : List TypeDecl) :
    routine.stopsFrom start (type :: types)
      = routine.stop start :: routine.stopsFrom (start + spanOf type) types := by
  unfold stopsFrom
  rw [List.map_cons, List.sum_cons, Nat.add_assoc]
  rfl

theorem exists_stopsFrom (routine : Routine) (start : Nat) (types : List TypeDecl) :
    ∃ rest, routine.stopsFrom start types = routine.stop start :: rest := by
  cases types with
  | nil => exact ⟨_, rfl⟩
  | cons type types => exact ⟨_, routine.stopsFrom_cons start type types⟩

section

variable {routine : Routine} {before after : List Segment} {segment : Segment} {n : Nat}

theorem stop_zero (routine : Routine) : routine.stop 0 = extent routine.prologue := by
  have hnone : routine.segments.takeWhile (isBelow 0) = [] := by
    cases routine.segments with
    | nil => rfl
    | cons segment segments => exact List.takeWhile_cons_of_neg (by simp [isBelow])
  unfold stop upTo
  rw [hnone, List.flatMap_nil, List.append_nil]

theorem extent_prologue_le (routine : Routine) (n : Nat) : extent routine.prologue ≤ routine.stop n := by
  unfold stop upTo
  rw [extent_append]
  exact Nat.le_add_right ..

theorem stop_le_extent (routine : Routine) (n : Nat) : routine.stop n ≤ extent routine.directives := by
  obtain ⟨rest, hrest⟩ : routine.segments.takeWhile (isBelow n) <+: routine.segments :=
    List.takeWhile_prefix _
  have hextent := congrArg (fun segments => extent (segments.flatMap Segment.code)) hrest
  simp only [List.flatMap_append, extent_append] at hextent
  unfold stop upTo directives
  rw [extent_append, extent_append]
  omega

theorem stop_mono (routine : Routine) {n m : Nat} (h : n ≤ m) : routine.stop n ≤ routine.stop m := by
  have hprefix : routine.segments.takeWhile (isBelow n) <+: routine.segments.takeWhile (isBelow m) := by
    induction routine.segments with
    | nil => exact List.prefix_refl _
    | cons segment segments ih =>
      by_cases hbelow : isBelow n segment = true
      · have hthere : isBelow m segment = true :=
          decide_eq_true (Nat.lt_of_lt_of_le (of_decide_eq_true hbelow) h)
        rw [List.takeWhile_cons_of_pos hbelow, List.takeWhile_cons_of_pos hthere]
        exact (List.prefix_cons_inj segment).mpr ih
      · rw [List.takeWhile_cons_of_neg hbelow]
        exact List.nil_prefix
  obtain ⟨rest, hrest⟩ := hprefix
  unfold stop upTo
  rw [← hrest, List.flatMap_append, extent_append, extent_append, extent_append]
  omega

theorem extent_directives_le (routine : Routine) : extent routine.directives ≤ extent routine.code := by
  unfold code
  rcases closing_eq routine.directives with hclosing | hclosing <;> rw [hclosing]
  rw [extent_append]
  exact Nat.le_add_right ..

/-- Behind the offsets of all segments is what closes the method. -/
theorem stop_eq (h : ∀ segment ∈ routine.segments, segment.source.offset.toNat < n) :
    routine.stop n = extent routine.directives := by
  have hall : routine.segments.takeWhile (isBelow n) = routine.segments := by
    rw [← List.append_nil routine.segments]
    exact List.takeWhile_append_of_pos fun segment hsegment => decide_eq_true (h segment hsegment)
  unfold stop upTo directives
  rw [hall]

/-- The code for an offset is behind the stop of a number that is not above it. -/
theorem stop_le (hsegments : routine.segments = before ++ segment :: after)
    (h : n ≤ segment.source.offset.toNat) :
    routine.stop n ≤ extent (routine.prologue ++ before.flatMap Segment.code) := by
  have hprefix : routine.segments.takeWhile (isBelow n) <+: before := by
    have hnot : ¬ isBelow n segment = true := by simpa [isBelow] using h
    rw [hsegments, List.takeWhile_append, List.takeWhile_cons_of_neg hnot, List.append_nil]
    split
    · exact List.prefix_refl _
    · exact List.takeWhile_prefix _
  obtain ⟨rest, hrest⟩ := hprefix
  unfold stop upTo
  rw [← hrest, List.flatMap_append, extent_append, extent_append, extent_append]
  omega

/-- The code for an offset is in front of the stop of a number above it. -/
theorem le_stop (hincreasing : routine.segments.Pairwise fun first second =>
      first.source.offset < second.source.offset)
    (hsegments : routine.segments = before ++ segment :: after) (h : segment.source.offset.toNat < n) :
    extent (routine.prologue ++ (before.flatMap Segment.code ++ segment.code)) ≤ routine.stop n := by
  have hbelow : ∀ earlier ∈ before, isBelow n earlier = true := by
    intro earlier hearlier
    rw [hsegments, List.pairwise_append] at hincreasing
    have hlt := hincreasing.2.2 earlier hearlier segment (List.mem_cons_self ..)
    rw [UInt32.lt_iff_toNat_lt] at hlt
    exact decide_eq_true (Nat.lt_trans hlt h)
  have hthis : isBelow n segment = true := decide_eq_true h
  unfold stop upTo
  rw [hsegments, List.takeWhile_append_of_pos hbelow, List.takeWhile_cons_of_pos hthis,
    List.flatMap_append, List.flatMap_cons]
  simp only [extent_append]
  omega

end

/-! ## Bodies that go up -/

/-- A method that is written for a body whose offsets go up, with no code but that of its instructions. -/
structure Rising (routine : Routine) : Prop where
  formed : routine.Formed
  prologue : ∃ instructions : List Script.Instruction, routine.prologue = instructions.map .instruction
  lowers : Lowers routine.scope 0 {} routine.segments
  increasing : routine.scope.body.toList.Pairwise fun i j => i.offset < j.offset
  hashes : HashesNoString routine.scope.body
  code : ∀ segment ∈ routine.segments, Code routine.scope segment.lowered.directives

/-- Control goes nowhere from between two local addresses but to there, or to the second one. -/
def Encloses (routine : Routine) (low high : Nat) : Prop :=
  ∀ before d after there, routine.code = before ++ d :: after → 0 < d.size →
    GoesTo routine.code before d after there → low ≤ extent before → extent before < high →
    low ≤ there ∧ there ≤ high

end Routine

theorem extent_code {segment : Segment} {first rest : List Directive} {d : Directive}
    (h : segment.lowered.directives = first ++ d :: rest) :
    extent segment.code = extent (.mark segment.source.offset :: first) + extent (d :: rest) := by
  unfold Segment.code
  rw [h, ← List.cons_append, extent_append]

/-- A directive of a segment is between the start of the segment and its end. -/
theorem extent_segment (prologue : List Directive) (front : List Segment) {segment : Segment}
    {first rest : List Directive} {d : Directive} (h : segment.lowered.directives = first ++ d :: rest) :
    extent (prologue ++ front.flatMap Segment.code)
        ≤ extent (prologue ++ (front.flatMap Segment.code ++ .mark segment.source.offset :: first))
      ∧ extent (prologue ++ (front.flatMap Segment.code ++ segment.code))
        = extent (prologue ++ (front.flatMap Segment.code ++ .mark segment.source.offset :: first))
          + extent (d :: rest) := by
  simp only [extent_append, extent_code h]
  omega

/-- The segments of a body are for instructions of it, in their order. -/
theorem sublist_of_lowers {scope : Scope} {position : Nat} {carry : Carry} {segments : List Segment}
    (h : Lowers scope position carry segments) :
    (segments.map (·.source)).Sublist (scope.body.toList.drop position) := by
  induction h with
  | finish _ => exact List.nil_sublist _
  | @next position _ _ lowered rest hposition _ _ ih =>
    rw [List.map_cons, ← List.cons_getElem_drop_succ (h := hposition)]
    exact .cons_cons _ (ih.trans (List.drop_sublist_drop_left _ (Nat.le_add_right ..)))

namespace Routine.Rising

variable {routine : Routine} {n m : Nat}

theorem pairwise_segments (h : routine.Rising) : routine.segments.Pairwise fun first second =>
    first.source.offset < second.source.offset := by
  have hsources := h.increasing.sublist (sublist_of_lowers h.lowers)
  rw [List.pairwise_map] at hsources
  exact hsources

/-- Where a source offset starts, there is the code for the instruction with this offset. -/
theorem exists_start (h : routine.Rising) {source : UInt32} {there : Nat}
    (hmark : markIn source 0 routine.code = some there) :
    ∃ front segment behind, routine.segments = front ++ segment :: behind
      ∧ segment.source.offset = source
      ∧ there = extent (routine.prologue ++ front.flatMap Segment.code) := by
  obtain ⟨instructions, hprologue⟩ := h.prologue
  unfold Routine.code Routine.directives at hmark
  rw [hprologue] at hmark ⊢
  have hassembled : (assemble (codeBehind instructions routine.segments)).marks.find? source
      = some there :=
    (find?_marks_assemble _ source).trans hmark
  obtain ⟨i, -, rfl, front, segment, behind, hsegments, rfl, rfl⟩ := exists_startsAt h.lowers hassembled
  exact ⟨front, segment, behind, hsegments, rfl, rfl⟩

theorem encloses (h : routine.Rising)
    (hbranches : ∀ i ∈ routine.scope.body, n ≤ i.offset.toNat → i.offset.toNat < m →
      ∀ target ∈ i.op.targets, n ≤ target.toNat ∧ target.toNat < m) :
    routine.Encloses (routine.stop n) (routine.stop m) := by
  intro before d after there hcode hsize hgoes hfirst hbehind
  cases Routine.place hcode hsize with
  | prologue hprologue =>
    -- the prologue is in front of all stops
    have hstart := routine.extent_prologue_le n
    rw [hprologue, extent_append, extent] at hstart
    omega
  | close => exact absurd (routine.stop_le_extent m) (Nat.not_le_of_lt hbehind)
  | @segment front behind segment first rest _ hsegments hdirectives =>
    have hmem : segment ∈ routine.segments :=
      hsegments ▸ List.mem_append_right _ (List.mem_cons_self ..)
    obtain ⟨hstart, hend⟩ := extent_segment routine.prologue front hdirectives
    have hpos : 0 < extent (d :: rest) := Nat.lt_of_lt_of_le hsize (Nat.le_add_right ..)
    -- the directive is one of a segment whose offset is in the range
    have hlow : n ≤ segment.source.offset.toNat := by
      by_contra hnot
      have hstop := Routine.le_stop h.pairwise_segments hsegments (Nat.lt_of_not_le hnot)
      omega
    have hhigh : segment.source.offset.toNat < m := by
      by_contra hnot
      have hstop := Routine.stop_le hsegments (Nat.le_of_not_lt hnot)
      omega
    have hstop := Routine.le_stop h.pairwise_segments hsegments hhigh
    have hform : Code routine.scope (d :: rest) := (hdirectives ▸ h.code segment hmem).drop
    generalize rest ++ (behind.flatMap Segment.code ++ routine.close) = after at hgoes
    cases hgoes with
    | behind =>
      rw [extent_append]
      have hextent : extent (d :: rest) = extent [d] + extent rest := extent_append [d] rest
      omega
    | skip =>
      cases hform with
      | cons hemitted => exact absurd (isRelative_of_emitted hemitted) (by decide)
      | @skip target op rest =>
        -- the instruction behind the case belongs to the segment, too
        have hcase : ∀ target, extent [.instruction skipCase, .op .drop, .jump .jmpL target] = caseSize :=
          fun _ => rfl
        have hextent : extent (.instruction skipCase :: .op .drop :: .jump .jmpL target :: .op op :: rest)
            = caseSize + extent (.op op :: rest) :=
          extent_append [.instruction skipCase, .op .drop, .jump .jmpL target] _
        rw [extent_append, hcase]
        omega
    | @start opcode source _ _ hmark =>
      have htarget : source ∈ segment.source.op.targets := by
        rw [← (h.lowers.keepsBranches hmem (h.hashes.segment h.lowers hmem)).branches, hdirectives]
        exact List.mem_filterMap.mpr ⟨_, List.mem_append_right _ (List.mem_cons_self ..), rfl⟩
      obtain ⟨hfrom, hto⟩ := hbranches segment.source
        (Array.mem_of_getElem? (h.lowers.exists_lower hmem).1) hlow hhigh source htarget
      obtain ⟨front', segment', behind', hsegments', rfl, rfl⟩ := h.exists_start hmark
      refine ⟨Routine.stop_le hsegments' hfrom, ?_⟩
      have hstop' := Routine.le_stop h.pairwise_segments hsegments' hto
      rw [← List.append_assoc, extent_append] at hstop'
      omega

/-- The prologue is left at its end. -/
theorem encloses_prologue (h : routine.Rising) : routine.Encloses 0 (routine.stop 0) := by
  intro before d after there hcode hsize hgoes _ hbehind
  rw [routine.stop_zero] at hbehind ⊢
  refine ⟨Nat.zero_le _, ?_⟩
  cases Routine.place hcode hsize with
  | @prologue _ rest behind _ hprologue =>
    obtain ⟨i, rfl, hplain⟩ :=
      h.formed.prologue d (hprologue ▸ List.mem_append_right _ (List.mem_cons_self ..))
    generalize rest ++ behind = after at hgoes
    cases hgoes with
    | behind =>
      rw [hprologue, extent_append, extent_append]
      exact Nat.add_le_add_left (Nat.add_le_add_left (Nat.zero_le _) _) _
    | skip => exact absurd hplain (by decide)
  | close =>
    have hextent : extent routine.directives = extent routine.prologue + _ := extent_append ..
    omega
  | segment =>
    rw [extent_append] at hbehind
    omega

/-- There is nothing behind the closing return. -/
theorem encloses_close (routine : Routine) :
    routine.Encloses (extent routine.directives) (extent routine.code) := by
  intro before d after there hcode hsize hgoes hfirst _
  have hextent : extent routine.directives
      = extent routine.prologue + extent (routine.segments.flatMap Segment.code) := extent_append ..
  cases Routine.place hcode hsize with
  | prologue hprologue =>
    rw [hextent, hprologue, extent_append, extent] at hfirst
    omega
  | @segment front behind segment first rest _ hsegments hdirectives =>
    have hpos : extent (d :: rest) = d.size + extent rest := rfl
    rw [hextent, hsegments, List.flatMap_append, List.flatMap_cons, extent_append, extent_append,
      extent_code hdirectives, extent_append, extent_append] at hfirst
    omega
  | close =>
    cases hgoes with
    | behind hpos => cases hpos

end Routine.Rising

/-! ## Runs of such methods -/

/-- Between such addresses the outermost call stays up to the second one. -/
theorem InMethod.stays {script : Array UInt8} {bases : String → Option Nat} {base low high : Nat}
    {routine : Routine} {s t : State} (h : InMethod script base routine s)
    (hloaded : Loaded script bases base routine.code) (hformed : routine.Formed)
    (hencloses : routine.Encloses low high) (hstep : Machine.step s = .ok true t)
    (hlow : base + low ≤ s.outermost) (hhigh : s.outermost < base + high) :
    base + low ≤ t.outermost ∧ t.outermost ≤ base + high := by
  rcases (h.step hloaded hformed hstep).2 with
    hsame | ⟨before, d, after, there, hcode, hsize, hat, hthere, hgoes⟩
  · omega
  · have hwithin := hencloses before d after there hcode hsize hgoes (by omega) (by omega)
    omega

section

variable {script : Array UInt8} {bases : String → Option Nat} {base start : Nat} {routine : Routine}
  {types : List TypeDecl}

theorem InMethod.advances {s t : State} {n : Nat} (h : InMethod script base routine s)
    (hloaded : Loaded script bases base routine.code) (hformed : routine.Formed)
    (hadvances : Advances n s t) : InMethod script base routine t := by
  induction hadvances with
  | here => exact h
  | next hstep _ ih => exact ih (h.step hloaded hformed hstep).1

/-- The directive that a run ends at writes a return. -/
theorem InMethod.exists_return {s t : State} (h : InMethod script base routine s)
    (hloaded : Loaded script bases base routine.code) (hstep : Machine.step s = .ok false t) :
    ∃ before d after, routine.code = before ++ d :: after ∧ 0 < d.size
      ∧ s.outermost = base + extent before ∧ d.isReturn = true := by
  obtain ⟨haddress, i, hcurrent, hret⟩ := outermost_end h.framed hstep
  obtain ⟨before, d, after, hcode, hsize, hat⟩ := h.exists_directive
  refine ⟨before, d, after, hcode, hsize, hat, ?_⟩
  have hdecode : Script.decode script (base + extent before) = .ok i := h.decode haddress hat hcurrent
  cases d with
  | mark source => cases hsize
  | instruction instruction =>
    obtain rfl := Except.ok.inj ((hloaded.instruction hcode).symm.trans hdecode)
    exact decide_eq_true hret
  | reference opcode target =>
    cases target with
    | source source =>
      obtain ⟨operand, there, -, -, hread, -⟩ := hloaded.branch hcode
      obtain rfl := Except.ok.inj (hread.symm.trans hdecode)
      exact decide_eq_true hret
    | method name =>
      obtain ⟨operand, callee, -, -, hread, -⟩ := hloaded.callee hcode
      obtain rfl := Except.ok.inj (hread.symm.trans hdecode)
      exact decide_eq_true hret

/-- The stops of parts that enclose control are separated. -/
theorem separated_stopsFrom (hloaded : Loaded script bases base routine.code) (hformed : routine.Formed)
    (hencloses : ∀ part ∈ parts start types,
      routine.Encloses (routine.stop part.base) (routine.stop (part.base + spanOf part.type)))
    (hclose : routine.stop (start + (types.map spanOf).sum) = extent routine.directives) :
    Separated (InMethod script base routine) ((routine.stopsFrom start types).map (base + ·)) := by
  induction types generalizing start with
  | nil =>
    rw [List.map_nil, List.sum_nil, Nat.add_zero] at hclose
    have hle : routine.stop start ≤ extent routine.code := by
      rw [hclose]
      exact routine.extent_directives_le
    refine .cons (Nat.add_le_add_left hle base) (fun s t hs hstep => ?_) (.last fun s hs => hs.lt)
    show base + routine.stop start ≤ s.outermost → _ → base + routine.stop start ≤ _ ∧ _
    rw [hclose]
    exact hs.stays hloaded hformed (Routine.Rising.encloses_close routine) hstep
  | cons type types ih =>
    rw [List.map_cons, List.sum_cons, ← Nat.add_assoc] at hclose
    have hrest := ih (fun part hpart => hencloses part (List.mem_cons_of_mem _ hpart)) hclose
    have hstays := hencloses ⟨start, type⟩ (List.mem_cons_self ..)
    have hle := routine.stop_mono (Nat.le_add_right start (spanOf type))
    rw [Routine.stopsFrom_cons]
    obtain ⟨rest, heq⟩ := routine.exists_stopsFrom (start + spanOf type) types
    rw [heq] at hrest ⊢
    refine .cons (Nat.add_le_add_left hle base) (fun s t hs hstep => ?_) hrest
    exact hs.stays hloaded hformed hstays hstep

theorem separated_stops (hloaded : Loaded script bases base routine.code) (hrising : routine.Rising)
    (hencloses : ∀ part ∈ parts 0 types,
      routine.Encloses (routine.stop part.base) (routine.stop (part.base + spanOf part.type)))
    (hclose : routine.stop (types.map spanOf).sum = extent routine.directives) :
    Separated (InMethod script base routine) ((routine.stops types).map (base + ·)) := by
  have hparts := separated_stopsFrom hloaded hrising.formed hencloses (by rw [Nat.zero_add, hclose])
  unfold Routine.stops
  obtain ⟨rest, heq⟩ := routine.exists_stopsFrom 0 types
  rw [heq] at hparts ⊢
  refine .cons (Nat.add_le_add_left (Nat.zero_le _) base) (fun s t hs hstep => ?_) hparts
  exact hs.stays hloaded hrising.formed hrising.encloses_prologue hstep

end

/-! ## The initializer of a module -/

/-- How a run of the method that prepares the static fields goes through the initializers of the types. -/
structure RunsInOrder (limits : Compile.Limits) (module : Module) (program : Program)
    (routine : Routine) (method : PlacedMethod) : Prop where
  /-- The method is written for the initializers of the module. -/
  written : ∃ statics, (∃ events events', StaticLayout.ofModule module limits.staticFields events
      = .ok statics events') ∧ IsInitializer limits (catalogueOf module statics) routine
  placed : method ∈ program.methods ∧ Linked (baseOf? program.methods) method.base routine method
  /-- Whatever the run comes to, it has gone through the code for the types in front from the start to the
  end, one type behind the other. -/
  goesThrough : ∀ (s : State) n t, s.script = program.script.toArray →
    Advances n (s.start method.base []) t →
    GoesThrough ((routine.stops module.compiledTypes).map (method.base + ·)) n
      (s.start method.base []) t
  /-- It returns behind all of them, or at a return that is kept of one of them. -/
  returns : ∀ (s : State) n t u, s.script = program.script.toArray →
    Advances n (s.start method.base []) t → Machine.step t = .ok false u →
    method.base + routine.stop (module.compiledTypes.map spanOf).sum ≤ t.outermost
      ∨ ∃ part ∈ partsOf module, (∃ i ∈ part.kept (staticFields module), i.op = .ret)
        ∧ method.base + routine.stop part.base ≤ t.outermost
        ∧ t.outermost < method.base + routine.stop (part.base + spanOf part.type)

theorem hashesString_shift (i : Source.Instruction) (delta : UInt32) :
    hashesString (i.shift delta).op = hashesString i.op := by
  obtain ⟨offset, op⟩ := i
  cases op <;> rfl

theorem op_of_shift {i : Source.Instruction} {delta : UInt32} (h : (i.shift delta).op = .ret) :
    i.op = .ret := by
  obtain ⟨offset, op⟩ := i
  cases op <;> cases h
  rfl

/-- The initializer starts with instructions that neither jump nor return. -/
theorem mem_initializerPrologue {slots : Nat} {locals : UInt8} {d : Directive}
    (h : d ∈ initializerPrologue slots locals) :
    ∃ i, d = .instruction i ∧ i.opcode.isRelative = false ∧ i.opcode ≠ .ret := by
  unfold initializerPrologue at h
  rcases List.mem_append.mp h with h | h <;> split at h
  · cases h
  · exact ⟨_, List.mem_singleton.mp h, rfl, nofun⟩
  · cases h
  · exact ⟨_, List.mem_singleton.mp h, rfl, nofun⟩

section

variable {limits : Compile.Limits} {module : Module} {program : Program}
  {image : Image limits module program} {routine : Routine}

/-- The instructions of the initializer are those of its parts. -/
theorem exists_part (hjoined : Joined module image.statics)
    (hscope : routine.scope = initializerScope image.catalogue) {i : Source.Instruction}
    (hi : i ∈ routine.scope.body) : ∃ part ∈ partsOf module, i ∈ part.code (staticFields module) := by
  rw [hscope] at hi
  have hinit : i ∈ image.statics.init := List.mem_toArray.mp hi
  rw [hjoined.code] at hinit
  exact List.mem_flatMap.mp hinit

/-- The initializer is written for a body whose offsets go up. -/
theorem rising_of_isInitializer (hjoined : Joined module image.statics)
    (hsplices : SplicesNothing module)
    (hhash : ∀ type ∈ module.compiledTypes, ∀ i ∈ type.staticInit, hashesString i.op = false)
    (hmem : routine ∈ image.all) (h : IsInitializer limits image.catalogue routine) :
    routine.Rising where
  formed := by
    refine ⟨fun d hd => ?_, image.code hsplices hmem⟩
    rw [h.prologue] at hd
    obtain ⟨i, hi, hplain, -⟩ := mem_initializerPrologue hd
    exact ⟨i, hi, hplain⟩
  prologue := h.prologue ▸ exists_initializerPrologue _ _
  lowers := h.lowers
  increasing := by
    rw [h.scope]
    exact hjoined.increasing
  hashes := by
    intro i hi
    obtain ⟨part, hpart, hi⟩ := exists_part hjoined h.scope hi
    obtain ⟨j, hj, rfl⟩ := List.mem_map.mp hi
    rw [hashesString_shift]
    exact hhash part.type (mem_parts hpart).1 j ((hjoined.ordered part hpart).subset hj)
  code := by
    intro segment hsegment
    have hslots : routine.scope.catalogue.SlotsBounded := by
      rw [image.catalogue_eq hmem]
      exact image.slotsBounded
    obtain ⟨hsource, _, _, hcarry, hlower⟩ := h.lowers.segment hslots (carry_bounded_empty _) hsegment
    exact (lower_code hslots hcarry (image.not_splices hsplices hmem _ hsource) hlower).1

/-- The code for a type is left at its end only. -/
theorem encloses_part (hjoin : Joinable module.compiledTypes) (hjoined : Joined module image.statics)
    (hscope : routine.scope = initializerScope image.catalogue) (hrising : routine.Rising)
    {part : Compile.Part} (hpart : part ∈ partsOf module) :
    routine.Encloses (routine.stop part.base) (routine.stop (part.base + spanOf part.type)) := by
  refine hrising.encloses fun i hi hlow hhigh => ?_
  obtain ⟨other, hother, hi⟩ := exists_part hjoined hscope hi
  obtain ⟨hthere, htargets⟩ := hjoin.holds_of_mem hother hi
  obtain rfl := eq_of_holds hpart hother ⟨hlow, hhigh⟩ hthere
  exact htargets

/-- All code for types is in front of the closing return. -/
theorem stop_sum (hjoin : Joinable module.compiledTypes) (hjoined : Joined module image.statics)
    (hscope : routine.scope = initializerScope image.catalogue) (hrising : routine.Rising) :
    routine.stop (module.compiledTypes.map spanOf).sum = extent routine.directives := by
  refine Routine.stop_eq fun segment hsegment => ?_
  have hbody := Array.mem_of_getElem? (hrising.lowers.exists_lower hsegment).1
  obtain ⟨part, hpart, hi⟩ := exists_part hjoined hscope hbody
  have hend := (mem_parts hpart).2.2
  have hbelow := (hjoin.holds_of_mem hpart hi).1.2
  omega

/-- Returns are kept of the initializers, or close the method. -/
theorem exists_part_of_return (hjoin : Joinable module.compiledTypes)
    (hjoined : Joined module image.statics) (hsplices : SplicesNothing module)
    (hmem : routine ∈ image.all) (h : IsInitializer limits image.catalogue routine)
    (hrising : routine.Rising) {before after : List Directive} {d : Directive}
    (hcode : routine.code = before ++ d :: after) (hsize : 0 < d.size) (hreturn : d.isReturn = true) :
    before = routine.directives ∨ ∃ part ∈ partsOf module,
      (∃ i ∈ part.kept (staticFields module), i.op = .ret) ∧ routine.stop part.base ≤ extent before
        ∧ extent before < routine.stop (part.base + spanOf part.type) := by
  cases Routine.place hcode hsize with
  | close => exact .inl rfl
  | prologue hprologue =>
    have hd : d ∈ routine.prologue := hprologue ▸ List.mem_append_right _ (List.mem_cons_self ..)
    rw [h.prologue] at hd
    obtain ⟨i, rfl, -, hret⟩ := mem_initializerPrologue hd
    exact absurd (of_decide_eq_true hreturn) hret
  | @segment front behind segment first rest _ hsegments hdirectives =>
    have hsegment : segment ∈ routine.segments :=
      hsegments ▸ List.mem_append_right _ (List.mem_cons_self ..)
    obtain ⟨hsource, _, _, hlower⟩ := hrising.lowers.exists_lower hsegment
    have hbody := Array.mem_of_getElem? hsource
    have hret := op_of_isReturn (image.not_splices hsplices hmem _ hbody) hlower
      (hdirectives ▸ List.mem_append_right _ (List.mem_cons_self ..)) hreturn
    obtain ⟨part, hpart, hcodeOf⟩ := exists_part hjoined h.scope hbody
    obtain ⟨hlow, hhigh⟩ := (hjoin.holds_of_mem hpart hcodeOf).1
    obtain ⟨j, hj, hshift⟩ := List.mem_map.mp hcodeOf
    obtain ⟨hstart, hend⟩ := extent_segment routine.prologue front hdirectives
    have hpos : 0 < extent (d :: rest) := Nat.lt_of_lt_of_le hsize (Nat.le_add_right ..)
    have hstop := Routine.stop_le hsegments hlow
    have hstop' := Routine.le_stop hrising.pairwise_segments hsegments hhigh
    exact .inr ⟨part, hpart, ⟨j, hj, op_of_shift (hshift ▸ hret)⟩, by omega, by omega⟩

/-- The initializer of a program runs in order. -/
theorem runsInOrder_of_image (hjoin : Joinable module.compiledTypes) (hsplices : SplicesNothing module)
    (hhash : ∀ type ∈ module.compiledTypes, ∀ i ∈ type.staticInit, hashesString i.op = false)
    (h : IsInitializer limits image.catalogue routine) {method : PlacedMethod}
    (hat : image.At routine method) : RunsInOrder limits module program routine method := by
  obtain ⟨events, events', hstatics⟩ := image.statics_eq
  have hjoined : Joined module image.statics := joined_of_ofModule hjoin hstatics
  have hrising := rising_of_isInitializer hjoined hsplices hhash hat.routine_mem h
  have hloaded := hat.resident.loaded
  have hstart : ∀ {s : State}, s.script = program.script.toArray →
      InMethod program.script.toArray method.base routine (s.start method.base []) :=
    fun hscript => .start hscript _ _ _
  refine ⟨⟨image.statics, image.statics_eq, h⟩, ⟨hat.method_mem, hat.resident.linked⟩, ?_, ?_⟩
  · intro s n t hscript hadvances
    have hseparated : Separated (InMethod program.script.toArray method.base routine)
        ((routine.stops module.compiledTypes).map (method.base + ·)) :=
      separated_stops hloaded hrising (fun part hpart => encloses_part hjoin hjoined h.scope hrising hpart)
        (stop_sum hjoin hjoined h.scope hrising)
    exact hseparated.goesThrough (hstart hscript) (fun u v hu hstep =>
      (hu.step hloaded hrising.formed hstep).1) hadvances
  · intro s n t u hscript hadvances hstep
    have hthere := (hstart hscript).advances hloaded hrising.formed hadvances
    obtain ⟨before, d, after, hcode, hsize, hat', hreturn⟩ := hthere.exists_return hloaded hstep
    rw [hat', stop_sum hjoin hjoined h.scope hrising]
    rcases exists_part_of_return hjoin hjoined hsplices hat.routine_mem h hrising hcode hsize hreturn with
      rfl | ⟨part, hpart, hret, hlow, hhigh⟩
    · exact .inl (Nat.le_refl _)
    · exact .inr ⟨part, hpart, hret, Nat.add_le_add_left hlow _, Nat.add_lt_add_left hhigh _⟩

end

/-- The initializer of an accepted module runs in order, if offsets and branches of its types can be told
apart, nothing is spliced in, and no initializer hashes a string. -/
theorem runsInOrder_of_build {limits : Compile.Limits} {module : Module} {contract : Contract}
    (hbuild : build limits module = .ok contract) (hneeds : NeedsInitializer module)
    (hjoin : Joinable module.compiledTypes) (hsplices : SplicesNothing module)
    (hhash : ∀ type ∈ module.compiledTypes, ∀ i ∈ type.staticInit, hashesString i.op = false) :
    ∃ routine method, contract.initializer? = some method.base
      ∧ RunsInOrder limits module contract.program routine method := by
  obtain ⟨⟨image⟩, -⟩ := image_of_build hbuild
  have hlast := image.last
  rw [if_pos (image.needsInitializer_iff.mpr hneeds)] at hlast
  obtain ⟨routine, heq, hroutine⟩ := hlast
  have hmem : routine ∈ image.all :=
    List.mem_append_right _ (heq ▸ List.mem_singleton_self routine)
  obtain ⟨method, hat⟩ := image.exists_at hmem
  have hbase := hat.base
  rw [hroutine.signature] at hbase
  exact ⟨routine, method, hbase, runsInOrder_of_image hjoin hsplices hhash hroutine hat⟩

theorem runsInOrder_sampleInitializers : ∃ contract, build {} sampleInitializers = .ok contract
    ∧ NeedsInitializer sampleInitializers ∧ Joinable sampleInitializers.compiledTypes
    ∧ SplicesNothing sampleInitializers
    ∧ ∃ routine method, contract.initializer? = some method.base
      ∧ RunsInOrder {} sampleInitializers contract.program routine method := by
  obtain ⟨contract, hbuild⟩ : ∃ contract, build {} sampleInitializers = .ok contract :=
    exists_contract (by decide +kernel)
  have hneeds : NeedsInitializer sampleInitializers := .inl (by decide +kernel)
  have hjoin : Joinable sampleInitializers.compiledTypes := by decide +kernel
  have hsplices : SplicesNothing sampleInitializers := splicesNothing_of_unbound nofun
  have hhash : ∀ type ∈ sampleInitializers.compiledTypes, ∀ i ∈ type.staticInit,
      hashesString i.op = false := by decide +kernel
  exact ⟨contract, hbuild, hneeds, hjoin, hsplices, runsInOrder_of_build hbuild hneeds hjoin hsplices hhash⟩

end StackContract.Contract
