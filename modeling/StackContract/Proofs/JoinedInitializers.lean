import StackContract.Proofs.InitializerParts
import StackContract.Proofs.LocalPass
/-!
# Joined initializers

The initializers of all types are joined to one body. As long as each of them ascends and there is room
for all, the branches of a type stay apart from the instructions of every other type: a branch leads to
what its own initializer has at its target, or nowhere (`joined_of_ofModule`).

The same holds of the code that is written for the body. It is linked if every jump has somewhere to go,
and rejected otherwise (`linksJumps`); where a jump goes, the code for the instruction starts that the
branch named in its own initializer (`branchesStay_of_lowers`).
-/

namespace StackContract.Compile

open Assembly Number Script

/-! ## Linked jumps -/

/-- A linked body has a jump at an address, which leads to another address. -/
def JumpsTo (linked : Body) (opcode : Opcode) (address target : Nat) : Prop :=
  ∃ operand, linked.code.find? address = some ⟨opcode, operand⟩
    ∧ signedOfBytes operand = (target : Int) - address

/-- Either code is linked, and its jumps lead to where their targets start, or it is rejected. Code
smaller than 2 GiB is only rejected for a target that starts nowhere. -/
def LinksJumps (method : String) (code : List Directive) : Prop :=
  (∃ linked, linkLocal method (assemble code) = .ok linked
      ∧ ∀ before opcode target after, closing code = before ++ .jump opcode target :: after →
        ∃ address, (assemble code).marks.find? target = some address
          ∧ JumpsTo linked opcode (extent before) address)
    ∨ ∃ e, linkLocal method (assemble code) = .error e
      ∧ ((assemble code).size < 0x8000_0000 → ∃ opcode target, .jump opcode target ∈ closing code
        ∧ (assemble code).marks.find? target = none ∧ e = .unresolvedSource method target)

theorem find?_marks_assemble (code : List Directive) (target : UInt32) :
    (assemble code).marks.find? target = markIn target 0 (closing code) := by
  rw [assemble_eq, find?_marks_run]

theorem linksJumps (method : String) (code : List Directive) : LinksJumps method code := by
  cases hlink : linkLocal method (assemble code) with
  | ok linked =>
    refine .inl ⟨linked, hlink, fun before opcode target after hcode => ?_⟩
    rw [assemble_eq] at hlink ⊢
    obtain ⟨address, operand, hmark, -, hdistance, hfind, -⟩ :=
      (resolvesJumps_of_linkLocal hlink).jump hcode
    rw [address_run] at hdistance hfind
    exact ⟨address, hmark, operand, hfind, hdistance⟩
  | error e =>
    refine .inr ⟨e, hlink, fun hsize => ?_⟩
    rw [Lowering.size_assemble] at hsize
    rcases linkLocal_ok_or_unresolved method hsize with
      ⟨linked, hok⟩ | ⟨opcode, target, hjump, habsent, herror⟩
    · rw [hlink] at hok
      cases hok
    · rw [hlink] at herror
      refine ⟨opcode, target, hjump, ?_, Except.error.inj herror⟩
      rw [find?_marks_assemble]
      exact markIn_eq_none_iff.mpr habsent

end StackContract.Compile

namespace StackContract.Lowering

open Assembly Compile Script
open Source (Field TypeDecl)

/-! ## Branches of parts -/

/-- The code for an instruction starts at an address of a body. -/
def StartsAt (prologue : List Instruction) (segments : List Segment) (i : Source.Instruction)
    (address : Nat) : Prop :=
  ∃ before segment after, segments = before ++ segment :: after ∧ segment.source = i
    ∧ address = extent (codeBehind prologue before)

/-- A position of a body is in the region of a switch over strings, which is written for the hash in
front of the region. -/
def IsInStringSwitch (segments : List Segment) (q : Nat) : Prop :=
  ∃ hash ∈ segments, hashesString hash.source.op = true ∧ hash.position < q
    ∧ q < hash.position + 1 + hash.lowered.consumed

/-- What becomes of the branches when a body of parts is written. -/
structure BranchesStay (fields : Table String Field) (parts : List Part) (scope : Scope)
    (prologue : List Instruction) (segments : List Segment) : Prop where
  /-- Every branch is written, but for those in the region of a switch over strings. -/
  written : ∀ q i, scope.body[q]? = some i → ∀ target ∈ i.op.targets,
    (∃ opcode, .jump opcode target ∈ closing (codeBehind prologue segments))
      ∨ IsInStringSwitch segments q
  /-- Every jump is written for a branch of an instruction that is kept. -/
  named : ∀ opcode target, .jump opcode target ∈ closing (codeBehind prologue segments) →
    ∃ part ∈ parts, ∃ i ∈ part.kept fields, ∃ source ∈ i.op.targets, target = source + part.shift
  /-- An instruction that a branch leads to starts somewhere, but for those in such a region. -/
  reached : ∀ q i, scope.body[q]? = some i → scope.isTarget i.offset = true →
    (∃ address, (assemble (codeBehind prologue segments)).marks.find? i.offset = some address)
      ∨ IsInStringSwitch segments q
  /-- Where a target starts, there is the code for what its own initializer has at it. -/
  starts : ∀ part ∈ parts, ∀ i ∈ part.kept fields, ∀ source ∈ i.op.targets, ∀ address,
    (assemble (codeBehind prologue segments)).marks.find? (source + part.shift) = some address →
      ∃ j ∈ part.kept fields, j.offset = source
        ∧ StartsAt prologue segments (j.shift part.shift) address
  linked : LinksJumps scope.method (codeBehind prologue segments)

section

variable {scope : Scope} {prologue : List Instruction} {segments : List Segment}

theorem exists_jump_of_target (h : Lowers scope 0 {} segments) {q : Nat} {i : Source.Instruction}
    (hi : scope.body[q]? = some i) {target : UInt32} (htarget : target ∈ i.op.targets) :
    (∃ opcode, .jump opcode target ∈ closing (codeBehind prologue segments))
      ∨ IsInStringSwitch segments q := by
  have hexposed : scope.IsExposed i := .inr (List.ne_nil_of_mem htarget)
  refine (h.exists_segment_of_exposed (Nat.zero_le q) hi hexposed).imp ?_ id
  rintro ⟨before, segment, after, rfl, -, rfl, -⟩
  have hmem : segment ∈ before ++ segment :: after :=
    List.mem_append_right _ (List.mem_cons_self ..)
  have hhash : hashesString segment.source.op = false := by
    rw [Bool.eq_false_iff]
    intro hhash
    rw [op_of_hashesString hhash] at htarget
    cases htarget
  obtain ⟨opcode, hjump⟩ := (h.keepsBranches hmem hhash).exists_reference htarget
  refine ⟨opcode, (mem_closing_iff rfl).mpr ?_⟩
  exact List.mem_flatMap.mpr ⟨segment, hmem, List.mem_cons_of_mem _ hjump⟩

theorem exists_mark_of_isTarget (h : Lowers scope 0 {} segments) {q : Nat} {i : Source.Instruction}
    (hi : scope.body[q]? = some i) (htarget : scope.isTarget i.offset = true) :
    (∃ address, (assemble (codeBehind prologue segments)).marks.find? i.offset = some address)
      ∨ IsInStringSwitch segments q := by
  refine (h.exists_segment_of_exposed (Nat.zero_le q) hi (.inl htarget)).imp ?_ id
  rintro ⟨before, segment, after, rfl, -, rfl, -⟩
  obtain ⟨rest, hcode⟩ := exists_closing_eq prologue before segment after
  apply Option.ne_none_iff_exists'.mp
  rw [find?_marks_assemble, ne_eq, markIn_eq_none_iff, hcode, not_not]
  exact List.mem_append_right _ (List.mem_cons_self ..)

/-- What starts at an address of a written body is the code for an instruction of the body. -/
theorem exists_startsAt (h : Lowers scope 0 {} segments) {target : UInt32} {address : Nat}
    (hmark : (assemble (codeBehind prologue segments)).marks.find? target = some address) :
    ∃ i ∈ scope.body, i.offset = target ∧ StartsAt prologue segments i address := by
  have hmem : .mark target ∈ closing (codeBehind prologue segments) := by
    by_contra habsent
    rw [find?_marks_assemble, markIn_eq_none_iff.mpr habsent] at hmark
    cases hmark
  obtain ⟨segment, hsegment, hoffset⟩ := h.mem_of_mark ((mem_closing_iff rfl).mp hmem)
  -- of the segments with this offset, the first one counts
  have hsome : (segments.find? fun segment => segment.source.offset = target).isSome := by
    rw [List.find?_isSome]
    exact ⟨segment, hsegment, decide_eq_true hoffset⟩
  obtain ⟨first, hfirst⟩ := Option.isSome_iff_exists.mp hsome
  obtain ⟨hat, before, after, rfl, hbefore⟩ := List.find?_eq_some_iff_append.mp hfirst
  obtain rfl : first.source.offset = target := of_decide_eq_true hat
  have hstart : (assemble (codeBehind prologue (before ++ first :: after))).marks.find? first.source.offset
      = some (extent (codeBehind prologue before)) :=
    h.find?_marks fun earlier hearlier hsame => by simpa [hsame] using hbefore earlier hearlier
  rw [hmark] at hstart
  exact ⟨first.source, Array.mem_of_getElem? (h.exists_lower (List.mem_of_find?_eq_some hfirst)).1, rfl,
    before, first, after, rfl, rfl, Option.some.inj hstart⟩

theorem branchesStay_of_lowers {types : List TypeDecl} (hjoin : Joinable types)
    (fields : Table String Field)
    (hbody : scope.body = ((parts 0 types).flatMap (Part.code fields)).toArray)
    (h : Lowers scope 0 {} segments) :
    BranchesStay fields (parts 0 types) scope prologue segments where
  written _ _ hi _ htarget := exists_jump_of_target h hi htarget
  reached _ _ hi htarget := exists_mark_of_isTarget h hi htarget
  linked := linksJumps ..
  named opcode target hjump := by
    obtain ⟨i, hi, htarget⟩ := h.mem_targets_of_reference ((mem_closing_iff rfl).mp hjump)
    rw [hbody, List.mem_toArray] at hi
    obtain ⟨part, hpart, hi⟩ := List.mem_flatMap.mp hi
    obtain ⟨i, hkept, rfl⟩ := List.mem_map.mp hi
    have hmoved : target ∈ (i.op.shiftTargets part.shift).targets := htarget
    rw [Source.Op.targets_shiftTargets] at hmoved
    obtain ⟨source, hsource, rfl⟩ := List.mem_map.mp hmoved
    exact ⟨part, hpart, i, hkept, source, hsource, rfl⟩
  starts part hpart i hi source hsource address hmark := by
    obtain ⟨j, hj, hoffset, hstart⟩ := exists_startsAt h hmark
    rw [hbody, List.mem_toArray] at hj
    obtain ⟨other, hother, hj⟩ := List.mem_flatMap.mp hj
    -- the part that has an instruction at the target is the one that takes the target up
    have hown := hjoin.holds_add_shift hpart ((hjoin.lt_span hpart hi).2 source hsource)
    have hthere := (hjoin.holds_of_mem hother hj).1
    rw [hoffset] at hthere
    obtain rfl := eq_of_holds hpart hother hown hthere
    obtain ⟨j, hkept, rfl⟩ := List.mem_map.mp hj
    exact ⟨j, hkept, (UInt32.add_left_inj part.shift).mp hoffset, hstart⟩

end

end StackContract.Lowering

namespace StackContract.Contract

open Assembly Compile Lowering Script
open Source (Module)

/-! ## Initializers of a module -/

/-- The layout of a module joins the initializers of its types. -/
structure Joined (module : Module) (layout : StaticLayout) : Prop where
  /-- The body is what is kept of each type, moved to its base. -/
  code : layout.init = (partsOf module).flatMap (Part.code (staticFields module))
  ordered : ∀ part ∈ partsOf module,
    (part.kept (staticFields module)).Sublist part.type.staticInit
  /-- Offsets and targets are moved up by the base, and do not wrap around. -/
  moved : ∀ part ∈ partsOf module, ∀ i ∈ part.kept (staticFields module),
    (i.shift part.shift).offset.toNat = part.base + i.offset.toNat
      ∧ (i.shift part.shift).op.targets.map (·.toNat)
        = i.op.targets.map fun target => part.base + target.toNat
  increasing : layout.init.Pairwise fun i j => i.offset < j.offset
  /-- No instruction branches to the offset of one of another part. -/
  apart : (partsOf module).Pairwise fun first second =>
    ∀ i ∈ first.code (staticFields module), ∀ j ∈ second.code (staticFields module),
      j.offset ∉ i.op.targets ∧ i.offset ∉ j.op.targets
  /-- The body has at a target what the initializer of the branch has there, moved with it. -/
  found : ∀ part ∈ partsOf module, ∀ i ∈ part.kept (staticFields module), ∀ target ∈ i.op.targets,
    layout.init.find? (fun j => j.offset = target + part.shift)
      = ((part.kept (staticFields module)).find? fun j => j.offset = target).map (·.shift part.shift)
  /-- So has the code that is written for the body. -/
  branches : ∀ catalogue, catalogue.statics = layout → ∀ directives,
    lowerBody (initializerScope catalogue)
        (initializerPrologue layout.slots.size (initializerScope catalogue).locals) = .ok directives →
      ∃ prologue segments, Lowers (initializerScope catalogue) 0 {} segments
        ∧ directives = codeBehind prologue segments
        ∧ BranchesStay (staticFields module) (partsOf module) (initializerScope catalogue) prologue
          segments

theorem exists_initializerPrologue (slots : Nat) (locals : UInt8) :
    ∃ prologue : List Instruction, initializerPrologue slots locals = prologue.map .instruction := by
  refine ⟨(if slots = 0 then [] else [⟨.initSSlot, [UInt8.ofNat slots]⟩])
    ++ if locals = 0 then [] else [⟨.initSlot, [locals, 0]⟩], ?_⟩
  unfold initializerPrologue
  split <;> split <;> rfl

/-- Initializers that ascend are joined if there is room for all of them. -/
theorem joined_of_ofModule {module : Module} {max : UInt8} {layout : StaticLayout}
    {events events' : Array Compile.Event} (hjoin : Joinable module.compiledTypes)
    (h : StaticLayout.ofModule module max events = .ok layout events') : Joined module layout := by
  obtain ⟨-, -, -, hinit, -⟩ := ofModule_spec h
  have hcode : layout.init = (partsOf module).flatMap (Part.code (staticFields module)) :=
    hinit.trans (keptInit_eq_parts (staticFields module) 0 module.compiledTypes)
  refine ⟨hcode, fun part _ => keptOf_sublist _ _, ?_, ?_, ?_, ?_, ?_⟩
  · intro part hpart i hi
    obtain ⟨hoffset, htargets⟩ := hjoin.lt_span hpart hi
    refine ⟨hjoin.toNat_add_shift hpart hoffset, ?_⟩
    show (i.op.shiftTargets part.shift).targets.map _ = _
    rw [Source.Op.targets_shiftTargets, List.map_map]
    exact List.map_congr_left fun target htarget => hjoin.toNat_add_shift hpart (htargets target htarget)
  · rw [hcode]
    exact hjoin.pairwise_flatMap_code _
  · apply (pairwise_holds 0 module.compiledTypes).imp_of_mem
    intro first second hfirst hsecond hapart i hi j hj
    obtain ⟨hi, hfrom⟩ := hjoin.holds_of_mem hfirst hi
    obtain ⟨hj, hto⟩ := hjoin.holds_of_mem hsecond hj
    exact ⟨fun htarget => hapart _ ⟨hfrom _ htarget, hj⟩, fun htarget => hapart _ ⟨hi, hto _ htarget⟩⟩
  · intro part hpart i hi target htarget
    rw [hcode]
    exact hjoin.find?_add_shift hpart _ ((hjoin.lt_span hpart hi).2 target htarget)
  · rintro catalogue rfl directives hlower
    obtain ⟨prologue, hprologue⟩ := exists_initializerPrologue catalogue.statics.slots.size
      (initializerScope catalogue).locals
    rw [hprologue] at hlower
    obtain ⟨segments, hlowers, hdirectives⟩ := lowerBody_spec hlower
    have hbody : (initializerScope catalogue).body
        = ((partsOf module).flatMap (Part.code (staticFields module))).toArray :=
      congrArg List.toArray hcode
    exact ⟨prologue, segments, hlowers, hdirectives, branchesStay_of_lowers hjoin _ hbody hlowers⟩

/-- Three types with initializers, of which one is not compiled. A statement of the first one is folded,
and what is kept of both others has branches. -/
def sampleInitializers : Module where
  types := [
    { name := "A"
      fields := [
        { name := "limit", type := .int32, isStatic := true, isReadonly := true },
        { name := "count", type := .int32, isStatic := true }]
      staticInit := [⟨0, .literal32 7⟩, ⟨2, .storeStatic ⟨"A", "limit"⟩⟩, ⟨3, .literal32 1⟩,
        ⟨5, .branch .ifTrue 9⟩, ⟨7, .literal32 2⟩, ⟨8, .storeStatic ⟨"A", "count"⟩⟩, ⟨9, .literal32 0⟩,
        ⟨10, .pop⟩, ⟨11, .nop⟩, ⟨14, .ret⟩] },
    { name := "G", role := .synthesized, staticInit := [⟨4, .branch .always 90⟩, ⟨4, .ret⟩] },
    { name := "B"
      fields := [{ name := "state", type := .int32, isStatic := true }]
      staticInit := [⟨0, .literal32 0⟩, ⟨1, .switch [2, 4]⟩, ⟨2, .literal32 3⟩,
        ⟨3, .branch .always 5⟩, ⟨4, .literal32 4⟩, ⟨5, .storeStatic ⟨"B", "state"⟩⟩, ⟨6, .ret⟩] }]

/-- Whether the initializer of a module can be written. -/
def writesInitializer (module : Module) (layout : StaticLayout) : Bool :=
  let scope := initializerScope (catalogueOf module layout)
  (lowerBody scope (initializerPrologue layout.slots.size scope.locals)).toOption.isSome

theorem joined_sampleInitializers : ∃ layout events,
    StaticLayout.ofModule sampleInitializers 255 #[] = .ok layout events
      ∧ Joinable sampleInitializers.compiledTypes ∧ writesInitializer sampleInitializers layout = true
      ∧ Joined sampleInitializers layout := by
  have hjoin : Joinable sampleInitializers.compiledTypes := by decide +kernel
  have hwrites : (match StaticLayout.ofModule sampleInitializers 255 #[] with
    | .ok layout _ => writesInitializer sampleInitializers layout
    | .error _ _ => false) = true := by decide +kernel
  cases h : StaticLayout.ofModule sampleInitializers 255 #[] with
  | error e events =>
    rw [h] at hwrites
    cases hwrites
  | ok layout events =>
    rw [h] at hwrites
    exact ⟨layout, events, rfl, hjoin, hwrites, joined_of_ofModule hjoin h⟩

/-- The second part starts behind offset 14, and its targets are moved with it. -/
example : ((partsOf sampleInitializers).flatMap
    (Part.code (staticFields sampleInitializers))).map (fun i => (i.offset, i.op.targets))
      = [(3, []), (5, [9]), (7, []), (8, []), (9, []), (10, []), (15, []), (16, [17, 19]), (17, []),
        (18, [20]), (19, []), (20, [])] := by
  decide +kernel

end StackContract.Contract
