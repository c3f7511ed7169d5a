import StackContract.Proofs.Loading
import StackContract.Proofs.Sample
/-!
# Linked images are well formed

The script of an accepted module is its methods one behind the other, it reads back as exactly their
instructions, and every branch, call and function pointer leads to the start of an instruction
(`wellLinked_of_build`).
-/

namespace StackContract.Contract

open Assembly Compile Script Lowering
open Source (TypeDecl Module)

/-! ## Statement -/

/-- An instruction of a method starts at an address of the script. -/
def StartsIn (program : Program) (method : PlacedMethod) (address : Nat) : Prop :=
  ∃ entry ∈ method.body.code.entries, address = method.base + entry.1
    ∧ decode program.script.toArray address = .ok ⟨entry.2, address⟩

/-- The instruction of a directive at an address of the script leads to where it should: a branch to
the address bound to its source offset, a call or a function pointer to the base of the method it
names, and any other relative instruction to an instruction of its own method. -/
def LeadsRight (program : Program) (method : PlacedMethod) (address : Nat) : Directive → Prop
  | .mark _ => True
  | .instruction i => decode program.script.toArray address = .ok ⟨i, address⟩
      ∧ (i.opcode.isRelative = true →
        ∃ target, Located.target? ⟨i, address⟩ = some target ∧ StartsIn program method target)
  | .reference opcode (.source source) => ∃ operand bound,
      decode program.script.toArray address = .ok ⟨⟨opcode, operand⟩, address⟩
      ∧ method.body.marks.find? source = some bound
      ∧ Located.target? ⟨⟨opcode, operand⟩, address⟩ = some (method.base + bound)
      ∧ StartsIn program method (method.base + bound)
  | .reference opcode (.method name) => ∃ operand callee,
      decode program.script.toArray address = .ok ⟨⟨opcode, operand⟩, address⟩
      ∧ callee ∈ program.methods ∧ callee.signature.name = name
      ∧ Located.target? ⟨⟨opcode, operand⟩, address⟩ = some callee.base
      ∧ StartsIn program callee callee.base

/-- A routine that a module calls for: of a declared method, or the initializer. -/
def Routine.BelongsTo (limits : Limits) (module : Module) (statics : StaticLayout)
    (routine : Routine) : Prop :=
  (∃ entry ∈ declaredBodies module, IsMethod limits (catalogueOf module statics) entry routine)
    ∨ IsInitializer limits (catalogueOf module statics) routine

/-- The local address of a directive of a segment. -/
def Routine.addressOf (routine : Routine) (before : List Segment) (segment : Segment)
    (first : List Directive) : Nat :=
  extent (routine.prologue ++ before.flatMap Segment.code ++ .mark segment.source.offset :: first)

/-- The script of a program is well formed. -/
structure WellLinked (limits : Limits) (module : Module) (program : Program) : Prop where
  /-- The script is the encodings of the methods' instructions in the order of the methods. -/
  script : program.script = (program.methods.flatMap (·.body.instructions)).flatMap Instruction.encode
  /-- A base is the sum of the sizes of the methods in front. -/
  bases : ∀ before method after, program.methods = before ++ method :: after →
    method.base = (before.map (·.body.size)).sum
  increasing : program.methods.Pairwise fun first second => first.base < second.base
  resolved : ∀ method ∈ program.methods, method.body.relocations = []
  /-- The script reads as the methods' instructions, each at its base and local address. -/
  read : disassemble program.script.toArray
    = ((program.methods.flatMap fun method => method.body.code.entries.map fun entry =>
        (⟨entry.2, method.base + entry.1⟩ : Located)).toArray, none)
  /-- Whatever is written for an instruction of the source leads to where it should, unless it is
  spliced from a binding. -/
  targets : ∃ statics, (∃ events events', StaticLayout.ofModule module limits.staticFields events
      = .ok statics events')
    ∧ ∀ method ∈ program.methods, ∃ routine : Routine, routine.BelongsTo limits module statics
      ∧ Linked (baseOf? program.methods) method.base routine method
      ∧ ∀ before segment after, routine.segments = before ++ segment :: after →
        ¬ routine.scope.Splices segment.source →
        ∀ first d rest, segment.lowered.directives = first ++ d :: rest →
          LeadsRight program method (method.base + routine.addressOf before segment first) d

/-! ## Reading the script -/

variable {bases : String → Option Nat}

theorem locate_listing {fill : Filling} (hfill : ∀ a t, (fill a t).length = placeholderWidth)
    (base address : Nat) (code : List Directive) :
    locate (base + address) ((listing fill address code).map Prod.snd)
      = (listing fill address code).map fun entry => ⟨entry.2, base + entry.1⟩ := by
  induction code generalizing address with
  | nil => rfl
  | cons d rest ih =>
    cases d with
    | mark source => exact ih address
    | instruction i =>
      show ⟨i, base + address⟩ :: locate (base + address + i.size) _ = _
      rw [Nat.add_assoc, ih]
      rfl
    | reference opcode target =>
      have hsize : (Instruction.mk opcode (fill address target)).size = 1 + placeholderWidth := by
        unfold Instruction.size
        rw [hfill]
      show _ :: locate (base + address + (Instruction.mk opcode (fill address target)).size) _ = _
      rw [hsize, Nat.add_assoc, ih]
      rfl

/-- Laid out methods are located at their bases. -/
theorem locate_laid {base : Nat} {routines : List Routine} {methods : List PlacedMethod}
    (h : Laid bases base routines methods) :
    locate base (methods.flatMap (·.body.instructions))
      = methods.flatMap fun method => method.body.code.entries.map fun entry =>
        ⟨entry.2, method.base + entry.1⟩ := by
  induction h with
  | nil => rfl
  | @cons base routine head routines methods hhead _ ih =>
    have hfill := length_linkedFill routine.start bases base
    have hinstructions : head.body.instructions
        = (listing (linkedFill routine.start bases base) 0 routine.code).map Prod.snd := by
      unfold Body.instructions Table.values
      rw [hhead.entries]
    have hlocate := locate_listing hfill base 0 routine.code
    rw [Nat.add_zero] at hlocate
    rw [List.flatMap_cons, List.flatMap_cons, locate_append, hinstructions, hlocate,
      length_encode_listing _ hfill, ih, hhead.entries, hhead.base_eq]

/-! ## Targets -/

section

variable {program : Program} {routine : Routine} {method : PlacedMethod}

/-- Where code with bytes follows, an instruction of the method starts. -/
theorem Resident.startsIn
    (h : Resident program.script.toArray (baseOf? program.methods) routine method)
    {before after : List Directive} (hcode : routine.code = before ++ after) (hafter : 0 < extent after) :
    StartsIn program method (method.base + extent before) := by
  obtain ⟨marks, d, rest, rfl, hmarks, hsize⟩ := exists_first_of_extent_pos hafter
  have hextent : extent (before ++ marks) = extent before := by
    rw [extent_append, hmarks, Nat.add_zero]
  rw [← List.append_assoc] at hcode
  have hread : ∀ i, (extent (before ++ marks), i) ∈ method.body.code.entries →
      StartsIn program method (method.base + extent before) := by
    intro i hentry
    have hdecode := h.read _ hentry
    rw [hextent] at hentry hdecode
    exact ⟨_, hentry, rfl, hdecode⟩
  cases d with
  | mark source => exact absurd hsize (Nat.lt_irrefl 0)
  | instruction i =>
    refine hread i ?_
    rw [h.linked.entries, hcode]
    exact mem_listing_instruction
  | reference opcode target =>
    refine hread ⟨opcode, linkedFill routine.start (baseOf? program.methods) method.base
      (extent (before ++ marks)) target⟩ ?_
    rw [h.linked.entries, hcode]
    exact mem_listing_reference

/-- At the address bound to a source offset an instruction of the method starts. -/
theorem Resident.startsIn_start
    (h : Resident program.script.toArray (baseOf? program.methods) routine method) {source : UInt32}
    {bound : Nat} (hbound : routine.start source = some bound) :
    StartsIn program method (method.base + bound) := by
  obtain ⟨first, others, hsplit, hnew, rfl⟩ := markIn_eq_some_iff.mp hbound
  rw [Nat.zero_add]
  refine h.startsIn hsplit ?_
  show 0 < 0 + extent others
  rw [Nat.zero_add]
  exact (closed_closing routine.directives).starts hsplit hnew

/-- The code of a method starts with an instruction. -/
theorem Resident.startsIn_base
    (h : Resident program.script.toArray (baseOf? program.methods) routine method) :
    StartsIn program method method.base :=
  h.startsIn (List.nil_append routine.code).symm (extent_closing_pos routine.directives)

theorem isRelative_of_isPlain {op : Opcode} (h : isPlain op = true) : op.isRelative = false := by
  cases op <;> first | rfl | exact absurd h (by decide)

/-- A form that is written as an instruction is not relative. -/
theorem isRelative_of_emitted {scope : Scope} {i : Instruction} (h : Emitted scope (.instruction i)) :
    i.opcode.isRelative = false := by
  have haccess : ∀ access : Access, access.instruction.opcode.isRelative = false :=
    fun access => isRelative_eq_false (.inr (by rw [access.instruction_spec.2.2]; rfl))
  cases h with
  | static isLoad _ => exact haccess _
  | common h =>
    cases h with
    | plain h => exact isRelative_of_isPlain h
    | pushInteger v => exact isRelative_eq_false (.inl (by rw [simpleOp?_pushInteger]; rfl))
    | pushBoolean b => cases b <;> rfl
    | pushData data => exact isRelative_eq_false (.inl (by rw [simpleOp?_pushData]; rfl))
    | slot place isLoad _ => exact haccess _
    | service name => rfl
    | convert kind => rfl
    | newArray kind => rfl

/-- What is emitted for an instruction of the source leads to where it should. -/
theorem Resident.leadsRight {routines : List Routine}
    (h : Resident program.script.toArray (baseOf? program.methods) routine method)
    (hall : List.Forall₂ (Resident program.script.toArray (baseOf? program.methods)) routines
      program.methods)
    {scope : Scope} {before rest after : List Directive} {d : Directive}
    (hcode : routine.code = before ++ d :: (rest ++ after)) (hform : Code scope (d :: rest)) :
    LeadsRight program method (method.base + extent before) d := by
  cases d with
  | mark source => trivial
  | instruction i =>
    refine ⟨h.loaded.instruction hcode, ?_⟩
    intro hrelative
    cases hform with
    | cons hemitted _ =>
      rw [isRelative_of_emitted hemitted] at hrelative
      cases hrelative
    | @skip target op rest _ =>
      refine ⟨_, target?_skipCase _, ?_⟩
      have hsplit : routine.code = (before ++ [.instruction skipCase, .op .drop, .jump .jmpL target])
          ++ (.op op :: (rest ++ after)) := by
        rw [hcode, List.append_assoc]
        rfl
      have hstarts := h.startsIn hsplit (by
        show 0 < 1 + extent (rest ++ after)
        omega)
      rw [extent_append, ← Nat.add_assoc] at hstarts
      exact hstarts
  | reference opcode target =>
    cases target with
    | source source =>
      obtain ⟨operand, bound, -, hbound, hdecode, htarget⟩ := h.loaded.branch hcode
      exact ⟨operand, bound, hdecode, (h.linked.marks source).trans hbound, htarget,
        h.startsIn_start hbound⟩
    | method name =>
      obtain ⟨operand, target, -, htarget, hdecode, hleads⟩ := h.loaded.callee hcode
      obtain ⟨callee, hfind, rfl⟩ := Option.map_eq_some_iff.mp htarget
      have hmem := List.mem_of_find?_eq_some hfind
      have hname := List.find?_some hfind
      obtain ⟨calleeRoutine, -, hcallee⟩ := exists_left_of_mem hall hmem
      exact ⟨operand, callee, hdecode, hmem, by simpa using hname, hleads, hcallee.startsIn_base⟩

end

/-! ## Accepted modules -/

theorem fits_instructions {limits : Limits} {module : Module} {program : Program}
    (image : Image limits module program) :
    ∀ i ∈ program.methods.flatMap (·.body.instructions), i.fits = true := by
  intro i hi
  obtain ⟨method, hmethod, hi⟩ := List.mem_flatMap.mp hi
  obtain ⟨routine, hroutine, hresident⟩ := exists_left_of_mem image.resident hmethod
  obtain ⟨entry, hentry, rfl⟩ := List.mem_map.mp hi
  rw [hresident.linked.entries] at hentry
  exact fits_of_mem_listing (length_linkedFill _ _ _) (image.encodable hroutine) hentry

/-- The script of every accepted module is well formed. -/
theorem wellLinked_of_build {limits : Limits} {module : Module} {contract : Contract}
    (h : build limits module = .ok contract) : WellLinked limits module contract.program := by
  obtain ⟨⟨image⟩, -⟩ := image_of_build h
  have hscript : contract.program.script
      = (contract.program.methods.flatMap (·.body.instructions)).flatMap Instruction.encode := by
    rw [List.flatMap_assoc]
    rfl
  refine ⟨hscript, ?_, image.laid.increasing.2, ?_, ?_, image.statics, image.statics_eq, ?_⟩
  · intro before method after hmethods
    have := image.laid.base_eq hmethods
    rwa [Nat.zero_add] at this
  · intro method hmethod
    obtain ⟨routine, -, hresident⟩ := exists_left_of_mem image.resident hmethod
    exact hresident.linked.resolved
  · rw [hscript, disassemble_flatMap _ (fits_instructions image), locate_laid image.laid]
  · intro method hmethod
    obtain ⟨routine, hroutine, hresident⟩ := exists_left_of_mem image.resident hmethod
    refine ⟨routine, image.mem_all hroutine, hresident.linked, ?_⟩
    intro before segment after hsegments hsplices first d rest hdirectives
    have hmem : segment ∈ routine.segments := by
      rw [hsegments]
      exact List.mem_append_right _ (List.mem_cons_self ..)
    obtain ⟨hslots, hlowers⟩ : routine.scope.catalogue.SlotsBounded
        ∧ Lowers routine.scope 0 {} routine.segments := by
      rcases image.mem_all hroutine with ⟨entry, -, hbelongs⟩ | hbelongs
      · exact ⟨by rw [hbelongs.scope]; exact image.slotsBounded, hbelongs.lowers⟩
      · exact ⟨by rw [hbelongs.scope]; exact image.slotsBounded, hbelongs.lowers⟩
    obtain ⟨-, carry, carry', hcarry, hlower⟩ :=
      hlowers.segment hslots (carry_bounded_empty _) hmem
    have hform := (lower_code hslots hcarry hsplices hlower).1
    rw [hdirectives] at hform
    obtain ⟨last, hcode⟩ : ∃ last, routine.code
        = (routine.prologue ++ before.flatMap Segment.code ++ .mark segment.source.offset :: first)
          ++ d :: (rest ++ last) := by
      have hwritten : routine.directives
          = (routine.prologue ++ before.flatMap Segment.code ++ .mark segment.source.offset :: first)
            ++ d :: (rest ++ after.flatMap Segment.code) := by
        unfold Routine.directives
        rw [hsegments, List.flatMap_append, List.flatMap_cons]
        unfold Segment.code
        rw [hdirectives]
        simp only [List.append_assoc, List.cons_append]
      rcases closing_eq routine.directives with hclosing | hclosing
      · exact ⟨_, hclosing.trans hwritten⟩
      · refine ⟨after.flatMap Segment.code ++ [.op .ret], hclosing.trans ?_⟩
        rw [hwritten]
        simp only [List.append_assoc, List.cons_append]
    exact hresident.leadsRight image.resident hcode hform.drop

theorem wellLinked_sample :
    ∃ contract, build {} sample = .ok contract ∧ WellLinked {} sample contract.program := by
  obtain ⟨contract, h⟩ := build_sample
  exact ⟨contract, h, wellLinked_of_build h⟩

end StackContract.Contract
