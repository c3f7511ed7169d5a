import Mathlib.Algebra.GroupWithZero.Nat
import StackContract.Proofs.Image
import StackContract.Proofs.StaticFields
/-!
# Reading images back

Every instruction of an image is read from the script at the place of its directive, and its
references lead to what they name (`Loaded`, `loaded_of_laid`).
-/

namespace StackContract.Contract

open Assembly Compile Script Lowering
open Source (TypeDecl Module)

/-- Code that stands in a script from `base` on, its references filled in. -/
structure Loaded (script : Array UInt8) (bases : String → Option Nat) (base : Nat)
    (code : List Directive) : Prop where
  instruction : ∀ {before i after}, code = before ++ .instruction i :: after →
    decode script (base + extent before) = .ok ⟨i, base + extent before⟩
  branch : ∀ {before opcode source after},
    code = before ++ .reference opcode (.source source) :: after →
    ∃ operand address, operand.length = placeholderWidth ∧ markIn source 0 code = some address
      ∧ decode script (base + extent before) = .ok ⟨⟨opcode, operand⟩, base + extent before⟩
      ∧ Located.target? ⟨⟨opcode, operand⟩, base + extent before⟩ = some (base + address)
  callee : ∀ {before opcode name after},
    code = before ++ .reference opcode (.method name) :: after →
    ∃ operand target, operand.length = placeholderWidth ∧ bases name = some target
      ∧ decode script (base + extent before) = .ok ⟨⟨opcode, operand⟩, base + extent before⟩
      ∧ Located.target? ⟨⟨opcode, operand⟩, base + extent before⟩ = some target
  inside : base + extent code ≤ script.size

/-! ## One routine -/

theorem size_le_extent {d : Directive} {code : List Directive} (h : d ∈ code) :
    d.size ≤ extent code := by
  obtain ⟨before, after, rfl⟩ := List.append_of_mem h
  rw [extent_append, extent]
  omega

theorem mem_relocations {before after : List Directive} {opcode : Opcode} {target : Target} :
    ⟨extent before, placeholderWidth, target⟩
      ∈ relocations 0 (before ++ .reference opcode target :: after) := by
  rw [relocations_append, Nat.zero_add]
  exact List.mem_append_right _ (List.mem_cons_self ..)

theorem fits_of_mem_listing {fill : Filling} (hfill : ∀ a t, (fill a t).length = placeholderWidth)
    {address : Nat} {code : List Directive} (hcode : ∀ d ∈ code, d.Encodable)
    {entry : Nat × Instruction} (h : entry ∈ listing fill address code) : entry.2.fits = true := by
  induction code generalizing address with
  | nil => cases h
  | cons d rest ih =>
    have hrest := fun d hd => hcode d (List.mem_cons_of_mem _ hd)
    have hhead := hcode d (List.mem_cons_self ..)
    cases d with
    | mark source => exact ih hrest h
    | instruction i =>
      rcases List.mem_cons.mp h with rfl | h
      · exact hhead
      · exact ih hrest h
    | reference opcode target =>
      rcases List.mem_cons.mp h with rfl | h
      · exact Instruction.fits_fixed (by rw [hfill]; exact hhead.1)
      · exact ih hrest h

/-- The entries of a linked method are read from a script where its encoding stands. -/
theorem decode_entry {bases : String → Option Nat} {base : Nat} {routine : Routine}
    {method : PlacedMethod} (h : Linked bases base routine method)
    (hencodable : ∀ d ∈ routine.code, d.Encodable) {before after : List UInt8}
    (hbase : before.length = base) {entry : Nat × Instruction}
    (hentry : entry ∈ method.body.code.entries) :
    decode (before ++ (method.body.encode ++ after)).toArray (base + entry.1)
      = .ok ⟨entry.2, base + entry.1⟩ := by
  have hfill := length_linkedFill routine.start bases base
  have hfits : entry.2.fits = true := by
    rw [h.entries] at hentry
    exact fits_of_mem_listing hfill hencodable hentry
  rw [h.entries] at hentry
  obtain ⟨first, d, rest, others, hcode, hothers, haddress⟩ := exists_of_mem_listing hentry
  -- the encoding, cut at the entry
  have hbytes : method.body.encode
      = ((listing (linkedFill routine.start bases base) 0 first).map Prod.snd).flatMap
          Instruction.encode
        ++ (entry.2.encode ++ (others.map Prod.snd).flatMap Instruction.encode) := by
    unfold Body.encode Body.instructions Table.values
    rw [h.entries, hcode, listing_append, hothers, List.map_append, List.flatMap_append,
      List.map_cons, List.flatMap_cons]
  have hlength : (before ++ ((listing (linkedFill routine.start bases base) 0 first).map
      Prod.snd).flatMap Instruction.encode).length = base + entry.1 := by
    rw [List.length_append, hbase, length_encode_listing _ hfill, haddress, Nat.zero_add]
  have := decode_encode (before ++ ((listing (linkedFill routine.start bases base) 0 first).map
    Prod.snd).flatMap Instruction.encode)
    ((others.map Prod.snd).flatMap Instruction.encode ++ after) entry.2 hfits
  rw [hlength] at this
  rw [hbytes, List.append_assoc, List.append_assoc, ← List.append_assoc before]
  exact this

/-- A reference of a linked method is read with the distance to its destination, and leads there. -/
theorem reference_of_linked (destination : Nat) {script : Array UInt8}
    {bases : String → Option Nat} {base : Nat} {routine : Routine} {method : PlacedMethod}
    {displacement : Int} (h : Linked bases base routine method) (hencodable : ∀ d ∈ routine.code, d.Encodable)
    (hread : ∀ entry ∈ method.body.code.entries,
      decode script (base + entry.1) = .ok ⟨entry.2, base + entry.1⟩)
    {before after : List Directive} {opcode : Opcode} {target : Target}
    (hcode : routine.code = before ++ .reference opcode target :: after)
    (hfill : linkedFill routine.start bases base (extent before) target
      = Number.bytesOfInt 4 displacement) (hrange : InRange displacement)
    (hdestination : ((base + extent before : Nat) : Int) + displacement = destination) :
    ∃ operand, operand.length = placeholderWidth
      ∧ decode script (base + extent before) = .ok ⟨⟨opcode, operand⟩, base + extent before⟩
      ∧ Located.target? ⟨⟨opcode, operand⟩, base + extent before⟩ = some destination := by
  have hmem : .reference opcode target ∈ routine.code :=
    hcode ▸ List.mem_append_right _ (List.mem_cons_self ..)
  obtain ⟨-, hrelative⟩ : opcode.operand = .fixed placeholderWidth ∧ opcode.isRelative = true :=
    hencodable _ hmem
  have hentry := hread
    (extent before, ⟨opcode, linkedFill routine.start bases base (extent before) target⟩) (by
      rw [h.entries, hcode]
      exact mem_listing_reference)
  refine ⟨_, length_linkedFill _ _ _ _ _, hentry, ?_⟩
  rw [hfill]
  exact Instruction.target?_relative hrelative hrange.1 hrange.2 hdestination

/-- A linked method whose entries are read from a script stands there as its code. -/
theorem loaded_of_linked {script : Array UInt8} {bases : String → Option Nat} {base : Nat}
    {routine : Routine} {method : PlacedMethod} (h : Linked bases base routine method)
    (hencodable : ∀ d ∈ routine.code, d.Encodable)
    (hread : ∀ entry ∈ method.body.code.entries,
      decode script (base + entry.1) = .ok ⟨entry.2, base + entry.1⟩)
    (hinside : base + extent routine.code ≤ script.size) : Loaded script bases base routine.code := by
  have hrelocation : ∀ {first opcode target rest},
      routine.code = first ++ .reference opcode target :: rest →
      ⟨extent first, placeholderWidth, target⟩ ∈ relocations 0 routine.code := by
    intro first opcode target rest hcode
    rw [hcode]
    exact mem_relocations
  constructor
  · intro first i rest hcode
    refine hread (extent first, i) ?_
    rw [h.entries, hcode]
    exact mem_listing_instruction
  · intro first opcode source rest hcode
    obtain ⟨address, haddress, hrange⟩ := h.branches _ (hrelocation hcode) source rfl
    -- branches count from the start of the method, which cancels out
    have hfill : linkedFill routine.start bases base (extent first) (.source source)
        = Number.bytesOfInt 4 ((address : Int) - (extent first : Nat)) := by
      show Number.bytesOfInt 4 (((routine.start source).getD 0 : Nat) - ((extent first : Nat) : Int)) = _
      rw [haddress]
      rfl
    obtain ⟨operand, hlength, hdecode, htarget⟩ :=
      reference_of_linked (base + address) h hencodable hread hcode hfill hrange (by omega)
    exact ⟨operand, address, hlength, haddress, hdecode, htarget⟩
  · intro first opcode name rest hcode
    obtain ⟨target, htarget, hrange⟩ := h.callees _ (hrelocation hcode) name rfl
    -- references to methods count from the start of the script
    have hfill : linkedFill routine.start bases base (extent first) (.method name)
        = Number.bytesOfInt 4 ((target : Int) - (base + extent first : Nat)) := by
      show Number.bytesOfInt 4 (((bases name).getD 0 : Nat) - ((base + extent first : Nat) : Int)) = _
      rw [htarget]
      rfl
    obtain ⟨operand, hlength, hdecode, hleads⟩ :=
      reference_of_linked target h hencodable hread hcode hfill hrange (by omega)
    exact ⟨operand, target, hlength, htarget, hdecode, hleads⟩
  · exact hinside

theorem Laid.linked {bases : String → Option Nat} {base : Nat} {routines : List Routine}
    {methods : List PlacedMethod} (h : Laid bases base routines methods) :
    List.Forall₂ (fun routine method => Linked bases method.base routine method) routines methods := by
  induction h with
  | nil => exact .nil
  | cons hhead _ ih =>
    refine .cons ?_ ih
    rw [hhead.base_eq]
    exact hhead

theorem Laid.base_eq {bases : String → Option Nat} {base : Nat} {routines : List Routine}
    {methods : List PlacedMethod} (h : Laid bases base routines methods) {before after : List PlacedMethod} {method : PlacedMethod}
    (hmethods : methods = before ++ method :: after) :
    method.base = base + (before.map (·.body.size)).sum := by
  induction h generalizing before with
  | nil =>
    cases before <;> cases hmethods
  | @cons base routine head routines methods hhead _ ih =>
    cases before with
    | nil =>
      cases hmethods
      exact hhead.base_eq
    | cons first before =>
      obtain ⟨rfl, hrest⟩ := List.cons.inj hmethods
      rw [ih hrest, List.map_cons, List.sum_cons, hhead.size, Nat.add_assoc]

theorem Laid.increasing {bases : String → Option Nat} {base : Nat} {routines : List Routine}
    {methods : List PlacedMethod} (h : Laid bases base routines methods) :
    (∀ method ∈ methods, base ≤ method.base)
      ∧ methods.Pairwise fun first second => first.base < second.base := by
  induction h with
  | nil => exact ⟨nofun, .nil⟩
  | @cons base routine head routines methods hhead _ ih =>
    obtain ⟨hbehind, hpairs⟩ := ih
    have hpos := extent_closing_pos routine.directives
    have hcode : extent (closing routine.directives) = extent routine.code := rfl
    refine ⟨?_, .cons ?_ hpairs⟩
    · intro method hmethod
      rcases List.mem_cons.mp hmethod with rfl | hmethod
      · exact Nat.le_of_eq hhead.base_eq.symm
      · have := hbehind method hmethod
        omega
    · intro method hmethod
      have := hbehind method hmethod
      have := hhead.base_eq
      omega

/-- What is known of a routine of an image: the method that it becomes, and where its code stands. -/
structure Resident (script : Array UInt8) (bases : String → Option Nat) (routine : Routine)
    (method : PlacedMethod) : Prop where
  linked : Linked bases method.base routine method
  read : ∀ entry ∈ method.body.code.entries,
    decode script (method.base + entry.1) = .ok ⟨entry.2, method.base + entry.1⟩
  loaded : Loaded script bases method.base routine.code

private theorem resident_of_laid_aux {bases : String → Option Nat} {base : Nat}
    {routines : List Routine} {methods : List PlacedMethod} (h : Laid bases base routines methods)
    (hencodable : ∀ routine ∈ routines, ∀ d ∈ routine.code, d.Encodable) (before : List UInt8)
    (hbase : before.length = base) :
    List.Forall₂ (Resident (before ++ methods.flatMap (·.body.encode)).toArray bases) routines
      methods := by
  induction h generalizing before with
  | nil => exact .nil
  | @cons base routine method routines methods hhead _ ih =>
    have hlength : (before ++ method.body.encode).length = base + extent routine.code := by
      rw [List.length_append, hbase, Body.length_encode, hhead.size]
    have hrest := ih (fun r hr => hencodable r (List.mem_cons_of_mem _ hr)) _ hlength
    rw [List.append_assoc] at hrest
    rw [List.flatMap_cons]
    have hhere := hencodable routine (List.mem_cons_self ..)
    have hread : ∀ entry ∈ method.body.code.entries,
        decode (before ++ (method.body.encode ++ methods.flatMap (·.body.encode))).toArray
          (base + entry.1) = .ok ⟨entry.2, base + entry.1⟩ :=
      fun entry hentry => decode_entry hhead hhere hbase hentry
    have hinside : base + extent routine.code
        ≤ (before ++ (method.body.encode ++ methods.flatMap (·.body.encode))).toArray.size := by
      rw [List.size_toArray, ← List.append_assoc, List.length_append, hlength]
      omega
    obtain rfl := hhead.base_eq
    exact .cons ⟨hhead, hread, loaded_of_linked hhead hhere hread hinside⟩ hrest

/-- The routines of a laid out image stand in its script. -/
theorem resident_of_laid {routines : List Routine} {program : Program}
    (h : Laid (baseOf? program.methods) 0 routines program.methods)
    (hencodable : ∀ routine ∈ routines, ∀ d ∈ routine.code, d.Encodable) :
    List.Forall₂ (Resident program.script.toArray (baseOf? program.methods)) routines
      program.methods := by
  exact resident_of_laid_aux h hencodable [] rfl

/-! ## Directives of routines -/

/-- The parts of a routine's code: prologue, segments and perhaps a closing return. -/
theorem Routine.mem_code {routine : Routine} {d : Directive} (h : d ∈ routine.code) :
    d ∈ routine.prologue ∨ (∃ segment ∈ routine.segments, d ∈ segment.code) ∨ d = .op .ret := by
  have hmem : d ∈ routine.directives → d ∈ routine.prologue
      ∨ (∃ segment ∈ routine.segments, d ∈ segment.code) ∨ d = .op .ret := by
    intro hd
    rcases List.mem_append.mp hd with hd | hd
    · exact .inl hd
    · exact .inr (.inl (List.mem_flatMap.mp hd))
  unfold Routine.code at h
  rcases closing_eq routine.directives with hclosing | hclosing <;> rw [hclosing] at h
  · exact hmem h
  · rcases List.mem_append.mp h with h | h
    · exact hmem h
    · exact .inr (.inr (List.mem_singleton.mp h))

theorem Routine.encodable {routine : Routine} (hslots : routine.scope.catalogue.SlotsBounded)
    (hlowers : Lowers routine.scope 0 {} routine.segments)
    (hprologue : ∀ d ∈ routine.prologue, d.Encodable) (hsmall : extent routine.code ≤ maxScriptSize) :
    ∀ d ∈ routine.code, d.Encodable := by
  intro d hd
  rcases routine.mem_code hd with hd | ⟨segment, hsegment, hd⟩ | rfl
  · exact hprologue d hd
  · obtain ⟨-, carry, carry', hcarry, hlower⟩ :=
      hlowers.segment hslots (carry_bounded_empty _) hsegment
    rcases List.mem_cons.mp hd with rfl | hd
    · trivial
    · refine lower_encodable hslots hcarry hlower ?_ d hd
      intro other hother
      have hmem : other ∈ routine.directives := by
        refine List.mem_append_right _ (List.mem_flatMap.mpr ⟨segment, hsegment, ?_⟩)
        exact List.mem_cons_of_mem _ hother
      have hclosing : other ∈ routine.code := by
        unfold Routine.code
        rcases closing_eq routine.directives with h | h <;> rw [h]
        · exact hmem
        · exact List.mem_append_left _ hmem
      have hle := size_le_extent hclosing
      have hmax : maxScriptSize ≤ 256 ^ 4 := by decide
      omega
  · exact Instruction.fits_plain rfl

theorem encodable_slotPrologue (locals params : UInt8) :
    ∀ d ∈ slotPrologue locals params, d.Encodable := by
  unfold slotPrologue
  split
  · exact nofun
  · intro d hd
    rw [List.mem_singleton.mp hd]
    exact Instruction.fits_fixed rfl

theorem encodable_initializerPrologue (slots : Nat) (locals : UInt8) :
    ∀ d ∈ initializerPrologue slots locals, d.Encodable := by
  unfold initializerPrologue
  intro d hd
  rcases List.mem_append.mp hd with hd | hd
  · split at hd
    · cases hd
    · rw [List.mem_singleton.mp hd]
      exact Instruction.fits_fixed rfl
  · split at hd
    · cases hd
    · rw [List.mem_singleton.mp hd]
      exact Instruction.fits_fixed rfl

/-! ## Images -/

namespace Image

variable {limits : Limits} {module : Module} {program : Program}

/-- All routines of an image in the order of the script. -/
def all (image : Image limits module program) : List Routine :=
  image.routines ++ image.initializer

/-- The declarations that the routines of an image see. -/
def catalogue (image : Image limits module program) : Catalogue :=
  catalogueOf module image.statics

theorem slotsBounded (image : Image limits module program) : image.catalogue.SlotsBounded := by
  obtain ⟨events, events', hstatics⟩ := image.statics_eq
  exact (slots_bounded hstatics).2

/-- A routine of an image is that of a declared method or the initializer. -/
theorem mem_all (image : Image limits module program) {routine : Routine} (h : routine ∈ image.all) :
    (∃ entry ∈ declaredBodies module, IsMethod limits image.catalogue entry routine)
      ∨ IsInitializer limits image.catalogue routine := by
  rcases List.mem_append.mp h with h | h
  · exact .inl (exists_left_of_mem image.methods h)
  · have hlast := image.last
    split at hlast
    · obtain ⟨initializer, hinitializer, hroutine⟩ := hlast
      rw [hinitializer] at h
      rw [List.mem_singleton.mp h]
      exact .inr hroutine
    · rw [hlast] at h
      cases h

theorem extent_le (image : Image limits module program) {routine : Routine}
    (h : routine ∈ image.all) : extent routine.code ≤ maxScriptSize := by
  obtain ⟨method, hmethod, hlinked⟩ := exists_right_of_mem image.laid.linked h
  have := image.small method hmethod
  rw [hlinked.size] at this
  omega

theorem encodable (image : Image limits module program) {routine : Routine}
    (h : routine ∈ image.all) : ∀ d ∈ routine.code, d.Encodable := by
  rcases image.mem_all h with ⟨entry, -, hroutine⟩ | hroutine
  · refine routine.encodable ?_ hroutine.lowers ?_ (image.extent_le h)
    · rw [hroutine.scope]
      exact image.slotsBounded
    · rw [hroutine.prologue]
      exact encodable_slotPrologue _ _
  · refine routine.encodable ?_ hroutine.lowers ?_ (image.extent_le h)
    · rw [hroutine.scope]
      exact image.slotsBounded
    · rw [hroutine.prologue]
      exact encodable_initializerPrologue _ _

/-- Every routine of an image stands in the script. -/
theorem resident (image : Image limits module program) :
    List.Forall₂ (Resident program.script.toArray (baseOf? program.methods)) image.all
      program.methods :=
  resident_of_laid image.laid fun _ h => image.encodable h

end Image

/-- An accepted module has an image. -/
theorem image_of_build {limits : Limits} {module : Module} {contract : Contract}
    (h : build limits module = .ok contract) :
    Nonempty (Image limits module contract.program)
      ∧ Interface.ofProgram contract.program = .ok contract.interface := by
  obtain ⟨⟨_, hprogram⟩, hinterface⟩ := build_eq_ok_iff.mp h
  exact ⟨image_of_buildProgram hprogram, hinterface⟩

end StackContract.Contract
