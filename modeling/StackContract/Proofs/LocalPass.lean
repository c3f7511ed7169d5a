import Mathlib.Algebra.GroupWithZero.Nat
import StackContract.Proofs.BranchTargets
/-!
# The local pass

A method body is written by directives and by lists of them, such as `Directive.reverse`. `Writes` says
what any directives whatsoever leave in a body: each instruction is at the sum of the sizes in front of
it, an offset starts where it is first marked, and references are placeholders of four zero bytes.

As long as the code is smaller than 2 GiB, the local pass succeeds on such a body exactly if every
offset that is jumped to is marked somewhere, in front of the jump or behind it. It then fills in the
jumps alone (`ResolvesJumps`).
-/

namespace StackContract.Assembly

open Script

/-- The instruction that a directive writes, with nothing filled in. -/
def Directive.written? : Directive → Option Instruction
  | .mark _ => none
  | .instruction i => some i
  | .reference opcode _ => some ⟨opcode, [0, 0, 0, 0]⟩

/-- What a directive leaves to fill in. -/
def Directive.target? : Directive → Option Target
  | .reference _ target => some target
  | _ => none

/-- What directives leave in a body. -/
structure Writes (code : List Directive) (body : Body) : Prop where
  instructions : body.instructions = code.filterMap Directive.written?
  /-- An instruction is at the sum of the sizes of those in front. -/
  keys : body.code.keys = (List.range body.instructions.length).map fun k =>
    ((body.instructions.take k).map Instruction.size).sum
  targets : body.relocations.map Relocation.target = code.filterMap Directive.target?
  placeholder : ∀ r ∈ body.relocations, r.width = placeholderWidth
    ∧ ∃ opcode, body.code.find? r.address = some ⟨opcode, [0, 0, 0, 0]⟩
  /-- A reference is left to fill in at the address at which it was written. -/
  reference : ∀ {before opcode target after}, code = before ++ .reference opcode target :: after →
    ⟨(Draft.run {} before).address, placeholderWidth, target⟩ ∈ body.relocations
      ∧ body.code.find? (Draft.run {} before).address = some ⟨opcode, [0, 0, 0, 0]⟩
  /-- An offset starts at the address at which it was first marked. -/
  marked : ∀ {before source after}, code = before ++ .mark source :: after → .mark source ∉ before →
    body.marks.find? source = some (Draft.run {} before).address
  unmarked : ∀ {source}, .mark source ∉ code → body.marks.find? source = none

/-! ## Listings and their references -/

theorem address_run (code : List Directive) : (Draft.run {} code).address = extent code :=
  (Draft.run_spec bounded_empty code).1.trans (Nat.zero_add _)

theorem entries_run (code : List Directive) :
    (Draft.run {} code).body.code.entries = listing placeholders 0 code :=
  (Draft.run_spec bounded_empty code).2.1

theorem relocations_run (code : List Directive) :
    (Draft.run {} code).body.relocations = relocations 0 code :=
  (Draft.run_spec bounded_empty code).2.2

theorem map_snd_listing_placeholders (address : Nat) (code : List Directive) :
    (listing placeholders address code).map Prod.snd = code.filterMap Directive.written? := by
  induction code generalizing address with
  | nil => rfl
  | cons d rest ih =>
    cases d with
    | mark source => exact ih _
    | instruction i => exact congrArg (i :: ·) (ih _)
    | reference opcode target => exact congrArg (_ :: ·) (ih _)

theorem map_target_relocations (address : Nat) (code : List Directive) :
    (relocations address code).map Relocation.target = code.filterMap Directive.target? := by
  induction code generalizing address with
  | nil => rfl
  | cons d rest ih =>
    cases d with
    | mark source => exact ih _
    | instruction i => exact ih _
    | reference opcode target => exact congrArg (target :: ·) (ih _)

/-- Behind an instruction the sums of sizes go on with those of the others. -/
private theorem map_fst_cons {address : Nat} {i : Instruction} {others : List (Nat × Instruction)}
    (h : others.map Prod.fst = (List.range others.length).map fun k =>
      address + i.size + (((others.map Prod.snd).take k).map Instruction.size).sum) :
    ((address, i) :: others).map Prod.fst = (List.range (others.length + 1)).map fun k =>
      address + (((((address, i) :: others).map Prod.snd).take k).map Instruction.size).sum := by
  rw [List.range_succ_eq_map, List.map_cons, List.map_cons, List.map_map, h]
  refine congrArg (address :: ·) (List.map_congr_left fun k _ => ?_)
  exact Nat.add_assoc ..

/-- The addresses of a listing are the sums of the sizes in front. -/
theorem map_fst_listing {fill : Filling} (hfill : ∀ a t, (fill a t).length = placeholderWidth)
    (address : Nat) (code : List Directive) :
    (listing fill address code).map Prod.fst = (List.range (listing fill address code).length).map fun k =>
      address + ((((listing fill address code).map Prod.snd).take k).map Instruction.size).sum := by
  induction code generalizing address with
  | nil => rfl
  | cons d rest ih =>
    cases d with
    | mark source => exact ih address
    | instruction i => exact map_fst_cons (ih _)
    | reference opcode target =>
      have hsize : Instruction.size ⟨opcode, fill address target⟩ = 1 + placeholderWidth := by
        rw [Instruction.size, hfill]
      refine map_fst_cons ?_
      rw [hsize]
      exact ih _

/-- What is written at an address depends on the references at it alone. -/
theorem findIn_listing_congr {fill fill' : Filling} {address start : Nat} {code : List Directive}
    (h : ∀ r ∈ relocations start code, r.address = address →
      fill r.address r.target = fill' r.address r.target) :
    Table.findIn address (listing fill start code) = Table.findIn address (listing fill' start code) := by
  induction code generalizing start with
  | nil => rfl
  | cons d rest ih =>
    cases d with
    | mark source => exact ih h
    | instruction i =>
      unfold listing Table.findIn
      rw [ih h]
    | reference opcode target =>
      unfold listing Table.findIn
      rw [ih fun r hr => h r (List.mem_cons_of_mem _ hr)]
      refine ite_congr rfl (fun heq => ?_) fun _ => rfl
      have hoperand := h _ (List.mem_cons_self ..) heq
      exact congrArg (fun operand => some (Instruction.mk opcode operand)) hoperand

/-- The addresses in code are those of its instructions, whatever they refer to. -/
theorem map_fst_listing_congr (fill fill' : Filling) (address : Nat) (code : List Directive) :
    (listing fill address code).map Prod.fst = (listing fill' address code).map Prod.fst := by
  induction code generalizing address with
  | nil => rfl
  | cons d rest ih =>
    cases d with
    | mark source => exact ih _
    | instruction i => exact congrArg (address :: ·) (ih _)
    | reference opcode target => exact congrArg (address :: ·) (ih _)

/-- Any directives write their instructions one behind the other. -/
theorem writes_run (code : List Directive) : Writes code (Draft.run {} code).body := by
  have hentries := entries_run code
  have hpending := relocations_run code
  have hreference : ∀ {before opcode target after}, code = before ++ .reference opcode target :: after →
      (Draft.run {} code).body.code.find? (extent before) = some ⟨opcode, [0, 0, 0, 0]⟩ := by
    rintro before opcode target after rfl
    unfold Table.find?
    rw [hentries]
    exact findIn_listing_reference placeholders before after opcode target
  refine ⟨?_, ?_, ?_, ?_, ?_, ?_, ?_⟩
  · unfold Body.instructions Table.values
    rw [hentries]
    exact map_snd_listing_placeholders 0 code
  · unfold Body.instructions Table.values Table.keys
    rw [hentries, map_fst_listing fun _ _ => rfl, List.length_map]
    exact List.map_congr_left fun k _ => Nat.zero_add _
  · rw [hpending]
    exact map_target_relocations 0 code
  · intro r hr
    rw [hpending] at hr
    obtain ⟨before, opcode, after, hcode, haddress, hwidth⟩ := exists_of_mem_relocations hr
    refine ⟨hwidth, opcode, ?_⟩
    rw [haddress, Nat.zero_add]
    exact hreference hcode
  · intro before opcode target after hcode
    rw [address_run]
    refine ⟨?_, hreference hcode⟩
    rw [hpending, hcode, relocations_append, Nat.zero_add]
    exact List.mem_append_right _ (List.mem_cons_self ..)
  · intro before source after hcode hfirst
    rw [address_run, Compile.find?_marks_run]
    exact markIn_eq_some_iff.mpr ⟨before, after, hcode, hfirst, (Nat.zero_add _).symm⟩
  · intro source habsent
    rw [Compile.find?_marks_run]
    exact markIn_eq_none_iff.mpr habsent

end StackContract.Assembly

namespace StackContract.Compile

open Assembly Script Number

/-- What the local pass makes of a body that directives have written. -/
structure ResolvesJumps (code : List Directive) (body linked : Body) : Prop where
  /-- A jump holds the distance to where its offset starts, and a jump whose opcode has four bytes for
  it leads there. -/
  jump : ∀ {before opcode source after}, code = before ++ .jump opcode source :: after →
    ∃ address operand, body.marks.find? source = some address
      ∧ operand = bytesOfInt 4 ((address : Int) - (Draft.run {} before).address)
      ∧ signedOfBytes operand = (address : Int) - (Draft.run {} before).address
      ∧ linked.code.find? (Draft.run {} before).address = some ⟨opcode, operand⟩
      ∧ (opcode.operand = .fixed placeholderWidth → opcode.isRelative = true →
        decode linked.encode.toArray (Draft.run {} before).address
            = .ok ⟨⟨opcode, operand⟩, (Draft.run {} before).address⟩
          ∧ Located.target? ⟨⟨opcode, operand⟩, (Draft.run {} before).address⟩ = some address)
  /-- No other instruction changes. -/
  unchanged : ∀ {address}, (∀ r ∈ body.relocations, r.address = address → isPending r = true) →
    linked.code.find? address = body.code.find? address
  keys : linked.code.keys = body.code.keys
  marks : linked.marks = body.marks
  /-- The references to methods remain, in their order. -/
  pending : linked.relocations = body.relocations.filter isPending

/-- An instruction of a body that fits is read from its bytes. -/
theorem decode_listing {fill : Filling} (hfill : ∀ a t, (fill a t).length = placeholderWidth)
    {before after : List Directive} {opcode : Opcode} {target : Target} {body : Body}
    (hentries : body.code.entries = listing fill 0 (before ++ .reference opcode target :: after))
    (hoperand : opcode.operand = .fixed placeholderWidth) :
    decode body.encode.toArray (extent before)
      = .ok ⟨⟨opcode, fill (extent before) target⟩, extent before⟩ := by
  have hfits : Instruction.fits ⟨opcode, fill (extent before) target⟩ = true := by
    unfold Instruction.fits
    rw [hoperand]
    exact decide_eq_true (hfill _ _)
  have hencode : body.encode = ((listing fill 0 before).map Prod.snd).flatMap Instruction.encode
      ++ (Instruction.encode ⟨opcode, fill (extent before) target⟩
        ++ ((listing fill (extent before + (1 + placeholderWidth)) after).map Prod.snd).flatMap
          Instruction.encode) := by
    unfold Body.encode Body.instructions Table.values
    rw [hentries, listing_append, Nat.zero_add, List.map_append, List.flatMap_append]
    rfl
  have hdecode := decode_encode (((listing fill 0 before).map Prod.snd).flatMap Instruction.encode)
    (((listing fill (extent before + (1 + placeholderWidth)) after).map Prod.snd).flatMap
      Instruction.encode) _ hfits
  rw [length_encode_listing fill hfill] at hdecode
  rw [hencode]
  exact hdecode

/-- The local pass fills in the jumps of a body and nothing else. -/
theorem resolvesJumps_of_linkLocal {method : String} {code : List Directive} {linked : Body}
    (h : linkLocal method (Draft.run {} code).body = .ok linked) :
    ResolvesJumps code (Draft.run {} code).body linked := by
  obtain ⟨hentries, hpending, hmarks, hbranches⟩ := linkLocal_run_spec h
  refine ⟨?_, ?_, ?_, hmarks, ?_⟩
  · rintro before opcode source after hcode
    have hrelocation := ((writes_run code).reference hcode).1
    rw [relocations_run] at hrelocation
    rw [address_run] at hrelocation ⊢
    obtain ⟨address, hmark, hnear⟩ := hbranches _ hrelocation source rfl
    obtain ⟨lower, upper⟩ : InRange ((address : Int) - (extent before : Nat)) := hnear
    have hfill : bytesOfInt 4 ((address : Int) - (extent before : Nat))
        = localFill (fun source => markIn source 0 code) (extent before) (.source source) := by
      show _ = bytesOfInt 4 (((markIn source 0 code).getD 0 : Nat) - ((extent before : Nat) : Int))
      rw [hmark]
      rfl
    rw [hcode] at hentries
    refine ⟨address, _, (find?_marks_run code source).trans hmark, rfl,
      signedOfBytes_bytesOfInt 3 _ (by omega) (by omega), ?_, fun hoperand hrelative => ⟨?_, ?_⟩⟩
    · unfold Table.find?
      rw [hfill, hcode, hentries]
      exact findIn_listing_reference _ before after opcode (.source source)
    · rw [hfill, hcode]
      exact decode_listing (length_localFill _) hentries hoperand
    · exact Instruction.target?_relative hrelative lower upper (by omega)
  · intro address hother
    unfold Table.find?
    rw [hentries, entries_run]
    refine findIn_listing_congr fun r hr haddress => ?_
    rw [← relocations_run] at hr
    have hkept := hother r hr haddress
    unfold isPending at hkept
    cases htarget : r.target with
    | method name => rfl
    | source source =>
      rw [htarget] at hkept
      cases hkept
  · unfold Table.keys
    rw [hentries, entries_run]
    exact map_fst_listing_congr ..
  · rw [hpending, relocations_run]

/-- What directives write is resolved if they mark all that they jump to, and only then. The code is
smaller than 2 GiB. -/
theorem localPass_spec (method : String) (code : List Directive)
    (hsize : (Draft.run {} code).address < 0x8000_0000) :
    Writes code (Draft.run {} code).body
      ∧ ((∃ linked, linkLocal method (Draft.run {} code).body = .ok linked)
        ↔ ∀ opcode source, Directive.jump opcode source ∈ code → Directive.mark source ∈ code)
      ∧ ∀ linked, linkLocal method (Draft.run {} code).body = .ok linked →
        ResolvesJumps code (Draft.run {} code).body linked := by
  have hwrites := writes_run code
  refine ⟨hwrites, ⟨?_, ?_⟩, fun linked => resolvesJumps_of_linkLocal⟩
  · rintro ⟨linked, hlinked⟩ opcode source hjump
    refine Decidable.byContradiction fun habsent => ?_
    obtain ⟨before, after, hcode⟩ := List.append_of_mem hjump
    obtain ⟨address, -, hmark, -⟩ := (resolvesJumps_of_linkLocal hlinked).jump hcode
    rw [hwrites.unmarked habsent] at hmark
    cases hmark
  · intro hmarked
    rw [address_run] at hsize
    rcases linkLocal_run_ok_or_unresolved method hsize with hok | ⟨opcode, source, hjump, habsent, -⟩
    · exact hok
    · exact absurd (hmarked opcode source hjump) habsent

/-- Jumps forward and back, two of them to one offset, which is marked twice, and references to methods
between them. -/
def sampleJumps : List Directive :=
  [.mark 4, .pushNat 300, .jump .jmpIfL 9, .call "T::helper", .mark 4, .jump .jmpL 4]
    ++ Directive.reverse 5
    ++ [.pushAddress "T::other", .mark 9, .pushData [1, 2], .jump .jmpIfNotL 4, .mark 9, .op .ret]

theorem sampleJumps_resolved :
    (Draft.run {} sampleJumps).address < 0x8000_0000
      ∧ Writes sampleJumps (Draft.run {} sampleJumps).body
      ∧ ∃ linked, linkLocal "T::jumps" (Draft.run {} sampleJumps).body = .ok linked
        ∧ ResolvesJumps sampleJumps (Draft.run {} sampleJumps).body linked := by
  have hsize : (Draft.run {} sampleJumps).address < 0x8000_0000 := by decide +kernel
  obtain ⟨hwrites, hlinks, hresolves⟩ := localPass_spec "T::jumps" sampleJumps hsize
  have hmarked : (sampleJumps.filterMap Directive.source?).all
      (fun source => decide (Directive.mark source ∈ sampleJumps)) = true := by
    decide +kernel
  obtain ⟨linked, hlinked⟩ := hlinks.mpr fun opcode source hjump =>
    of_decide_eq_true (List.all_eq_true.mp hmarked source (List.mem_filterMap.mpr ⟨_, hjump, rfl⟩))
  exact ⟨hsize, hwrites, linked, hlinked, hresolves linked hlinked⟩

end StackContract.Compile
