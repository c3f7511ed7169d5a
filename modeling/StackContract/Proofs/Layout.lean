import StackContract.Assembly.Directive
/-!
# The layout of a body

Where the directives of a body put their instructions, and at which addresses source offsets start.
`Draft.run_spec` says that carrying out directives writes `listing`, and `find?_marks` that it binds
the offsets that `markIn` finds.

`closing` is the code with the return that `assemble` may add. Behind any instruction of it that is no
terminator, and behind any offset that starts in it, there is another instruction (`Closed`).
-/

namespace StackContract.Assembly

open Script

/-- The number of bytes that a directive adds. -/
def Directive.size : Directive → Nat
  | .mark _ => 0
  | .instruction i => i.size
  | .reference _ _ => 1 + placeholderWidth

/-- A directive whose instruction can be read back from a script. References have operands of four
bytes that are relative. -/
def Directive.Encodable : Directive → Prop
  | .mark _ => True
  | .instruction i => i.fits = true
  | .reference opcode _ => opcode.operand = .fixed placeholderWidth ∧ opcode.isRelative = true

/-- The number of bytes of code. -/
def extent : List Directive → Nat
  | [] => 0
  | d :: rest => d.size + extent rest

/-- The operands of references, by the address of the instruction. -/
abbrev Filling := Nat → Target → List UInt8

/-- The operands before any reference is resolved. -/
def placeholders : Filling := fun _ _ => List.replicate placeholderWidth 0

/-- The instructions of code that starts at an address, each with its own address. -/
def listing (fill : Filling) (address : Nat) : List Directive → List (Nat × Instruction)
  | [] => []
  | .mark _ :: rest => listing fill address rest
  | .instruction i :: rest => (address, i) :: listing fill (address + i.size) rest
  | .reference opcode target :: rest =>
    (address, ⟨opcode, fill address target⟩) ::
      listing fill (address + (1 + placeholderWidth)) rest

/-- The relocations of code that starts at an address. -/
def relocations (address : Nat) : List Directive → List Relocation
  | [] => []
  | .mark _ :: rest => relocations address rest
  | .instruction i :: rest => relocations (address + i.size) rest
  | .reference _ target :: rest =>
    ⟨address, placeholderWidth, target⟩ :: relocations (address + (1 + placeholderWidth)) rest

/-- The address at which a source offset starts in code that starts at an address. -/
def markIn (source : UInt32) (address : Nat) : List Directive → Option Nat
  | [] => none
  | .mark other :: rest => if other = source then some address else markIn source address rest
  | d :: rest => markIn source (address + d.size) rest

/-! ## Sizes -/

theorem extent_mark (source : UInt32) (rest : List Directive) :
    extent (.mark source :: rest) = extent rest :=
  Nat.zero_add _

theorem extent_append (first second : List Directive) :
    extent (first ++ second) = extent first + extent second := by
  induction first with
  | nil => exact (Nat.zero_add _).symm
  | cons d first ih =>
    show d.size + extent (first ++ second) = d.size + extent first + extent second
    rw [ih, Nat.add_assoc]

/-- Code without bytes consists of marks. -/
theorem eq_mark_of_extent_eq_zero {code : List Directive} (h : extent code = 0) {d : Directive}
    (hd : d ∈ code) : ∃ source, d = .mark source := by
  induction code with
  | nil => exact absurd hd (by simp)
  | cons head rest ih =>
    have hsum : head.size + extent rest = 0 := h
    rcases List.mem_cons.mp hd with rfl | hd
    · cases d with
      | mark source => exact ⟨source, rfl⟩
      | instruction i =>
        have := i.size_pos
        have : Directive.size (.instruction i) = i.size := rfl
        omega
      | reference opcode target =>
        have : Directive.size (.reference opcode target) = 1 + placeholderWidth := rfl
        omega
    · exact ih (by omega) hd

/-- Code without bytes has no instructions. -/
theorem listing_of_extent_eq_zero {fill : Filling} {address : Nat} {code : List Directive}
    (h : extent code = 0) : listing fill address code = [] := by
  induction code with
  | nil => rfl
  | cons d rest ih =>
    obtain ⟨source, rfl⟩ := eq_mark_of_extent_eq_zero h (List.mem_cons_self ..)
    exact ih (by unfold extent at h; omega)

/-- Code with bytes starts with an instruction, behind marks at most. -/
theorem exists_first_of_extent_pos {code : List Directive} (h : 0 < extent code) :
    ∃ marks d rest, code = marks ++ d :: rest ∧ extent marks = 0 ∧ 0 < d.size := by
  induction code with
  | nil => exact absurd h (Nat.lt_irrefl 0)
  | cons d rest ih =>
    rcases Nat.eq_zero_or_pos d.size with hzero | hpos
    · obtain ⟨marks, first, others, rfl, hmarks, hfirst⟩ := ih (by
        unfold extent at h
        omega)
      refine ⟨d :: marks, first, others, rfl, ?_, hfirst⟩
      unfold extent
      omega
    · exact ⟨[], d, rest, rfl, rfl, hpos⟩

theorem listing_append (fill : Filling) (address : Nat) (first second : List Directive) :
    listing fill address (first ++ second)
      = listing fill address first ++ listing fill (address + extent first) second := by
  induction first generalizing address with
  | nil => rfl
  | cons d first ih =>
    cases d with
    | mark source =>
      show listing fill address (first ++ second) = _
      rw [ih, extent, Directive.size, Nat.zero_add]
      rfl
    | instruction i =>
      show (address, i) :: listing fill (address + i.size) (first ++ second) = _
      rw [ih, extent, Directive.size, Nat.add_assoc]
      rfl
    | reference opcode target =>
      show _ :: listing fill (address + (1 + placeholderWidth)) (first ++ second) = _
      rw [ih, extent, Directive.size, Nat.add_assoc]
      rfl

/-- An entry of a listing is that of a directive at its address. -/
theorem exists_of_mem_listing {fill : Filling} {address : Nat} {code : List Directive}
    {entry : Nat × Instruction} (h : entry ∈ listing fill address code) :
    ∃ before d after others, code = before ++ d :: after
      ∧ listing fill (address + extent before) (d :: after) = entry :: others
      ∧ entry.1 = address + extent before := by
  induction code generalizing address with
  | nil => cases h
  | cons d rest ih =>
    -- an entry of the rest is found behind the head
    have hrest : entry ∈ listing fill (address + d.size) rest → ∃ before d' after others,
        d :: rest = before ++ d' :: after
          ∧ listing fill (address + extent before) (d' :: after) = entry :: others
          ∧ entry.1 = address + extent before := by
      intro h
      obtain ⟨before, d', after, others, rfl, hlisting, haddress⟩ := ih h
      rw [Nat.add_assoc] at hlisting haddress
      exact ⟨d :: before, d', after, others, rfl, hlisting, haddress⟩
    cases d with
    | mark source => exact hrest h
    | instruction i =>
      rcases List.mem_cons.mp h with rfl | h
      · exact ⟨[], _, rest, _, rfl, rfl, rfl⟩
      · exact hrest h
    | reference opcode target =>
      rcases List.mem_cons.mp h with rfl | h
      · exact ⟨[], _, rest, _, rfl, rfl, rfl⟩
      · exact hrest h

theorem mem_listing_instruction {fill : Filling} {before after : List Directive} {i : Instruction} :
    (extent before, i) ∈ listing fill 0 (before ++ .instruction i :: after) := by
  rw [listing_append, Nat.zero_add]
  exact List.mem_append_right _ (List.mem_cons_self ..)

theorem mem_listing_reference {fill : Filling} {before after : List Directive} {opcode : Opcode}
    {target : Target} : (extent before, ⟨opcode, fill (extent before) target⟩)
      ∈ listing fill 0 (before ++ .reference opcode target :: after) := by
  rw [listing_append, Nat.zero_add]
  exact List.mem_append_right _ (List.mem_cons_self ..)

theorem relocations_append (address : Nat) (first second : List Directive) :
    relocations address (first ++ second)
      = relocations address first ++ relocations (address + extent first) second := by
  induction first generalizing address with
  | nil => rfl
  | cons d first ih =>
    cases d with
    | mark source =>
      show relocations address (first ++ second) = _
      rw [ih, extent, Directive.size, Nat.zero_add]
      rfl
    | instruction i =>
      show relocations (address + i.size) (first ++ second) = _
      rw [ih, extent, Directive.size, Nat.add_assoc]
      rfl
    | reference opcode target =>
      show _ :: relocations (address + (1 + placeholderWidth)) (first ++ second) = _
      rw [ih, extent, Directive.size, Nat.add_assoc]
      rfl

/-- The bytes of code whose references are filled with four bytes each. -/
theorem length_encode_listing (fill : Filling) (hfill : ∀ a t, (fill a t).length = placeholderWidth)
    (address : Nat) (code : List Directive) :
    (((listing fill address code).map Prod.snd).flatMap Instruction.encode).length = extent code := by
  induction code generalizing address with
  | nil => rfl
  | cons d rest ih =>
    cases d with
    | mark source =>
      show (((listing fill address rest).map Prod.snd).flatMap Instruction.encode).length = _
      rw [ih, extent, Directive.size, Nat.zero_add]
    | instruction i =>
      show ((i :: (listing fill (address + i.size) rest).map Prod.snd).flatMap
        Instruction.encode).length = _
      rw [List.flatMap_cons, List.length_append, Instruction.length_encode, ih]
      rfl
    | reference opcode target =>
      show ((⟨opcode, fill address target⟩ ::
        (listing fill (address + (1 + placeholderWidth)) rest).map Prod.snd).flatMap
          Instruction.encode).length = _
      rw [List.flatMap_cons, List.length_append, Instruction.length_encode, ih, Instruction.size,
        hfill]
      rfl

/-! ## Where offsets start -/

/-- An offset starts at its first mark. -/
theorem markIn_eq_some_iff {source : UInt32} {start address : Nat} {code : List Directive} :
    markIn source start code = some address ↔ ∃ before after,
      code = before ++ .mark source :: after ∧ .mark source ∉ before
        ∧ address = start + extent before := by
  induction code generalizing start with
  | nil => simp [markIn]
  | cons d rest ih =>
    -- a first mark in the rest is one in the whole unless the head is the mark itself
    have hcons : ∀ next, next = start + d.size → d ≠ .mark source →
        ((∃ before after, rest = before ++ .mark source :: after ∧ .mark source ∉ before
          ∧ address = next + extent before) ↔
        ∃ before after, d :: rest = before ++ .mark source :: after ∧ .mark source ∉ before
          ∧ address = start + extent before) := by
      intro next hnext hd
      constructor
      · rintro ⟨before, after, rfl, hbefore, rfl⟩
        refine ⟨d :: before, after, rfl, ?_, ?_⟩
        · rw [List.mem_cons, not_or]
          exact ⟨fun h => hd h.symm, hbefore⟩
        · rw [hnext, extent, Nat.add_assoc]
      · rintro ⟨_ | ⟨head, before⟩, after, hcode, hbefore, haddress⟩
        · exact absurd (List.cons.inj hcode).1 hd
        · obtain ⟨rfl, rfl⟩ := List.cons.inj hcode
          refine ⟨before, after, rfl, fun h => hbefore (List.mem_cons_of_mem _ h), ?_⟩
          rw [haddress, hnext, extent, Nat.add_assoc]
    cases d with
    | mark other =>
      unfold markIn
      by_cases hother : other = source
      · subst hother
        rw [if_pos rfl]
        constructor
        · rintro h
          cases h
          exact ⟨[], rest, rfl, by simp, rfl⟩
        · rintro ⟨_ | ⟨head, before⟩, after, hcode, hbefore, haddress⟩
          · rw [haddress]
            rfl
          · obtain ⟨rfl, -⟩ := List.cons.inj hcode
            exact absurd (List.mem_cons_self ..) hbefore
      · rw [if_neg hother, ih]
        exact hcons start rfl (fun h => hother (Directive.mark.inj h))
    | instruction i =>
      show markIn source (start + i.size) rest = _ ↔ _
      rw [ih]
      exact hcons _ rfl nofun
    | reference opcode target =>
      show markIn source (start + (1 + placeholderWidth)) rest = _ ↔ _
      rw [ih]
      exact hcons _ rfl nofun

/-! ## What a draft writes -/

namespace Draft

/-- Every instruction of a draft stands in front of its end. -/
def Bounded (draft : Draft) : Prop :=
  ∀ address ∈ draft.body.code.keys, address < draft.address

/-- An instruction at the end of a draft comes behind the others. -/
theorem entries_emit {draft : Draft} (h : draft.Bounded) (i : Instruction) :
    (draft.emit i).body.code.entries = draft.body.code.entries ++ [(draft.address, i)] :=
  Table.entries_insert (fun hmem => Nat.lt_irrefl _ (h _ hmem)) i

theorem bounded_emit {draft : Draft} (h : draft.Bounded) (i : Instruction) :
    (draft.emit i).Bounded := by
  intro address hmem
  have hsize := i.size_pos
  show address < draft.address + i.size
  unfold Table.keys at hmem
  rw [entries_emit h, List.map_append, List.mem_append] at hmem
  rcases hmem with hmem | hmem
  · have := h address hmem
    omega
  · rw [List.mem_singleton.mp hmem]
    show draft.address < draft.address + i.size
    omega

theorem step_mark (draft : Draft) (source : UInt32) :
    draft.step (.mark source) = if draft.body.marks.contains source then draft
      else { draft with
        body := { draft.body with marks := draft.body.marks.insert source draft.address } } := rfl

/-- Carrying out directives puts their instructions behind those of the draft. -/
theorem run_spec {draft : Draft} (h : draft.Bounded) (code : List Directive) :
    (draft.run code).address = draft.address + extent code
      ∧ (draft.run code).body.code.entries
        = draft.body.code.entries ++ listing placeholders draft.address code
      ∧ (draft.run code).body.relocations
        = draft.body.relocations ++ relocations draft.address code := by
  -- on the directives, the draft being what was written for those in front
  induction code generalizing draft with
  | nil => exact ⟨rfl, (List.append_nil _).symm, (List.append_nil _).symm⟩
  | cons d rest ih =>
    show ((draft.step d).run rest).address = _ ∧ ((draft.step d).run rest).body.code.entries = _
      ∧ ((draft.step d).run rest).body.relocations = _
    cases d with
    | mark source =>
      -- a mark changes the marks alone
      have hsame : (draft.step (.mark source)).address = draft.address
          ∧ (draft.step (.mark source)).body.code = draft.body.code
          ∧ (draft.step (.mark source)).body.relocations = draft.body.relocations := by
        rw [step_mark]
        split <;> exact ⟨rfl, rfl, rfl⟩
      obtain ⟨haddress, hcode, hrelocations⟩ := hsame
      have hbounded : (draft.step (.mark source)).Bounded := by
        intro address hmem
        rw [hcode] at hmem
        rw [haddress]
        exact h address hmem
      obtain ⟨hend, hentries, hpending⟩ := ih hbounded
      rw [hend, hentries, hpending, haddress, hcode, hrelocations, extent, Directive.size, Nat.zero_add]
      exact ⟨rfl, rfl, rfl⟩
    | instruction i =>
      obtain ⟨hend, hentries, hpending⟩ := ih (bounded_emit h i)
      refine ⟨?_, ?_, hpending⟩
      · show ((draft.emit i).run rest).address = _
        rw [hend, extent, ← Nat.add_assoc]
        rfl
      · show ((draft.emit i).run rest).body.code.entries = _
        rw [hentries, entries_emit h, List.append_assoc]
        rfl
    | reference opcode target =>
      have hbounded := bounded_emit h ⟨opcode, List.replicate placeholderWidth 0⟩
      obtain ⟨hend, hentries, hpending⟩ := @ih (draft.step (.reference opcode target)) hbounded
      have haddress : (draft.step (.reference opcode target)).address
          = draft.address + (1 + placeholderWidth) := rfl
      refine ⟨?_, ?_, ?_⟩
      · rw [hend, haddress, extent, Nat.add_assoc]
        rfl
      · have hstep : (draft.step (.reference opcode target)).body.code.entries
            = draft.body.code.entries
              ++ [(draft.address, ⟨opcode, List.replicate placeholderWidth 0⟩)] := entries_emit h _
        rw [hentries, haddress, hstep, List.append_assoc]
        rfl
      · rw [hpending, haddress]
        show draft.body.relocations ++ [_] ++ _ = _
        rw [List.append_assoc]
        rfl

/-- An offset keeps the address at which it started, else it starts where `markIn` finds it. -/
theorem find?_marks (draft : Draft) (code : List Directive) (source : UInt32) :
    (draft.run code).body.marks.find? source
      = (draft.body.marks.find? source).or (markIn source draft.address code) := by
  induction code generalizing draft with
  | nil => exact (Option.or_none ..).symm
  | cons d rest ih =>
    show ((draft.step d).run rest).body.marks.find? source = _
    rw [ih]
    cases d with
    | mark other =>
      have hstart : markIn source draft.address (.mark other :: rest)
          = if other = source then some draft.address else markIn source draft.address rest := rfl
      rw [hstart, step_mark]
      by_cases hbound : draft.body.marks.contains other = true
      · rw [if_pos hbound]
        by_cases hother : other = source
        · subst hother
          rw [if_pos rfl]
          obtain ⟨address, haddress⟩ := Option.isSome_iff_exists.mp hbound
          rw [show draft.body.marks.find? other = some address from haddress]
          rfl
        · rw [if_neg hother]
      · rw [if_neg hbound]
        show ((draft.body.marks.insert other draft.address).find? source).or
          (markIn source draft.address rest) = _
        rw [Table.find?_insert]
        by_cases hother : other = source
        · subst hother
          have hnone : draft.body.marks.find? other = none :=
            Option.not_isSome_iff_eq_none.mp hbound
          rw [if_pos rfl, if_pos rfl, hnone]
          rfl
        · rw [if_neg (fun h => hother h.symm), if_neg hother]
    | instruction i => rfl
    | reference opcode target => rfl

end Draft

/-! ## Closed code -/

/-- Whether control never goes on behind a directive. -/
def Directive.isTerminator : Directive → Bool
  | .mark _ => false
  | .instruction i => i.opcode.isTerminator
  | .reference opcode _ => opcode.isTerminator

/-- Code behind which control cannot run on, nor any offset start. -/
structure Closed (code : List Directive) : Prop where
  /-- Behind an instruction that is no terminator stands another instruction. -/
  falls : ∀ {before d after}, code = before ++ d :: after → 0 < d.size → d.isTerminator = false →
    0 < extent after
  /-- Behind the start of an offset stands an instruction. -/
  starts : ∀ {before source after}, code = before ++ .mark source :: after →
    .mark source ∉ before → 0 < extent after

/-- The code of a body with the return that closes it, where it needs one. -/
def closing (code : List Directive) : List Directive :=
  if (Draft.run {} code).endIsReachable then code ++ [.op .ret] else code

/-- Closing adds at most a return. -/
theorem closing_eq (code : List Directive) :
    closing code = code ∨ closing code = code ++ [.op .ret] := by
  unfold closing
  split
  · exact .inr rfl
  · exact .inl rfl

theorem assemble_eq (code : List Directive) : assemble code = (Draft.run {} (closing code)).body := by
  unfold assemble Draft.close closing
  split
  · rw [Draft.run_append]
    rfl
  · rfl

theorem bounded_empty : Draft.Bounded {} := nofun

/-- Whatever stands in front of a closing return has bytes behind it. -/
private theorem extent_pos_of_append_ret {code before after : List Directive} {d : Directive}
    (h : code ++ [.op .ret] = before ++ d :: after) (hd : d ≠ .op .ret) : 0 < extent after := by
  -- the return is the last directive, and not the one at hand
  have hmem : Directive.op .ret ∈ after := by
    rcases List.eq_nil_or_concat after with rfl | ⟨init, last, rfl⟩
    · exact absurd (List.append_inj' h rfl).2 (by simpa using fun h => hd h.symm)
    · rw [List.concat_eq_append, ← List.cons_append, ← List.append_assoc] at h
      rw [List.concat_eq_append, ← (List.append_inj' h rfl).2]
      exact List.mem_append_right _ (List.mem_singleton_self _)
  rcases Nat.eq_zero_or_pos (extent after) with hzero | hpos
  · obtain ⟨source, hmark⟩ := eq_mark_of_extent_eq_zero hzero hmem
    cases hmark
  · exact hpos

/-- The code that `assemble` writes is closed. -/
theorem closed_closing (code : List Directive) : Closed (closing code) := by
  unfold closing
  split
  · -- a return was added, which is behind everything
    constructor
    · intro before d after h hsize hterminator
      refine extent_pos_of_append_ret h ?_
      rintro rfl
      cases hterminator
    · intro before source after h _
      exact extent_pos_of_append_ret h nofun
  · next hreachable =>
    obtain ⟨haddress, hentries, -⟩ := Draft.run_spec bounded_empty code
    rw [Bool.not_eq_true] at hreachable
    unfold Draft.endIsReachable at hreachable
    rw [Bool.or_eq_false_iff, Bool.not_eq_false'] at hreachable
    obtain ⟨hlast, hmarks⟩ := hreachable
    have hzero : ∀ {after : List Directive}, ¬ 0 < extent after → extent after = 0 := by omega
    constructor
    · intro before d after hcode hsize hterminator
      refine Decidable.byContradiction fun hafter => ?_
      -- only marks follow, so the last instruction is that of `d`
      rw [hcode, List.append_cons, listing_append, listing_of_extent_eq_zero (hzero hafter),
        List.append_nil, listing_append] at hentries
      unfold Draft.lastOpcode? at hlast
      rw [hcode, List.append_cons, hentries] at hlast
      cases d with
      | mark source => exact absurd hsize (Nat.lt_irrefl 0)
      | instruction i =>
        change ((([] : List (Nat × Instruction)) ++ (listing _ _ _ ++ [(_, i)])).getLast?.map _).any _
          = true at hlast
        rw [List.nil_append, List.getLast?_concat] at hlast
        exact Bool.false_ne_true (hterminator.symm.trans hlast)
      | reference opcode target =>
        change ((([] : List (Nat × Instruction)) ++ (listing _ _ _ ++ [(_, Instruction.mk opcode _)])).getLast?.map
          _).any _ = true at hlast
        rw [List.nil_append, List.getLast?_concat] at hlast
        exact Bool.false_ne_true (hterminator.symm.trans hlast)
    · intro before source after hcode hfirst
      refine Decidable.byContradiction fun hafter => ?_
      -- no mark at the end stands for an offset, or the end would be reachable
      have hstart : markIn source 0 code = some (0 + extent before) :=
        markIn_eq_some_iff.mpr ⟨before, after, hcode, hfirst, rfl⟩
      have hfound := Draft.find?_marks {} code source
      rw [show (({} : Draft).body.marks.find? source) = none from rfl, Option.none_or] at hfound
      have hvalue := Table.mem_values_of_find? (hfound.trans hstart)
      have hend : (Draft.run {} code).address = 0 + extent before := by
        rw [haddress, hcode, extent_append, extent, hzero hafter]
        rfl
      rw [hend, ← Bool.not_eq_true, List.contains_iff_mem] at hmarks
      exact hmarks hvalue

/-- Closed code is not empty. -/
theorem extent_closing_pos (code : List Directive) : 0 < extent (closing code) := by
  unfold closing
  split
  · rw [extent_append]
    show 0 < extent code + 1
    omega
  · next hreachable =>
    rcases Nat.eq_zero_or_pos (extent code) with hzero | hpos
    · -- without instructions the end is reachable
      obtain ⟨-, hentries, -⟩ := Draft.run_spec bounded_empty code
      rw [listing_of_extent_eq_zero hzero, List.append_nil] at hentries
      refine absurd ?_ hreachable
      unfold Draft.endIsReachable Draft.lastOpcode?
      rw [hentries]
      rfl
    · exact hpos

end StackContract.Assembly
