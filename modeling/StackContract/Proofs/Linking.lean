import StackContract.Contract.Program
import StackContract.Proofs.Computations
import StackContract.Proofs.Encoding
import StackContract.Proofs.Layout
/-!
# Linking

What the two passes over a body leave of its directives. Both passes overwrite placeholders in place
(`foldlM_patch`): the local one fills in the branches (`linkLocal_run_spec`), the global one the
references between methods (`linkMethod_spec`). The result is `listing` with every operand the distance
from the instruction to what it refers to (`linkedFill`).
-/

namespace StackContract.Compile

open Assembly Script Number

/-- A displacement that four bytes hold. -/
def InRange (displacement : Int) : Prop :=
  -0x8000_0000 ≤ displacement ∧ displacement < 0x8000_0000

/-- The operands behind the local pass: branches lead to where their offsets start, and references to
methods are still open. -/
def localFill (marks : UInt32 → Option Nat) : Filling
  | address, .source source => bytesOfInt 4 (((marks source).getD 0 : Nat) - (address : Int))
  | _, .method _ => List.replicate placeholderWidth 0

/-- The operands behind both passes, in a body at `base`. -/
def linkedFill (marks : UInt32 → Option Nat) (bases : String → Option Nat) (base : Nat) : Filling
  | address, .source source => bytesOfInt 4 (((marks source).getD 0 : Nat) - (address : Int))
  | address, .method name => bytesOfInt 4 (((bases name).getD 0 : Nat) - ((base + address : Nat) : Int))

theorem length_localFill (marks : UInt32 → Option Nat) (address : Nat) (target : Target) :
    (localFill marks address target).length = placeholderWidth := by
  cases target with
  | source source => exact length_bytesOfInt 4 _
  | method name => rfl

theorem length_linkedFill (marks : UInt32 → Option Nat) (bases : String → Option Nat)
    (base address : Nat) (target : Target) :
    (linkedFill marks bases base address target).length = placeholderWidth := by
  cases target <;> exact length_bytesOfInt 4 _

/-! ## One placeholder -/

/-- A placeholder of four bytes is overwritten where it stands. -/
theorem patch_placeholder {method : String} {first rest : List (Nat × Instruction)} {address : Nat}
    {opcode : Opcode} {operand : List UInt8} {target : Target} {displacement : Int}
    {code : Table Nat Instruction} (hfirst : address ∉ first.map Prod.fst)
    (hoperand : operand.length = placeholderWidth)
    (h : patch method ⟨first ++ (address, ⟨opcode, operand⟩) :: rest⟩
      ⟨address, placeholderWidth, target⟩ displacement = .ok code) :
    InRange displacement
      ∧ code.entries = first ++ (address, ⟨opcode, bytesOfInt 4 displacement⟩) :: rest := by
  have hfound : Table.find? (⟨first ++ (address, ⟨opcode, operand⟩) :: rest⟩ : Table Nat Instruction)
      address = some ⟨opcode, operand⟩ := by
    unfold Table.find?
    rw [Table.findIn_append hfirst]
    exact if_pos rfl
  -- the placeholder is the whole operand
  have hfill : fillIn ⟨opcode, operand⟩ placeholderWidth displacement
      = ⟨opcode, bytesOfInt 4 displacement⟩ := by
    have hdrop : operand.drop 4 = [] := List.drop_eq_nil_of_le (by rw [hoperand]; decide)
    unfold fillIn
    simp only [hoperand, Nat.sub_self, List.take_zero, Nat.zero_add, hdrop, List.append_nil,
      List.nil_append]
  unfold patch at h
  simp only [hfound, hfill, hoperand] at h
  rw [if_neg (by decide)] at h
  split at h
  · cases h
  · next hrange =>
    cases h
    refine ⟨by unfold InRange; omega, ?_⟩
    show Table.insertIn _ _ _ = _
    rw [Table.insertIn_append hfirst]
    exact congrArg _ (if_pos rfl)

theorem inRange_of_patch {method : String} {code code' : Table Nat Instruction}
    {relocation : Relocation} {displacement : Int}
    (h : patch method code relocation displacement = .ok code') : InRange displacement := by
  unfold patch at h
  unfold InRange
  split at h
  · cases h
  · split at h
    · cases h
    · split at h
      · cases h
      · omega

/-- Whether a relocation refers to a method. -/
def isPending (relocation : Relocation) : Bool :=
  match relocation.target with
  | .source _ => false
  | .method _ => true

/-- The local pass keeps a reference to a method, and fills in a branch to a marked offset. -/
theorem resolveLocal_eq_ok {method : String} {body body' : Body} {r : Relocation}
    (h : resolveLocal method body r = .ok body') :
    (∃ name, r.target = .method name ∧ body' = { body with relocations := body.relocations ++ [r] })
      ∨ ∃ source address code, r.target = .source source ∧ body.marks.find? source = some address
        ∧ patch method body.code r ((address : Int) - r.address) = .ok code
        ∧ body' = { body with code } := by
  unfold resolveLocal at h
  split at h
  · next name htarget =>
    cases h
    exact .inl ⟨name, htarget, rfl⟩
  · next source htarget =>
    split at h
    · cases h
    · next address haddress =>
      obtain ⟨code, hpatch, hpure⟩ := exceptBind_eq_ok h
      cases hpure
      exact .inr ⟨source, address, code, htarget, haddress, hpatch, rfl⟩

/-! ## A pass over the relocations -/

/-- The relocations that a pass leaves are those that its steps keep. -/
theorem relocations_of_foldlM {resolve : Body → Relocation → Except Error Body}
    {kept : Relocation → Bool} (hstep : ∀ {body r body'}, resolve body r = .ok body' →
      body'.relocations = body.relocations ++ [r].filter kept)
    {rs : List Relocation} {body body' : Body} (h : rs.foldlM resolve body = .ok body') :
    body'.relocations = body.relocations ++ rs.filter kept := by
  induction rs generalizing body with
  | nil =>
    cases h
    exact (List.append_nil _).symm
  | cons r rs ih =>
    rw [List.foldlM_cons] at h
    obtain ⟨next, hnext, hrest⟩ := exceptBind_eq_ok h
    rw [ih hrest, hstep hnext, List.append_assoc, ← List.filter_append]
    rfl

/-- Addresses below the next one stay below where the instruction there ends. -/
theorem lt_of_mem_append_singleton {first : List (Nat × Instruction)} {address size : Nat}
    (hfirst : ∀ a ∈ first.map Prod.fst, a < address) (hsize : 0 < size) (i : Instruction) :
    ∀ a ∈ (first ++ [(address, i)]).map Prod.fst, a < address + size := by
  intro a ha
  rw [List.map_append, List.mem_append] at ha
  rcases ha with ha | ha
  · exact Nat.lt_add_right size (hfirst a ha)
  · rw [List.mem_singleton.mp ha]
    exact Nat.lt_add_of_pos_right hsize

/-- A pass that overwrites some placeholders and leaves the others turns one listing into another.
`Resolved` is what the pass finds out about each relocation. -/
theorem foldlM_patch (method : String) {resolve : Body → Relocation → Except Error Body}
    (marks : Table UInt32 Nat) (visited : Target → Bool) (fill filled : Filling)
    (Resolved : Relocation → Prop) (hwidth : ∀ a t, (fill a t).length = placeholderWidth)
    (hskip : ∀ a t, visited t = false → filled a t = fill a t)
    (hresolve : ∀ body r body', body.marks = marks → resolve body r = .ok body' →
      body'.marks = marks ∧ Resolved r ∧
        ((∃ d, patch method body.code r d = .ok body'.code
            ∧ filled r.address r.target = bytesOfInt 4 d)
          ∨ (body'.code = body.code ∧ filled r.address r.target = fill r.address r.target)))
    (first : List (Nat × Instruction)) (address : Nat) (hfirst : ∀ a ∈ first.map Prod.fst, a < address)
    (code : List Directive) {body body' : Body}
    (h : ((relocations address code).filter fun r => visited r.target).foldlM resolve body
      = .ok body') (hmarks : body.marks = marks)
    (hcode : body.code.entries = first ++ listing fill address code) :
    body'.marks = marks ∧ body'.code.entries = first ++ listing filled address code
      ∧ ∀ r ∈ relocations address code, visited r.target = true → Resolved r := by
  -- on the directives: `first` is the part of the listing that the pass is done with
  induction code generalizing first address body with
  | nil =>
    cases h
    exact ⟨hmarks, hcode, nofun⟩
  | cons d rest ih =>
    cases d with
    | mark source => exact ih first address hfirst h hmarks hcode
    | instruction i =>
      have hentries : body.code.entries
          = first ++ [(address, i)] ++ listing fill (address + i.size) rest := by
        rw [hcode, List.append_assoc]
        rfl
      obtain ⟨hmarks', hcode', hall⟩ :=
        ih _ _ (lt_of_mem_append_singleton hfirst i.size_pos i) h hmarks hentries
      refine ⟨hmarks', ?_, hall⟩
      rw [hcode', List.append_assoc]
      rfl
    | reference opcode target =>
      have hpos : 0 < 1 + placeholderWidth := Nat.succ_pos _
      -- the instruction of this reference, its operand overwritten or not
      have hrest : ∀ {body : Body} {operand : List UInt8}, body.marks = marks →
          body.code.entries = first ++ (address, ⟨opcode, operand⟩) ::
            listing fill (address + (1 + placeholderWidth)) rest →
          operand = filled address target →
          ((relocations (address + (1 + placeholderWidth)) rest).filter fun r =>
            visited r.target).foldlM resolve body = .ok body' →
          body'.marks = marks
            ∧ body'.code.entries = first ++ listing filled address (.reference opcode target :: rest)
            ∧ ∀ r ∈ relocations (address + (1 + placeholderWidth)) rest,
              visited r.target = true → Resolved r := by
        intro body operand hmarks hentries hoperand h
        subst hoperand
        rw [List.append_cons] at hentries
        obtain ⟨hmarks', hcode', hall⟩ :=
          ih _ _ (lt_of_mem_append_singleton hfirst hpos _) h hmarks hentries
        refine ⟨hmarks', ?_, hall⟩
        rw [hcode', ← List.append_cons]
        rfl
      have hfresh : address ∉ first.map Prod.fst := fun hmem => Nat.lt_irrefl _ (hfirst _ hmem)
      change ((⟨address, placeholderWidth, target⟩ ::
        relocations (address + (1 + placeholderWidth)) rest).filter _).foldlM _ _ = _ at h
      -- the pass is handed the visited relocations alone
      cases hvisited : visited target with
      | false =>
        rw [List.filter_cons_of_neg (by simp [hvisited])] at h
        obtain ⟨hmarks', hcode', hall⟩ := hrest hmarks hcode (hskip address target hvisited).symm h
        refine ⟨hmarks', hcode', ?_⟩
        intro r hr hvisit
        rcases List.mem_cons.mp hr with rfl | hr
        · rw [hvisited] at hvisit
          cases hvisit
        · exact hall r hr hvisit
      | true =>
        rw [List.filter_cons_of_pos (by simp [hvisited]), List.foldlM_cons] at h
        obtain ⟨next, hstep, hfold⟩ := exceptBind_eq_ok h
        obtain ⟨hnextmarks, hresolved, hpatch⟩ := hresolve body _ next hmarks hstep
        have hresult : body'.marks = marks
            ∧ body'.code.entries = first ++ listing filled address (.reference opcode target :: rest)
            ∧ ∀ r ∈ relocations (address + (1 + placeholderWidth)) rest,
              visited r.target = true → Resolved r := by
          rcases hpatch with ⟨displacement, hpatch, hfilled⟩ | ⟨hsame, hfilled⟩
          · have hbody : body.code = ⟨first ++ (address, ⟨opcode, fill address target⟩) ::
                listing fill (address + (1 + placeholderWidth)) rest⟩ := congrArg Table.mk hcode
            rw [hbody] at hpatch
            obtain ⟨-, hentries⟩ := patch_placeholder hfresh (hwidth address target) hpatch
            exact hrest hnextmarks hentries hfilled.symm hfold
          · exact hrest hnextmarks (by rw [hsame]; exact hcode) hfilled.symm hfold
        obtain ⟨hmarks', hcode', hall⟩ := hresult
        refine ⟨hmarks', hcode', ?_⟩
        intro r hr hvisit
        rcases List.mem_cons.mp hr with rfl | hr
        · exact hresolved
        · exact hall r hr hvisit

/-! ## The local pass -/

/-- A body binds the offsets that start in its directives. -/
theorem find?_marks_run (code : List Directive) (source : UInt32) :
    (Draft.run {} code).body.marks.find? source = markIn source 0 code := by
  rw [Draft.find?_marks]
  exact Option.none_or

private theorem relocations_of_resolveLocal {method : String} {body body' : Body} {r : Relocation}
    (h : resolveLocal method body r = .ok body') :
    body'.relocations = body.relocations ++ [r].filter isPending := by
  rcases resolveLocal_eq_ok h with ⟨name, htarget, rfl⟩ | ⟨source, address, code, htarget, -, -, rfl⟩
  · rw [List.filter_cons_of_pos (by unfold isPending; rw [htarget])]
    rfl
  · rw [List.filter_cons_of_neg (by unfold isPending; rw [htarget]; exact Bool.false_ne_true)]
    exact (List.append_nil _).symm

/-- The local pass fills in the branches, all of which lead to offsets that start in the body, and
keeps the references to methods and the starts. -/
theorem linkLocal_run_spec {method : String} {code : List Directive} {body : Body}
    (h : linkLocal method (Draft.run {} code).body = .ok body) :
    body.code.entries = listing (localFill fun source => markIn source 0 code) 0 code
      ∧ body.relocations = (relocations 0 code).filter isPending
      ∧ body.marks = (Draft.run {} code).body.marks
      ∧ ∀ r ∈ relocations 0 code, ∀ source, r.target = .source source →
        ∃ address, markIn source 0 code = some address ∧ InRange ((address : Int) - r.address) := by
  obtain ⟨-, hentries, hpending⟩ := Draft.run_spec bounded_empty code
  have hmarks := find?_marks_run code
  generalize (Draft.run {} code).body = written at h hentries hpending hmarks
  have hpending : written.relocations = relocations 0 code := hpending
  unfold linkLocal at h
  rw [hpending] at h
  have hrelocations := relocations_of_foldlM relocations_of_resolveLocal h
  -- this pass visits every relocation
  have hfilter : (relocations 0 code).filter (fun _ => true) = relocations 0 code :=
    List.filter_eq_self.mpr fun _ _ => rfl
  rw [← hfilter] at h
  have hpass := foldlM_patch method written.marks (fun _ => true) placeholders
    (localFill fun source => markIn source 0 code)
    (fun r => ∀ source, r.target = .source source →
      ∃ address, markIn source 0 code = some address ∧ InRange ((address : Int) - r.address))
    (fun _ _ => rfl) (fun _ _ h => nomatch h) ?_ [] 0 nofun code h rfl hentries
  · obtain ⟨hsame, hcode, hall⟩ := hpass
    exact ⟨hcode, hrelocations, hsame, fun r hr => hall r hr rfl⟩
  · intro body r body' hbody hstep
    rcases resolveLocal_eq_ok hstep with ⟨name, htarget, rfl⟩ |
      ⟨source, address, code', htarget, haddress, hpatch, rfl⟩
    · refine ⟨hbody, fun source hsource => ?_, .inr ⟨rfl, ?_⟩⟩
      · rw [htarget] at hsource
        cases hsource
      · rw [htarget]
        rfl
    · rw [hbody, hmarks] at haddress
      refine ⟨hbody, fun other hother => ?_, .inl ⟨_, hpatch, ?_⟩⟩
      · rw [htarget] at hother
        cases hother
        exact ⟨address, haddress, inRange_of_patch hpatch⟩
      · rw [htarget]
        show bytesOfInt 4 (((markIn source 0 code).getD 0 : Nat) - (r.address : Int)) = _
        rw [haddress]
        rfl

/-- `linkLocal_run_spec` for a body that is closed. -/
theorem linkLocal_spec {method : String} {code : List Directive} {body : Body}
    (h : linkLocal method (assemble code) = .ok body) :
    body.code.entries = listing (localFill fun source => markIn source 0 (closing code)) 0 (closing code)
      ∧ body.relocations = (relocations 0 (closing code)).filter isPending
      ∧ (∀ source, body.marks.find? source = markIn source 0 (closing code))
      ∧ ∀ r ∈ relocations 0 (closing code), ∀ source, r.target = .source source →
        ∃ address, markIn source 0 (closing code) = some address
          ∧ InRange ((address : Int) - r.address) := by
  rw [assemble_eq] at h
  obtain ⟨hentries, hpending, hmarks, hbranches⟩ := linkLocal_run_spec h
  exact ⟨hentries, hpending, fun source => hmarks ▸ find?_marks_run _ source, hbranches⟩

end StackContract.Compile

namespace StackContract.Contract

open Assembly Compile Script Number

/-! ## The global pass -/

/-- The global pass only meets references to methods, and fills them in. -/
theorem resolveGlobal_eq_ok {methods : List PlacedMethod} {name : String} {base : Nat}
    {body body' : Body} {r : Relocation} (h : resolveGlobal methods name base body r = .ok body') :
    ∃ callee target code, r.target = .method callee ∧ baseOf? methods callee = some target
      ∧ patch name body.code r ((target : Int) - (base + r.address : Nat)) = .ok code
      ∧ body' = { body with code } := by
  unfold resolveGlobal at h
  split at h
  · cases h
  · next callee htarget =>
    split at h
    · cases h
    · next target hbase =>
      obtain ⟨code, hpatch, hpure⟩ := exceptBind_eq_ok h
      cases hpure
      exact ⟨callee, target, code, htarget, hbase, hpatch, rfl⟩

private theorem relocations_of_resolveGlobal {methods : List PlacedMethod} {name : String} {base : Nat}
    {body body' : Body} {r : Relocation} (h : resolveGlobal methods name base body r = .ok body') :
    body'.relocations = body.relocations ++ [r].filter fun _ => false := by
  obtain ⟨callee, target, code, -, -, -, rfl⟩ := resolveGlobal_eq_ok h
  exact (List.append_nil _).symm

/-- The global pass fills in the references to methods, all of which are in the image. -/
theorem linkMethod_spec {methods : List PlacedMethod} {method linked : PlacedMethod}
    {marks : UInt32 → Option Nat} {code : List Directive} (h : linkMethod methods method = .ok linked)
    (hcode : method.body.code.entries = listing (localFill marks) 0 code)
    (hpending : method.body.relocations = (relocations 0 code).filter isPending) :
    linked.signature = method.signature ∧ linked.base = method.base
      ∧ linked.body.code.entries = listing (linkedFill marks (baseOf? methods) method.base) 0 code
      ∧ linked.body.relocations = [] ∧ linked.body.marks = method.body.marks
      ∧ ∀ r ∈ relocations 0 code, ∀ name, r.target = .method name →
        ∃ base, baseOf? methods name = some base
          ∧ InRange ((base : Int) - (method.base + r.address : Nat)) := by
  unfold linkMethod at h
  obtain ⟨body, hfold, hpure⟩ := exceptBind_eq_ok h
  cases hpure
  have hnone : body.relocations = [] :=
    (relocations_of_foldlM relocations_of_resolveGlobal hfold).trans (List.filter_false _)
  rw [hpending] at hfold
  have hpass := foldlM_patch method.signature.name method.body.marks (fun target => isPending ⟨0, 0, target⟩)
    (localFill marks) (linkedFill marks (baseOf? methods) method.base)
    (fun r => ∀ name, r.target = .method name →
      ∃ base, baseOf? methods name = some base
        ∧ InRange ((base : Int) - (method.base + r.address : Nat)))
    (length_localFill marks) ?_ ?_ [] 0 nofun code hfold rfl hcode
  · obtain ⟨hsame, hentries, hall⟩ := hpass
    refine ⟨rfl, rfl, hentries, hnone, hsame, ?_⟩
    intro r hr name htarget
    exact hall r hr (by rw [htarget]; rfl) name htarget
  · -- a branch is not visited, and the local pass has filled it in
    intro address target hvisited
    cases target with
    | source source => rfl
    | method name => cases hvisited
  · intro body r body' hbody hstep
    obtain ⟨callee, target, code', htarget, hbase, hpatch, rfl⟩ := resolveGlobal_eq_ok hstep
    refine ⟨hbody, fun other hother => ?_, .inl ⟨_, hpatch, ?_⟩⟩
    · rw [htarget] at hother
      cases hother
      exact ⟨target, hbase, inRange_of_patch hpatch⟩
    · rw [htarget]
      show bytesOfInt 4 (((baseOf? methods callee).getD 0 : Nat)
        - ((method.base + r.address : Nat) : Int)) = _
      rw [hbase]
      rfl

end StackContract.Contract
