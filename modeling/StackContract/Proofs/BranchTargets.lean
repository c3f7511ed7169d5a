import StackContract.Proofs.Image
import StackContract.Proofs.Regions
/-!
# Branch targets

The local pass of the linker fails for one reason only as long as the code is smaller than 2 GiB: a
branch leads to an offset that is not marked (`linkLocal_ok_or_unresolved`).

Code for an instruction that hashes no string starts no source offset and has the branches of the
instruction, and what it covers has none and is led to by none (`KeepsBranches`). So every instruction
that branches or is branched to has a segment of its own (`Lowers.exists_segment_of_noHash`), and
branches are resolved exactly if the body has an instruction at each of their offsets
(`resolvesExactly_of_lowerBody`).
-/

namespace StackContract.Assembly

open Script

/-! ## References and their places -/

/-- A relocation is that of a reference at its address. -/
theorem exists_of_mem_relocations {r : Relocation} {address : Nat} {code : List Directive}
    (h : r ∈ relocations address code) : ∃ before opcode after,
      code = before ++ .reference opcode r.target :: after ∧ r.address = address + extent before
        ∧ r.width = placeholderWidth := by
  induction code generalizing address with
  | nil => cases h
  | cons d rest ih =>
    have hrest : r ∈ relocations (address + d.size) rest → ∃ before opcode after,
        d :: rest = before ++ .reference opcode r.target :: after
          ∧ r.address = address + extent before ∧ r.width = placeholderWidth := by
      intro h
      obtain ⟨before, opcode, after, rfl, haddress, hwidth⟩ := ih h
      refine ⟨d :: before, opcode, after, rfl, ?_, hwidth⟩
      rw [haddress, extent, Nat.add_assoc]
    cases d with
    | mark source => exact hrest h
    | instruction i => exact hrest h
    | reference opcode target =>
      rcases List.mem_cons.mp h with rfl | h
      · exact ⟨[], opcode, rest, rfl, rfl, rfl⟩
      · exact hrest h

/-- The instructions of a listing stand in front of its end. -/
theorem lt_of_mem_listing {fill : Filling} {address : Nat} {code : List Directive}
    {entry : Nat × Instruction} (h : entry ∈ listing fill address code) :
    entry.1 < address + extent code := by
  induction code generalizing address with
  | nil => cases h
  | cons d rest ih =>
    have hextent : extent (d :: rest) = d.size + extent rest := rfl
    rw [hextent, ← Nat.add_assoc]
    cases d with
    | mark source => exact ih h
    | instruction i =>
      rcases List.mem_cons.mp h with rfl | h
      · have hsize : (Directive.instruction i).size = i.size := rfl
        have hpos := i.size_pos
        dsimp only
        omega
      · exact ih h
    | reference opcode target =>
      rcases List.mem_cons.mp h with rfl | h
      · have hsize : (Directive.reference opcode target).size = 1 + placeholderWidth := rfl
        dsimp only
        omega
      · exact ih h

/-- A reference is found at its address. -/
theorem findIn_listing_reference (fill : Filling) (before after : List Directive) (opcode : Opcode)
    (target : Target) :
    Table.findIn (extent before) (listing fill 0 (before ++ .reference opcode target :: after))
      = some ⟨opcode, fill (extent before) target⟩ := by
  have hfresh : extent before ∉ (listing fill 0 before).map Prod.fst := by
    intro hmem
    obtain ⟨entry, hentry, haddress⟩ := List.mem_map.mp hmem
    have hlt := lt_of_mem_listing hentry
    omega
  rw [listing_append, Nat.zero_add, Table.findIn_append hfresh]
  exact if_pos rfl

/-- An offset is marked in code exactly if it starts somewhere in it. -/
theorem markIn_eq_none_iff {source : UInt32} {start : Nat} {code : List Directive} :
    markIn source start code = none ↔ .mark source ∉ code := by
  induction code generalizing start with
  | nil => simp [markIn]
  | cons d rest ih =>
    have hrest : d ≠ .mark source → (markIn source (start + d.size) rest = none
        ↔ .mark source ∉ d :: rest) := by
      intro hd
      rw [ih, List.mem_cons, not_or]
      exact ⟨fun h => ⟨fun heq => hd heq.symm, h⟩, fun h => h.2⟩
    cases d with
    | mark other =>
      by_cases hother : other = source
      · subst hother
        simp [markIn]
      · have hskip : markIn source start (.mark other :: rest) = markIn source start rest :=
          if_neg hother
        rw [hskip]
        exact hrest fun h => hother (Directive.mark.inj h)
    | instruction i => exact hrest Directive.noConfusion
    | reference opcode target => exact hrest Directive.noConfusion

end StackContract.Assembly

namespace StackContract.Compile

open Assembly Script Number

/-! ## The one failure of the local pass -/

/-- Code with four bytes to fill in at an address. -/
def HasPlaceholder (code : Table Nat Instruction) (address : Nat) : Prop :=
  ∃ i, code.find? address = some i ∧ i.operand.length = placeholderWidth

/-- A placeholder takes every displacement that four bytes hold, and stays one. -/
theorem exists_patch {method : String} {code : Table Nat Instruction} {r : Relocation}
    {displacement : Int} (hwidth : r.width = placeholderWidth)
    (hholds : HasPlaceholder code r.address) (hrange : InRange displacement) :
    ∃ code', patch method code r displacement = .ok code'
      ∧ ∀ address, HasPlaceholder code address → HasPlaceholder code' address := by
  obtain ⟨i, hfound, hlength⟩ := hholds
  have hwide : ¬ (r.width < 4 ∨ i.operand.length < r.width) := by
    rw [hwidth, hlength]
    decide
  have hnear : ¬ (displacement < -0x8000_0000 ∨ 0x8000_0000 ≤ displacement) := by
    unfold InRange at hrange
    omega
  refine ⟨code.insert r.address (fillIn i r.width displacement), ?_, ?_⟩
  · unfold patch
    rw [hfound]
    dsimp only
    rw [if_neg hwide, if_neg hnear]
  · rintro address ⟨j, hj, hlength'⟩
    unfold HasPlaceholder
    rw [Table.find?_insert]
    split
    · refine ⟨_, rfl, ?_⟩
      unfold fillIn
      simp only [List.length_append, List.length_take, List.length_drop, length_bytesOfInt, hwidth,
        hlength]
      decide
    · exact ⟨j, hj, hlength'⟩

/-- The pass over relocations succeeds, or fails at a branch to an offset that is not marked. -/
theorem foldlM_resolveLocal (method : String) {rs : List Relocation} {body : Body}
    (hwidth : ∀ r ∈ rs, r.width = placeholderWidth)
    (hholds : ∀ r ∈ rs, HasPlaceholder body.code r.address)
    (hnear : ∀ r ∈ rs, ∀ source address, body.marks.find? source = some address →
      InRange ((address : Int) - r.address)) :
    (∃ body', rs.foldlM (resolveLocal method) body = .ok body')
      ∨ ∃ r ∈ rs, ∃ source, r.target = .source source ∧ body.marks.find? source = none
        ∧ rs.foldlM (resolveLocal method) body = .error (.unresolvedSource method source) := by
  induction rs generalizing body with
  | nil => exact .inl ⟨body, rfl⟩
  | cons r rs ih =>
    -- a step that keeps the marks and the placeholders goes on with the rest
    have hrest : ∀ {next : Body}, resolveLocal method body r = .ok next → next.marks = body.marks →
        (∀ address, HasPlaceholder body.code address → HasPlaceholder next.code address) →
        (∃ body', (r :: rs).foldlM (resolveLocal method) body = .ok body')
          ∨ ∃ r' ∈ r :: rs, ∃ source, r'.target = .source source ∧ body.marks.find? source = none
            ∧ (r :: rs).foldlM (resolveLocal method) body
              = .error (.unresolvedSource method source) := by
      intro next hstep hmarks hkeeps
      rw [List.foldlM_cons, hstep]
      refine (ih (fun r' hr' => hwidth r' (List.mem_cons_of_mem _ hr'))
        (fun r' hr' => hkeeps _ (hholds r' (List.mem_cons_of_mem _ hr'))) ?_).imp id ?_
      · rw [hmarks]
        exact fun r' hr' => hnear r' (List.mem_cons_of_mem _ hr')
      · rw [hmarks]
        rintro ⟨r', hr', source, htarget, hnone, hfold⟩
        exact ⟨r', List.mem_cons_of_mem _ hr', source, htarget, hnone, hfold⟩
    cases htarget : r.target with
    | method name =>
      have hstep : resolveLocal method body r
          = .ok { body with relocations := body.relocations ++ [r] } := by
        unfold resolveLocal
        rw [htarget]
      exact hrest hstep rfl fun _ h => h
    | source source =>
      cases hmark : body.marks.find? source with
      | none =>
        refine .inr ⟨r, List.mem_cons_self .., source, htarget, hmark, ?_⟩
        have hstep : resolveLocal method body r = .error (.unresolvedSource method source) := by
          unfold resolveLocal
          rw [htarget]
          dsimp only
          rw [hmark]
        rw [List.foldlM_cons, hstep]
        rfl
      | some address =>
        obtain ⟨code, hpatch, hkeeps⟩ := exists_patch (hwidth r (List.mem_cons_self ..))
          (hholds r (List.mem_cons_self ..)) (hnear r (List.mem_cons_self ..) source address hmark)
        have hstep : resolveLocal method body r = .ok { body with code } := by
          unfold resolveLocal
          rw [htarget]
          dsimp only
          rw [hmark]
          dsimp only
          rw [hpatch]
          rfl
        exact hrest hstep rfl hkeeps

/-- Code smaller than 2 GiB is linked within its method, unless it refers to an offset that it does not
mark. -/
theorem linkLocal_run_ok_or_unresolved (method : String) {code : List Directive}
    (hsize : extent code < 0x8000_0000) :
    (∃ body, linkLocal method (Draft.run {} code).body = .ok body)
      ∨ ∃ opcode source, .reference opcode (.source source) ∈ code
        ∧ .mark source ∉ code
        ∧ linkLocal method (Draft.run {} code).body = .error (.unresolvedSource method source) := by
  obtain ⟨-, hentries, hpending⟩ := Draft.run_spec bounded_empty code
  have hmarks := find?_marks_run code
  generalize (Draft.run {} code).body = written at hentries hpending hmarks
  have hpending : written.relocations = relocations 0 code := hpending
  have hentries : written.code.entries = listing placeholders 0 code := hentries
  unfold linkLocal
  rw [hpending]
  refine (foldlM_resolveLocal method ?_ ?_ ?_).imp id ?_
  · intro r hr
    obtain ⟨_, _, _, -, -, hwidth⟩ := exists_of_mem_relocations hr
    exact hwidth
  · intro r hr
    obtain ⟨before, opcode, after, hcode, haddress, -⟩ := exists_of_mem_relocations hr
    refine ⟨⟨opcode, placeholders (extent before) r.target⟩, ?_, rfl⟩
    show Table.findIn r.address written.code.entries = _
    rw [hentries, hcode, haddress, Nat.zero_add]
    exact findIn_listing_reference placeholders before after opcode r.target
  · -- both ends of a branch lie within the code
    intro r hr source address hmark
    obtain ⟨before, opcode, after, hcode, haddress, -⟩ := exists_of_mem_relocations hr
    obtain ⟨before', after', hcode', -, haddress'⟩ :=
      markIn_eq_some_iff.mp ((hmarks source).symm.trans hmark)
    have hfrom := congrArg extent hcode
    have hto := congrArg extent hcode'
    rw [extent_append] at hfrom hto
    unfold InRange
    omega
  · rintro ⟨r, hr, source, htarget, hnone, hfold⟩
    obtain ⟨before, opcode, after, hcode, -, -⟩ := exists_of_mem_relocations hr
    rw [htarget] at hcode
    refine ⟨opcode, source, ?_, markIn_eq_none_iff.mp ((hmarks source).symm.trans hnone), hfold⟩
    rw [hcode]
    exact List.mem_append_right _ (List.mem_cons_self ..)

/-- `linkLocal_run_ok_or_unresolved` for a body that is closed. -/
theorem linkLocal_ok_or_unresolved (method : String) {code : List Directive}
    (hsize : extent (closing code) < 0x8000_0000) :
    (∃ body, linkLocal method (assemble code) = .ok body)
      ∨ ∃ opcode source, .reference opcode (.source source) ∈ closing code
        ∧ .mark source ∉ closing code
        ∧ linkLocal method (assemble code) = .error (.unresolvedSource method source) := by
  rw [assemble_eq]
  exact linkLocal_run_ok_or_unresolved method hsize

end StackContract.Compile

namespace StackContract.Assembly

/-! ## Marks and branches in code -/

/-- The source offset that a directive refers to. -/
def Directive.source? : Directive → Option UInt32
  | .reference _ (.source source) => some source
  | _ => none

/-- A directive that neither starts a source offset nor refers to one. -/
def Directive.isStraight : Directive → Bool
  | .instruction _ | .reference _ (.method _) => true
  | _ => false

/-- Code that neither starts source offsets nor refers to any. -/
def Straight (code : List Directive) : Prop :=
  ∀ d ∈ code, d.isStraight = true

namespace Straight

theorem nil : Straight [] := nofun

theorem cons {d : Directive} {rest : List Directive} (h : d.isStraight = true) (hrest : Straight rest) :
    Straight (d :: rest) := by
  intro d' hd'
  rcases List.mem_cons.mp hd' with rfl | hd'
  · exact h
  · exact hrest d' hd'

theorem singleton {d : Directive} (h : d.isStraight = true) : Straight [d] :=
  .cons h .nil

theorem append {first second : List Directive} (hfirst : Straight first) (hsecond : Straight second) :
    Straight (first ++ second) := by
  intro d hd
  exact (List.mem_append.mp hd).elim (hfirst d) (hsecond d)

theorem reversed {code : List Directive} (h : Straight code) : Straight code.reverse :=
  fun d hd => h d (List.mem_reverse.mp hd)

theorem map {α : Type} {f : α → Directive} (h : ∀ x, (f x).isStraight = true) (xs : List α) :
    Straight (xs.map f) := by
  intro d hd
  obtain ⟨x, -, rfl⟩ := List.mem_map.mp hd
  exact h x

theorem flatMap {α : Type} {f : α → List Directive} (h : ∀ x, Straight (f x)) (xs : List α) :
    Straight (xs.flatMap f) := by
  intro d hd
  obtain ⟨x, -, hx⟩ := List.mem_flatMap.mp hd
  exact h x d hx

theorem source? {code : List Directive} (h : Straight code) :
    code.filterMap Directive.source? = [] := by
  rw [List.filterMap_eq_nil_iff]
  intro d hd
  have hstraight := h d hd
  cases d with
  | reference opcode target =>
    cases target with
    | source source => cases hstraight
    | method name => rfl
  | _ => rfl

theorem not_mark {code : List Directive} (h : Straight code) (source : UInt32) :
    .mark source ∉ code :=
  fun hmem => nomatch h _ hmem

/-- Straight code has no marks, which take no room. -/
theorem length_le_extent {code : List Directive} (h : Straight code) : code.length ≤ extent code := by
  induction code with
  | nil => exact Nat.le_refl 0
  | cons d rest ih =>
    have hsize : 0 < d.size := by
      cases d with
      | mark source => cases h _ (List.mem_cons_self ..)
      | instruction i => exact i.size_pos
      | reference opcode target => exact Nat.succ_pos _
    have hrest := ih fun d' hd' => h d' (List.mem_cons_of_mem _ hd')
    rw [List.length_cons, extent]
    omega

end Straight

theorem straight_reverse (n : Nat) : Straight (Directive.reverse n) := by
  unfold Directive.reverse
  split
  · exact .nil
  · exact .nil
  · exact .singleton rfl
  · exact .singleton rfl
  · exact .singleton rfl
  · exact .cons rfl (.singleton rfl)

end StackContract.Assembly

namespace StackContract.Lowering

open Assembly Compile Script
open Source (Op ValueType)

/-! ## Straight code -/

theorem straight_packArguments (n : Nat) : Straight (packArguments n) := by
  unfold packArguments
  split
  · exact .singleton rfl
  · exact (straight_reverse n).append (.cons rfl (.singleton rfl))

theorem straight_packLiteral {items : List Directive} (h : Straight items) :
    Straight (packLiteral items) := by
  unfold packLiteral
  split
  · exact .singleton rfl
  · exact h.reversed.append (.cons rfl (.singleton rfl))

theorem straight_pushConstant (value : Constant) : Straight (pushConstant value) := by
  cases value with
  | integer v => exact .singleton rfl
  | boolean b => exact .singleton rfl
  | string s => exact .singleton rfl
  | bytes data => exact .cons rfl (.singleton rfl)
  | strings items => exact straight_packLiteral (.map (fun _ => rfl) items)

theorem isStraight_pushElement (element : ValueType) (v : Number.Int128) :
    (pushElement element v).isStraight = true := by
  unfold pushElement
  split <;> rfl

theorem isStraight_pushDefault (type : ValueType) : (pushDefault type).isStraight = true := by
  unfold pushDefault
  split
  · rfl
  · split <;> rfl

theorem straight_pushDefaults (fields : List ValueType) : Straight (pushDefaults fields) := by
  unfold pushDefaults
  split
  · exact .singleton rfl
  · exact (Straight.map isStraight_pushDefault fields).reversed.append (.cons rfl (.singleton rfl))

section

variable {scope : Scope} {i : Source.Instruction}

theorem straight_arrayLiteral {offset : UInt32} {element : ValueType} {data : List UInt8}
    {code : List Directive} (h : arrayLiteral scope offset i element data = .ok code) :
    Straight code := by
  unfold arrayLiteral at h
  split at h
  · cases h
    exact .cons rfl (.cons rfl (.singleton rfl))
  · split at h
    · cases h
    · dsimp only at h
      split at h <;> cases h
      exact .cons rfl (straight_packLiteral (.map (isStraight_pushElement _) _))

theorem straight_callBinding {name : String} {argCount : Nat} {binding : Source.Binding}
    {code : List Directive} (h : callBinding scope i name argCount binding = .ok code) :
    Straight code := by
  unfold callBinding at h
  split at h
  · cases h
    exact (straight_reverse argCount).append (.singleton rfl)
  · intro d hd
    obtain ⟨raw, -, hraw⟩ := exists_left_of_mem (exceptMapM_eq_ok h) hd
    unfold rawInstruction at hraw
    split at hraw
    · cases hraw
    · split at hraw <;> cases hraw
      rfl
  · split at h <;> cases h
    exact (straight_packArguments argCount).append (.cons rfl (.cons rfl (.cons rfl (.singleton rfl))))

theorem straight_callMethod {name : String} {code : List Directive}
    (h : callMethod scope i name = .ok code) : Straight code := by
  unfold callMethod at h
  split at h
  · cases h
  · split at h
    · exact straight_callBinding h
    · split at h <;> cases h
      exact (straight_reverse _).append (.singleton rfl)

end

/-! ## Branches -/

theorem source?_lowerBranch (condition : Source.Condition) (target : UInt32) :
    (lowerBranch condition target).filterMap Directive.source? = [target] := by
  cases condition <;> rfl

theorem not_mark_lowerBranch (condition : Source.Condition) (target source : UInt32) :
    .mark source ∉ lowerBranch condition target := by
  cases condition <;> exact nofun

theorem source?_lowerSwitch (targets : List UInt32) :
    (lowerSwitch targets).filterMap Directive.source? = targets := by
  have hcase : ∀ entry : UInt32 × Nat,
      (switchCase entry.2 entry.1).filterMap Directive.source? = [entry.1] := fun _ => rfl
  calc (lowerSwitch targets).filterMap Directive.source?
      = targets.zipIdx.flatMap fun entry => (switchCase entry.2 entry.1).filterMap Directive.source? := by
        unfold lowerSwitch
        rw [List.filterMap_append, List.filterMap_flatMap]
        exact List.append_nil _
    _ = targets.zipIdx.map Prod.fst := by
        simp only [hcase]
        exact List.flatMap_pure_eq_map ..
    _ = targets := List.zipIdx_map_fst ..

theorem not_mark_lowerSwitch (targets : List UInt32) (source : UInt32) :
    .mark source ∉ lowerSwitch targets := by
  intro hmem
  rcases List.mem_append.mp hmem with hcase | hdrop
  · obtain ⟨⟨target, index⟩, -, hcase⟩ := List.mem_flatMap.mp hcase
    simp [switchCase, Directive.op, Directive.pushNat, Directive.pushInteger, Directive.jump] at hcase
  · cases List.mem_singleton.mp hdrop

/-! ## What an instruction leaves in its code -/

/-- Whether an operation hashes a string. -/
def hashesString : Op → Bool
  | .call (.intrinsic .stringHash) => true
  | _ => false

/-- Whether an operation may be written together with one in front of it. -/
def takesIn : Op → Op → Bool
  | .literal32 _, .convert _ | .literal64 _, .convert _ => true
  | .compare _, .literal32 _ | .compare _, .compare .equal => true
  | .newArray _, .dup | .newArray _, .initArray _ => true
  | .loadFunction _, .newDelegate => true
  | _, _ => false

theorem op_of_hashesString {op : Op} (h : hashesString op = true) :
    op = .call (.intrinsic .stringHash) := by
  unfold hashesString at h
  split at h
  · rfl
  · cases h

/-- A comparison is only written together with the one that it negates. -/
theorem takesIn_compare {op : Op} {comparison : Source.Comparison}
    (h : takesIn op (.compare comparison) = true) :
    comparison = .equal ∧ ∃ negated, op = .compare negated := by
  cases op <;> cases comparison <;> first | exact ⟨rfl, _, rfl⟩ | cases h

theorem targets_of_takesIn {op op' : Op} (h : takesIn op op' = true) : op'.targets = [] := by
  unfold takesIn at h
  split at h <;> first | rfl | cases h

/-- The code for an instruction has the branches of the instruction and starts no offset itself, and
what it covers are instructions that may be written together with it and to which no branch leads. -/
structure KeepsBranches (scope : Scope) (position : Nat) (i : Source.Instruction) (lowered : Lowered) :
    Prop where
  branches : lowered.directives.filterMap Directive.source? = i.op.targets
  not_mark : ∀ source, .mark source ∉ lowered.directives
  covered : ∀ q, position < q → q < position + 1 + lowered.consumed →
    ∃ op, scope.inline? q = some op ∧ takesIn i.op op = true

section

variable {scope : Scope} {position : Nat} {i : Source.Instruction} {carry carry' : Carry}
  {lowered : Lowered}

namespace KeepsBranches

theorem exists_reference (h : KeepsBranches scope position i lowered) {target : UInt32}
    (htarget : target ∈ i.op.targets) :
    ∃ opcode, .reference opcode (.source target) ∈ lowered.directives := by
  rw [← h.branches] at htarget
  obtain ⟨d, hd, hsource⟩ := List.mem_filterMap.mp htarget
  obtain ⟨opcode, rfl⟩ : ∃ opcode, d = .reference opcode (.source target) := by
    unfold Directive.source? at hsource
    split at hsource <;> cases hsource
    exact ⟨_, rfl⟩
  exact ⟨opcode, hd⟩

theorem straight {code : List Directive} {count : Nat} (hcode : Straight code)
    (htargets : i.op.targets = []) (hcovered : ∀ q, position < q → q < position + 1 + count →
      ∃ op, scope.inline? q = some op ∧ takesIn i.op op = true) :
    KeepsBranches scope position i ⟨code, count⟩ where
  branches := hcode.source?.trans htargets.symm
  not_mark := hcode.not_mark
  covered := hcovered

theorem code {code : List Directive} (hcode : Straight code) (htargets : i.op.targets = []) :
    KeepsBranches scope position i (.code code) :=
  .straight hcode htargets fun _ hq hq' => absurd hq (Nat.not_lt_of_le (Nat.le_of_lt_succ hq'))

theorem one {code : List Directive} {op : Op} (hcode : Straight code) (htargets : i.op.targets = [])
    (h : scope.inline? (position + 1) = some op) (hop : takesIn i.op op = true) :
    KeepsBranches scope position i ⟨code, 1⟩ := by
  refine .straight hcode htargets fun q hq hq' => ?_
  obtain rfl : q = position + 1 := by omega
  exact ⟨op, h, hop⟩

theorem two {code : List Directive} {op op' : Op} (hcode : Straight code) (htargets : i.op.targets = [])
    (h : scope.inline? (position + 1) = some op) (hop : takesIn i.op op = true)
    (h' : scope.inline? (position + 2) = some op') (hop' : takesIn i.op op' = true) :
    KeepsBranches scope position i ⟨code, 2⟩ := by
  refine .straight hcode htargets fun q hq hq' => ?_
  rcases (by omega : q = position + 1 ∨ q = position + 2) with rfl | rfl
  · exact ⟨op, h, hop⟩
  · exact ⟨op', h', hop'⟩

end KeepsBranches

theorem keepsBranches_lowerLiteral (htargets : i.op.targets = [])
    (htakes : ∀ conversion, takesIn i.op (.convert conversion) = true) (v : Number.Int128) (bits : Nat) :
    KeepsBranches scope position i (lowerLiteral scope position v bits) := by
  unfold lowerLiteral
  split
  · next h => exact .one (.singleton rfl) htargets h (htakes _)
  · exact .code (.singleton rfl) htargets

theorem keepsBranches_lowerComparison {comparison : Source.Comparison}
    (hop : i.op = .compare comparison) :
    KeepsBranches scope position i (lowerComparison scope position comparison) := by
  have htargets : i.op.targets = [] := hop ▸ rfl
  have hoperands : Straight (if comparesMagnitudes (isAfterNull scope position) comparison then
      magnitudes else []) := by
    split
    · exact .cons rfl (.cons rfl (.cons rfl (.singleton rfl)))
    · exact .nil
  unfold lowerComparison
  dsimp only
  split
  · next hnegated =>
    unfold isNegated at hnegated
    split at hnegated
    · next h h' => exact .two (hoperands.append (.singleton rfl)) htargets h (hop ▸ rfl) h' (hop ▸ rfl)
    · cases hnegated
  · exact .code (hoperands.append (.singleton rfl)) htargets

theorem keepsBranches_lowerNewArray {element : ValueType} (hop : i.op = .newArray element)
    (h : lowerNewArray scope position i.offset element = .ok lowered) :
    KeepsBranches scope position i lowered := by
  have htargets : i.op.targets = [] := hop ▸ rfl
  unfold lowerNewArray at h
  split at h
  · next hdup hdata _ =>
    obtain ⟨code, hcode, hpure⟩ := exceptBind_eq_ok h
    cases hpure
    exact .two (straight_arrayLiteral hcode) htargets hdup (hop ▸ rfl) hdata (hop ▸ rfl)
  · cases h
    refine .code (.singleton ?_) htargets
    unfold newArray
    split <;> rfl

theorem keepsBranches_lowerNewObject {fields : List ValueType} {ctorArgs : UInt16}
    (htargets : i.op.targets = []) (h : lowerNewObject scope i fields ctorArgs = .ok lowered) :
    KeepsBranches scope position i lowered := by
  unfold lowerNewObject at h
  dsimp only at h
  split at h
  · cases h
  · split at h <;> cases h
    · exact .code (straight_pushDefaults fields) htargets
    · refine .code (((straight_reverse _).append (.cons rfl (.singleton rfl))).append ?_) htargets
      exact .flatMap (fun type => .cons rfl (.cons (isStraight_pushDefault type) (.singleton rfl))) _

theorem keepsBranches_lowerFunction {name : String} (hop : i.op = .loadFunction name)
    (h : lowerFunction scope position i name = .ok lowered) :
    KeepsBranches scope position i lowered := by
  have htargets : i.op.targets = [] := hop ▸ rfl
  unfold lowerFunction at h
  split at h
  · next hdelegate =>
    split at h <;> cases h
    exact .one (.cons rfl (.singleton rfl)) htargets hdelegate (hop ▸ rfl)
  · cases h

theorem keepsBranches_lowerLoadStatic {field : Source.FieldRef} (htargets : i.op.targets = [])
    (h : (lowerLoadStatic scope field).run carry = .ok (lowered, carry')) :
    KeepsBranches scope position i lowered := by
  unfold lowerLoadStatic at h
  split at h
  · cases h
    exact .code .nil htargets
  · split at h
    · cases h
      exact .code (straight_pushConstant _) htargets
    · split at h <;> cases h
      exact .code (.singleton rfl) htargets

theorem keepsBranches_lowerStoreStatic {field : Source.FieldRef} (htargets : i.op.targets = [])
    (h : lowerStoreStatic scope field = .ok lowered) : KeepsBranches scope position i lowered := by
  unfold lowerStoreStatic at h
  dsimp only at h
  split at h
  · cases h
    exact .code (.singleton rfl) htargets
  · split at h <;> cases h

theorem keepsBranches_lowerInitObject {fields : List ValueType} (htargets : i.op.targets = [])
    (h : (lowerInitObject scope i fields).run carry = .ok (lowered, carry')) :
    KeepsBranches scope position i lowered := by
  obtain ⟨addressOf, event⟩ := carry
  cases addressOf <;> cases h
  exact .code (.cons rfl ((straight_pushDefaults fields).append (.singleton rfl))) htargets

theorem straight_notify {code : List Directive}
    (h : (notify scope i).run carry = .ok (code, carry')) : Straight code := by
  obtain ⟨addressOf, event⟩ := carry
  cases event <;> cases h
  exact (straight_packArguments _).append (.cons rfl (.singleton rfl))

theorem keepsBranches_lowerCall {callee : Source.Callee} (htargets : i.op.targets = [])
    (hhash : callee ≠ .intrinsic .stringHash)
    (h : (lowerCall scope position i callee).run carry = .ok (lowered, carry')) :
    KeepsBranches scope position i lowered := by
  cases callee with
  | method name =>
    obtain ⟨code, _, hcall, hrest⟩ := run_bind_eq_ok h
    cases hrest
    exact .code (straight_callMethod (run_liftM_eq_ok hcall).1) htargets
  | intrinsic intrinsic =>
    cases intrinsic with
    | stringHash => exact absurd rfl hhash
    | stringConcat =>
      cases h
      exact .code (.cons rfl (.singleton rfl)) htargets
    | stringEquals | stringLength =>
      cases h
      exact .code (.singleton rfl) htargets
  | event =>
    obtain ⟨code, _, hnotify, hrest⟩ := run_bind_eq_ok h
    cases hrest
    exact .code (straight_notify hnotify) htargets
  | delegate args =>
    cases h
    exact .code ((straight_reverse _).append (.singleton rfl)) htargets

/-- An instruction that hashes no string keeps its branches, and covers none. -/
theorem keepsBranches_of_lower (hhash : hashesString i.op = false)
    (h : (lower scope position i).run carry = .ok (lowered, carry')) :
    KeepsBranches scope position i lowered := by
  obtain ⟨offset, op⟩ := i
  cases op
  case nop | convert | isInstance | castClass =>
    cases h
    exact .code .nil rfl
  case pop | dup | ret | throw | loadNull | length | loadElement | storeElement | loadString
      | arithmetic =>
    cases h
    exact .code (.singleton rfl) rfl
  case loadField =>
    cases h
    exact .code (.cons rfl (.singleton rfl)) rfl
  case storeField =>
    cases h
    exact .code (.cons rfl (.cons rfl (.singleton rfl))) rfl
  case literal32 | literal64 =>
    cases h
    exact keepsBranches_lowerLiteral rfl (fun _ => rfl) _ _
  case load place index =>
    obtain ⟨d, _, hload, hrest⟩ := run_bind_eq_ok h
    cases hrest
    obtain ⟨slot, -, rfl⟩ := exceptMap_eq_ok (run_liftM_eq_ok hload).1
    exact .code (.singleton rfl) rfl
  case store | address =>
    obtain ⟨_, _, -, hrest⟩ := run_bind_eq_ok h
    cases hrest
    exact .code (.singleton rfl) rfl
  case loadStatic => exact keepsBranches_lowerLoadStatic rfl h
  case storeStatic => exact keepsBranches_lowerStoreStatic rfl (run_liftM_eq_ok h).1
  case newArray => exact keepsBranches_lowerNewArray rfl (run_liftM_eq_ok h).1
  case newObject => exact keepsBranches_lowerNewObject rfl (run_liftM_eq_ok h).1
  case initObject => exact keepsBranches_lowerInitObject rfl h
  case branch condition target =>
    cases h
    exact ⟨source?_lowerBranch condition target, not_mark_lowerBranch condition target,
      fun _ hq hq' => absurd hq (Nat.not_lt_of_le (Nat.le_of_lt_succ hq'))⟩
  case switch targets =>
    cases h
    exact ⟨source?_lowerSwitch targets, not_mark_lowerSwitch targets,
      fun _ hq hq' => absurd hq (Nat.not_lt_of_le (Nat.le_of_lt_succ hq'))⟩
  case compare comparison =>
    cases h
    exact keepsBranches_lowerComparison rfl
  case call callee =>
    refine keepsBranches_lowerCall rfl ?_ h
    rintro rfl
    cases hhash
  case loadFunction => exact keepsBranches_lowerFunction rfl (run_liftM_eq_ok h).1
  case box | unbox | unboxAny =>
    unfold lower at h
    dsimp only at h
    split at h <;> cases h
    exact .code .nil rfl
  case initArray | newDelegate | pointerOp => cases h

/-- The last instruction of a leaf branches to its target. -/
theorem exists_branch_of_leafAt? {body : Array Source.Instruction} {leaf : Leaf}
    (h : leafAt? body position = some leaf) : ∃ i ∈ body, leaf.target ∈ i.op.targets := by
  unfold leafAt? at h
  split at h
  · next offset place index _ key _ test target _ hdrop =>
    cases h
    refine ⟨⟨test, .branch .ifTrue target⟩, ?_, List.mem_singleton.mpr rfl⟩
    rw [← Array.mem_toList_iff]
    apply List.mem_of_mem_drop
    rw [hdrop]
    simp
  · cases h

/-- The code of a switch over strings starts no source offset, and its branches are those of
instructions behind the hash. -/
theorem jump_of_mem_lowerStringSwitch (h : lowerStringSwitch scope position i = .ok lowered)
    {d : Directive} (hd : d ∈ lowered.directives) (hbent : d.isStraight = false) :
    ∃ opcode, ∃ j ∈ scope.body, ∃ target ∈ j.op.targets, d = .jump opcode target := by
  unfold lowerStringSwitch at h
  split at h
  · cases h
  · next region hregion =>
    obtain ⟨tests, htests, hpure⟩ := exceptBind_eq_ok h
    cases hpure
    have hbehind := isBehind_of_findRegion? hregion
    rcases List.mem_cons.mp hd with rfl | hd
    · cases hbent
    rcases List.mem_append.mp hd with hd | hd
    · -- the test of a leaf
      obtain ⟨code, hcode, hd⟩ := List.mem_flatten.mp hd
      obtain ⟨leaf, hleaf, hleafCode⟩ := exists_left_of_mem (exceptMapM_eq_ok htests) hcode
      obtain ⟨load, hload, hpure⟩ := exceptBind_eq_ok hleafCode
      cases hpure
      obtain ⟨slot, -, rfl⟩ := exceptMap_eq_ok hload
      rw [hbehind.leaves] at hleaf
      obtain ⟨j, hj, htarget⟩ := exists_branch_of_leafAt? (mem_leavesIn hleaf).2.2
      refine ⟨.jmpIfL, j, hj, leaf.target, htarget, ?_⟩
      simp only [List.mem_cons, List.not_mem_nil, or_false] at hd
      rcases hd with rfl | rfl | rfl | rfl
      · cases hbent
      · cases hbent
      · cases hbent
      · rfl
    · obtain rfl := List.mem_singleton.mp hd
      obtain ⟨last, condition, hlast, hop, -⟩ := hbehind.last
      exact ⟨.jmpL, last, Array.mem_of_getElem? hlast, region.defaultTarget,
        hop ▸ List.mem_singleton.mpr rfl, rfl⟩

end

/-! ## Bodies -/

/-- A body without hashes of strings. -/
def HashesNoString (body : Array Source.Instruction) : Prop :=
  ∀ i ∈ body, hashesString i.op = false

instance (body : Array Source.Instruction) : Decidable (HashesNoString body) :=
  inferInstanceAs (Decidable (∀ i ∈ body, hashesString i.op = false))

/-- An instruction that has branches, or to which a branch may lead. -/
def Scope.IsExposed (scope : Scope) (i : Source.Instruction) : Prop :=
  scope.isTarget i.offset = true ∨ i.op.targets ≠ []

section

variable {scope : Scope} {position : Nat} {carry : Carry} {segments : List Segment}

theorem isTarget_iff {offset : UInt32} :
    scope.isTarget offset = true ↔ ∃ i ∈ scope.body, offset ∈ i.op.targets := by
  unfold Scope.isTarget
  rw [Array.any_eq_true']
  simp only [List.contains_iff_mem]

theorem Lowers.keepsBranches (h : Lowers scope position carry segments) {segment : Segment}
    (hmem : segment ∈ segments) (hhash : hashesString segment.source.op = false) :
    KeepsBranches scope segment.position segment.source segment.lowered := by
  obtain ⟨-, _, _, hlower⟩ := h.exists_lower hmem
  exact keepsBranches_of_lower hhash hlower

/-- The code for an instruction starts no source offset, and its branches are those of instructions of
the body. -/
theorem Lowers.jump_of_mem (h : Lowers scope position carry segments) {segment : Segment}
    (hmem : segment ∈ segments) {d : Directive} (hd : d ∈ segment.lowered.directives)
    (hbent : d.isStraight = false) :
    ∃ opcode, ∃ j ∈ scope.body, ∃ target ∈ j.op.targets, d = .jump opcode target := by
  obtain ⟨hsource, _, _, hlower⟩ := h.exists_lower hmem
  cases hhash : hashesString segment.source.op with
  | true =>
    obtain ⟨_, ⟨offset, op⟩, lowered⟩ := segment
    obtain rfl := op_of_hashesString hhash
    exact jump_of_mem_lowerStringSwitch (run_liftM_eq_ok hlower).1 hd hbent
  | false =>
    have hkeeps := keepsBranches_of_lower hhash hlower
    cases d with
    | mark source => exact absurd hd (hkeeps.not_mark source)
    | instruction i => cases hbent
    | reference opcode target =>
      cases target with
      | method name => cases hbent
      | source target =>
        refine ⟨opcode, segment.source, Array.mem_of_getElem? hsource, target, ?_, rfl⟩
        rw [← hkeeps.branches]
        exact List.mem_filterMap.mpr ⟨_, hd, rfl⟩

/-- An instruction that has branches, or to which one leads, is covered by no code but that of a switch
over strings. -/
theorem Lowers.exists_segment_of_exposed {q : Nat} {i : Source.Instruction}
    (h : Lowers scope position carry segments) (hq : position ≤ q) (hi : scope.body[q]? = some i)
    (hexposed : scope.IsExposed i) :
    (∃ before segment after, segments = before ++ segment :: after ∧ segment.position = q
        ∧ segment.source = i ∧ ∀ earlier ∈ before, earlier.position < q)
      ∨ ∃ segment ∈ segments, hashesString segment.source.op = true ∧ segment.position < q
        ∧ q < segment.position + 1 + segment.lowered.consumed := by
  refine (h.own_or_covered hq hi).imp id ?_
  rintro ⟨before, segment, after, rfl, hlt, hcovered⟩
  have hmem : segment ∈ before ++ segment :: after := List.mem_append_right _ (List.mem_cons_self ..)
  refine ⟨segment, hmem, ?_, hlt, hcovered⟩
  by_contra hhash
  -- what is covered otherwise has no branches, and none leads to it
  have hkeeps := h.keepsBranches hmem (Bool.eq_false_iff.mpr hhash)
  obtain ⟨op, hinline, htakes⟩ := hkeeps.covered q hlt hcovered
  obtain ⟨j, hj, hfree, rfl⟩ := inline?_eq_some_iff.mp hinline
  rw [hi] at hj
  cases hj
  rcases hexposed with htarget | hbranches
  · rw [hfree] at htarget
    cases htarget
  · exact absurd (targets_of_takesIn htakes) hbranches

end

section

variable {scope : Scope} {carry : Carry} {segments : List Segment}

theorem HashesNoString.segment (hhash : HashesNoString scope.body) {position : Nat}
    (h : Lowers scope position carry segments) {segment : Segment} (hmem : segment ∈ segments) :
    hashesString segment.source.op = false :=
  hhash _ (Array.mem_of_getElem? (h.exists_lower hmem).1)

/-- Without hashes of strings, such an instruction has a segment of its own. -/
theorem Lowers.exists_segment_of_noHash {q : Nat} {i : Source.Instruction}
    (h : Lowers scope 0 carry segments) (hhash : HashesNoString scope.body)
    (hi : scope.body[q]? = some i) (hexposed : scope.IsExposed i) :
    ∃ before segment after, segments = before ++ segment :: after ∧ segment.position = q
      ∧ segment.source = i ∧ ∀ earlier ∈ before, earlier.position < q := by
  rcases h.exists_segment_of_exposed (Nat.zero_le q) hi hexposed with hown | ⟨segment, hmem, hhashes, -⟩
  · exact hown
  · rw [hhash.segment h hmem] at hhashes
    cases hhashes

/-- The marks in the code are the offsets of instructions. -/
theorem Lowers.mem_of_mark (h : Lowers scope 0 carry segments) {source : UInt32}
    (hmark : .mark source ∈ segments.flatMap Segment.code) :
    ∃ segment ∈ segments, segment.source.offset = source := by
  obtain ⟨segment, hsegment, hmem⟩ := List.mem_flatMap.mp hmark
  rcases List.mem_cons.mp hmem with hhead | hmem
  · cases hhead
    exact ⟨segment, hsegment, rfl⟩
  · obtain ⟨_, _, -, _, -, hjump⟩ := h.jump_of_mem hsegment hmem rfl
    cases hjump

/-- The branches in the code are those of instructions. -/
theorem Lowers.mem_targets_of_reference (h : Lowers scope 0 carry segments) {opcode : Opcode}
    {target : UInt32} (hreference : .reference opcode (.source target) ∈ segments.flatMap Segment.code) :
    ∃ i ∈ scope.body, target ∈ i.op.targets := by
  obtain ⟨segment, hsegment, hmem⟩ := List.mem_flatMap.mp hreference
  rcases List.mem_cons.mp hmem with hhead | hmem
  · cases hhead
  · obtain ⟨_, i, hi, _, htarget, hjump⟩ := h.jump_of_mem hsegment hmem rfl
    cases hjump
    exact ⟨i, hi, htarget⟩

/-- The code has the branches of every instruction. -/
theorem Lowers.exists_reference (h : Lowers scope 0 carry segments) (hhash : HashesNoString scope.body)
    {i : Source.Instruction} {target : UInt32} (hi : i ∈ scope.body) (htarget : target ∈ i.op.targets) :
    ∃ opcode, .reference opcode (.source target) ∈ segments.flatMap Segment.code := by
  obtain ⟨q, hq⟩ := Array.mem_iff_getElem?.mp hi
  obtain ⟨before, segment, after, rfl, -, rfl, -⟩ :=
    h.exists_segment_of_noHash hhash hq (.inr (List.ne_nil_of_mem htarget))
  have hmem : segment ∈ before ++ segment :: after :=
    List.mem_append_right _ (List.mem_cons_self ..)
  obtain ⟨opcode, hd⟩ := (h.keepsBranches hmem (hhash.segment h hmem)).exists_reference htarget
  exact ⟨opcode, List.mem_flatMap.mpr ⟨segment, hmem, List.mem_cons_of_mem _ hd⟩⟩

end

/-! ## Exact resolution -/

/-- Every offset that an instruction of the body branches to is that of an instruction. -/
def TargetsDefined (body : Array Source.Instruction) : Prop :=
  ∀ i ∈ body, ∀ target ∈ i.op.targets, ∃ j ∈ body, j.offset = target

-- only the targets are tried, not all offsets
instance (body : Array Source.Instruction) : Decidable (TargetsDefined body) :=
  letI (i : Source.Instruction) : Decidable (∀ target ∈ i.op.targets, ∃ j ∈ body, j.offset = target) :=
    List.decidableBAll _ i.op.targets
  inferInstanceAs (Decidable (∀ i ∈ body, ∀ target ∈ i.op.targets, ∃ j ∈ body, j.offset = target))

/-- An offset that some instruction of the body branches to and that no instruction has. -/
structure IsUndefined (body : Array Source.Instruction) (target : UInt32) : Prop where
  named : ∃ i ∈ body, target ∈ i.op.targets
  absent : ∀ j ∈ body, j.offset ≠ target

/-- The code of a body behind a prologue. -/
def codeBehind (prologue : List Script.Instruction) (segments : List Segment) : List Directive :=
  prologue.map .instruction ++ segments.flatMap Segment.code

/-- Every instruction to which a branch may lead has a segment of its own, whatever other instructions
have its offset. An offset starts with the segment of the first instruction that has it. -/
def ReachesTargets (scope : Scope) (prologue : List Script.Instruction) (segments : List Segment) :
    Prop :=
  ∀ position i, scope.body[position]? = some i → scope.isTarget i.offset = true →
    ∃ before segment after, segments = before ++ segment :: after ∧ segment.position = position
      ∧ segment.source = i
      ∧ ((∀ q < position, ∀ j, scope.body[q]? = some j → j.offset ≠ i.offset) →
        (assemble (codeBehind prologue segments)).marks.find? i.offset
          = some (extent (codeBehind prologue before)))

/-- The branches of a body behind a prologue are resolved if they all lead to instructions, and else
the body is rejected for one that does not. -/
structure ResolvesExactly (scope : Scope) (prologue : List Script.Instruction)
    (directives : List Directive) : Prop where
  succeeds_iff : (∃ body, linkLocal scope.method (assemble directives) = .ok body)
    ↔ TargetsDefined scope.body
  fails : ¬ TargetsDefined scope.body → ∃ target, IsUndefined scope.body target
    ∧ linkLocal scope.method (assemble directives) = .error (.unresolvedSource scope.method target)
  reached : ∃ segments, Lowers scope 0 {} segments ∧ directives = codeBehind prologue segments
    ∧ ReachesTargets scope prologue segments

section

variable {scope : Scope} {prologue : List Script.Instruction} {segments : List Segment}

/-- The marks and branches in the code of a body are those of its segments. -/
theorem mem_closing_iff {d : Directive} (hd : d.isStraight = false) :
    d ∈ closing (codeBehind prologue segments) ↔ d ∈ segments.flatMap Segment.code := by
  have hprologue : d ∉ prologue.map .instruction := by
    intro hmem
    obtain ⟨i, -, rfl⟩ := List.mem_map.mp hmem
    cases hd
  have hret : d ≠ .op .ret := by
    rintro rfl
    cases hd
  unfold codeBehind
  rcases closing_eq (prologue.map .instruction ++ segments.flatMap Segment.code) with heq | heq
  · simp [heq, hprologue]
  · simp [heq, hprologue, hret]

theorem size_assemble (code : List Directive) : (assemble code).size = extent (closing code) := by
  obtain ⟨-, hentries, -⟩ := Draft.run_spec bounded_empty (closing code)
  rw [assemble_eq]
  exact Contract.size_of_entries (fun _ _ => rfl) hentries

/-- Behind some of its segments the code of a body goes on with the mark of the next one. -/
theorem exists_closing_eq (prologue : List Script.Instruction) (before : List Segment)
    (segment : Segment) (after : List Segment) : ∃ rest,
    closing (codeBehind prologue (before ++ segment :: after))
      = codeBehind prologue before ++ .mark segment.source.offset :: rest := by
  have hcode : codeBehind prologue (before ++ segment :: after) = codeBehind prologue before
      ++ .mark segment.source.offset :: (segment.lowered.directives ++ after.flatMap Segment.code) := by
    unfold codeBehind
    rw [List.flatMap_append, List.flatMap_cons, List.append_assoc]
    rfl
  rw [hcode]
  rcases closing_eq (codeBehind prologue before
    ++ .mark segment.source.offset :: (segment.lowered.directives ++ after.flatMap Segment.code))
    with heq | heq
  · exact ⟨_, heq⟩
  · exact ⟨_, heq.trans (List.append_assoc ..)⟩

/-- An offset starts with the segment of the first instruction that has it. -/
theorem Lowers.find?_marks {before after : List Segment} {segment : Segment}
    (h : Lowers scope 0 {} (before ++ segment :: after))
    (hfirst : ∀ earlier ∈ before, earlier.source.offset ≠ segment.source.offset) :
    (assemble (codeBehind prologue (before ++ segment :: after))).marks.find? segment.source.offset
      = some (extent (codeBehind prologue before)) := by
  -- none of the segments in front marks the offset
  have hunmarked : .mark segment.source.offset ∉ codeBehind prologue before := by
    intro hmem
    rcases List.mem_append.mp hmem with hmem | hmem
    · obtain ⟨_, -, hinstruction⟩ := List.mem_map.mp hmem
      cases hinstruction
    · obtain ⟨earlier, hearlier, hmark⟩ := List.mem_flatMap.mp hmem
      rcases List.mem_cons.mp hmark with hhead | hmark
      · exact hfirst earlier hearlier (Directive.mark.inj hhead).symm
      · obtain ⟨_, _, -, _, -, hjump⟩ := h.jump_of_mem (List.mem_append_left _ hearlier) hmark rfl
        cases hjump
  obtain ⟨rest, hcode⟩ := exists_closing_eq prologue before segment after
  have hmark : markIn segment.source.offset 0 (closing (codeBehind prologue (before ++ segment :: after)))
      = some (0 + extent (codeBehind prologue before)) :=
    markIn_eq_some_iff.mpr ⟨_, rest, hcode, hunmarked, rfl⟩
  rw [assemble_eq, Draft.find?_marks]
  exact (Option.none_or).trans (hmark.trans (congrArg some (Nat.zero_add _)))

theorem reachesTargets_of_lowers (h : Lowers scope 0 {} segments) (hhash : HashesNoString scope.body) :
    ReachesTargets scope prologue segments := by
  intro position i hi htarget
  obtain ⟨before, segment, after, rfl, hat, rfl, hbefore⟩ :=
    h.exists_segment_of_noHash hhash hi (.inl htarget)
  refine ⟨before, segment, after, rfl, hat, rfl, fun hfirst => h.find?_marks fun earlier hearlier => ?_⟩
  exact hfirst _ (hbefore earlier hearlier) _ (h.exists_lower (List.mem_append_left _ hearlier)).1

/-- A branch to an offset that is not marked leads to no instruction. -/
theorem isUndefined_of_not_mark (h : Lowers scope 0 {} segments) (hhash : HashesNoString scope.body)
    {opcode : Opcode} {target : UInt32}
    (hreference : .reference opcode (.source target) ∈ closing (codeBehind prologue segments))
    (hmark : .mark target ∉ closing (codeBehind prologue segments)) :
    IsUndefined scope.body target := by
  have hnamed := h.mem_targets_of_reference ((mem_closing_iff (by rfl)).mp hreference)
  refine ⟨hnamed, fun j hj hoffset => hmark ?_⟩
  -- else the instruction would have a segment, whose mark this is
  obtain ⟨q, hq⟩ := Array.mem_iff_getElem?.mp hj
  have htarget : scope.isTarget j.offset = true := hoffset ▸ isTarget_iff.mpr hnamed
  obtain ⟨before, segment, after, rfl, -, rfl, -⟩ :=
    h.exists_segment_of_noHash hhash hq (.inl htarget)
  obtain ⟨rest, hcode⟩ := exists_closing_eq prologue before segment after
  rw [hcode, ← hoffset]
  exact List.mem_append_right _ (List.mem_cons_self ..)

/-- If the branches of a body are resolved, they lead to instructions. -/
theorem targetsDefined_of_linkLocal {body : Body} (h : Lowers scope 0 {} segments)
    (hhash : HashesNoString scope.body)
    (hbody : linkLocal scope.method (assemble (codeBehind prologue segments)) = .ok body) :
    TargetsDefined scope.body := by
  intro i hi target htarget
  obtain ⟨-, -, -, hbranches⟩ := linkLocal_spec hbody
  obtain ⟨opcode, hreference⟩ := h.exists_reference hhash hi htarget
  have hclosing : .reference opcode (.source target) ∈ closing (codeBehind prologue segments) :=
    (mem_closing_iff rfl).mpr hreference
  obtain ⟨before, after, hcode⟩ := List.append_of_mem hclosing
  have hrelocation : ⟨extent before, placeholderWidth, .source target⟩
      ∈ relocations 0 (closing (codeBehind prologue segments)) := by
    rw [hcode, relocations_append, Nat.zero_add]
    exact List.mem_append_right _ (List.mem_cons_self ..)
  obtain ⟨address, hmark, -⟩ := hbranches _ hrelocation target rfl
  obtain ⟨front, rest, hcode', -, -⟩ := markIn_eq_some_iff.mp hmark
  have hmem : .mark target ∈ closing (codeBehind prologue segments) := by
    rw [hcode']
    exact List.mem_append_right _ (List.mem_cons_self ..)
  obtain ⟨segment, hsegment, hoffset⟩ := h.mem_of_mark ((mem_closing_iff (by rfl)).mp hmem)
  exact ⟨segment.source, Array.mem_of_getElem? (h.exists_lower hsegment).1, hoffset⟩

/-- Branches are resolved exactly in every body that hashes no string and whose code is smaller than
2 GiB. -/
theorem resolvesExactly_of_lowerBody {directives : List Directive}
    (h : lowerBody scope (prologue.map .instruction) = .ok directives)
    (hhash : HashesNoString scope.body) (hsize : (assemble directives).size < 0x8000_0000) :
    ResolvesExactly scope prologue directives := by
  obtain ⟨segments, hsegments, hdirectives⟩ := lowerBody_spec h
  obtain rfl : directives = codeBehind prologue segments := hdirectives
  rw [size_assemble] at hsize
  have houtcome := linkLocal_ok_or_unresolved scope.method hsize
  refine ⟨⟨?_, ?_⟩, ?_, segments, hsegments, rfl, reachesTargets_of_lowers hsegments hhash⟩
  · rintro ⟨body, hbody⟩
    exact targetsDefined_of_linkLocal hsegments hhash hbody
  · intro hdefined
    rcases houtcome with hok | ⟨_, target, hreference, hmark, -⟩
    · exact hok
    · obtain ⟨⟨i, hi, htarget⟩, habsent⟩ :=
        isUndefined_of_not_mark hsegments hhash hreference hmark
      obtain ⟨j, hj, hoffset⟩ := hdefined i hi target htarget
      exact absurd hoffset (habsent j hj)
  · intro hundefined
    rcases houtcome with ⟨body, hbody⟩ | ⟨_, target, hreference, hmark, herror⟩
    · exact absurd (targetsDefined_of_linkLocal hsegments hhash hbody) hundefined
    · exact ⟨target, isUndefined_of_not_mark hsegments hhash hreference hmark, herror⟩

end

/-- A body whose offsets repeat and go down. Of its two literals with a conversion, the second has a
branch to the conversion. -/
def sampleBackwards : Scope where
  catalogue := ⟨{}, [], {}, {}⟩
  method := "T::backwards"
  locals := 1
  params := 0
  body := #[⟨9, .literal32 300⟩, ⟨8, .convert .u1⟩, ⟨7, .store .locals 0⟩, ⟨7, .load .locals 0⟩,
    ⟨6, .literal32 9⟩, ⟨5, .compare .greater⟩, ⟨5, .literal32 0⟩, ⟨5, .compare .equal⟩,
    ⟨4, .branch .ifTrue 7⟩, ⟨3, .literal32 300⟩, ⟨2, .convert .u1⟩, ⟨1, .branch .ifFalse 2⟩, ⟨0, .ret⟩]

theorem sampleBackwards_resolvesExactly :
    ∃ directives, lowerBody sampleBackwards [.instruction ⟨.initSlot, [1, 0]⟩] = .ok directives
      ∧ HashesNoString sampleBackwards.body ∧ (assemble directives).size < 0x8000_0000
      ∧ TargetsDefined sampleBackwards.body
      ∧ ResolvesExactly sampleBackwards [⟨.initSlot, [1, 0]⟩] directives := by
  have hlowers : (lowerBody sampleBackwards [.instruction ⟨.initSlot, [1, 0]⟩]).toOption.any
      (fun directives => (assemble directives).size < 0x8000_0000) = true := by decide +kernel
  have hhash : HashesNoString sampleBackwards.body := by decide +kernel
  cases h : lowerBody sampleBackwards [.instruction ⟨.initSlot, [1, 0]⟩] with
  | error e =>
    rw [h] at hlowers
    cases hlowers
  | ok directives =>
    rw [h] at hlowers
    have hsize : (assemble directives).size < 0x8000_0000 := of_decide_eq_true hlowers
    exact ⟨directives, rfl, hhash, hsize, by decide +kernel,
      resolvesExactly_of_lowerBody h hhash hsize⟩

end StackContract.Lowering
