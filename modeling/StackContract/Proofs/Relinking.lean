import Mathlib.Data.List.Perm.Basic
import Mathlib.Algebra.BigOperators.Group.List.Basic
import StackContract.Proofs.Entries
/-!
# Linking in another order

Methods that can be linked in one order can be linked in every other one, as long as the script stays so
small that four bytes hold every distance (`exists_link_of_perm`). Where the placeholders are, and how
wide they are, is the same wherever a method is placed.
-/

namespace StackContract.Compile

open Assembly Script

/-! ## Placeholders -/

/-- Code with operands of the same widths at the same addresses. -/
def SameWidths (code code' : Table Nat Instruction) : Prop :=
  ∀ address, (code'.find? address).map (·.operand.length)
    = (code.find? address).map (·.operand.length)

/-- A placeholder that can be overwritten by one distance can be overwritten by every other one that
four bytes hold. -/
theorem patch_of_sameWidths {method : String} {code code' next : Table Nat Instruction}
    {r : Relocation} {d d' : Int} (hwidths : SameWidths code code')
    (h : patch method code r d = .ok next) (hd : InRange d') :
    ∃ next', patch method code' r d' = .ok next' ∧ SameWidths next next' := by
  unfold patch at h ⊢
  have hhere := hwidths r.address
  cases hfind : code.find? r.address with
  | none =>
    rw [hfind] at h
    cases h
  | some i =>
    rw [hfind] at h hhere
    obtain ⟨i', hfind', hlength⟩ := Option.map_eq_some_iff.mp hhere
    dsimp only at h
    split at h
    · cases h
    · next hwide =>
      split at h
      · cases h
      · cases h
        have hrange : ¬ (d' < -0x8000_0000 ∨ 0x8000_0000 ≤ d') := by
          have := hd.1
          have := hd.2
          omega
        rw [hfind']
        dsimp only
        rw [hlength, if_neg hwide, if_neg hrange]
        refine ⟨_, rfl, ?_⟩
        intro address
        rw [Table.find?_insert, Table.find?_insert]
        split
        · -- filling in keeps the width of an operand
          have hfill : ∀ {j : Instruction} {x : Int}, j.operand.length = i.operand.length →
              (fillIn j r.width x).operand.length = i.operand.length := by
            intro j x hj
            unfold fillIn
            simp only [List.length_append, List.length_take, List.length_drop,
              Number.length_bytesOfInt, hj]
            omega
          exact congrArg some ((hfill hlength).trans (hfill rfl).symm)
        · exact hwidths address

end StackContract.Compile

namespace StackContract.Contract

open Assembly Compile Script

/-! ## Methods -/

/-- A pass over references that succeeds for one layout succeeds for every other one in which the methods
they name are near enough. -/
theorem exists_resolveGlobal {methods methods' : List PlacedMethod} {name : String} {base base' : Nat}
    {relocations : List Relocation} {body body' last : Body}
    (h : relocations.foldlM (resolveGlobal methods name base) body = .ok last)
    (hwidths : SameWidths body.code body'.code)
    (hnear : ∀ r ∈ relocations, ∀ callee target, baseOf? methods callee = some target →
      ∃ target', baseOf? methods' callee = some target'
        ∧ InRange ((target' : Int) - (base' + r.address : Nat))) :
    ∃ last', relocations.foldlM (resolveGlobal methods' name base') body' = .ok last' := by
  induction relocations generalizing body body' with
  | nil => exact ⟨body', rfl⟩
  | cons r relocations ih =>
    rw [List.foldlM_cons] at h
    obtain ⟨next, hnext, hrest⟩ := exceptBind_eq_ok h
    obtain ⟨callee, target, code, htarget, hbase, hpatch, rfl⟩ := resolveGlobal_eq_ok hnext
    obtain ⟨target', hbase', hrange⟩ := hnear r (List.mem_cons_self ..) callee target hbase
    obtain ⟨code', hpatch', hwidths'⟩ := patch_of_sameWidths hwidths hpatch hrange
    have hnext' : SameWidths code ({ body' with code := code' } : Body).code := hwidths'
    obtain ⟨last', hlast⟩ := ih hrest hnext' fun other hother =>
      hnear other (List.mem_cons_of_mem _ hother)
    refine ⟨last', ?_⟩
    have hstep : resolveGlobal methods' name base' body' r = .ok { body' with code := code' } := by
      unfold resolveGlobal
      rw [htarget]
      dsimp only
      rw [hbase']
      dsimp only
      rw [hpatch']
      rfl
    rw [List.foldlM_cons, hstep]
    exact hlast

/-- The methods of a body are known by name, and its placeholders lie within it. -/
structure Linkable (methods : List PlacedMethod) (method : Method) : Prop where
  linked : ∃ base linked, linkMethod methods ⟨method, base⟩ = .ok linked
  inside : ∀ r ∈ method.body.relocations, r.address < method.body.size

/-- Methods that were linked once are linked among others of the same names, in a small script. -/
theorem exists_linkMethod {methods methods' : List PlacedMethod} {method : Method} {base' : Nat}
    (h : Linkable methods method) (hinside : base' + method.body.size < 0x8000_0000)
    (hnames : ∀ name target, baseOf? methods name = some target →
      ∃ target', baseOf? methods' name = some target' ∧ target' < 0x8000_0000) :
    ∃ linked', linkMethod methods' ⟨method, base'⟩ = .ok linked' := by
  obtain ⟨⟨base, linked, hlinked⟩, haddresses⟩ := h
  unfold linkMethod at hlinked ⊢
  obtain ⟨body, hfold, -⟩ := exceptBind_eq_ok hlinked
  have hnear : ∀ r ∈ method.body.relocations, ∀ callee target, baseOf? methods callee = some target →
      ∃ target', baseOf? methods' callee = some target'
        ∧ InRange ((target' : Int) - (base' + r.address : Nat)) := by
    intro r hr callee target htarget
    obtain ⟨target', htarget', hsmall⟩ := hnames callee target htarget
    refine ⟨target', htarget', ?_⟩
    have haddress := haddresses r hr
    unfold InRange
    omega
  obtain ⟨body', hfold'⟩ := exists_resolveGlobal hfold (fun _ => rfl) hnear
  refine ⟨{ signature := method.signature, body := body', base := base' }, ?_⟩
  dsimp only at hfold' ⊢
  rw [hfold']
  rfl

/-! ## Layouts -/

/-- The bytes of methods before they are linked. -/
def totalSize (methods : List Method) : Nat :=
  (methods.map (·.body.size)).sum

theorem mem_place {base : Nat} {methods : List Method} {placed : PlacedMethod}
    (h : placed ∈ place base methods) :
    placed.toMethod ∈ methods ∧ placed.base + placed.body.size ≤ base + totalSize methods := by
  induction methods generalizing base with
  | nil => cases h
  | cons method methods ih =>
    have htotal : totalSize (method :: methods) = method.body.size + totalSize methods := rfl
    rw [htotal]
    rcases List.mem_cons.mp h with rfl | h
    · refine ⟨List.mem_cons_self .., ?_⟩
      dsimp only
      omega
    · obtain ⟨hmem, hle⟩ := ih h
      refine ⟨List.mem_cons_of_mem _ hmem, ?_⟩
      omega

theorem map_place (base : Nat) (methods : List Method) :
    (place base methods).map (·.toMethod) = methods := by
  induction methods generalizing base with
  | nil => rfl
  | cons method methods ih =>
    rw [place, List.map_cons, ih]

/-- A name has a base if a method has it. -/
theorem exists_baseOf? {methods : List PlacedMethod} {name : String} :
    (∃ base, baseOf? methods name = some base) ↔ name ∈ methods.map (·.signature.name) := by
  unfold baseOf?
  constructor
  · intro ⟨base, hbase⟩
    obtain ⟨method, hfind, -⟩ := Option.map_eq_some_iff.mp hbase
    have hname := List.find?_some hfind
    exact List.mem_map.mpr ⟨method, List.mem_of_find?_eq_some hfind, of_decide_eq_true hname⟩
  · intro hmem
    obtain ⟨method, hmethod, hname⟩ := List.mem_map.mp hmem
    cases hfind : methods.find? fun method => method.signature.name = name with
    | none =>
      have hnone := List.find?_eq_none.mp hfind method hmethod
      exact absurd (decide_eq_true hname) hnone
    | some found => exact ⟨found.base, rfl⟩

/-- Methods that can be linked in one order can be linked in every other one, in a small script. -/
theorem exists_link_of_perm {methods methods' : List Method} {linked : List PlacedMethod}
    (h : link methods = .ok linked) (hperm : methods.Perm methods')
    (hinside : ∀ method ∈ methods, ∀ r ∈ method.body.relocations, r.address < method.body.size)
    (hsmall : totalSize methods < 0x8000_0000) : ∃ linked', link methods' = .ok linked' := by
  have hsize : totalSize methods' = totalSize methods := (hperm.map _).sum_eq.symm
  refine exceptMapM_of_forall fun placed hplaced => ?_
  obtain ⟨hmem, hfinish⟩ := mem_place hplaced
  have hmethod : placed.toMethod ∈ methods := hperm.mem_iff.mpr hmem
  have hlinkable : Linkable (place 0 methods) placed.toMethod := by
    refine ⟨?_, hinside _ hmethod⟩
    rw [← map_place 0 methods] at hmethod
    obtain ⟨other, hother, hsame⟩ := List.mem_map.mp hmethod
    obtain ⟨found, -, hfound⟩ := exists_right_of_mem (exceptMapM_eq_ok h) hother
    exact ⟨other.base, found, by rw [← hsame]; exact hfound⟩
  apply exists_linkMethod hlinkable
  · omega
  · intro name target htarget
    have hnames : name ∈ (place 0 methods').map (·.signature.name) := by
      have hname := exists_baseOf?.mp ⟨target, htarget⟩
      have hmap : ∀ ms : List Method, (place 0 ms).map (·.signature.name)
          = ms.map (·.signature.name) := by
        intro ms
        conv => rhs; rw [← map_place 0 ms, List.map_map]
        rfl
      rw [hmap] at hname ⊢
      exact (hperm.map _).mem_iff.mp hname
    obtain ⟨target', htarget'⟩ := exists_baseOf?.mpr hnames
    refine ⟨target', htarget', ?_⟩
    obtain ⟨other, hfind, rfl⟩ := Option.map_eq_some_iff.mp htarget'
    have hother := (mem_place (List.mem_of_find?_eq_some hfind)).2
    omega

/-! ## Interfaces -/

/-- Whether a program has an interface is up to the signatures of its methods, in any order. -/
theorem exists_ofProgram_of_perm {program program' : Program} {interface : Interface}
    (h : Interface.ofProgram program = .ok interface) (hevents : program'.events = program.events)
    (hperm : (program.methods.map (·.signature)).Perm (program'.methods.map (·.signature))) :
    ∃ interface', Interface.ofProgram program' = .ok interface' := by
  have hexported : ∀ methods : List PlacedMethod,
      (methods.filter (·.signature.isExported)).map (·.signature)
        = (methods.map (·.signature)).filter (·.isExported) := by
    intro methods
    rw [List.filter_map]
    rfl
  have hfilter := hperm.filter (·.isExported)
  rw [← hexported, ← hexported] at hfilter
  have hnodup := nodup_exported h
  unfold Interface.ofProgram at h
  obtain ⟨methods, hmethods, h⟩ := exceptBind_eq_ok h
  obtain ⟨events, hseen, -⟩ := exceptBind_eq_ok h
  have hnone : (List.map (·.name) ([] : List InterfaceMethod)).Nodup := List.nodup_nil
  have heach := ((exportMethods_succeeds_iff hnone).mp ⟨methods, hmethods⟩).2
  obtain ⟨methods', hmethods'⟩ : ∃ methods', exportMethods []
      (program'.methods.filter (·.signature.isExported)) = .ok methods' := by
    apply (exportMethods_succeeds_iff hnone).mpr
    constructor
    · have hnames := (hfilter.map (·.displayName)).nodup_iff
      rw [List.map_map, List.map_map] at hnames
      exact hnames.mp hnodup
    · intro method' hmethod'
      have hsignature := hfilter.mem_iff.mpr (List.mem_map_of_mem hmethod')
      obtain ⟨method, hmethod, hsame⟩ := List.mem_map.mp hsignature
      exact exists_exportMethod hsame.symm (heach method hmethod)
  refine ⟨⟨program'.hash.text, methods', events⟩, ?_⟩
  unfold Interface.ofProgram
  rw [hmethods', hevents]
  show (do let events ← program.events.entries.mapM exportEvent; _) = _
  rw [hseen]
  rfl

end StackContract.Contract
