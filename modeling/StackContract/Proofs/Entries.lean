import Mathlib.Data.List.Nodup
import StackContract.Proofs.Loading
/-!
# Entries

The interface of a contract gives the entry of a method as a decimal text. It reads back as the base of
the method, so that an entry is the base of an exported method of that name (`exported_of_entry?`).
-/

namespace StackContract.Contract

open Compile (Limits)
open Source (Module)

theorem natOfDigits_toDigits (n : Nat) : Json.natOfDigits (Nat.toDigits 10 n) = n :=
  Nat.ofDigitChars_ten_toDigits

/-- The decimal text of a word reads back. -/
theorem offsetOfText?_toString {n : Nat} (h : n < 0x1_0000_0000) :
    offsetOfText? (toString n) = some n := by
  have htext : (toString n).toList = Nat.toDigits 10 n := Nat.toList_repr
  have hdigits : ∀ c ∈ Nat.toDigits 10 n, c.isDigit = true :=
    fun c hc => Nat.isDigit_of_mem_toDigits (by decide) (by decide) hc
  have hvalue := natOfDigits_toDigits n
  have hsome : Nat.toDigits 10 n ≠ [] := Nat.toDigits_ne_nil
  unfold offsetOfText?
  rw [htext]
  generalize Nat.toDigits 10 n = digits at hdigits hvalue hsome
  cases digits with
  | nil => exact absurd rfl hsome
  | cons c digits =>
    -- a digit is no sign
    have hsign : c ≠ '+' := by
      rintro rfl
      exact absurd (hdigits '+' (List.mem_cons_self ..)) (by decide)
    have hall : (c :: digits).all Char.isDigit = true := List.all_eq_true.mpr hdigits
    have hunsigned : withoutPlus (c :: digits) = c :: digits := by
      unfold withoutPlus
      split
      · next heq => exact absurd (List.cons.inj heq).1 hsign
      · rfl
    simp only [hunsigned, hall, hvalue, if_pos h]
    rfl

/-- What the interface shows of an exported method. -/
theorem exportMethod_spec {method : PlacedMethod} {seen : InterfaceMethod}
    (h : exportMethod method = .ok seen) :
    seen.name = method.signature.displayName ∧ seen.offset = toString method.base := by
  unfold exportMethod at h
  obtain ⟨parameters, -, h⟩ := exceptBind_eq_ok h
  obtain ⟨returnType, -, h⟩ := exceptBind_eq_ok h
  cases h
  exact ⟨rfl, rfl⟩

theorem exportMethods_spec {done seen : List InterfaceMethod} {methods : List PlacedMethod}
    (h : exportMethods done methods = .ok seen) : ∃ added, seen = done ++ added
      ∧ List.Forall₂ (fun (method : PlacedMethod) (seen : InterfaceMethod) =>
        seen.name = method.signature.displayName ∧ seen.offset = toString method.base) methods added := by
  induction methods generalizing done with
  | nil =>
    cases h
    exact ⟨[], (List.append_nil _).symm, .nil⟩
  | cons method methods ih =>
    unfold exportMethods at h
    simp only at h
    split at h
    · cases h
    · obtain ⟨first, hfirst, h⟩ := exceptBind_eq_ok h
      obtain ⟨added, hseen, hadded⟩ := ih h
      refine ⟨first :: added, ?_, .cons (exportMethod_spec hfirst) hadded⟩
      rw [hseen, List.append_assoc]
      rfl

theorem ofProgram_spec {program : Program} {interface : Interface}
    (h : Interface.ofProgram program = .ok interface) :
    List.Forall₂ (fun (method : PlacedMethod) (seen : InterfaceMethod) =>
        seen.name = method.signature.displayName ∧ seen.offset = toString method.base)
      (program.methods.filter (·.signature.isExported)) interface.methods := by
  unfold Interface.ofProgram at h
  obtain ⟨methods, hmethods, h⟩ := exceptBind_eq_ok h
  obtain ⟨events, -, h⟩ := exceptBind_eq_ok h
  cases h
  obtain ⟨added, rfl, hadded⟩ := exportMethods_spec hmethods
  exact hadded

/-- Methods are exported if each of them can be, under names of their own that are not taken. -/
theorem exportMethods_succeeds_iff {done : List InterfaceMethod} {methods : List PlacedMethod}
    (hdone : (done.map (·.name)).Nodup) : (∃ seen, exportMethods done methods = .ok seen) ↔
      (done.map (·.name) ++ methods.map (·.signature.displayName)).Nodup
        ∧ ∀ method ∈ methods, ∃ seen, exportMethod method = .ok seen := by
  induction methods generalizing done with
  | nil =>
    rw [List.map_nil, List.append_nil]
    exact ⟨fun _ => ⟨hdone, nofun⟩, fun _ => ⟨done, rfl⟩⟩
  | cons method methods ih =>
    have htaken : (done.any fun other => other.name = method.signature.displayName) = true
        ↔ method.signature.displayName ∈ done.map (·.name) := by
      simp
    unfold exportMethods
    dsimp only
    by_cases hname : method.signature.displayName ∈ done.map (·.name)
    · -- a name that is taken
      rw [if_pos (htaken.mpr hname)]
      constructor
      · intro ⟨seen, hseen⟩
        cases hseen
      · intro ⟨hnodup, _⟩
        exact absurd rfl ((List.nodup_append.mp hnodup).2.2 _ hname _ (List.mem_cons_self ..))
    · rw [if_neg (mt htaken.mp hname), List.forall_mem_cons, List.map_cons]
      cases hfirst : exportMethod method with
      | error e =>
        constructor
        · intro ⟨seen, hseen⟩
          cases hseen
        · intro ⟨_, ⟨seen, hseen⟩, _⟩
          cases hseen
      | ok first =>
        have hfirstName : first.name = method.signature.displayName := (exportMethod_spec hfirst).1
        have hnext : ((done ++ [first]).map (·.name)).Nodup := by
          rw [List.map_append, List.map_singleton, hfirstName, List.nodup_append]
          refine ⟨hdone, List.pairwise_singleton _ _, ?_⟩
          intro name hmem other hother heq
          rw [heq, List.mem_singleton.mp hother] at hmem
          exact hname hmem
        have hrest := ih hnext
        rw [List.map_append, List.map_singleton, hfirstName, List.append_assoc,
          List.singleton_append] at hrest
        exact hrest.trans (and_congr_right fun _ => ⟨fun h => ⟨⟨first, rfl⟩, h⟩, fun h => h.2⟩)

/-- Whether a method can be exported is up to its signature. -/
theorem exists_exportMethod {method method' : PlacedMethod}
    (hsignature : method'.signature = method.signature)
    (h : ∃ seen, exportMethod method = .ok seen) : ∃ seen, exportMethod method' = .ok seen := by
  obtain ⟨seen, hseen⟩ := h
  unfold exportMethod at hseen ⊢
  obtain ⟨parameters, hparameters, hseen⟩ := exceptBind_eq_ok hseen
  obtain ⟨returnType, hreturn, -⟩ := exceptBind_eq_ok hseen
  dsimp only
  rw [hsignature, hparameters]
  refine ⟨⟨method.signature.displayName, toString method'.base, parameters, returnType⟩, ?_⟩
  show (do let returnType ← exportType _ _; _) = _
  rw [hreturn]
  rfl

/-- The methods of an image start below its last address. -/
theorem Image.base_lt {limits : Limits} {module : Module} {program : Program}
    (image : Image limits module program) {method : PlacedMethod} (h : method ∈ program.methods) :
    method.base < 0x1_0000_0000 := by
  have hsmall := image.small method h
  have hmax : maxScriptSize < 0x1_0000_0000 := by decide
  omega

/-- An entry is the base of an exported method that callers see under its name. -/
theorem exported_of_entry? {limits : Limits} {module : Module} {contract : Contract}
    (h : build limits module = .ok contract) {name : String} {entry : Nat}
    (hentry : contract.entry? name = some entry) : ∃ method ∈ contract.program.methods,
      method.signature.isExported = true ∧ method.signature.displayName = name
        ∧ method.base = entry := by
  obtain ⟨⟨image⟩, hinterface⟩ := image_of_build h
  unfold entry? Interface.offset? Interface.method? at hentry
  obtain ⟨seen, hfind, hoffset⟩ := Option.bind_eq_some_iff.mp hentry
  have hname := List.find?_some hfind
  obtain ⟨method, hmethod, hseen⟩ :=
    exists_left_of_mem (ofProgram_spec hinterface) (List.mem_of_find?_eq_some hfind)
  rw [List.mem_filter] at hmethod
  rw [hseen.2, offsetOfText?_toString (image.base_lt hmethod.1)] at hoffset
  exact ⟨method, hmethod.1, hmethod.2, hseen.1.symm.trans (of_decide_eq_true hname),
    Option.some.inj hoffset⟩

/-- Exported methods have display names of their own. -/
theorem nodup_exported {program : Program} {interface : Interface}
    (h : Interface.ofProgram program = .ok interface) :
    ((program.methods.filter (·.signature.isExported)).map (·.signature.displayName)).Nodup := by
  unfold Interface.ofProgram at h
  obtain ⟨methods, hmethods, -⟩ := exceptBind_eq_ok h
  have hnone : (List.map (·.name) ([] : List InterfaceMethod)).Nodup := List.nodup_nil
  exact ((exportMethods_succeeds_iff hnone).mp ⟨methods, hmethods⟩).1

/-- Callers find every exported method under its name. -/
theorem entry?_of_exported {limits : Limits} {module : Module} {contract : Contract}
    (h : build limits module = .ok contract) {method : PlacedMethod}
    (hmethod : method ∈ contract.program.methods)
    (hexported : method.signature.isExported = true) :
    contract.entry? method.signature.displayName = some method.base := by
  obtain ⟨⟨image⟩, hinterface⟩ := image_of_build h
  have hmem : method ∈ contract.program.methods.filter (·.signature.isExported) :=
    List.mem_filter.mpr ⟨hmethod, hexported⟩
  obtain ⟨seen, hseen, hname, hoffset⟩ := exists_right_of_mem (ofProgram_spec hinterface) hmem
  unfold entry? Interface.offset? Interface.method?
  cases hfind : contract.interface.methods.find? fun other =>
      other.name = method.signature.displayName with
  | none =>
    have hnone := List.find?_eq_none.mp hfind seen hseen
    exact absurd (decide_eq_true hname) hnone
  | some found =>
    obtain ⟨other, hother, hotherName, hotherOffset⟩ :=
      exists_left_of_mem (ofProgram_spec hinterface) (List.mem_of_find?_eq_some hfind)
    have hfound := List.find?_some hfind
    have hfound := of_decide_eq_true hfound
    -- the names are different, so this is the method itself
    have hsame : other = method := List.inj_on_of_nodup_map (nodup_exported hinterface) hother hmem
      (hotherName.symm.trans hfound)
    rw [Option.bind_some, hotherOffset, hsame]
    exact offsetOfText?_toString (image.base_lt hmethod)

end StackContract.Contract
