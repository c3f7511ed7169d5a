import StackContract.Contract.Build
import StackContract.Proofs.Computations
/-!
# Discovery

What discovery finds in a module, without its order of steps: every method under its name, which is
unique, the methods with a body in order, and the events (`discovery_spec`).
-/

namespace StackContract.Contract

open Compile Lowering
open Source (TypeDecl Module)

/-- The methods of the compiled types. -/
def declaredMethods (module : Module) : List Source.Method :=
  module.compiledTypes.flatMap (·.methods)

/-- The methods that get a body in the image, each with its type. -/
def declaredBodies (module : Module) : List (TypeDecl × Source.Method) :=
  module.compiledTypes.flatMap fun type => (type.methods.filter hasBody).map fun method => (type, method)

/-- The events of the compiled types by key. -/
def declaredEvents (module : Module) : Table String Source.Event :=
  (module.compiledTypes.foldl (fun found (type : TypeDecl) =>
    type.events.foldl (Discovery.addEvent type) found) {}).events

/-- A discovery that has found these types and, in the last of them, these methods. -/
structure Discovery.Found (types : List TypeDecl) (last : TypeDecl) (added : List Source.Method)
    (found : Discovery) : Prop where
  methods : found.methods.entries
    = (types.flatMap (·.methods) ++ added).map fun method => (method.name, method)
  nodup : found.methods.keys.Nodup
  compiled : found.compiled
    = (types.flatMap fun type => (type.methods.filter hasBody).map fun method => (type, method))
      ++ (added.filter hasBody).map fun method => (last, method)

theorem Discovery.found_empty (type : TypeDecl) : Discovery.Found [] type [] {} :=
  ⟨rfl, List.nodup_nil, rfl⟩

/-- Adding a method succeeds for a new name only. -/
theorem Discovery.addMethod_eq_ok {type : TypeDecl} {found found' : Discovery}
    {method : Source.Method} {events events' : Array Compile.Event}
    (h : Discovery.addMethod type found method events = .ok found' events') :
    method.name ∉ found.methods.keys
      ∧ found'.methods.entries = found.methods.entries ++ [(method.name, method)]
      ∧ found'.compiled = found.compiled ++ ([method].filter hasBody).map (fun method => (type, method))
      ∧ found'.events = found.events := by
  unfold Discovery.addMethod at h
  split at h
  · obtain ⟨_, _, hthrow, _⟩ := bind_eq_ok h
    cases hthrow
  · next hnew =>
    have hfresh := Table.not_mem_keys hnew
    have hinsert := Table.entries_insert hfresh method
    simp only at h
    split at h
    · next hbody =>
      obtain ⟨-, t, hreport, hpure⟩ := bind_eq_ok h
      cases hpure
      refine ⟨hfresh, hinsert, ?_, rfl⟩
      rw [List.filter_cons_of_pos hbody]
      rfl
    · next hbody =>
      cases h
      refine ⟨hfresh, hinsert, ?_, rfl⟩
      rw [List.filter_cons_of_neg hbody]
      exact (List.append_nil _).symm

theorem Discovery.found_addMethod {types : List TypeDecl} {type : TypeDecl}
    {methods : List Source.Method} {found found' : Discovery} {method : Source.Method}
    {events events' : Array Compile.Event} (hfound : found.Found types type methods)
    (h : Discovery.addMethod type found method events = .ok found' events') :
    found'.Found types type (methods ++ [method]) ∧ found'.events = found.events := by
  obtain ⟨hfresh, hentries, hcompiled, hevents⟩ := Discovery.addMethod_eq_ok h
  refine ⟨⟨?_, ?_, ?_⟩, hevents⟩
  · rw [hentries, hfound.methods]
    simp only [List.map_append, List.append_assoc]
    rfl
  · unfold Table.keys
    rw [hentries, List.map_append, List.nodup_append]
    refine ⟨hfound.nodup, by simp, ?_⟩
    intro name hname other hother heq
    rw [heq, List.mem_singleton.mp hother] at hname
    exact hfresh hname
  · rw [hcompiled, hfound.compiled, List.filter_append, List.map_append, List.append_assoc]

/-- The events of a type leave the methods that were found. -/
theorem Discovery.addEvents_spec (type : TypeDecl) (events : List Source.Event) (found : Discovery) :
    (events.foldl (Discovery.addEvent type) found).methods = found.methods
      ∧ (events.foldl (Discovery.addEvent type) found).compiled = found.compiled
      ∧ ∀ other : Discovery, other.events = found.events →
        (events.foldl (Discovery.addEvent type) other).events
          = (events.foldl (Discovery.addEvent type) found).events := by
  induction events generalizing found with
  | nil => exact ⟨rfl, rfl, fun _ h => h⟩
  | cons event events ih =>
    obtain ⟨hmethods, hcompiled, hevents⟩ := ih (Discovery.addEvent type found event)
    refine ⟨hmethods, hcompiled, ?_⟩
    intro other hother
    refine hevents (Discovery.addEvent type other event) ?_
    unfold Discovery.addEvent
    rw [hother]

/-- The methods of a module have names of their own; they, their bodies and the events are found in the
order of declaration. -/
theorem discovery_spec {module : Module} {found : Discovery} {events events' : Array Compile.Event}
    (h : module.compiledTypes.foldlM Discovery.addType {} events = .ok found events') :
    found.methods.entries = (declaredMethods module).map (fun method => (method.name, method))
      ∧ ((declaredMethods module).map (·.name)).Nodup
      ∧ found.compiled = declaredBodies module ∧ found.events = declaredEvents module := by
  -- an invariant over the types that were added so far
  have hfold := foldlM_eq_ok
    (fun types (found : Discovery) =>
      (∀ type, found.Found types type []) ∧ found.events = (types.foldl
        (fun found (type : TypeDecl) => type.events.foldl (Discovery.addEvent type) found) {}).events)
    ?_ ⟨Discovery.found_empty, rfl⟩ h
  · obtain ⟨hfound, hevents⟩ := hfold
    refine ⟨?_, ?_, ?_, hevents⟩
    · rw [(hfound { name := "" }).methods, List.append_nil]
      rfl
    · have := (hfound { name := "" }).nodup
      unfold Table.keys at this
      rw [(hfound { name := "" }).methods, List.append_nil, List.map_map] at this
      exact this
    · rw [(hfound { name := "" }).compiled]
      exact List.append_nil _
  · rintro types found type found' events events' ⟨hfound, hevents⟩ hstep
    unfold Discovery.addType at hstep
    obtain ⟨next, t, hmethods, hpure⟩ := bind_eq_ok hstep
    -- and one over the methods of the type that is being added
    have hnext := foldlM_eq_ok
      (fun methods (next : Discovery) =>
        next.Found types type methods ∧ next.events = found.events)
      (fun methods next method next' s s' hnext hadd =>
        ⟨(Discovery.found_addMethod hnext.1 hadd).1,
          (Discovery.found_addMethod hnext.1 hadd).2.trans hnext.2⟩)
      ⟨hfound type, rfl⟩ hmethods
    obtain ⟨⟨hentries, hnodup, hcompiled⟩, hsame⟩ := hnext
    cases hpure
    obtain ⟨hm, hc, he⟩ := Discovery.addEvents_spec type type.events next
    refine ⟨fun other => ⟨?_, ?_, ?_⟩, ?_⟩
    · rw [hm, hentries, List.flatMap_append, List.append_nil, List.flatMap_singleton]
    · rw [hm]
      exact hnodup
    · rw [hc, hcompiled, List.flatMap_append, List.flatMap_singleton]
      exact (List.append_nil _).symm
    · rw [List.foldl_append]
      exact (he _ (hevents.symm.trans hsame.symm)).symm

end StackContract.Contract
