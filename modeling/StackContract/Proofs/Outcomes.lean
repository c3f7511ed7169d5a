import StackContract.Proofs.Discovery
/-!
# Outcomes of compilations

A compilation reports what it does and never looks at its reports: if it succeeds once, it does so with
the same result whatever was reported before (`Steady`).

Discovery succeeds for methods with names of their own (`discovers_of_nodup`).
-/

namespace StackContract.Compile.Progress

variable {ε α β : Type}

/-- A computation that ends with a value, whatever was reported before. -/
def Succeeds (x : Progress ε α) (a : α) : Prop :=
  ∀ events, ∃ events', x events = .ok a events'

/-- A computation whose success does not depend on what was reported before. -/
def Steady (x : Progress ε α) : Prop :=
  ∀ ⦃events events' : Array Event⦄ ⦃a : α⦄, x events = .ok a events' → x.Succeeds a

/-! ## Success -/

theorem Succeeds.pure (a : α) : Succeeds (Pure.pure a : Progress ε α) a :=
  fun events => ⟨events, rfl⟩

theorem Succeeds.report (event : Event) : Succeeds (Progress.report event : Progress ε Unit) () :=
  fun events => ⟨events.push event, rfl⟩

theorem Succeeds.ofExcept {x : Except ε α} {a : α} (h : x = .ok a) :
    Succeeds (Progress.ofExcept x) a := by
  rw [h]
  exact .pure a

theorem Succeeds.bind {x : Progress ε α} {f : α → Progress ε β} {a : α} {b : β} (hx : x.Succeeds a)
    (hf : (f a).Succeeds b) : (x >>= f).Succeeds b := by
  intro events
  obtain ⟨events', hfirst⟩ := hx events
  obtain ⟨events'', hrest⟩ := hf events'
  refine ⟨events'', ?_⟩
  rw [bind_apply, hfirst]
  exact hrest

theorem Succeeds.mapM {f : α → Progress ε β} {xs : List α} {ys : List β}
    (h : List.Forall₂ (fun x y => (f x).Succeeds y) xs ys) : (xs.mapM f).Succeeds ys := by
  induction h with
  | nil => exact .pure []
  | cons hfirst _ ih =>
    rw [List.mapM_cons]
    exact hfirst.bind (ih.bind (.pure _))

/-- A fold succeeds if each of its steps does, as far as what was folded before tells. -/
theorem Succeeds.foldlM {f : β → α → Progress ε β} {Invariant : List α → β → Prop} {xs : List α}
    (hstep : ∀ done a rest b, xs = done ++ a :: rest → Invariant done b →
      ∃ next, (f b a).Succeeds next ∧ Invariant (done ++ [a]) next)
    {b : β} (hb : Invariant [] b) : ∃ last, (xs.foldlM f b).Succeeds last ∧ Invariant xs last := by
  have hfold : ∀ (rest done : List α) (b : β), xs = done ++ rest → Invariant done b →
      ∃ last, (rest.foldlM f b).Succeeds last ∧ Invariant xs last := by
    intro rest
    induction rest with
    | nil =>
      intro done b hxs hb
      rw [List.append_nil] at hxs
      rw [hxs]
      exact ⟨b, .pure b, hb⟩
    | cons a rest ih =>
      intro done b hxs hb
      obtain ⟨next, hnext, hinvariant⟩ := hstep done a rest b hxs hb
      obtain ⟨last, hlast, hall⟩ := ih (done ++ [a]) next (by simpa using hxs) hinvariant
      rw [List.foldlM_cons]
      exact ⟨last, hnext.bind hlast, hall⟩
  exact hfold xs [] b rfl hb

/-! ## Steadiness -/

theorem Steady.pure (a : α) : Steady (Pure.pure a : Progress ε α) := by
  intro _ _ _ h
  cases h
  exact Succeeds.pure a

theorem Steady.report (event : Event) : Steady (Progress.report event : Progress ε Unit) := by
  intro _ _ _ _
  exact Succeeds.report event

theorem Steady.throw (e : ε) : Steady (throw e : Progress ε α) := by
  intro _ _ _ h
  cases h

theorem Steady.ofExcept (x : Except ε α) : Steady (Progress.ofExcept x) := by
  cases x with
  | error e => exact .throw e
  | ok a => exact .pure a

theorem Steady.bind {x : Progress ε α} {f : α → Progress ε β} (hx : x.Steady)
    (hf : ∀ a, (f a).Steady) : (x >>= f).Steady := by
  intro _ _ b h
  obtain ⟨a, _, hfirst, hrest⟩ := bind_eq_ok h
  exact (hx hfirst).bind (hf a hrest)

theorem Steady.foldlM {f : β → α → Progress ε β} (hf : ∀ b a, (f b a).Steady) (xs : List α) (b : β) :
    (xs.foldlM f b).Steady := by
  induction xs generalizing b with
  | nil => exact .pure b
  | cons x xs ih =>
    rw [List.foldlM_cons]
    exact .bind (hf b x) ih

theorem Steady.forIn {f : α → PUnit → Progress ε (ForInStep PUnit)} (hf : ∀ a u, (f a u).Steady)
    (xs : List α) (u : PUnit) : (ForIn.forIn xs u f).Steady := by
  induction xs generalizing u with
  | nil => exact .pure u
  | cons x xs ih =>
    rw [List.forIn_cons]
    refine .bind (hf x u) fun step => ?_
    cases step with
    | done u => exact .pure u
    | yield u => exact ih u

end StackContract.Compile.Progress

namespace StackContract.Compile

open Progress
open Source (Field TypeDecl Module)

/-! ## Static fields -/

theorem steady_placeStatement (fields : Table String Field) (scope : String) (shift : UInt32)
    (layout : StaticLayout) (statement : Statement) :
    (placeStatement fields scope shift layout statement).Steady := by
  unfold placeStatement
  dsimp only
  cases fields.find? statement.target.key with
  | none => exact .throw _
  | some field =>
    dsimp only
    split
    · split
      · exact .throw _
      · exact .bind (.report _) fun _ => .pure _
    · exact .pure _

theorem steady_placeTypes (fields : Table String Field) (shift : UInt32) (layout : StaticLayout)
    (types : List TypeDecl) : (placeTypes fields shift layout types).Steady := by
  induction types generalizing shift layout with
  | nil => exact .pure layout
  | cons type types ih =>
    refine .bind ?_ fun layout => ih _ layout
    unfold placeType
    refine .bind (.foldlM (steady_placeStatement fields _ shift) _ _) fun layout => ?_
    dsimp only
    split
    · exact .pure _
    · exact .pure _

theorem steady_ofModule (module : Module) (max : UInt8) :
    (StaticLayout.ofModule module max).Steady := by
  refine .bind (.ofExcept _) fun _ => .bind (.forIn (fun _ _ => ?_) _ _) fun _ =>
    .bind (steady_placeTypes _ _ _ _) fun layout => ?_
  · exact .bind (.report _) fun _ => .pure _
  · split
    · exact .throw _
    · exact .pure _

end StackContract.Compile

namespace StackContract.Contract

open Compile Lowering
open Compile.Progress (Succeeds Steady)
open Source (TypeDecl Module)

/-! ## Bodies -/

theorem steady_buildMethod (catalogue : Catalogue) (limits : Limits) (type : TypeDecl)
    (method : Source.Method) : (buildMethod catalogue limits type method).Steady :=
  .bind (.ofExcept _) fun _ => .bind (.ofExcept _) fun _ => .bind (.ofExcept _) fun _ =>
    .bind (.report _) fun _ => .pure _

theorem steady_buildInitializer (catalogue : Catalogue) (limits : Limits) :
    (buildInitializer catalogue limits).Steady :=
  .bind (.ofExcept _) fun _ => .bind (.ofExcept _) fun _ =>
    .bind (.report _) fun _ => .bind (.report _) fun _ => .pure _

/-! ## Discovery -/

theorem exists_addMethod (type : TypeDecl) {found : Discovery} {method : Source.Method}
    (h : method.name ∉ found.methods.keys) :
    ∃ next, (Discovery.addMethod type found method).Succeeds next := by
  have hfresh : ¬ found.methods.contains method.name = true := by
    intro hsome
    obtain ⟨other, hother⟩ := Option.isSome_iff_exists.mp hsome
    exact h (List.mem_map.mpr ⟨_, Table.mem_of_findIn hother, rfl⟩)
  unfold Discovery.addMethod
  rw [if_neg hfresh]
  dsimp only
  split
  · exact ⟨_, (Succeeds.report _).bind (.pure _)⟩
  · exact ⟨_, .pure _⟩

/-- The methods of a type are found if their names are new and their own. -/
theorem exists_addMethods {types : List TypeDecl} {type : TypeDecl} {found : Discovery}
    (hfound : found.Found types type [])
    (hnodup : ((types.flatMap (·.methods) ++ type.methods).map (·.name)).Nodup) :
    ∃ next, (type.methods.foldlM (Discovery.addMethod type) found).Succeeds next
      ∧ next.Found types type type.methods := by
  have hstep : ∀ done method rest found, type.methods = done ++ method :: rest →
      Discovery.Found types type done found → ∃ next,
        (Discovery.addMethod type found method).Succeeds next
          ∧ Discovery.Found types type (done ++ [method]) next := by
    intro done method rest found hmethods hfound
    have hfresh : method.name ∉ found.methods.keys := by
      unfold Table.keys
      rw [hmethods, ← List.append_assoc, List.map_append, List.nodup_append] at hnodup
      rw [hfound.methods, List.map_map]
      intro hmem
      exact hnodup.2.2 _ hmem _ (List.mem_cons_self ..) rfl
    obtain ⟨next, hnext⟩ := exists_addMethod type hfresh
    obtain ⟨events, hadd⟩ := hnext #[]
    exact ⟨next, hnext, (Discovery.found_addMethod hfound hadd).1⟩
  exact Succeeds.foldlM hstep hfound

/-- Discovery succeeds for methods with names of their own. -/
theorem discovers_of_nodup {module : Module}
    (hnodup : ((declaredMethods module).map (·.name)).Nodup) :
    ∃ found, Succeeds (module.compiledTypes.foldlM Discovery.addType {}) found := by
  have hstep : ∀ done type rest found, module.compiledTypes = done ++ type :: rest →
      (∀ last, Discovery.Found done last [] found) → ∃ next,
        (Discovery.addType found type).Succeeds next
          ∧ ∀ last, Discovery.Found (done ++ [type]) last [] next := by
    intro done type rest found htypes hfound
    have hnames : ((done.flatMap (·.methods) ++ type.methods).map (·.name)).Nodup := by
      unfold declaredMethods at hnodup
      rw [htypes, List.append_cons, List.flatMap_append, List.flatMap_append,
        List.flatMap_singleton, List.map_append] at hnodup
      exact (List.nodup_append.mp hnodup).1
    obtain ⟨next, hnext, hmethods⟩ := exists_addMethods (hfound type) hnames
    obtain ⟨hm, hc, -⟩ := Discovery.addEvents_spec type type.events next
    refine ⟨_, hnext.bind (.pure _), fun last => ⟨?_, ?_, ?_⟩⟩
    · rw [hm, hmethods.methods, List.flatMap_append, List.flatMap_singleton, List.append_nil]
    · rw [hm]
      exact hmethods.nodup
    · rw [hc, hmethods.compiled, List.flatMap_append, List.flatMap_singleton]
      exact (List.append_nil _).symm
  obtain ⟨found, hfound, -⟩ := Succeeds.foldlM hstep Discovery.found_empty
  exact ⟨found, hfound⟩

end StackContract.Contract
