import StackContract.Proofs.Changes
/-!
# What a run leaves as it is

No instruction changes the script of a machine, its limits or its initializer (`step_keeps`), and so no
run does (`run_keeps`), whether it returns or faults.
-/

namespace StackContract.Machine

open Script

/-- A computation that leaves the settings of every machine as they are. -/
def Exec.Keeps {α : Type} (x : Exec α) : Prop :=
  ∀ s, (leftBehind (x s)).settings = s.settings

theorem settings_withSlots (s : State) (area : SlotArea) (slots : Array Item) :
    (s.withSlots area slots).settings = s.settings := by
  unfold State.withSlots
  split <;> rfl

theorem Change.settings {f : State → State} (h : Change f) (s : State) : (f s).settings = s.settings := by
  cases h with
  | slots area slots => exact settings_withSlots s area slots
  | frames | push | statics | notify | log | address | handOut => rfl

theorem closed_keeps : Exec.Closed Exec.Keeps :=
  closed_leftBehind (R := fun s t => t.settings = s.settings) (fun _ _ => rfl) Change.settings
    fun h h' => h'.trans h

theorem execute_keeps (i : Located) : (execute i).Keeps :=
  closed_execute closed_keeps i

theorem step_keeps : step.Keeps :=
  closed_step closed_keeps

/-! ## Runs -/

theorem run_keeps (entry : Nat) (arguments : List Item) : (run entry arguments).Keeps := by
  intro s
  rw [run_eq]
  split
  · rfl
  · exact closed_loop closed_keeps _ _

/-- An initializer that returns leaves all settings as they are, but that it has run. -/
theorem settings_of_initializeStatics {s t : State} (h : initializeStatics s = .ok () t) :
    t.settings = { s.settings with isInitialized := true } := by
  by_cases hdone : s.isInitialized = true
  · rw [initializeStatics_done hdone] at h
    cases h
    unfold State.settings
    rw [hdone]
  · rw [Bool.not_eq_true] at hdone
    cases hentry : s.initializer with
    | none =>
      rw [initializeStatics_none hdone hentry] at h
      cases h
      rfl
    | some entry =>
      rw [initializeStatics_some hdone hentry] at h
      have hkeeps := run_keeps entry [] s
      generalize run entry [] s = result at h hkeeps
      cases result with
      | error fault u => cases h
      | ok items u =>
        cases h
        have hkept : u.settings = s.settings := hkeeps
        rw [← hkept]
        rfl

end StackContract.Machine
