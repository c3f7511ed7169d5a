import StackContract.Proofs.Effects
/-!
# What notifications hold

What was told to the outside holds items, too, and they refer to what is in the heap (`Reachable.told`).
One service alone adds to it (`silent_execute`), and that takes its items from a sequence.
-/

namespace StackContract.Machine

open Script

/-- What was told to the outside refers to the heap. -/
def State.Told (s : State) : Prop :=
  ∀ notification ∈ s.notifications.toList, AllInhand s.memory.heap.sequences.size notification.state

theorem State.Told.grown {s t : State} (h : s.Told) (hsame : t.notifications = s.notifications)
    (hle : s.memory.heap.sequences.size ≤ t.memory.heap.sequences.size) : t.Told := by
  intro notification hmem
  rw [hsame] at hmem
  exact (h notification hmem).mono hle

/-! ## Instructions -/

/-- A computation tells the outside nothing. -/
def Exec.Silent {α : Type} (x : Exec α) : Prop :=
  ∀ s : State, (leftBehind (x s)).notifications = s.notifications

theorem Exec.silent_evaluate {α : Type} (x : Eval α) : Silent (evaluate x) := by
  intro s
  rw [evaluate_eq]
  cases x s.address s.memory <;> rfl

theorem Exec.silent_bind {α β : Type} {x : Exec α} {f : α → Exec β} (hx : Silent x)
    (hf : ∀ a, Silent (f a)) : Silent (x >>= f) := by
  intro s
  have hfirst := hx s
  rw [bind_apply]
  cases hresult : x s with
  | error fault t =>
    rw [hresult] at hfirst
    exact hfirst
  | ok a t =>
    rw [hresult] at hfirst
    exact (hf a t).trans hfirst

theorem Exec.Reads.silent {α : Type} {x : Exec α} (h : Reads x) : Silent x := by
  intro s
  have hreads := h s
  cases hresult : x s with
  | ok a t | error fault t =>
    rw [hresult] at hreads
    show t.notifications = s.notifications
    rw [hreads.rest]

theorem afterReading_silent : Exec.AfterReading fun x => Exec.Silent x where
  reads h := h.silent
  bind hx := Exec.silent_bind hx.silent
  change _ hsame := hsame
  push _ := Exec.silent_evaluate _
  followed hx _ := Exec.silent_bind hx fun _ _ => rfl

/-- One service alone tells the outside something. -/
theorem silent_execute {i : Located} (h : operation i.opcode ≠ .service) : (execute i).Silent :=
  execute_afterReading afterReading_silent i (fun _ _ => Exec.silent_evaluate _) fun hop => absurd hop h

section

variable {n : Nat} {s : State}

theorem told_execute (i : Located) (hs : s.Founded n) (htold : s.Told) :
    (leftBehind (execute i s)).Told := by
  have hle : s.memory.heap.sequences.size ≤ (leftBehind (execute i s)).memory.heap.sequences.size :=
    (keeps_execute i s).count_le .sequences
  by_cases hop : operation i.opcode = .service
  · rw [execute_service hop] at hle ⊢
    cases hservice : Service.ofId? (serviceIdOf i.toInstruction) with
    | none => exact htold
    | some service =>
      rw [hservice] at hle
      cases service with
      | contractCall => exact htold
      | log =>
        dsimp only at hle ⊢
        cases hresult : Eval.popText s.address s.memory with
        | ok text memory | error fault memory =>
          rw [hresult] at hle
          exact htold.grown rfl hle
      | notify =>
        have hkept : Kept Memory.Founded n (fun n notification => AllInhand n notification.state)
            (popNotification s.address s.memory) := founds_popNotification hs.memory
        dsimp only at hle ⊢
        cases hresult : popNotification s.address s.memory with
        | error fault memory =>
          rw [hresult] at hle
          exact htold.grown rfl hle
        | ok notification memory =>
          rw [hresult] at hle hkept
          -- the new notification is the last one
          intro other hother
          rcases List.mem_append.mp (Array.toList_push ▸ hother) with hother | hother
          · exact (htold other hother).mono hle
          · rw [List.mem_singleton.mp hother]
            cases hkept with
            | ok _ hmemory hstate => exact hstate.mono hmemory.le
  · exact htold.grown (silent_execute hop s) hle

theorem told_step (hs : s.Founded n) (htold : s.Told) : (leftBehind (step s)).Told := by
  cases hcurrent : s.current with
  | error fault =>
    rw [step_of_current_error hcurrent]
    exact htold
  | ok i =>
    have hthere := told_execute i hs htold
    rw [step_eq hcurrent]
    cases hresult : execute i s with
    | error fault t =>
      rw [hresult] at hthere
      exact hthere
    | ok flow t =>
      rw [hresult] at hthere
      obtain ⟨address, hsettled⟩ := leftBehind_settle i flow t
      dsimp only
      rw [hsettled]
      exact hthere

theorem founded_step (hs : s.Founded n) : (leftBehind (step s)).Founded n :=
  (founds_step hs).leftBehind

/-! ## Runs -/

/-- Machines that are founded beyond a bound, and so is what they told. -/
theorem runInvariant_told {arguments : List Item} (harguments : AllInhand n arguments) :
    RunInvariant arguments fun s => s.Founded n ∧ s.Told where
  step _ h := ⟨founded_step h.1, told_step h.1 h.2⟩
  handOut _ h := ⟨⟨h.1.memory.withStack allInhand_nil, h.1.statics, h.1.frames⟩, h.2⟩
  ready _ h := ⟨⟨h.1.memory, h.1.statics, h.1.frames⟩, h.2⟩
  initializer _ entry h := ⟨h.1.start entry allInhand_nil, h.2⟩
  start _ entry h := ⟨h.1.start entry (harguments.mono h.1.memory.le), h.2⟩

variable {script : Array UInt8} {initializer : Option Nat} {limits : Limits}

theorem Builds.told {heap : Heap} {arguments : List Item} (h : Builds s.memory.heap arguments heap)
    (htold : s.Told) : State.Told { s with memory := { s.memory with heap } } :=
  htold.grown rfl (extends_of_builds h).sequences.length_le

theorem Hosted.told (h : Hosted script initializer limits s) : s.Told := by
  induction h with
  | fresh => exact fun notification hmem => absurd hmem List.not_mem_nil
  | invoked entry h hbuilds ih =>
    obtain ⟨hs, harguments⟩ := hbuilds.state h.founded
    exact ((runInvariant_told harguments).invoke entry ⟨hs, hbuilds.told ih⟩).2

/-- Notifications refer to the heap. -/
theorem Reachable.told (h : Reachable script initializer limits s) : s.Told := by
  induction h with
  | between h => exact h.told
  | built h hbuilds => exact hbuilds.told h.told
  | initializer h hbuilds _ _ => exact hbuilds.told h.told
  | entry entry h hbuilds hready =>
    obtain ⟨hs, -⟩ := hbuilds.state h.founded
    have hthere := ((runInvariant_told allInhand_nil).initializeStatics ⟨hs, hbuilds.told h.told⟩).2
    rw [hready] at hthere
    exact hthere
  | step h hstep ih =>
    obtain ⟨n, hs⟩ := h.founded
    have hthere := told_step hs ih
    rw [hstep] at hthere
    exact hthere
  | fault h hstep ih =>
    obtain ⟨n, hs⟩ := h.founded
    have hthere := told_step hs ih
    rw [hstep] at hthere
    exact hthere

end

end StackContract.Machine
