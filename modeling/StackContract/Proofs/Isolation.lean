import StackContract.Proofs.Chains
import StackContract.Proofs.Settings
/-!
# Invocations are isolated

What a run leaves to later ones is its static slots, its heap and whether the initializer has returned.
All else, the stack, the frames, the address, the counter of instructions and what was told to the
outside, is of no consequence to them (`isolated_of_lasting`).

A run clears the stack and the frames at its start, so what remains to be shown is that no instruction
looks at what was told before: with an earlier record in front of its own, a machine does the same and
adds the same to it (`Exec.Blind`).
-/

namespace StackContract.Machine

/-! ## What was told before -/

/-- What a script has told the outside. -/
structure Record where
  notifications : Array Notification := #[]
  logs : Array String := #[]
deriving DecidableEq, Repr

/-- One record behind another one. -/
def Record.append (earlier later : Record) : Record where
  notifications := earlier.notifications ++ later.notifications
  logs := earlier.logs ++ later.logs

theorem Record.append_empty (r : Record) : r.append {} = r := by
  unfold append
  rw [Array.append_empty, Array.append_empty]

theorem Record.append_assoc (r₁ r₂ r₃ : Record) :
    (r₁.append r₂).append r₃ = r₁.append (r₂.append r₃) := by
  unfold append
  rw [Array.append_assoc, Array.append_assoc]

def State.record (s : State) : Record :=
  ⟨s.notifications, s.logs⟩

/-- The machine with an earlier record in front of its own. -/
def State.behind (s : State) (earlier : Record) : State :=
  { s with
    notifications := earlier.notifications ++ s.notifications
    logs := earlier.logs ++ s.logs }

/-- The result of a machine that has an earlier record in front of its own. -/
def behindResult {α : Type} (earlier : Record) :
    EStateM.Result Fault State α → EStateM.Result Fault State α
  | .ok a s => .ok a (s.behind earlier)
  | .error fault s => .error fault (s.behind earlier)

/-- A computation that does not look at what was told before. -/
def Exec.Blind {α : Type} (x : Exec α) : Prop :=
  ∀ earlier s, x (s.behind earlier) = behindResult earlier (x s)

theorem withSlots_behind (earlier : Record) (s : State) (area : Script.SlotArea) (slots : Array Item) :
    (s.behind earlier).withSlots area slots = (s.withSlots area slots).behind earlier := by
  have hpop : (s.behind earlier).frames.pop? = s.frames.pop? := rfl
  unfold State.withSlots
  rw [hpop]
  cases area <;> cases s.frames.pop? <;> rfl

/-- What is told comes behind what was told before. -/
theorem Change.behind {f : State → State} (h : Change f) (earlier : Record) (s : State) :
    f (s.behind earlier) = (f s).behind earlier := by
  cases h with
  | slots area slots => exact withSlots_behind earlier s area slots
  | notify | log =>
    dsimp only [State.behind]
    rw [Array.push_append]
  | frames | push | statics | address | handOut => rfl

theorem closed_blind : Exec.Closed Exec.Blind where
  pure _ _ _ := rfl
  throw _ _ _ := rfl
  bind := by
    intro α β x f hx hf earlier s
    rw [bind_apply, bind_apply, hx earlier s]
    cases x s with
    | ok a t => exact hf a earlier t
    | error fault t => rfl
  get := by
    intro α f hvisible hf earlier s
    rw [get_bind_eq, get_bind_eq, ← hvisible (s.behind earlier), ← hvisible s]
    exact hf s.visible earlier s
  evaluate := by
    intro α x earlier s
    rw [evaluate_eq, evaluate_eq]
    show State.withMemory _ id (x s.address s.memory) = _
    cases x s.address s.memory <;> rfl
  modify h earlier s := congrArg (EStateM.Result.ok ()) (h.behind earlier s)

/-! ## Runs -/

/-- What a machine keeps from run to run. -/
structure Lasting where
  settings : Settings
  statics : Option (Array Item)
  heap : Heap

def State.lasting (s : State) : Lasting :=
  ⟨s.settings, s.statics, s.memory.heap⟩

/-- The machine without what runs do not keep. -/
def State.cleared (s : State) : State where
  script := s.script
  initializer := s.initializer
  limits := s.limits
  isInitialized := s.isInitialized
  statics := s.statics
  memory := { heap := s.memory.heap }

theorem cleared_of_lasting {s s' : State} (h : s'.lasting = s.lasting) : s'.cleared = s.cleared := by
  have hsettings := congrArg Lasting.settings h
  have hstatics : s'.statics = s.statics := congrArg Lasting.statics h
  have hheap : s'.memory.heap = s.memory.heap := congrArg Lasting.heap h
  have hscript : s'.script = s.script := congrArg Settings.script hsettings
  have hinitializer : s'.initializer = s.initializer := congrArg Settings.initializer hsettings
  have hlimits : s'.limits = s.limits := congrArg Settings.limits hsettings
  have hinitialized : s'.isInitialized = s.isInitialized := congrArg Settings.isInitialized hsettings
  unfold State.cleared
  rw [hscript, hinitializer, hlimits, hinitialized, hstatics, hheap]

/-- All that the start of a run leaves of earlier ones is their record. -/
theorem start_eq (s : State) (entry : Nat) (arguments : List Item) :
    s.start entry arguments = (s.cleared.start entry arguments).behind s.record := by
  unfold State.behind State.start State.record State.cleared
  simp only [Array.append_empty]

/-- How a computation ended, without the machine that it left behind. -/
def answerOf {ε σ α : Type} : EStateM.Result ε σ α → Except ε α
  | .ok a _ => .ok a
  | .error e _ => .error e

/-- Results of machines with records of their own: the same answers and the same lasting parts, and the
same was told behind those records. -/
structure Agree {α : Type} (before before' : Record) (result result' : EStateM.Result Fault State α) :
    Prop where
  answer : answerOf result' = answerOf result
  lasting : (leftBehind result').lasting = (leftBehind result).lasting
  told : ∃ told, (leftBehind result).record = before.append told
    ∧ (leftBehind result').record = before'.append told

theorem agree_behind {α : Type} (before before' : Record) (result : EStateM.Result Fault State α) :
    Agree before before' (behindResult before result) (behindResult before' result) := by
  cases result with
  | ok a s => exact ⟨rfl, rfl, s.record, rfl, rfl⟩
  | error fault s => exact ⟨rfl, rfl, s.record, rfl, rfl⟩

open Exec

/-- A computation that depends on nothing but what lasts, and tells the same behind any record. -/
def Exec.Isolated {α : Type} (x : Exec α) : Prop :=
  ∀ ⦃s s'⦄, s'.lasting = s.lasting → Agree s.record s'.record (x s) (x s')

namespace Exec.Isolated

variable {α β : Type}

theorem pure (a : α) : Isolated (Pure.pure a) := fun _ _ h =>
  ⟨rfl, h, {}, (Record.append_empty _).symm, (Record.append_empty _).symm⟩

theorem bind {x : Exec α} {f : α → Exec β} (hx : Isolated x) (hf : ∀ a, Isolated (f a)) :
    Isolated (x >>= f) := by
  intro s s' h
  obtain ⟨hanswer, hlasting, told, htold, htold'⟩ := hx h
  rw [bind_apply, bind_apply]
  cases hresult : x s with
  | ok a t =>
    cases hresult' : x s' with
    | error fault t' =>
      rw [hresult, hresult'] at hanswer
      cases hanswer
    | ok a' t' =>
      rw [hresult, hresult'] at hanswer hlasting
      rw [hresult] at htold
      rw [hresult'] at htold'
      cases hanswer
      -- what is told by the second part comes behind what is told by the first
      obtain ⟨hanswer, hlasting, more, hmore, hmore'⟩ := hf a hlasting
      refine ⟨hanswer, hlasting, told.append more, hmore.trans ?_, hmore'.trans ?_⟩
      · exact (congrArg (Record.append · more) htold).trans (Record.append_assoc _ _ _)
      · exact (congrArg (Record.append · more) htold').trans (Record.append_assoc _ _ _)
  | error fault t =>
    cases hresult' : x s' with
    | ok a t' =>
      rw [hresult, hresult'] at hanswer
      cases hanswer
    | error fault' t' =>
      rw [hresult, hresult'] at hanswer hlasting
      rw [hresult] at htold
      rw [hresult'] at htold'
      cases hanswer
      exact ⟨rfl, hlasting, told, htold, htold'⟩

end Exec.Isolated

theorem isolated_run (entry : Nat) (arguments : List Item) : Isolated (run entry arguments) := by
  intro s s' h
  have hcleared := cleared_of_lasting h
  have hscript : s'.script = s.script := congrArg (·.script) hcleared
  have hlimits : s'.limits = s.limits := congrArg (·.limits) hcleared
  rw [run_eq, run_eq, hscript, hlimits]
  split
  · -- an entry that is refused leaves the machines as they are
    exact ⟨rfl, h, {}, (Record.append_empty _).symm, (Record.append_empty _).symm⟩
  · rw [start_eq s, start_eq s', hcleared, closed_loop closed_blind, closed_loop closed_blind]
    exact agree_behind _ _ _

theorem isolated_setInitialized :
    Isolated (modify fun state => { state with isInitialized := true }) := by
  intro s s' h
  have hlasting := congrArg
    (fun lasting : Lasting => { lasting with settings := { lasting.settings with isInitialized := true } }) h
  exact ⟨rfl, hlasting, {}, (Record.append_empty _).symm, (Record.append_empty _).symm⟩

theorem isolated_initializeStatics : Isolated initializeStatics := by
  intro s s' h
  have hcleared := cleared_of_lasting h
  have hdone : s'.isInitialized = s.isInitialized := congrArg (·.isInitialized) hcleared
  have hentry : s'.initializer = s.initializer := congrArg (·.initializer) hcleared
  unfold initializeStatics
  rw [get_bind_eq, get_bind_eq, hdone, hentry]
  -- it is decided by what lasts whether there is an initializer to run
  cases s.isInitialized with
  | true => exact Isolated.pure () h
  | false =>
    cases s.initializer with
    | none => exact isolated_setInitialized h
    | some entry => exact Isolated.bind (isolated_run entry []) (fun _ => isolated_setInitialized) h

theorem isolated_invoke (entry : Nat) (arguments : List Item) : Isolated (invoke entry arguments) :=
  .bind isolated_initializeStatics fun _ => isolated_run entry arguments

/-! ## The counter of instructions -/

/-- A machine with its counter, which runs leave wherever it was when they ended. -/
structure Counted where
  state : State
  left : Nat

/-- The result without the counter. -/
def uncounted {α : Type} : EStateM.Result Fault Counted α → EStateM.Result Fault State α
  | .ok a m => .ok a m.state
  | .error fault m => .error fault m.state

namespace Counted

/-- Executes instructions until the run ends or there is nothing left of the counter. -/
def loop (s : State) : Nat → EStateM.Result Fault Counted (List Item)
  | 0 => .error (.executionLimit s.limits.execution) ⟨s, 0⟩
  | left + 1 =>
    match step s with
    | .ok true t => loop t left
    | .ok false t =>
      .ok t.memory.stack.toList ⟨{ t with memory := { t.memory with stack := .empty } }, left⟩
    | .error fault t => .error fault ⟨t, left⟩

/-- A run sets the counter, unless its entry is refused. -/
def run (entry : Nat) (arguments : List Item) (m : Counted) :
    EStateM.Result Fault Counted (List Item) :=
  if m.state.script.size ≤ entry then .error (.invalidEntry entry) m
  else loop (m.state.start entry arguments) m.state.limits.execution

def initializeStatics (m : Counted) : EStateM.Result Fault Counted Unit :=
  match m.state.isInitialized, m.state.initializer with
  | true, _ => .ok () m
  | false, none => .ok () { m with state := { m.state with isInitialized := true } }
  | false, some entry =>
    match run entry [] m with
    | .ok _ m => .ok () { m with state := { m.state with isInitialized := true } }
    | .error fault m => .error fault m

def invoke (entry : Nat) (arguments : List Item) (m : Counted) :
    EStateM.Result Fault Counted (List Item) :=
  match initializeStatics m with
  | .ok _ m => run entry arguments m
  | .error fault m => .error fault m

theorem uncounted_loop (left : Nat) (s : State) : uncounted (loop s left) = Machine.loop left s := by
  induction left generalizing s with
  | zero => rfl
  | succ left ih =>
    rw [loop_succ]
    unfold loop
    rcases step s with ⟨_ | _, t⟩ | ⟨fault, t⟩
    · rfl
    · exact ih t
    · rfl

theorem uncounted_run (entry : Nat) (arguments : List Item) (m : Counted) :
    uncounted (run entry arguments m) = Machine.run entry arguments m.state := by
  rw [run_eq]
  unfold run
  split
  · rfl
  · exact uncounted_loop _ _

theorem uncounted_initializeStatics (m : Counted) :
    uncounted (initializeStatics m) = Machine.initializeStatics m.state := by
  unfold initializeStatics
  cases hdone : m.state.isInitialized with
  | true => exact (initializeStatics_done hdone).symm
  | false =>
    cases hentry : m.state.initializer with
    | none => exact (initializeStatics_none hdone hentry).symm
    | some entry =>
      rw [initializeStatics_some hdone hentry, ← uncounted_run]
      dsimp only
      cases run entry [] m <;> rfl

/-- The counter has no part in what an invocation does. -/
theorem uncounted_invoke (entry : Nat) (arguments : List Item) (m : Counted) :
    uncounted (invoke entry arguments m) = Machine.invoke entry arguments m.state := by
  rw [invoke_eq, ← uncounted_initializeStatics]
  unfold invoke
  cases initializeStatics m with
  | ok _ t => exact uncounted_run entry arguments t
  | error fault t => rfl

end Counted

/-- Invocations of machines that keep the same do the same, whatever earlier runs have left of the stack,
the frames, the address and the counter, and told the outside. -/
theorem isolated_of_lasting {m m' : Counted} (h : m'.state.lasting = m.state.lasting) (entry : Nat)
    (arguments : List Item) : Agree m.state.record m'.state.record
      (uncounted (Counted.invoke entry arguments m)) (uncounted (Counted.invoke entry arguments m')) := by
  rw [Counted.uncounted_invoke, Counted.uncounted_invoke]
  exact isolated_invoke entry arguments h

/-- A script that returns the number of items that it finds on the stack. -/
def counting : State where
  script := #[0x43, 0x40]
  initializer := some 1

/-- The machine of that script behind a run that a fault has ended. -/
def interrupted : State :=
  { counting with
    memory := { stack := .ofList [.null, .boolean true] }
    frames := .ofList [{ returnTo := some 7 }, { returnTo := none }]
    address := 9
    notifications := #[⟨"Started", [.null]⟩]
    logs := #["started"] }

theorem isolated_interrupted : interrupted.lasting = counting.lasting
    ∧ Agree counting.record interrupted.record
      (uncounted (Counted.invoke 0 [.null] ⟨counting, 0⟩))
      (uncounted (Counted.invoke 0 [.null] ⟨interrupted, 5⟩)) := by
  have hlasting : (Counted.mk interrupted 5).state.lasting = (Counted.mk counting 0).state.lasting := rfl
  exact ⟨hlasting, isolated_of_lasting hlasting 0 [.null]⟩

end StackContract.Machine
