import StackContract.Machine.Trace
import StackContract.Proofs.Chains
import StackContract.Proofs.Settings
/-!
# Runs of the initializer

Whatever is requested of a machine, and wherever runs fault, the initializer runs in front of every
request until it has returned, and never again; no requested entry runs before that. Static slots go from
every run to the next one as they are, and they are allocated once at most (`protocol_of_requests`).

How many allocations there were can be told from the machine at the end: there are static slots or there
are none, and no instruction takes them away (`Exec.Steady`).
-/

namespace StackContract.Machine

open Script

/-! ## What runs carry out -/

/-- Whether an event is that of an instruction. -/
def Event.isInstruction : Event → Bool
  | .instruction .. => true
  | _ => false

/-- An instruction that is carried out, with the machine in front of it. -/
structure Carried where
  before : State
  instruction : Located

namespace Carried

/-- What the trace shows of an instruction. -/
def event (c : Carried) : Event :=
  .instruction c.instruction.offset c.instruction.opcode c.before.memory.stack.size

def succeeds (c : Carried) : Bool :=
  match execute c.instruction c.before with
  | .ok _ _ => true
  | .error _ _ => false

/-- The instruction makes room for static fields. -/
def allocates (c : Carried) : Bool :=
  c.instruction.opcode = .initSSlot && c.succeeds

end Carried

/-- The instruction that the next step carries out, if it can be read. -/
def State.carried (s : State) : List Carried :=
  match s.current with
  | .ok i => [⟨s, i⟩]
  | .error _ => []

/-- What is carried out within at most `fuel` instructions. -/
def carriedOut : Nat → State → List Carried
  | 0, _ => []
  | fuel + 1, s => s.carried ++
    match step s with
    | .ok true t => carriedOut fuel t
    | _ => []

/-- What a run is made for. -/
inductive Purpose
  | initializer
  | request
deriving DecidableEq, Repr

/-- A run, with the machine in front of it. -/
structure Run where
  purpose : Purpose
  entry : Nat
  arguments : List Item
  before : State

namespace Run

def result (r : Run) : EStateM.Result Fault State (List Item) :=
  run r.entry r.arguments r.before

def after (r : Run) : State :=
  leftBehind r.result

/-- The run returns, and does not fault. -/
def Returns (r : Run) : Prop :=
  ∃ items t, r.result = .ok items t

/-- A run that prepares the static slots to the end. -/
def Initializes (r : Run) : Prop :=
  r.purpose = .initializer ∧ r.Returns

def instructions (r : Run) : List Carried :=
  if r.before.script.size ≤ r.entry then []
  else carriedOut r.before.limits.execution (r.before.start r.entry r.arguments)

end Run

/-! ## The life of a machine -/

/-- The run of the initializer where it is still to run. -/
def initializerRuns (s : State) : List Run :=
  match s.isInitialized, s.initializer with
  | false, some first => [⟨.initializer, first, [], s⟩]
  | _, _ => []

/-- The runs of an invocation. -/
def State.runs (s : State) (entry : Nat) (arguments : List Item) : List Run :=
  initializerRuns s ++
    match initializeStatics s with
    | .ok _ t => [⟨.request, entry, arguments, t⟩]
    | .error _ _ => []

/-- A request of an entry, for which the host has a heap with the arguments on it. -/
structure Request where
  heap : Heap
  entry : Nat
  arguments : List Item

namespace Request

def prepare (q : Request) (s : State) : State :=
  { s with memory := { s.memory with heap := q.heap } }

def runs (q : Request) (s : State) : List Run :=
  (q.prepare s).runs q.entry q.arguments

def events (q : Request) (s : State) : List Event :=
  (invokeEvents (q.prepare s) q.entry q.arguments).toList

/-- The machine behind a request, whether it is answered or faults. -/
def perform (q : Request) (s : State) : State :=
  leftBehind (invoke q.entry q.arguments (q.prepare s))

end Request

/-- The runs of a machine, request by request. -/
def life (s : State) : List Request → List (List Run)
  | [] => []
  | q :: rest => q.runs s :: life (q.perform s) rest

/-- What a machine does, request by request. -/
def lifeEvents (s : State) : List Request → List (List Event)
  | [] => []
  | q :: rest => q.events s :: lifeEvents (q.perform s) rest

/-- The requests of a machine and its runs of the initializer at `first`. -/
structure Protocol (first : Nat) (s : State) (requests : List Request) : Prop where
  /-- There are no instructions but those of the runs. -/
  complete : (lifeEvents s requests).flatten.filter Event.isInstruction
    = ((life s requests).flatten.flatMap Run.instructions).map Carried.event
  /-- In front of every run for a request, the initializer has returned. -/
  guarded : ∀ done r rest, (life s requests).flatten = done ++ r :: rest → r.purpose = .request →
    ∃ r' ∈ done, r'.Initializes
  /-- Behind a run of the initializer that has returned, there is no other one. -/
  once : (life s requests).flatten.Pairwise fun r r' => r.Initializes → r'.purpose = .request
  /-- Until the initializer has returned, every request starts with a run of it. -/
  repeated : ∀ done runs rest, life s requests = done ++ runs :: rest →
    (∀ r ∈ done.flatten, ¬ r.Initializes) →
    ∃ before, runs.head? = some ⟨.initializer, first, [], before⟩
  /-- Every run finds the static slots that the one in front of it has left. -/
  statics : (life s requests).flatten.IsChain fun r r' => r'.before.statics = r.after.statics
  /-- Static slots are allocated at most once. -/
  allocated : ((life s requests).flatten.flatMap Run.instructions).countP Carried.allocates ≤ 1

/-! ## Instructions and events -/

theorem filter_instructionEvents (s : State) (i : Located) :
    (instructionEvents s i).filter Event.isInstruction = [Carried.event ⟨s, i⟩] := by
  have hservice : (serviceEvents s i).filter Event.isInstruction = [] := by
    unfold serviceEvents
    split
    · split
      · rfl
      · split
        · rfl
        · dsimp only
          split <;> rfl
    · rfl
  unfold instructionEvents
  rw [List.filter_cons_of_pos rfl, hservice]
  rfl

theorem filter_withFault {α : Type} (done : Array Event) (result : EStateM.Result Fault State α) :
    (withFault done result).1.toList.filter Event.isInstruction
      = done.toList.filter Event.isInstruction := by
  cases result with
  | ok => rfl
  | error =>
    show (done.push _).toList.filter _ = _
    rw [Array.toList_push, List.filter_append]
    exact List.append_nil _

theorem filter_appendList (done : Array Event) (events : List Event) :
    (done.appendList events).toList.filter Event.isInstruction
      = done.toList.filter Event.isInstruction ++ events.filter Event.isInstruction := by
  have happend : (done.appendList events).toList = done.toList ++ events := Array.toList_appendList
  rw [happend, List.filter_append]

/-- A step shows the instruction that it carries out, and no other one. -/
theorem filter_observedStep (done : Array Event) (s : State) :
    (observedStep done s).1.toList.filter Event.isInstruction
      = done.toList.filter Event.isInstruction ++ s.carried.map Carried.event := by
  unfold observedStep State.carried
  cases s.current with
  | error fault =>
    dsimp only
    rw [filter_withFault, List.map_nil, List.append_nil]
  | ok i =>
    have hdone : (done.appendList (instructionEvents s i)).toList.filter Event.isInstruction
        = done.toList.filter Event.isInstruction ++ [Carried.event ⟨s, i⟩] := by
      rw [filter_appendList, filter_instructionEvents]
    dsimp only
    cases (execute i).run s with
    | error fault t =>
      dsimp only
      rw [filter_withFault, hdone]
      rfl
    | ok flow t =>
      have hflow : (flowEvents flow).filter Event.isInstruction = [] := by
        cases flow <;> rfl
      dsimp only
      rw [filter_withFault, filter_appendList, hdone, hflow, List.append_nil]
      rfl

theorem filter_loopEvents (done : Array Event) (fuel : Nat) (s : State) :
    (loopEvents done fuel s).toList.filter Event.isInstruction
      = done.toList.filter Event.isInstruction ++ (carriedOut fuel s).map Carried.event := by
  induction fuel generalizing done s with
  | zero =>
    show (done.push _).toList.filter _ = _
    rw [Array.toList_push, List.filter_append]
    rfl
  | succ fuel ih =>
    have hstep : (observedStep done s).2 = step s := observedStep_snd done s
    have hfilter := filter_observedStep done s
    unfold loopEvents carriedOut
    rw [List.map_append, ← List.append_assoc, ← hfilter, ← hstep]
    rcases observedStep done s with ⟨done', ⟨_ | _, t⟩ | ⟨fault, t⟩⟩
    · exact (List.append_nil _).symm
    · exact ih done' t
    · exact (List.append_nil _).symm

def Run.events (r : Run) : List Event :=
  (runEvents r.before r.entry r.arguments).toList

theorem Run.filter_events (r : Run) :
    r.events.filter Event.isInstruction = r.instructions.map Carried.event := by
  unfold events instructions runEvents
  split
  · rfl
  · exact filter_loopEvents _ _ _

/-- An invocation does what its runs do. -/
theorem invokeEvents_eq (s : State) (entry : Nat) (arguments : List Item) :
    (invokeEvents s entry arguments).toList = (s.runs entry arguments).flatMap Run.events := by
  have hfirst : (initializerEvents s).toList = (initializerRuns s).flatMap Run.events := by
    unfold initializerEvents initializerRuns
    cases s.isInitialized with
    | true => rfl
    | false =>
      cases s.initializer with
      | none => rfl
      | some first => exact (List.append_nil _).symm
  unfold invokeEvents State.runs
  rw [Array.toList_append, List.flatMap_append, hfirst]
  show _ = _ ++ (match initializeStatics.run s with | .ok _ t => _ | .error _ _ => _ : List Run).flatMap _
  cases initializeStatics.run s with
  | ok _ t => exact congrArg _ (List.append_nil _).symm
  | error fault t => rfl

theorem filter_lifeEvents (s : State) (requests : List Request) :
    (lifeEvents s requests).flatten.filter Event.isInstruction
      = ((life s requests).flatten.flatMap Run.instructions).map Carried.event := by
  have hruns : ∀ runs : List Run, (runs.flatMap Run.events).filter Event.isInstruction
      = (runs.flatMap Run.instructions).map Carried.event := by
    intro runs
    rw [List.filter_flatMap, List.map_flatMap]
    exact congrArg (List.flatMap · runs) (funext Run.filter_events)
  induction requests generalizing s with
  | nil => rfl
  | cons q rest ih =>
    unfold lifeEvents life
    rw [List.flatten_cons, List.flatten_cons, List.filter_append, List.flatMap_append, List.map_append,
      ih]
    unfold Request.events Request.runs
    rw [invokeEvents_eq, hruns]

/-! ## Static slots -/

/-- How often static slots have been allocated. -/
def State.allocated (s : State) : Nat :=
  s.statics.isSome.toNat

/-- A computation that takes no static slots away. -/
def Exec.Steady {α : Type} (x : Exec α) : Prop :=
  ∀ s, s.allocated ≤ (leftBehind (x s)).allocated

theorem Change.allocated_le {f : State → State} (h : Change f) (s : State) :
    s.allocated ≤ (f s).allocated := by
  cases h with
  | statics slots => exact Bool.toNat_le _
  | slots area slots =>
    dsimp only [State.withSlots]
    split
    · exact Bool.toNat_le _
    · exact Nat.le_refl _
    · exact Nat.le_refl _
    · exact Nat.le_refl _
  | frames | push | notify | log | address | handOut => exact Nat.le_refl _

theorem closed_steady : Exec.Closed Exec.Steady :=
  closed_leftBehind (R := fun s t => s.allocated ≤ t.allocated) (fun _ _ => Nat.le_refl _)
    Change.allocated_le Nat.le_trans

/-- An allocation that succeeds was the first one. -/
theorem allocates_execute (c : Carried) : c.allocates.toNat + c.before.allocated
    ≤ (leftBehind (execute c.instruction c.before)).allocated := by
  cases hallocates : c.allocates with
  | false =>
    rw [Bool.toNat_false, Nat.zero_add]
    exact closed_execute closed_steady _ _
  | true =>
    unfold Carried.allocates Carried.succeeds at hallocates
    obtain ⟨hop, hsucceeds⟩ := (Bool.and_eq_true _ _).mp hallocates
    have hoperation : operation c.instruction.opcode = .initStatics := by
      rw [of_decide_eq_true hop]
      rfl
    rw [execute_initStatics hoperation] at hsucceeds ⊢
    by_cases hsome : c.before.statics.isSome = true
    · rw [if_pos hsome] at hsucceeds
      cases hsucceeds
    · rw [if_neg hsome]
      unfold State.allocated
      rw [Bool.not_eq_true] at hsome
      rw [hsome]
      exact Nat.le_refl _

theorem allocates_step (s : State) : s.carried.countP Carried.allocates + s.allocated
    ≤ (leftBehind (step s)).allocated := by
  unfold State.carried
  cases hcurrent : s.current with
  | error fault =>
    rw [step_of_current_error hcurrent]
    exact Nat.le_of_eq (Nat.zero_add _)
  | ok i =>
    have hexecute := allocates_execute ⟨s, i⟩
    rw [step_eq hcurrent]
    dsimp only at hexecute ⊢
    have hcount : [Carried.mk s i].countP Carried.allocates = (Carried.mk s i).allocates.toNat := by
      cases hallocates : (Carried.mk s i).allocates <;> simp [hallocates]
    rw [hcount]
    cases hresult : execute i s with
    | error fault t =>
      rw [hresult] at hexecute
      exact hexecute
    | ok flow t =>
      rw [hresult] at hexecute
      exact Nat.le_trans hexecute (closed_settle closed_steady i flow t)

theorem allocates_loop (fuel : Nat) (s : State) :
    (carriedOut fuel s).countP Carried.allocates + s.allocated ≤ (leftBehind (loop fuel s)).allocated := by
  induction fuel generalizing s with
  | zero => exact Nat.le_of_eq (Nat.zero_add _)
  | succ fuel ih =>
    have hstep := allocates_step s
    unfold carriedOut
    rw [loop_succ, List.countP_append]
    rcases hresult : step s with ⟨_ | _, t⟩ | ⟨fault, t⟩
    · rw [hresult] at hstep
      exact hstep
    · have hrest := ih t
      rw [hresult] at hstep
      have hthere : s.carried.countP Carried.allocates + s.allocated ≤ t.allocated := hstep
      dsimp only
      omega
    · rw [hresult] at hstep
      exact hstep

/-- A run allocates static slots only where there were none, and leaves them there. -/
theorem Run.allocates_le (r : Run) :
    r.instructions.countP Carried.allocates + r.before.allocated ≤ r.after.allocated := by
  unfold instructions after result
  rw [run_eq]
  split
  · exact Nat.le_of_eq (Nat.zero_add _)
  · exact allocates_loop _ _

/-- Runs that hand on static slots, from a machine to another one. -/
inductive Linked : State → List Run → State → Prop
  | nil {s t : State} (h : t.statics = s.statics) : Linked s [] t
  | cons {s t : State} {r : Run} {rest : List Run} (h : r.before.statics = s.statics)
    (hrest : Linked r.after rest t) : Linked s (r :: rest) t

namespace Linked

variable {s t u : State} {runs runs' : List Run}

theorem of_statics (h : Linked s runs t) {s' : State} (hs : s'.statics = s.statics) :
    Linked s' runs t := by
  cases h with
  | nil h => exact .nil (h.trans hs.symm)
  | cons h hrest => exact .cons (h.trans hs.symm) hrest

theorem append (h : Linked s runs t) (h' : Linked t runs' u) : Linked s (runs ++ runs') u := by
  induction h with
  | nil h => exact h'.of_statics h.symm
  | cons h _ ih => exact .cons h (ih h')

theorem isChain (h : Linked s runs t) : runs.IsChain fun r r' => r'.before.statics = r.after.statics := by
  induction h with
  | nil => exact .nil
  | cons h hrest ih =>
    cases hrest with
    | nil => exact .singleton _
    | cons h' _ => exact .cons_cons h' ih

theorem allocates_le (h : Linked s runs t) :
    (runs.flatMap Run.instructions).countP Carried.allocates + s.allocated ≤ t.allocated := by
  induction h with
  | @nil s t h =>
    unfold State.allocated
    rw [h]
    exact Nat.le_of_eq (Nat.zero_add _)
  | @cons s t r rest h _ ih =>
    have hrun := r.allocates_le
    have hstatics : r.before.allocated = s.allocated := by
      unfold State.allocated
      rw [h]
    rw [List.flatMap_cons, List.countP_append]
    omega

end Linked

/-! ## Requests -/

/-- The runs of a request, with whether the initializer has returned in front of it and behind it. -/
inductive Serves (first : Nat) : Bool → Bool → List Run → Prop
  /-- The initializer has returned before. -/
  | ready {r : Run} (hr : r.purpose = .request) : Serves first true true [r]
  /-- The initializer faults, and the request with it. -/
  | failed {before : State} (h : ¬ Run.Returns ⟨.initializer, first, [], before⟩) :
    Serves first false false [⟨.initializer, first, [], before⟩]
  | prepared {before : State} {r : Run} (h : Run.Returns ⟨.initializer, first, [], before⟩)
    (hr : r.purpose = .request) : Serves first false true [⟨.initializer, first, [], before⟩, r]

/-- A request, with its runs and the machine behind it. -/
structure Served (first : Nat) (s : State) (runs : List Run) (t : State) : Prop where
  initializer : t.initializer = some first
  serves : Serves first s.isInitialized t.isInitialized runs
  linked : Linked s runs t

section

variable {first : Nat} {s : State}

theorem Run.initializer_after (r : Run) : r.after.initializer = r.before.initializer :=
  congrArg Settings.initializer (run_keeps r.entry r.arguments r.before)

theorem Run.isInitialized_after (r : Run) : r.after.isInitialized = r.before.isInitialized :=
  congrArg Settings.isInitialized (run_keeps r.entry r.arguments r.before)

theorem served_ready (hfirst : s.initializer = some first) (hdone : s.isInitialized = true) (entry : Nat)
    (arguments : List Item) :
    Served first s (s.runs entry arguments) (leftBehind (invoke entry arguments s)) := by
  have hruns : s.runs entry arguments = [⟨.request, entry, arguments, s⟩] := by
    unfold State.runs initializerRuns
    rw [hdone, initializeStatics_done hdone]
    rfl
  have hafter : leftBehind (invoke entry arguments s) = Run.after ⟨.request, entry, arguments, s⟩ := by
    rw [invoke_eq, initializeStatics_done hdone]
    rfl
  rw [hruns, hafter]
  refine ⟨(Run.initializer_after _).trans hfirst, ?_, .cons rfl (.nil rfl)⟩
  rw [Run.isInitialized_after, hdone]
  exact .ready rfl

theorem served_failed (hfirst : s.initializer = some first) (hdone : s.isInitialized = false)
    (h : ¬ Run.Returns ⟨.initializer, first, [], s⟩) (entry : Nat) (arguments : List Item) :
    Served first s (s.runs entry arguments) (leftBehind (invoke entry arguments s)) := by
  obtain ⟨fault, t, hfault⟩ : ∃ fault t, run first [] s = .error fault t := by
    cases hresult : run first [] s with
    | ok items t => exact absurd ⟨items, t, hresult⟩ h
    | error fault t => exact ⟨fault, t, rfl⟩
  have hinitialize := initializeStatics_some hdone hfirst
  rw [hfault] at hinitialize
  have hruns : s.runs entry arguments = [⟨.initializer, first, [], s⟩] := by
    unfold State.runs initializerRuns
    rw [hdone, hfirst, hinitialize]
    rfl
  have hafter : leftBehind (invoke entry arguments s) = Run.after ⟨.initializer, first, [], s⟩ := by
    unfold Run.after Run.result
    rw [invoke_eq, hinitialize, hfault]
  rw [hruns, hafter]
  refine ⟨(Run.initializer_after _).trans hfirst, ?_, .cons rfl (.nil rfl)⟩
  rw [Run.isInitialized_after, hdone]
  exact .failed h

theorem served_prepared (hfirst : s.initializer = some first) (hdone : s.isInitialized = false)
    (h : Run.Returns ⟨.initializer, first, [], s⟩) (entry : Nat) (arguments : List Item) :
    Served first s (s.runs entry arguments) (leftBehind (invoke entry arguments s)) := by
  obtain ⟨items, t, hreturned⟩ : ∃ items t, run first [] s = .ok items t := h
  have hinitialize := initializeStatics_some hdone hfirst
  rw [hreturned] at hinitialize
  have hfirstAfter : Run.after ⟨.initializer, first, [], s⟩ = t := by
    unfold Run.after Run.result
    rw [hreturned]
    rfl
  have hinitializer : t.initializer = some first :=
    (congrArg Settings.initializer (settings_of_initializeStatics hinitialize)).trans hfirst
  have hruns : s.runs entry arguments = [⟨.initializer, first, [], s⟩,
      ⟨.request, entry, arguments, { t with isInitialized := true }⟩] := by
    unfold State.runs initializerRuns
    rw [hdone, hfirst, hinitialize]
    rfl
  have hafter : leftBehind (invoke entry arguments s)
      = Run.after ⟨.request, entry, arguments, { t with isInitialized := true }⟩ := by
    rw [invoke_eq, hinitialize]
    rfl
  rw [hruns, hafter]
  refine ⟨(Run.initializer_after _).trans hinitializer, ?_, .cons rfl (.cons ?_ (.nil rfl))⟩
  · rw [Run.isInitialized_after, hdone]
    exact .prepared ⟨items, t, hreturned⟩ rfl
  · rw [hfirstAfter]

theorem served_request (hfirst : s.initializer = some first) (q : Request) :
    Served first s (q.runs s) (q.perform s) := by
  have hprepared : (q.prepare s).initializer = some first := hfirst
  have hserved : Served first (q.prepare s) (q.runs s) (q.perform s) := by
    cases hdone : (q.prepare s).isInitialized with
    | true => exact served_ready hprepared hdone _ _
    | false =>
      by_cases h : Run.Returns ⟨.initializer, first, [], q.prepare s⟩
      · exact served_prepared hprepared hdone h _ _
      · exact served_failed hprepared hdone h _ _
  exact ⟨hserved.initializer, hserved.serves, hserved.linked.of_statics rfl⟩

end

/-! ## All requests -/

/-- The runs of requests, with whether the initializer has returned in front of them. -/
inductive Serving (first : Nat) : Bool → List (List Run) → Prop
  | nil {b : Bool} : Serving first b []
  | cons {b b' : Bool} {runs : List Run} {lives : List (List Run)} (h : Serves first b b' runs)
    (hrest : Serving first b' lives) : Serving first b (runs :: lives)

theorem serving_life {first : Nat} {s : State} (hfirst : s.initializer = some first)
    (requests : List Request) : Serving first s.isInitialized (life s requests)
      ∧ ∃ t, Linked s (life s requests).flatten t := by
  induction requests generalizing s with
  | nil => exact ⟨.nil, s, .nil rfl⟩
  | cons q rest ih =>
    have hserved := served_request hfirst q
    obtain ⟨hserving, t, hlinked⟩ := ih hserved.initializer
    exact ⟨.cons hserved.serves hserving, t, hserved.linked.append hlinked⟩

namespace Serving

variable {first : Nat} {b : Bool} {lives : List (List Run)}

/-- Behind a run of the initializer that has returned, all runs are for requests. -/
theorem requests (h : Serving first b lives) (hb : b = true) :
    ∀ r ∈ lives.flatten, r.purpose = .request := by
  induction h with
  | nil => exact fun r hr => absurd hr List.not_mem_nil
  | cons h _ ih =>
    rw [List.flatten_cons]
    cases h with
    | ready hr => exact List.forall_mem_cons.mpr ⟨hr, ih rfl⟩
    | failed | prepared => cases hb

theorem guarded (h : Serving first b lives) (hb : b = false) {done rest : List Run} {r : Run}
    (hsplit : lives.flatten = done ++ r :: rest) (hr : r.purpose = .request) :
    ∃ r' ∈ done, r'.Initializes := by
  induction h generalizing done with
  | nil => exact absurd hsplit (by simp)
  | cons h _ ih =>
    rw [List.flatten_cons] at hsplit
    cases h with
    | ready => cases hb
    | failed =>
      cases done with
      | nil =>
        cases hsplit
        cases hr
      | cons r' done =>
        obtain ⟨-, hrest⟩ := List.cons.inj hsplit
        obtain ⟨r'', hmem, hinitializes⟩ := ih rfl hrest
        exact ⟨r'', List.mem_cons_of_mem _ hmem, hinitializes⟩
    | prepared hreturns =>
      cases done with
      | nil =>
        cases hsplit
        cases hr
      | cons r' done =>
        obtain ⟨rfl, -⟩ := List.cons.inj hsplit
        exact ⟨_, List.mem_cons_self, rfl, hreturns⟩

theorem once (h : Serving first b lives) :
    lives.flatten.Pairwise fun r r' => r.Initializes → r'.purpose = .request := by
  induction h with
  | nil => exact .nil
  | cons h hrest ih =>
    rw [List.flatten_cons]
    cases h with
    | ready hr => exact .cons (fun r' hr' _ => hrest.requests rfl r' hr') ih
    | failed hfaults => exact .cons (fun r' _ hinitializes => absurd hinitializes.2 hfaults) ih
    | prepared _ hr =>
      have hbehind := hrest.requests rfl
      refine .cons (fun r' hr' _ => ?_) (.cons (fun r' hr' _ => hbehind r' hr') ih)
      rcases List.mem_cons.mp hr' with rfl | hr'
      · exact hr
      · exact hbehind r' hr'

theorem repeated (h : Serving first b lives) (hb : b = false) {done rest : List (List Run)}
    {runs : List Run} (hsplit : lives = done ++ runs :: rest)
    (hdone : ∀ r ∈ done.flatten, ¬ r.Initializes) :
    ∃ before, runs.head? = some ⟨.initializer, first, [], before⟩ := by
  induction h generalizing done with
  | nil => exact absurd hsplit (by simp)
  | cons h _ ih =>
    cases done with
    | nil =>
      cases hsplit
      cases h with
      | ready => cases hb
      | failed | prepared => exact ⟨_, rfl⟩
    | cons runs' done =>
      obtain ⟨rfl, hrest⟩ := List.cons.inj hsplit
      rw [List.flatten_cons] at hdone
      cases h with
      | ready => cases hb
      | failed => exact ih rfl hrest fun r hr => hdone r (List.mem_append_right _ hr)
      | prepared hreturns => exact absurd ⟨rfl, hreturns⟩ (hdone _ (List.mem_append_left _ List.mem_cons_self))

end Serving

/-- Whatever is requested of a new machine, its initializer runs until it has returned, and the static
slots are its own. -/
theorem protocol_of_requests (script : Array UInt8) (first : Nat) (limits : Limits)
    (requests : List Request) : Protocol first { script, initializer := some first, limits } requests := by
  obtain ⟨hserving, t, hlinked⟩ :=
    serving_life (s := { script, initializer := some first, limits }) rfl requests
  refine ⟨filter_lifeEvents _ _, fun _ _ _ => hserving.guarded rfl, hserving.once,
    fun _ _ _ => hserving.repeated rfl, hlinked.isChain, ?_⟩
  have hallocates := hlinked.allocates_le
  have hle : t.allocated ≤ 1 := Bool.toNat_le _
  exact Nat.le_trans (Nat.le_add_right _ _) (Nat.le_trans hallocates hle)

/-- A machine whose initializer aborts behind the allocation of a slot. -/
def aborting : State where
  script := #[0x56, 0x01, 0x38, 0x40]
  initializer := some 0
  limits := { execution := 8 }

-- the initializer runs again, and finds that there is a slot
example : (life aborting [⟨{}, 3, []⟩, ⟨{}, 3, []⟩]).map
      (·.map fun r => (r.purpose, r.instructions.map fun c => (c.instruction.opcode, c.succeeds)))
    = [[(.initializer, [(.initSSlot, true), (.abort, false)])], [(.initializer, [(.initSSlot, false)])]] := by
  decide +kernel

end StackContract.Machine
