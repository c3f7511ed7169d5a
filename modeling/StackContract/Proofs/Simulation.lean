import StackContract.Proofs.Lockstep
/-!
# Runs of machines in lockstep

From corresponding places, the instructions of two machines have alike outcomes (`execute_alike`), so
steps do (`step_alike`) and whole runs do (`loop_alike`): both return alike items, or both fault with
the same kind of fault, which is no structural one.
-/

namespace StackContract.Contract

open Assembly Script Lowering Machine

variable {pairing : Pairing} {assigned : Prop} {link : Link} {s s' : State}

/-! ## Instructions of bodies -/

namespace Working

variable {spot spot' : Spot} {rest rest' : List Directive}

theorem plain {op : Opcode} (hplain : isPlain op = true)
    (h : Working pairing assigned link spot spot' (.op op) (.op op) rest rest' s s') :
    Agree pairing assigned link (spot.base :: spot.calls) (spot'.base :: spot'.calls) s s' := by
  rcases operation_of_isPlain hplain with ⟨simple, hop, hfalls, hoperand⟩ | hop | hop | ⟨hop, hfalls⟩
  · exact h.simple hop (hoperand _) hfalls
  · exact h.ret hop
  · exact h.raise hop
  · exact h.callPointer hop hfalls

/-- A directive that both programs have. -/
theorem common {d : Directive} (hd : Common spot.routine.scope d) (hsize : 0 < d.size)
    (h : Working pairing assigned link spot spot' d d rest rest' s s') :
    Agree pairing assigned link (spot.base :: spot.calls) (spot'.base :: spot'.calls) s s' := by
  have hkind : ∀ (op : Opcode) (kind : ItemKind), operandKind ⟨op, [kind.byte]⟩ = .ok kind := by
    intro op kind
    have hfound : [kind.byte].head?.bind ItemKind.ofByte? = some kind := ItemKind.ofByte?_byte kind
    unfold operandKind
    dsimp only
    rw [hfound]
  cases hd with
  | mark source => exact absurd hsize (Nat.lt_irrefl 0)
  | plain hplain => exact h.plain hplain
  | pushInteger v =>
    have hop := simpleOp?_pushInteger v
    exact h.simple (operation_of_simple hop) trivial (isTerminator_of_simple hop)
  | pushBoolean b => cases b <;> exact h.simple rfl trivial rfl
  | pushData data =>
    have hop := simpleOp?_pushData data
    exact h.simple (operation_of_simple hop) trivial (isTerminator_of_simple hop)
  | slot place isLoad hindex =>
    cases isLoad
    · exact h.storeSlot place hindex
    · exact h.loadSlot place hindex
  | service name => exact h.service rfl rfl
  | convert kind => exact h.simple rfl ⟨kind, hkind _ kind⟩ rfl
  | newArray kind => exact h.simple rfl trivial rfl
  | jump hop target => exact h.jump hop
  | call hname => exact h.call hname
  | pushAddress hname => exact h.pushAddress hname

end Working

/-- What the second machine needs to know to load a constant of the first one from its slot. -/
def ConstantsThere (slots : SlotLink) (s : State) : Prop :=
  ∀ ⦃v slot⦄, slots.constants v slot →
    s.current = .ok ⟨(Access.mk .static true slot).instruction, s.address⟩ → Holds s.statics slot v

/-- The instructions of bodies have alike outcomes. -/
theorem Working.agree {spot spot' : Spot} {d d' : Directive} {rest rest' : List Directive}
    (h : Standing pairing assigned link spot spot' d d' rest rest' s s')
    (hready : StaticsReady pairing.slots link s.statics s'.statics)
    (hsized : Sized spot.routine.scope spot.frame)
    (hcode : CodeAlike pairing.slots spot.routine.scope (d :: rest) (d' :: rest'))
    (hsize : 0 < d.size) (hconstants : ConstantsThere pairing.slots s') :
    Agree pairing assigned link (spot.base :: spot.calls) (spot'.base :: spot'.calls) s s' := by
  cases hcode with
  | skip hrest => exact Working.skip ⟨h, hready, hsized, hrest⟩
  | cons hd hrest =>
    have hworking : Working pairing assigned link spot spot' d d' rest rest' s s' :=
      ⟨h, hready, hsized, hrest⟩
    cases hd with
    | common hd => exact hworking.common hd hsize
    | static isLoad hslots =>
      cases isLoad
      · exact hworking.storeStatic hslots
      · exact hworking.loadStatic hslots
    | constant hconstant hpushes =>
      exact hworking.constant hpushes (hconstants hconstant h.current')

/-! ## Prologues -/

namespace Standing

variable {spot spot' : Spot} {rest rest' : List Directive}

/-- Slots are made in both methods, with alike arguments. -/
theorem initSlots (h : Standing pairing assigned link spot spot'
      (.instruction ⟨.initSlot, [spot.routine.scope.locals, spot.routine.scope.params]⟩)
      (.instruction ⟨.initSlot, [spot.routine.scope.locals, spot.routine.scope.params]⟩) rest rest'
      s s')
    (hready : StaticsReady pairing.slots link s.statics s'.statics)
    (hcode : CodeAlike pairing.slots spot.routine.scope rest rest') :
    Agree pairing assigned link (spot.base :: spot.calls) (spot'.base :: spot'.calls) s s' := by
  refine ⟨_, _, h.current, h.current', ?_⟩
  have hslots := execute_initSlots (i := ⟨⟨.initSlot, [spot.routine.scope.locals,
    spot.routine.scope.params]⟩, s.address⟩) rfl h.frames
  have hslots' := execute_initSlots (i := ⟨⟨.initSlot, [spot.routine.scope.locals,
    spot.routine.scope.params]⟩, s'.address⟩) rfl h.frames'
  have hpop : ResultsAlike link ItemsAlike
      (Eval.popMany spot.routine.scope.params.toNat s.address s.memory)
      (Eval.popMany spot.routine.scope.params.toNat s'.address s'.memory) :=
    Eval.Alike.popMany _ h.kept.memory
  generalize hresult : Eval.popMany spot.routine.scope.params.toNat s.address s.memory = result,
    hresult' : Eval.popMany spot.routine.scope.params.toNat s'.address s'.memory = result' at hpop
  cases hpop with
  | error hle hfault hmemory =>
    rw [hslots.1 hresult, hslots'.1 hresult']
    exact .error hle hfault.1 (isStructural_of_isOperand hfault.2) (h.kept.withMemory hle hmemory)
  | @ok grown items items' m m' hle hitems hmemory =>
    obtain ⟨frames, hframes, hexecute⟩ := hslots.2 hresult
    obtain ⟨frames', hframes', hexecute'⟩ := hslots'.2 hresult'
    rw [hexecute, hexecute']
    have hready' := StaticsReady.mono hle hready
    refine .ok hle ⟨(h.kept.withMemory hle hmemory).withFrames frames frames', ?_⟩
    show ControlAlike _ _ _ (some _) (some _) _ _ frames.toList frames'.toList
    rw [hframes, hframes']
    refine h.next hle (Instruction.size_pos _) rfl (.body hready' trivial hcode) (fun _ => ⟨?_, ?_⟩)
      ⟨?_, hitems⟩ rfl rfl
    · exact Array.size_replicate
    · exact (Eval.popMany_eq_ok hresult).1
    · show ItemsAlike grown (Array.replicate _ Item.null).toList (Array.replicate _ Item.null).toList
      rw [Array.toList_replicate]
      exact ItemsAlike.replicate .null _

/-- Both programs make room for static fields, or have done so before. -/
theorem initStatics {n n' : UInt8} (h : Standing pairing assigned link spot spot'
      (.instruction ⟨.initSSlot, [n]⟩) (.instruction ⟨.initSSlot, [n']⟩) rest rest' s s')
    (htogether : pairing.slots.together)
    (hbounds : ∀ {t t'}, pairing.slots.slots t t' → t.toNat < n.toNat ∧ t'.toNat < n'.toNat)
    (hrest : RestAlike pairing.slots spot.routine.scope (Sized spot.routine.scope spot.frame) True
      rest rest') :
    Agree pairing assigned link (spot.base :: spot.calls) (spot'.base :: spot'.calls) s s' := by
  refine ⟨_, _, h.current, h.current', ?_⟩
  -- either both have their static slots or neither has
  have hsame := h.kept.together htogether
  rw [execute_initStatics rfl, execute_initStatics rfl]
  by_cases hsome : s.statics.isSome = true
  · rw [if_pos hsome, if_pos (hsame ▸ hsome)]
    exact .error link.le_refl rfl rfl h.kept
  · rw [if_neg hsome, if_neg (hsame ▸ hsome)]
    have hnull : ∀ {n slot : UInt8}, slot.toNat < n.toNat →
        Holds (some (Array.replicate n.toNat Item.null)) slot .null := by
      intro n slot hlt
      refine ⟨_, rfl, ?_⟩
      rw [Array.getElem?_replicate, if_pos hlt]
    have hready : StaticsReady pairing.slots link (some (Array.replicate n.toNat Item.null))
        (some (Array.replicate n'.toNat Item.null)) := by
      intro t t' ht
      exact ⟨.null, .null, hnull (hbounds ht).1, hnull (hbounds ht).2, .null⟩
    refine .ok link.le_refl ⟨⟨h.kept.settings, h.kept.settings', h.kept.addresses, h.kept.memory,
      fun _ => rfl, .inr hready, ?_, h.kept.notifications, h.kept.logs⟩, ?_⟩
    · -- a constant in its slot is there only if the slots are
      intro hassigned v slot hconstant
      obtain ⟨items, hstatics, -⟩ := h.kept.constants hassigned hconstant
      rw [hsame, hstatics] at hsome
      exact absurd rfl hsome
    · show ControlAlike _ _ _ (some _) (some _) _ _ s.frames.toList s'.frames.toList
      rw [h.frames, h.frames']
      exact h.next link.le_refl (Instruction.size_pos _) rfl (hrest.mono (fun _ => hready) id) id
        h.alike rfl rfl

end Standing

/-! ## Instructions, steps and runs -/

/-- From corresponding places, instructions have alike outcomes. -/
theorem execute_alike {calls calls' : List Nat}
    (h : StatesAlike pairing assigned link (some s.address) (some s'.address) calls calls' s s')
    (hconstants : ConstantsThere pairing.slots s') : Agree pairing assigned link calls calls' s s' := by
  obtain ⟨hkept, hcontrol⟩ := h
  generalize ha : s.address = a, ha' : s'.address = a', hf : s.frames.toList = f,
    hf' : s'.frames.toList = f' at hcontrol
  cases hcontrol with
  | @running _ b b' _ _ frame frame' calls calls' frames frames' hsite hbelow =>
    obtain ⟨htwins, hcode, hcode', hpos, hrest, hframes⟩ := hsite
    rename_i routine routine' before rest before' rest'
    -- marks in front of the instructions have no extent, so they can be passed
    have hstanding : ∀ {marks marks' : List Directive} {d d' : Directive} {after after' : List Directive},
        extent marks = 0 → extent marks' = 0 → rest = marks ++ d :: after →
        rest' = marks' ++ d' :: after' → Standing pairing assigned link
          ⟨b, routine, before ++ marks, frame, frames, calls⟩
          ⟨b', routine', before' ++ marks', frame', frames', calls'⟩ d d' after after' s s' := by
      rintro marks marks' d d' after after' hmarks hmarks' rfl rfl
      refine ⟨hkept, htwins, ?_, ?_, ?_, ?_, hf, hf', hframes, hbelow⟩
      · rw [hcode, List.append_assoc]
      · rw [hcode', List.append_assoc]
      · rw [ha, extent_append, hmarks, Nat.add_zero]
      · rw [ha', extent_append, hmarks', Nat.add_zero]
    have hnone : extent [] = 0 := rfl
    -- what is at the site: a body, or one of the two instructions of a prologue
    cases hrest with
    | body hready hsized halike =>
      obtain ⟨marks, d, after, marks', d', after', hsplit, hsplit', hmarks, hmarks', hsize, -,
        hfirst⟩ := halike.first hpos
      exact Working.agree (hstanding hmarks hmarks' hsplit hsplit') hready hsized hfirst hsize
        hconstants
    | slots hready halike =>
      exact (hstanding (hnone : extent [] = 0) hnone rfl rfl).initSlots hready halike
    | statics htogether hbounds hafter =>
      exact (hstanding (hnone : extent [] = 0) hnone rfl rfl).initStatics htogether hbounds hafter

/-- Results of corresponding steps. -/
inductive StepsAlike (pairing : Pairing) (assigned : Prop) (link : Link) :
    EStateM.Result Fault State Bool → EStateM.Result Fault State Bool → Prop
  | goesOn {grown : Link} {calls calls' : List Nat} {t t' : State} (hle : link ≤ grown)
    (h : StatesAlike pairing assigned grown (some t.address) (some t'.address) calls calls' t t') :
    StepsAlike pairing assigned link (.ok true t) (.ok true t')
  | returned {grown : Link} {t t' : State} (hle : link ≤ grown)
    (h : KeptAlike pairing assigned grown t t')
    (hready : StaticsReady pairing.slots grown t.statics t'.statics) :
    StepsAlike pairing assigned link (.ok false t) (.ok false t')
  | error {grown : Link} {fault fault' : Fault} {t t' : State} (hle : link ≤ grown)
    (hkind : fault.kind = fault'.kind) (hstructural : fault.kind.isStructural = false)
    (h : KeptAlike pairing assigned grown t t') :
    StepsAlike pairing assigned link (.error fault t) (.error fault' t')

theorem KeptAlike.withAddress (h : KeptAlike pairing assigned link s s') (a a' : Nat) :
    KeptAlike pairing assigned link { s with address := a } { s' with address := a' } :=
  ⟨h.settings, h.settings', h.addresses, h.memory, h.together, h.statics, h.constants,
    h.notifications, h.logs⟩

/-- Alike machines have reached the limit on the stack both or not at all. -/
theorem KeptAlike.stack_iff (h : KeptAlike pairing assigned link s s') :
    s.limits.stack < s.memory.stack.size ↔ s'.limits.stack < s'.memory.stack.size := by
  have hlimits : s.limits = s'.limits := (congrArg Settings.limits h.settings).trans
    (pairing.limits.trans (congrArg Settings.limits h.settings').symm)
  rw [s.memory.stack.size_eq, s'.memory.stack.size_eq, h.memory.stack.length_eq, hlimits]

/-- What follows on alike outcomes of instructions is alike. -/
theorem settle_alike {i i' : Located} {flow flow' : Flow} {calls calls' : List Nat}
    (h : StatesAlike pairing assigned link (flow.destination i) (flow'.destination i') calls calls'
      s s') : StepsAlike pairing assigned link (settle i flow s) (settle i' flow' s') := by
  rw [settle_eq, settle_eq]
  by_cases hstack : s.limits.stack < s.memory.stack.size
  · rw [if_pos hstack, if_pos (h.kept.stack_iff.mp hstack)]
    exact .error link.le_refl rfl rfl h.kept
  · rw [if_neg hstack, if_neg (mt h.kept.stack_iff.mpr hstack)]
    obtain ⟨hkept, hcontrol⟩ := h
    generalize flow.destination i = a, flow'.destination i' = a', hf : s.frames.toList = f,
      hf' : s'.frames.toList = f' at hcontrol
    cases hcontrol with
    | finished hready => exact .returned link.le_refl hkept hready
    | @running _ b b' a a' frame frame' calls calls' frames frames' hsite hbelow =>
      -- where control goes on, the slots that are ready are ready still
      have hthere : ControlAlike pairing link (StaticsReady pairing.slots link s.statics s'.statics)
          (some a) (some a') (b :: calls) (b' :: calls') s.frames.toList s'.frames.toList := by
        rw [hf, hf']
        exact .running hsite hbelow
      exact .goesOn link.le_refl ⟨hkept.withAddress a a', hthere⟩

/-- From corresponding places, steps lead to corresponding places, or end alike. -/
theorem step_alike {calls calls' : List Nat}
    (h : StatesAlike pairing assigned link (some s.address) (some s'.address) calls calls' s s')
    (hconstants : ConstantsThere pairing.slots s') :
    StepsAlike pairing assigned link (step s) (step s') := by
  obtain ⟨i, i', hcurrent, hcurrent', houtcomes⟩ := execute_alike h hconstants
  rw [step_eq hcurrent, step_eq hcurrent']
  generalize execute i s = result, execute i' s' = result' at houtcomes
  cases houtcomes with
  | error hle hkind hstructural hkept => exact .error hle hkind hstructural hkept
  | @ok grown flow flow' t t' hle hstates =>
    have hsettle : StepsAlike pairing assigned grown (settle i flow t) (settle i' flow' t') :=
      settle_alike hstates
    show StepsAlike pairing assigned link (settle i flow t) (settle i' flow' t')
    generalize settle i flow t = result, settle i' flow' t' = result' at hsettle
    cases hsettle with
    | goesOn hle' h => exact .goesOn (Link.le_trans hle hle') h
    | returned hle' h hready => exact .returned (Link.le_trans hle hle') h hready
    | error hle' hkind hstructural h => exact .error (Link.le_trans hle hle') hkind hstructural h

/-- Results of corresponding runs. -/
inductive RunsAlike (pairing : Pairing) (assigned : Prop) (link : Link) :
    EStateM.Result Fault State (List Item) → EStateM.Result Fault State (List Item) → Prop
  | ok {grown : Link} {items items' : List Item} {t t' : State} (hle : link ≤ grown)
    (hitems : ItemsAlike grown items items') (h : KeptAlike pairing assigned grown t t')
    (hready : StaticsReady pairing.slots grown t.statics t'.statics) :
    RunsAlike pairing assigned link (.ok items t) (.ok items' t')
  | error {grown : Link} {fault fault' : Fault} {t t' : State} (hle : link ≤ grown)
    (hkind : fault.kind = fault'.kind) (hstructural : fault.kind.isStructural = false)
    (h : KeptAlike pairing assigned grown t t') :
    RunsAlike pairing assigned link (.error fault t) (.error fault' t')

theorem RunsAlike.mono {grown : Link} (hle : link ≤ grown)
    {result result' : EStateM.Result Fault State (List Item)}
    (h : RunsAlike pairing assigned grown result result') :
    RunsAlike pairing assigned link result result' := by
  cases h with
  | ok hle' hitems h hready => exact .ok (Link.le_trans hle hle') hitems h hready
  | error hle' hkind hstructural h => exact .error (Link.le_trans hle hle') hkind hstructural h

/-- From corresponding places, runs end alike. -/
theorem loop_alike (hassigned : ∀ {v slot}, pairing.slots.constants v slot → assigned) (fuel : Nat)
    {calls calls' : List Nat}
    (h : StatesAlike pairing assigned link (some s.address) (some s'.address) calls calls' s s') :
    RunsAlike pairing assigned link (loop fuel s) (loop fuel s') := by
  -- on the fuel; the link of the two heaps grows from step to step
  induction fuel generalizing link s s' calls calls' with
  | zero => exact .error link.le_refl rfl rfl h.kept
  | succ fuel ih =>
    have hstep := step_alike h fun _ _ hconstant _ => h.kept.constants (hassigned hconstant) hconstant
    show RunsAlike pairing assigned link ((step >>= _) s) ((step >>= _) s')
    rw [bind_apply, bind_apply]
    generalize step s = result, step s' = result' at hstep
    cases hstep with
    | goesOn hle hstates => exact (ih hstates).mono hle
    | error hle hkind hstructural hkept => exact .error hle hkind hstructural hkept
    | returned hle hkept hready =>
      exact .ok hle hkept.memory.stack
        (hkept.withMemory (Link.le_refl _) ⟨.nil, hkept.memory.heap⟩) hready

/-- At corresponding entries, machines are in corresponding places. -/
theorem start_alike (h : KeptAlike pairing assigned link s s') {c c' : Nat} {routine routine' : Routine}
    (htwins : pairing.twins c routine c' routine')
    (hrest : RestAlike pairing.slots routine.scope (Sized routine.scope { returnTo := none })
      (StaticsReady pairing.slots link s.statics s'.statics) routine.code routine'.code)
    {arguments arguments' : List Item} (harguments : ItemsAlike link arguments arguments') :
    StatesAlike pairing assigned link (some c) (some c') [c] [c'] (s.start c arguments)
      (s'.start c' arguments') := by
  have hkept : KeptAlike pairing assigned link (s.start c arguments) (s'.start c' arguments') :=
    ⟨h.settings, h.settings', h.addresses, ⟨harguments, h.memory.heap⟩, h.together, h.statics,
      h.constants, h.notifications, h.logs⟩
  have hstart : ∀ routine : Routine, routine.code = [] ++ routine.code := fun _ => rfl
  refine ⟨hkept, .running (.mk htwins (hstart routine) (hstart routine')
    (extent_closing_pos routine.directives) hrest ⟨.nil, .nil⟩) (.finished trivial)⟩

/-- Runs from corresponding entries end alike. -/
theorem run_alike (hassigned : ∀ {v slot}, pairing.slots.constants v slot → assigned)
    (h : KeptAlike pairing assigned link s s') {c c' : Nat} {routine routine' : Routine}
    (htwins : pairing.twins c routine c' routine')
    (hrest : RestAlike pairing.slots routine.scope (Sized routine.scope { returnTo := none })
      (StaticsReady pairing.slots link s.statics s'.statics) routine.code routine'.code)
    {arguments arguments' : List Item} (harguments : ItemsAlike link arguments arguments') :
    RunsAlike pairing assigned link (run c arguments s) (run c' arguments' s') := by
  have hscript : s.script = pairing.left.script := congrArg Settings.script h.settings
  have hscript' : s'.script = pairing.right.script := congrArg Settings.script h.settings'
  have hlimits : s.limits = s'.limits := (congrArg Settings.limits h.settings).trans
    (pairing.limits.trans (congrArg Settings.limits h.settings').symm)
  have hpos : 0 < extent routine.code := extent_closing_pos routine.directives
  have hpos' : 0 < extent routine'.code := extent_closing_pos routine'.directives
  have hinside := (pairing.loaded htwins).inside
  have hinside' := (pairing.loaded' htwins).inside
  rw [run_eq, run_eq, if_neg (by rw [hscript]; omega), if_neg (by rw [hscript']; omega), hlimits]
  exact loop_alike hassigned _ (start_alike h htwins hrest harguments)

end StackContract.Contract
