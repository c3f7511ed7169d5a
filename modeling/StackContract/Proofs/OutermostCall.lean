import StackContract.Proofs.Bracketing
/-!
# The outermost call

Methods are called and return, and all the while the call that a run began with goes on at one address
(`State.outermost`): where the machine is, unless other calls are in progress, and else where the next
one of them returns to. Only instructions of the outermost call itself move that address, behind
themselves or to where they jump (`outermost_step`).

Code may have places that control does not pass but from the front. A run goes through the stretches
between them one behind the other, and comes back to none (`Separated.goesThrough`).
-/

namespace StackContract.Machine

open Script

/-! ## Moves of the outermost call -/

/-- Where the call goes on that a run began with. -/
def State.outermost (s : State) : Nat :=
  (s.returns.filterMap id).getLast?.getD s.address

/-- How an instruction moves the call that it belongs to: behind itself, where a method that it enters
returns to as well, or to where it jumps. -/
def Flow.MovesTo (i : Located) (address : Nat) : Flow → Prop
  | .next | .enter _ => address = i.next
  | .jump target => address = target
  | .leave _ => False

section

variable {s t : State} {i : Located} {flow : Flow}

theorem outermost_eq {inner : List Nat} (h : s.returns = inner.map some ++ [none]) :
    s.outermost = inner.getLast?.getD s.address := by
  unfold State.outermost
  rw [h, List.filterMap_append, List.filterMap_map]
  simp

/-- An instruction that jumps leads to its target. -/
theorem target?_of_jump {address : Nat} (h : execute i s = .ok (.jump address) t) :
    i.target? = some address := by
  have hjump : ∀ {u v : State}, jumpTo i u = .ok (.jump address) v → i.target? = some address := by
    intro u v h
    obtain ⟨_, _, hget, h⟩ := bind_eq_ok h
    cases hget
    obtain ⟨target, _, htarget, h⟩ := bind_eq_ok h
    cases h
    unfold targetOf at htarget
    split at htarget
    · next hthere =>
      split at htarget <;> cases htarget
      exact hthere
    · cases htarget
  have hmaybe : ∀ {c : Prop} [Decidable c] {u v : State},
      (if c then jumpTo i else pure .next) u = .ok (.jump address) v → i.target? = some address := by
    intro c _ u v h
    split at h
    · exact hjump h
    · cases h
  have hleads := leads_of_execute h
  unfold execute at h
  cases hoperation : operation i.opcode with
  | jump =>
    rw [hoperation] at h
    exact hjump h
  | jumpIf | jumpCompare =>
    rw [hoperation] at h
    obtain ⟨_, _, -, h⟩ := bind_eq_ok h
    exact hmaybe h
  | _ =>
    rw [hoperation] at hleads
    simp [Operation.Leads] at hleads

/-- A terminator jumps or leaves its method. -/
theorem jump_or_leave_of_terminator (h : execute i s = .ok flow t)
    (hterminator : i.opcode.isTerminator = true) :
    (∃ address, flow = .jump address) ∨ ∃ returnTo, flow = .leave returnTo := by
  have hoperation : operation i.opcode = .jump ∨ operation i.opcode = .ret ∨ operation i.opcode = .raise
      ∨ ∃ hasMessage, operation i.opcode = .abort hasMessage := by
    generalize i.opcode = op at hterminator
    cases op <;> first
      | exact .inl rfl
      | exact .inr (.inl rfl)
      | exact .inr (.inr (.inl rfl))
      | exact .inr (.inr (.inr ⟨_, rfl⟩))
      | cases hterminator
  unfold execute at h
  rcases hoperation with hop | hop | hop | ⟨hasMessage, hop⟩
  · rw [hop] at h
    exact .inl (jump_of_jumpTo h)
  · rw [hop] at h
    exact .inr (leave_of_leave h)
  · -- what raises a fault does not succeed
    rw [hop] at h
    obtain ⟨_, _, -, h⟩ := bind_eq_ok h
    obtain ⟨_, _, -, h⟩ := bind_eq_ok h
    cases h
  · rw [hop] at h
    obtain ⟨_, _, -, h⟩ := bind_eq_ok h
    cases h

/-- An instruction leaves the outermost call where it is, or is one of the outermost call and moves it. -/
theorem outermost_step (h : Framed s) (hstep : step s = .ok true t) :
    t.outermost = s.outermost ∨ s.outermost = s.address ∧ ∃ i flow u, s.current = .ok i
      ∧ execute i s = .ok flow u ∧ flow.MovesTo i t.outermost := by
  obtain ⟨i, flow, u, hcurrent, hexecute, hsettle⟩ := exists_of_step hstep
  obtain ⟨address, hdestination, ht⟩ := destination_of_settle hsettle
  have hreturns : t.returns = u.returns := by rw [ht]; rfl
  have haddress : t.address = address := by rw [ht]
  have hturns : flow.Turns i s u := turns_execute i hexecute
  obtain ⟨inner, hinner⟩ := h.returns
  rw [outermost_eq hinner]
  cases flow with
  | next | jump =>
    rw [outermost_eq (hreturns.trans ((returns_of_calls hturns).trans hinner)), haddress]
    cases hdestination
    cases inner with
    | nil => exact .inr ⟨rfl, i, _, u, hcurrent, hexecute, rfl⟩
    | cons => exact .inl rfl
  | enter =>
    -- the outermost call goes on behind the instruction if it is the one that calls
    have hthere : t.returns = (i.next :: inner).map some ++ [none] := by
      rw [hreturns]
      unfold State.returns at hinner ⊢
      rw [hturns.2, List.map_cons, hinner]
      rfl
    rw [outermost_eq hthere]
    cases inner with
    | nil => exact .inr ⟨rfl, i, _, u, hcurrent, hexecute, rfl⟩
    | cons => exact .inl rfl
  | leave returnTo =>
    obtain ⟨frame, hframes, hreturn⟩ := hturns
    unfold State.returns at hinner
    rw [hframes, List.map_cons, hreturn] at hinner
    obtain rfl : returnTo = some address := hdestination
    cases inner with
    | nil => cases (List.cons.inj hinner).1
    | cons a inner =>
      obtain ⟨hhead, hrest⟩ := List.cons.inj hinner
      cases hhead
      rw [outermost_eq (hreturns.trans hrest), haddress]
      cases inner with
      | nil => exact .inl rfl
      | cons => exact .inl rfl

/-- A run ends with a return of the outermost call. -/
theorem outermost_end (h : Framed s) (hstep : step s = .ok false t) :
    s.outermost = s.address ∧ ∃ i, s.current = .ok i ∧ i.opcode = .ret := by
  obtain ⟨i, flow, u, hcurrent, hexecute, hsettle⟩ := exists_of_step hstep
  obtain ⟨-, -, hdestination⟩ := settle_eq_ok hsettle
  obtain ⟨inner, hinner⟩ := h.returns
  cases flow with
  | next | jump | enter => cases hdestination
  | leave returnTo =>
    cases returnTo with
    | some address => cases hdestination
    | none =>
      obtain ⟨frame, hframes, hreturn⟩ : (Flow.leave none).Turns i s u := turns_execute i hexecute
      unfold State.returns at hinner
      rw [hframes, List.map_cons, hreturn] at hinner
      cases inner with
      | cons => cases (List.cons.inj hinner).1
      | nil =>
        -- no other call is in progress
        have hreturns : s.returns = [].map some ++ [none] := by
          unfold State.returns
          rw [hframes, List.map_cons, hreturn, hinner]
        exact ⟨outermost_eq hreturns, i, hcurrent, opcode_of_leave hexecute⟩

end

/-! ## Stretches of code -/

/-- A machine comes to another one by so many instructions, with the outermost call in a stretch of the
script all the way. -/
inductive Within (first behind : Nat) : Nat → State → State → Prop
  | here {s : State} (h : first ≤ s.outermost ∧ s.outermost < behind) : Within first behind 0 s s
  | next {n : Nat} {s t u : State} (h : first ≤ s.outermost ∧ s.outermost < behind)
    (hstep : step s = .ok true t) (hrest : Within first behind n t u) :
    Within first behind (n + 1) s u

/-- A machine comes to another one by so many instructions, and the outermost call goes through the
stretches between the stops in order, each of them up to its end before the next one is begun. -/
inductive GoesThrough : List Nat → Nat → State → State → Prop
  | inside {first behind n : Nat} {stops : List Nat} {s t : State} (h : Within first behind n s t) :
    GoesThrough (first :: behind :: stops) n s t
  | past {first behind n k : Nat} {stops : List Nat} {s t u v : State} (h : Within first behind n s t)
    (hstep : step t = .ok true u) (hat : u.outermost = behind)
    (hrest : GoesThrough (behind :: stops) k u v) :
    GoesThrough (first :: behind :: stops) (n + 1 + k) s v
  /-- A stretch may be empty. -/
  | empty {first n : Nat} {stops : List Nat} {s t : State} (h : GoesThrough (first :: stops) n s t) :
    GoesThrough (first :: first :: stops) n s t

/-- Stops that machines with some property only pass from the front, and of which they do not come to the
last one. -/
inductive Separated (P : State → Prop) : List Nat → Prop
  | last {finish : Nat} (h : ∀ s, P s → s.outermost < finish) : Separated P [finish]
  | cons {first behind : Nat} {stops : List Nat} (hle : first ≤ behind)
    (h : ∀ s t, P s → step s = .ok true t → first ≤ s.outermost → s.outermost < behind →
      first ≤ t.outermost ∧ t.outermost ≤ behind)
    (hrest : Separated P (behind :: stops)) : Separated P (first :: behind :: stops)

theorem GoesThrough.step {first behind n : Nat} {stops : List Nat} {s t u : State}
    (hs : first ≤ s.outermost ∧ s.outermost < behind) (hstep : Machine.step s = .ok true t)
    (h : GoesThrough (first :: behind :: stops) n t u) :
    GoesThrough (first :: behind :: stops) (n + 1) s u := by
  cases h with
  | inside h => exact .inside (.next hs hstep h)
  | @past _ _ n k _ _ _ _ _ h hlast hat hrest =>
    rw [Nat.add_right_comm]
    exact .past (.next hs hstep h) hlast hat hrest
  | empty => exact absurd (Nat.lt_of_le_of_lt hs.1 hs.2) (Nat.lt_irrefl _)

namespace Separated

variable {P : State → Prop} {stops : List Nat} {n : Nat} {s t : State}

/-- At a stop, a machine is at the start of the first stretch behind it that is not empty. -/
theorem goesThrough_of_inside (hinside : ∀ first behind stops, Separated P (first :: behind :: stops) →
      first ≤ s.outermost → s.outermost < behind → GoesThrough (first :: behind :: stops) n s t)
    (hs : P s) (h : Separated P (s.outermost :: stops)) : GoesThrough (s.outermost :: stops) n s t := by
  induction stops with
  | nil =>
    cases h with
    | last hbelow => exact absurd (hbelow s hs) (Nat.lt_irrefl _)
  | cons behind stops ih =>
    rcases Nat.lt_or_ge s.outermost behind with hlt | hge
    · exact hinside _ _ _ h (Nat.le_refl _) hlt
    · cases h with
      | cons hle _ hrest =>
        obtain rfl : s.outermost = behind := Nat.le_antisymm hle hge
        exact .empty (ih hrest)

/-- Between such stops a run goes through the stretches in order. -/
theorem goesThrough (h : Separated P (s.outermost :: stops)) (hs : P s)
    (hkeeps : ∀ s t, P s → step s = .ok true t → P t) (hadvances : Advances n s t) :
    GoesThrough (s.outermost :: stops) n s t := by
  -- on the run, from any place of a stretch
  have hinside : ∀ first behind stops, Separated P (first :: behind :: stops) →
      first ≤ s.outermost → s.outermost < behind → GoesThrough (first :: behind :: stops) n s t := by
    clear h
    induction hadvances with
    | here => exact fun _ _ _ _ hfirst hbehind => .inside (.here ⟨hfirst, hbehind⟩)
    | @next n s u v hstep _ ih =>
      intro first behind stops h hfirst hbehind
      have hu := hkeeps s u hs hstep
      have hinside := ih hu
      cases h with
      | cons hle hstays hrest =>
        obtain ⟨hlow, hhigh⟩ := hstays s u hs hstep hfirst hbehind
        rcases Nat.lt_or_eq_of_le hhigh with hlt | heq
        · exact .step ⟨hfirst, hbehind⟩ hstep (hinside _ _ _ (.cons hle hstays hrest) hlow hlt)
        · subst heq
          have hpast := goesThrough_of_inside hinside hu hrest
          rw [show n + 1 = 0 + 1 + n by omega]
          exact .past (.here ⟨hfirst, hbehind⟩) hstep rfl hpast
  exact goesThrough_of_inside hinside hs h

end Separated

end StackContract.Machine
