import Mathlib.Data.List.Forall2
import StackContract.Compile.Event
/-!
# Computations in sequence

What a computation made of others does, and what follows from its success: each part of it succeeded.
-/

namespace StackContract

section

variable {ε σ α β : Type}

theorem bind_apply (x : EStateM ε σ α) (f : α → EStateM ε σ β) (s : σ) : (x >>= f) s = match x s with
    | .ok a t => f a t
    | .error e t => .error e t := by
  show EStateM.bind x f s = _
  unfold EStateM.bind
  cases x s <;> rfl

theorem bind_eq_ok {x : EStateM ε σ α} {f : α → EStateM ε σ β} {s s' : σ} {b : β}
    (h : (x >>= f) s = .ok b s') : ∃ a t, x s = .ok a t ∧ f a t = .ok b s' := by
  rw [bind_apply] at h
  split at h
  · next a t hx => exact ⟨a, t, hx, h⟩
  · cases h

theorem bind_eq_error {x : EStateM ε σ α} {f : α → EStateM ε σ β} {s s' : σ} {e : ε}
    (h : (x >>= f) s = .error e s') :
    x s = .error e s' ∨ ∃ a t, x s = .ok a t ∧ f a t = .error e s' := by
  rw [bind_apply] at h
  split at h
  · next a t hx => exact .inr ⟨a, t, hx, h⟩
  · next e' t hx =>
    cases h
    exact .inl hx

theorem mapM_eq_ok {f : α → EStateM ε σ β} {xs : List α} {ys : List β} {s s' : σ}
    (h : xs.mapM f s = .ok ys s') :
    List.Forall₂ (fun x y => ∃ t t', f x t = .ok y t') xs ys := by
  induction xs generalizing ys s with
  | nil =>
    cases h
    exact .nil
  | cons x xs ih =>
    rw [List.mapM_cons] at h
    obtain ⟨y, t, hx, hrest⟩ := bind_eq_ok h
    obtain ⟨rest, t', hxs, hpure⟩ := bind_eq_ok hrest
    cases hpure
    exact .cons ⟨s, t, hx⟩ (ih hxs)

theorem exceptBind_eq_ok {x : Except ε α} {f : α → Except ε β} {b : β} (h : (x >>= f) = .ok b) :
    ∃ a, x = .ok a ∧ f a = .ok b := by
  cases x with
  | error e => cases h
  | ok a => exact ⟨a, rfl, h⟩

theorem exceptMap_eq_ok {x : Except ε α} {f : α → β} {b : β} (h : x.map f = .ok b) :
    ∃ a, x = .ok a ∧ f a = b := by
  cases x with
  | error e => cases h
  | ok a => exact ⟨a, rfl, Except.ok.inj h⟩

theorem exceptMapM_eq_ok {f : α → Except ε β} {xs : List α} {ys : List β}
    (h : xs.mapM f = .ok ys) : List.Forall₂ (fun x y => f x = .ok y) xs ys := by
  induction xs generalizing ys with
  | nil =>
    cases h
    exact .nil
  | cons x xs ih =>
    rw [List.mapM_cons] at h
    obtain ⟨y, hx, hrest⟩ := exceptBind_eq_ok h
    obtain ⟨rest, hxs, hpure⟩ := exceptBind_eq_ok hrest
    cases hpure
    exact .cons hx (ih hxs)

theorem exceptMapM_of_forall {f : α → Except ε β} {xs : List α}
    (h : ∀ x ∈ xs, ∃ y, f x = .ok y) : ∃ ys, xs.mapM f = .ok ys := by
  induction xs with
  | nil => exact ⟨[], rfl⟩
  | cons x xs ih =>
    obtain ⟨y, hy⟩ := h x (List.mem_cons_self ..)
    obtain ⟨ys, hys⟩ := ih fun other hother => h other (List.mem_cons_of_mem _ hother)
    refine ⟨y :: ys, ?_⟩
    rw [List.mapM_cons, hy, hys]
    rfl

/-- What relates two lists through a third gives that list. -/
theorem exists_between {γ : Type} {R : α → γ → Prop} {S : γ → β → Prop} {xs : List α} {ys : List β}
    (h : List.Forall₂ (fun x y => ∃ z, R x z ∧ S z y) xs ys) :
    ∃ zs, List.Forall₂ R xs zs ∧ List.Forall₂ S zs ys := by
  induction h with
  | nil => exact ⟨[], .nil, .nil⟩
  | cons hhead _ ih =>
    obtain ⟨z, hr, hs⟩ := hhead
    obtain ⟨zs, hrs, hss⟩ := ih
    exact ⟨z :: zs, .cons hr hrs, .cons hs hss⟩

theorem exists_right_of_mem {R : α → β → Prop} {xs : List α} {ys : List β} (h : List.Forall₂ R xs ys)
    {x : α} (hx : x ∈ xs) : ∃ y ∈ ys, R x y := by
  induction h with
  | nil => cases hx
  | cons hhead _ ih =>
    rcases List.mem_cons.mp hx with rfl | hx
    · exact ⟨_, List.mem_cons_self .., hhead⟩
    · obtain ⟨y, hy, hr⟩ := ih hx
      exact ⟨y, List.mem_cons_of_mem _ hy, hr⟩

theorem exists_left_of_mem {R : α → β → Prop} {xs : List α} {ys : List β} (h : List.Forall₂ R xs ys)
    {y : β} (hy : y ∈ ys) : ∃ x ∈ xs, R x y :=
  exists_right_of_mem h.flip hy

/-- A fold that succeeds carries an invariant of its steps over the whole list. -/
theorem foldlM_eq_ok {f : β → α → EStateM ε σ β} (Invariant : List α → β → Prop)
    (hstep : ∀ done b a b' s s', Invariant done b → f b a s = .ok b' s' → Invariant (done ++ [a]) b')
    {xs : List α} {b b' : β} {s s' : σ} (hb : Invariant [] b) (h : xs.foldlM f b s = .ok b' s') :
    Invariant xs b' := by
  have hfold : ∀ {rest done : List α} {b : β} {s : σ}, Invariant done b →
      rest.foldlM f b s = .ok b' s' → Invariant (done ++ rest) b' := by
    intro rest
    induction rest with
    | nil =>
      intro done b s hb h
      cases h
      rw [List.append_nil]
      exact hb
    | cons x rest ih =>
      intro done b s hb h
      rw [List.foldlM_cons] at h
      obtain ⟨next, t, hx, hrest⟩ := bind_eq_ok h
      have := ih (hstep done b x next s t hb hx) hrest
      rw [List.append_assoc] at this
      exact this
  exact hfold hb h

end

namespace Compile.Progress

variable {ε α β : Type}

/-- A result that is taken over succeeded, and reported nothing. -/
theorem ofExcept_bind_eq_ok {x : Except ε α} {f : α → Progress ε β} {events events' : Array Event}
    {b : β} (h : (ofExcept x >>= f) events = .ok b events') :
    ∃ a, x = .ok a ∧ f a events = .ok b events' := by
  cases x with
  | error e => cases h
  | ok a => exact ⟨a, rfl, h⟩

end Compile.Progress

end StackContract
