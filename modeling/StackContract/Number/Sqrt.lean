/-!
# Integer square roots

`sqrt n` is the largest `r` with `r * r ≤ n`, found two binary digits of `n` at a time.
-/

namespace StackContract.Number

/-- The largest number whose square is at most `n`. -/
def sqrt (n : Nat) : Nat :=
  if n = 0 then 0
  else
    let r := 2 * sqrt (n / 4)
    if (r + 1) * (r + 1) ≤ n then r + 1 else r
termination_by n
decreasing_by omega

/-- The square of the root is at most `n`, and that of its successor is above it. -/
theorem sqrt_spec (n : Nat) : sqrt n * sqrt n ≤ n ∧ n < (sqrt n + 1) * (sqrt n + 1) := by
  induction n using Nat.strongRecOn with
  | ind n ih =>
    rw [sqrt]
    split
    · subst n; decide
    · have := ih (n / 4) (by omega)
      generalize sqrt (n / 4) = s at this
      simp only
      split <;> grind

end StackContract.Number
