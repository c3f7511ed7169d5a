/-!
# Character sets by their boundaries

A set of code points is given by the ascending list of the points where membership changes: the
first boundary opens the set, the second closes it, and so on. `contains` counts the boundaries
passed, so an odd count is inside.
-/

namespace StackContract.Text

/-- A set of code points, as the ascending list of the points where membership changes. -/
structure Boundaries where
  points : List Nat

/-- A code point belongs to the set when it has passed an odd number of boundaries. -/
def Boundaries.contains (set : Boundaries) (code : Nat) : Bool :=
  set.points.foldl (fun inside point => if point ≤ code then !inside else inside) false

end StackContract.Text
