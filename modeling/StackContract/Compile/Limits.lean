import StackContract.Compile.Error
/-!
# Resource limits

The machine addresses at most 255 slots of an area, so a limit is a byte. `checkLimit` turns a count
into the byte that an instruction holds.
-/

namespace StackContract.Compile

/-- The most static fields, parameters and locals that a compilation accepts. -/
structure Limits where
  staticFields : UInt8 := 255
  params : UInt8 := 255
  locals : UInt8 := 255
deriving DecidableEq, Repr

/-- A limit; those above 255 are 255. -/
def limitOf (max : Nat) : UInt8 :=
  UInt8.ofNat (min max 255)

/-- A count that is within a limit. -/
def checkLimit (scope : String) (resource : Resource) (count : Nat) (max : UInt8) :
    Except Error UInt8 :=
  if count ≤ max.toNat then .ok (UInt8.ofNat count)
  else .error (.resourceLimit scope resource count max.toNat)

theorem toNat_of_checkLimit {scope : String} {resource : Resource} {count : Nat} {max n : UInt8}
    (h : checkLimit scope resource count max = .ok n) : n.toNat = count ∧ count ≤ max.toNat := by
  unfold checkLimit at h
  split at h
  · next hc =>
    cases h
    have := max.toNat_lt
    have : UInt8.size = 256 := rfl
    exact ⟨UInt8.toNat_ofNat_of_lt' (by omega), hc⟩
  · cases h

end StackContract.Compile
