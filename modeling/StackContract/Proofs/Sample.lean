import StackContract.Contract.Build
/-!
# A small module

A module with slots, a switch and a call, at which the theorems about all modules can be looked at.
-/

namespace StackContract.Contract

/-- Picks by its argument: 1, twice the argument, or 300. -/
def samplePick : Source.Method where
  name := "T::pick"
  displayName := "pick"
  isPublic := true
  params := [⟨"x", .int32⟩]
  returnType := .int32
  locals := [.int32]
  body := [⟨0, .load .arguments 0⟩, ⟨1, .store .locals 0⟩, ⟨2, .load .locals 0⟩,
    ⟨3, .switch [6, 8]⟩, ⟨4, .literal32 300⟩, ⟨5, .ret⟩, ⟨6, .literal32 1⟩, ⟨7, .ret⟩,
    ⟨8, .load .locals 0⟩, ⟨9, .call (.method "T::twice")⟩, ⟨10, .ret⟩]

/-- Adds its argument to itself. -/
def sampleTwice : Source.Method where
  name := "T::twice"
  displayName := "twice"
  params := [⟨"x", .int32⟩]
  returnType := .int32
  body := [⟨0, .load .arguments 0⟩, ⟨1, .dup⟩, ⟨2, .arithmetic .add⟩, ⟨3, .ret⟩]

/-- The module of both methods. -/
def sample : Source.Module where
  types := [{ name := "T", methods := [samplePick, sampleTwice] }]

theorem exists_contract {limits : Compile.Limits} {module : Source.Module}
    (h : (build limits module).toOption.isSome = true) :
    ∃ contract, build limits module = .ok contract := by
  cases hbuild : build limits module with
  | error e =>
    rw [hbuild] at h
    cases h
  | ok contract => exact ⟨contract, rfl⟩

theorem build_sample : ∃ contract, build {} sample = .ok contract :=
  exists_contract (by decide +kernel)

end StackContract.Contract
