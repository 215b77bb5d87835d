import PauseGoal.Scalar

/-!
# The clock
-/

namespace PauseGoal

/-- A clock that moves only when it is told to. -/
structure Clock (α : Type) where
  /-- The present time in seconds. -/
  now : α
deriving DecidableEq, Repr

namespace Clock

variable {α : Type} [Scalar α]

/-- The clock, moved on by some milliseconds. -/
def advance (c : Clock α) (milliseconds : α) : Clock α := ⟨c.now + milliseconds / num 1000⟩

end Clock

end PauseGoal
