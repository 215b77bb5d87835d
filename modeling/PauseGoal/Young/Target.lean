import PauseGoal.Word

/-!
# The target length of the young generation

The young generation should be as long as the pause time goal allows: collections are then as rare
as possible. The search for that length asks of an eden length whether it fits, and assumes that no
length fits above one that does not. Its result is then clamped to what the heap and the operator
allow, where the minimum wins.
-/

namespace PauseGoal.Young

/-- The bounds of the next young generation, in regions. -/
structure Bounds where
  /-- The length, if it is not chosen by prediction. -/
  fixed : Option Nat
  least : Nat
  largest : Nat
  /-- The free regions outside the reserve. -/
  allowed : Nat
deriving DecidableEq, Repr

/-- The target length, and what prediction alone asked for. -/
structure Target where
  bounded : Nat
  unbounded : Nat
deriving DecidableEq, Repr

variable {α : Type}

/-- Narrows a range down to neighbours: `low` fits and `high` does not. -/
def bisect (fits : Nat → Checked α Bool) (low high : Nat) : Checked α Nat :=
  if h : (high - low) / 2 = 0 then .ok low
  else do
    if ← fits (low + (high - low) / 2) then bisect fits (low + (high - low) / 2) high
    else bisect fits low (low + (high - low) / 2)
termination_by high - low
decreasing_by all_goals omega

/-- The largest length in a range that fits, or its lower end if none does. Both ends are tried
before the lengths in between. -/
def largestFitting (low high : Nat) (fits : Nat → Checked α Bool) : Checked α Nat := do
  demand (low ≤ high) (.emptyLengthRange low high)
  if ← fits low then
    if ← fits high then return high else bisect fits low high
  else return low

namespace Bounds

/-- The length that prediction asks for when `survivors` regions are part of it already; `fits` is
asked about the eden lengths on top of them. -/
def search (b : Bounds) (survivors : Nat) (fits : Nat → Checked α Bool) : Checked α Nat :=
  if b.largest ≤ b.least then .ok b.least
  else do
    demand (survivors < b.least) (.noRoomForEden b.least survivors)
    let leastEden ← Word.sub b.least survivors
    let largestEden ← Word.sub b.largest survivors
    let eden ← largestFitting leastEden largestEden fits
    return survivors + eden

/-- A length within the bounds. -/
def clamp (b : Bounds) (length : Nat) : Nat :=
  Nat.max (Nat.min length (Nat.min b.largest b.allowed)) b.least

/-- The target length. Without a search it is the minimum, so that the next collection comes
soon. -/
def target (b : Bounds) (survivors : Nat) (searching : Bool) (fits : Nat → Checked α Bool) :
    Checked α Target := do
  let unbounded ←
    match b.fixed with
    | some length => pure length
    | none => if searching then b.search survivors fits else pure b.least
  return { bounded := b.clamp unbounded, unbounded := unbounded }

end Bounds

end PauseGoal.Young
