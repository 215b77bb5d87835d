import PauseGoal.CostModel
import PauseGoal.Survival

/-!
# What a collection of the young generation would take

For an eden of a given length the forecast gives the time of its collection and the bytes that it
would copy. The length fits if the time is within the goal and the copies, with a margin for the
uncertainty of the prediction and for waste in copy buffers, have room in the free regions.
-/

namespace PauseGoal.Young

/-- What a forecast is made from. -/
structure Forecast (α : Type) where
  costs : CostModel α
  eden : SurvivalGroup α
  /-- The predicted time that does not depend on the length of eden, in milliseconds. -/
  baseTime : α
  /-- The free regions outside the reserve. -/
  freeRegions : Nat
  /-- The pause time goal in milliseconds. -/
  goal : α
  regionSize : Nat
  marking : Bool
  confidencePercent : α
  bufferWastePercent : α
deriving Repr

namespace Forecast

variable {α : Type} [Scalar α]

/-- The bytes that survive in an eden of the given length. -/
def survivingBytes (f : Forecast α) (length : Nat) : Nat :=
  if length = 0 then 0
  else Scalar.truncate (f.eden.expected (length - 1) * num f.regionSize)

/-- The time of a pause that collects an eden of the given length, in milliseconds. -/
def pauseTime (f : Forecast α) (length : Nat) : α :=
  f.baseTime + f.costs.copyTime (f.survivingBytes length) f.marking + f.costs.youngOtherTime length

/-- The factor by which the room for copies has to exceed the bytes expected to survive. -/
def safetyFactor (f : Forecast α) : α :=
  num 100 / f.confidencePercent * (num 100 + f.bufferWastePercent) / num 100

/-- The room that the copies need, in bytes. -/
def copyBytes (f : Forecast α) (length : Nat) : Nat :=
  Scalar.truncate (f.safetyFactor * num (f.survivingBytes length))

/-- Whether an eden of the given length can be collected within the goal and into the free
regions. -/
def fits (f : Forecast α) (length : Nat) : Checked α Bool :=
  if f.freeRegions ≤ length then .ok false
  else if f.goal < f.pauseTime length then .ok false
  else do
    let room ← Word.mul (f.freeRegions - length) f.regionSize
    return decide (f.copyBytes length ≤ room)

end Forecast

end PauseGoal.Young
