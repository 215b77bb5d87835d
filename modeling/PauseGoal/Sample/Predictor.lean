import PauseGoal.Sample.Window

/-!
# Predictions from samples

A prediction is pessimistic: the decaying mean plus a number of deviations. Few samples have not
shown their deviation yet, so below five samples a part of the mean stands in for it.
-/

namespace PauseGoal.Sample

/-- How pessimistic predictions are. -/
structure Predictor (α : Type) where
  /-- How many deviations are added to the mean. -/
  sigma : α
deriving DecidableEq, Repr

namespace Predictor

variable {α : Type} [Scalar α]

/-- The deviation to allow for. With `n < 5` samples it is at least `(5 - n) / 2` of the mean. -/
def deviation (w : Window α) : α :=
  if w.size < 5 then Scalar.max w.deviation (w.mean * num (5 - w.size) / num 2) else w.deviation

/-- The predicted next sample. -/
def predict (p : Predictor α) (w : Window α) : α := w.mean + p.sigma * deviation w

/-- The predicted next sample as a count. -/
def predictCount (p : Predictor α) (w : Window α) : Nat :=
  if p.predict w ≤ num 0 then 0 else Scalar.truncate (p.predict w)

end Predictor

end PauseGoal.Sample
