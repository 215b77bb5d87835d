import PauseGoal.Decimal.Shortest

/-!
# Settings that are refused
-/

namespace PauseGoal

/-- Why settings are refused. -/
inductive SettingsError (α : Type) where
  /-- The pause time goal is not positive. -/
  | pauseGoal (goal : α)
  /-- The pause interval does not exceed the goal. -/
  | pauseInterval (goal interval : α)
  /-- A percentage is above one hundred. -/
  | percent (setting : String) (value : α)
  /-- The least percentage of young regions exceeds the largest. -/
  | youngPercents (least largest : Nat)
  /-- The least young size exceeds the largest. -/
  | youngSizes (least largest : Nat)
  /-- The region size is no power of two. -/
  | regionSize (bytes : Nat)
  /-- No mixed collections are allowed. -/
  | mixedCollections
  /-- A setting that divides is zero. -/
  | zero (setting : String)
  /-- The tenuring threshold is not an age. -/
  | tenuringThreshold (threshold ages : Nat)
deriving DecidableEq, Repr

def SettingsError.message : SettingsError Float → String
  | .pauseGoal goal => "pause time goal must be positive, got " ++ Decimal.shortest goal ++ "ms"
  | .pauseInterval goal interval =>
    "pause interval (" ++ Decimal.shortest interval ++
      "ms) must be greater than the pause time goal (" ++ Decimal.shortest goal ++ "ms)"
  | .percent setting value =>
    setting ++ " must be within [0, 100], got " ++ Decimal.shortest value
  | .youngPercents least largest =>
    "invalid young generation sizing: " ++
      s!"new_size_percent ({least}) exceeds max_new_size_percent ({largest})"
  | .youngSizes least largest =>
    "invalid young generation sizing: " ++
      s!"new_size_bytes ({least}) exceeds max_new_size_bytes ({largest})"
  | .regionSize bytes => s!"region size must be a non-zero power of two, got {bytes} bytes"
  | .mixedCollections => "mixed GC count target must be at least 1"
  | .zero setting => setting ++ " must be at least 1"
  | .tenuringThreshold threshold ages =>
    s!"max tenuring threshold {threshold} exceeds the age table size {ages}"

end PauseGoal
