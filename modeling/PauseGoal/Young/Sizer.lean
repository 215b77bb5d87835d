import PauseGoal.Log
import PauseGoal.Settings.Basic

/-!
# Bounds of the young generation

The operator bounds the young generation by percentages of the heap, by sizes, by one of each, or
fixes it by a ratio. The sizer turns that into numbers of regions for the current heap.
-/

namespace PauseGoal.Young

/-- How the young generation is bounded. -/
inductive Rule where
  /-- Both bounds are percentages of the heap. -/
  | percentages
  /-- The minimum is a size, the maximum a percentage. -/
  | leastSize
  /-- The maximum is a size, the minimum a percentage. -/
  | largestSize
  /-- Both bounds are sizes. -/
  | sizes
  /-- One young region for every so many old ones. -/
  | ratio
deriving DecidableEq, Repr

/-- The bounds of the young generation in regions. Bounds that depend on the heap are zero until its
size is known. -/
structure Sizer where
  rule : Rule
  /-- Whether pause time predictions choose the length. -/
  adaptive : Bool
  leastPercent : Nat
  largestPercent : Nat
  oldPerYoung : Nat
  least : Nat
  largest : Nat
deriving DecidableEq, Repr

namespace Sizer

variable {α : Type}

/-- A size in regions, at least one. -/
def regionsOf (size regionSize : Nat) : Checked α Nat := do
  return Nat.max (← Word.div size regionSize) 1

/-- A percentage of the heap in regions, at least one. -/
def regionsOfPercent (heapRegions percent : Nat) : Checked α Nat := do
  return Nat.max ((← Word.mul heapRegions percent) / 100) 1

/-- The sizer of a rule by percentages. -/
def byPercentages (s : Settings α) : Sizer where
  rule := .percentages
  adaptive := true
  leastPercent := s.leastYoungPercent
  largestPercent := s.largestYoungPercent
  oldPerYoung := 0
  least := 0
  largest := 0

/-- The sizer of the explicit sizes, as far as there are any. -/
def bySizes (s : Settings α) : Checked α (Except (SettingsError α) Sizer) :=
  match s.leastYoungSize, s.largestYoungSize with
  | some least, some largest =>
    if largest < least then return .error (.youngSizes least largest)
    else do
      let least ← regionsOf least s.regionSize
      let largest ← regionsOf largest s.regionSize
      return .ok { byPercentages s with
        rule := .sizes, adaptive := least != largest, least := least, largest := largest }
  | some least, none => do
    let least ← regionsOf least s.regionSize
    return .ok { byPercentages s with rule := .leastSize, least := least }
  | none, some largest => do
    let largest ← regionsOf largest s.regionSize
    return .ok { byPercentages s with rule := .largestSize, largest := largest }
  | none, none => return .ok (byPercentages s)

/-- Whether the settings bound the young generation by a size. -/
def hasSize (s : Settings α) : Bool := s.leastYoungSize.isSome || s.largestYoungSize.isSome

/-- The sizer that the settings ask for. Explicit sizes win over a ratio. -/
def ofSettings (s : Settings α) : Logged α (Except (SettingsError α) Sizer) := do
  match s.oldPerYoung with
  | none => Logged.ofChecked (bySizes s)
  | some old =>
    if hasSize s then
      Logged.write .warn .decisions
        ["new_ratio was set together with an explicit young size; ignoring new_ratio"]
      Logged.ofChecked (bySizes s)
    else return .ok { byPercentages s with rule := .ratio, adaptive := false, oldPerYoung := old }

/-- The bounds that a rule gives for a heap of the given size. -/
def boundsFor (z : Sizer) (heapRegions : Nat) : Checked α (Nat × Nat) :=
  match z.rule with
  | .percentages => do
    let least ← regionsOfPercent heapRegions z.leastPercent
    let largest ← regionsOfPercent heapRegions z.largestPercent
    return (least, largest)
  | .leastSize => do
    let largest ← regionsOfPercent heapRegions z.largestPercent
    return (z.least, Nat.max largest z.least)
  | .largestSize => do
    let least ← regionsOfPercent heapRegions z.leastPercent
    return (Nat.min least z.largest, z.largest)
  | .sizes => return (z.least, z.largest)
  | .ratio =>
    let length := Nat.max (heapRegions / (z.oldPerYoung + 1)) 1
    return (length, length)

/-- Recomputes the bounds for a heap of the given number of regions. -/
def resize (z : Sizer) (heapRegions : Nat) : Checked α Sizer := do
  demand (0 < heapRegions) .emptyHeap
  let (least, largest) ← z.boundsFor heapRegions
  demand (least ≤ largest) .youngBoundsCrossed
  return { z with least := least, largest := largest }

end Sizer

end PauseGoal.Young
