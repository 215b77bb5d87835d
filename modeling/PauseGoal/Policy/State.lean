import PauseGoal.CostModel
import PauseGoal.Heap
import PauseGoal.Journal
import PauseGoal.Marking.Length
import PauseGoal.Marking.Phases
import PauseGoal.Marking.Request
import PauseGoal.Pause.Breakdown
import PauseGoal.Utilization
import PauseGoal.Young.Forecast
import PauseGoal.Young.Sizer
import PauseGoal.Young.Target

/-!
# The state of the policy

The policy is told what happens in the heap and answers with sizes and decisions. Between two calls
it is the value below and nothing else. Calls take the heap and the present time as arguments and
give the next state.
-/

namespace PauseGoal

open Sample (Predictor)

structure Policy (α : Type) where
  settings : Settings α
  predictor : Predictor α
  costs : CostModel α
  utilization : Utilization.Tracker α
  threshold : Marking.Threshold α
  sizer : Young.Sizer
  eden : SurvivalGroup α
  survivors : SurvivalGroup α
  phases : Marking.Phases
  request : Marking.Request
  breakdown : Pause.Breakdown α
  markingLength : Marking.Length α
  /-- The causes for which every collection becomes a full one. -/
  fullCauses : List Cause
  /-- The regions kept free for failing evacuations. -/
  reserve : Nat
  /-- The length up to which mutators fill the young generation. -/
  youngTarget : Nat
  /-- The length up to which it may grow while a critical region is held. -/
  youngMaximum : Nat
  /-- The free regions when the last collection ended. -/
  freeRegions : Nat
  /-- The remembered set entries expected in the next pause. -/
  expectedEntries : Nat
  /-- The cards pending when the current pause started. -/
  pendingAtStart : Nat
  /-- The cards pending when the last pause ended. -/
  pendingAtEnd : Nat
  /-- The refinement totals when they were last read. -/
  refinement : RefinementStatistics α
  /-- The time for logged cards in the next pause, in milliseconds. -/
  refinementGoal : α
  /-- The bytes allocated into the old generation since the last collection. -/
  oldAllocation : Nat
  cause : Cause
  /-- The age from which survivors are promoted. -/
  tenuring : Nat
  /-- The most survivor regions of the current pause. -/
  maxSurvivors : Nat
  /-- The survivors of the current pause by age. -/
  ages : SurvivorAges
  /-- When the last full collection started, in seconds. -/
  fullStart : α
  /-- When the last remark pause started, in seconds. -/
  remarkStart : α
  /-- When the last cleanup pause started, in seconds. -/
  cleanupStart : α
deriving Repr

namespace Policy

variable {α : Type}

/-- Whether predictions choose the length of the young generation. -/
def isAdaptive (p : Policy α) : Bool := p.sizer.adaptive

/-- The length of a young generation that is not chosen by predictions. -/
def fixedYoungLength (p : Policy α) : Option Nat :=
  if p.isAdaptive then none else some p.sizer.least

def group (p : Policy α) : Population → SurvivalGroup α
  | .eden => p.eden
  | .survivor => p.survivors

def setGroup (p : Policy α) (g : SurvivalGroup α) : Population → Policy α
  | .eden => { p with eden := g }
  | .survivor => { p with survivors := g }

/-- Whether a collection for this cause has to be a full one. -/
def forcesFull (p : Policy α) (cause : Cause) : Bool := p.fullCauses.contains cause

end Policy

end PauseGoal
