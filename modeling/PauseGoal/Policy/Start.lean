import PauseGoal.Policy.YoungLength

/-!
# The start of the policy
-/

namespace PauseGoal.Policy

open Sample (Predictor)

variable {α : Type} [Scalar α]

/-- The marking threshold that the settings ask for. -/
def initialThreshold (settings : Settings α) (predictor : Predictor α) (heap : Heap α) :
    Checked α (Marking.Threshold α) :=
  Marking.Threshold.create (num settings.markingPercent) <|
    if settings.adaptiveMarking then
      some (.empty predictor settings.reservePercent settings.wastePercent heap.maxCapacity
        settings.markingSamples)
    else none

/-- The policy before it knows the size of the heap. -/
def initial (settings : Settings α) (heap : Heap α) (now : α) (fullCauses : List Cause)
    (sizer : Young.Sizer) : Checked α (Policy α) := do
  let predictor : Predictor α := ⟨settings.sigma⟩
  let utilization ←
    Utilization.Tracker.create settings.pauseIntervalSeconds settings.pauseGoalSeconds
  let threshold ← initialThreshold settings predictor heap
  return {
    settings := settings
    predictor := predictor
    costs := .create predictor settings.workers now
    utilization := utilization
    threshold := threshold
    sizer := sizer
    eden := .create .eden
    survivors := .create .survivor
    phases := {}
    request := {}
    breakdown := .zero
    markingLength := .unknown
    fullCauses := fullCauses
    reserve := 0
    youngTarget := 0
    youngMaximum := 0
    freeRegions := heap.free
    expectedEntries := 0
    pendingAtStart := 0
    pendingAtEnd := 0
    refinement := { concurrentCards := 0, concurrentTime := num 0, mutatorCards := 0 }
    refinementGoal := num 0
    oldAllocation := 0
    cause := .allocation
    tenuring := settings.maxTenuring
    maxSurvivors := 0
    ages := .empty
    fullStart := num 0
    remarkStart := num 0
    cleanupStart := num 0 }

/-- Starts the policy for a heap, at the given time in seconds, if the settings are in range.
Collections for one of the listed causes are full ones. -/
def start (settings : Settings α) (heap : Heap α) (now : α) (fullCauses : List Cause) :
    Act α (Except (SettingsError α) (Policy α)) := do
  match settings.validate with
  | .error error => return .error error
  | .ok () =>
    match ← Act.ofLogged (Young.Sizer.ofSettings settings) with
    | .error error => return .error error
    | .ok sizer =>
      let p ← Act.ofChecked (initial settings heap now fullCauses sizer)
      let p ← Act.ofChecked (p.resize heap.regions)
      let (_, p) ← p.chooseYoungLength heap now
      return .ok p

end PauseGoal.Policy
