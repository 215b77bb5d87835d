import PauseGoal.Log
import PauseGoal.Percent
import PauseGoal.Sample.Predictor

/-!
# The marking threshold

Marking has to start early enough to end before the heap is full. The threshold is the occupancy of
the old generation at which it starts.

A fixed threshold is a percentage of the target occupancy. An adaptive one predicts what will be
allocated into the old generation while marking runs, adds the size of the young generation, and
starts marking while that much is still free. Until it has enough samples of both the length of
marking and the allocation rate it behaves like a fixed one.
-/

namespace PauseGoal.Marking

open Sample (Window Predictor)

/-- What an adaptive threshold learns from. -/
structure Forecast (α : Type) where
  /-- The part of the heap kept free for failing evacuations. -/
  reservePercent : Nat
  /-- The part of the heap that mixed collections may leave uncollected. -/
  wastePercent : Nat
  /-- The largest capacity seen, in bytes. -/
  maxCapacity : Nat
  /-- How many samples of each sort a prediction needs. -/
  samples : Nat
  predictor : Predictor α
  lengths : Window α
  rates : Window α
  /-- The young generation as it would be without the pause time goal, in bytes. -/
  youngSize : Nat
deriving Repr

/-- A threshold: fixed without a forecast, adaptive with one. -/
structure Threshold (α : Type) where
  /-- The percentage of the target occupancy at which marking starts unless predicted. -/
  percent : α
  /-- The occupancy that the heap may reach, in bytes; zero before it is set. -/
  target : Nat
  /-- The length of the last mutator phase in seconds. -/
  allocationTime : α
  /-- The bytes allocated into the old generation in that phase. -/
  allocatedBytes : Nat
  /-- The length of the last marking in seconds. -/
  markingLength : α
  forecast : Option (Forecast α)
deriving Repr

/-- What a threshold was computed from. The predictions are those of an adaptive threshold with
enough samples. -/
structure Report (α : Type) where
  threshold : Nat
  target : Nat
  current : Nat
  allocatedBytes : Nat
  allocationTime : α
  markingLength : α
  predictedLength : Option α
  predictedRate : Option α
deriving DecidableEq, Repr

variable {α : Type} [Scalar α]

/-- The allocation rate of the last mutator phase in bytes per second. -/
def Report.allocationRate (r : Report α) : α :=
  if num 0 < r.allocationTime then num r.allocatedBytes / r.allocationTime else num 0

namespace Forecast

/-- The weight of the past in the samples of a forecast. -/
def weight : α := ratio 5 100

def empty (predictor : Predictor α) (reservePercent wastePercent maxCapacity samples : Nat) :
    Forecast α where
  reservePercent := reservePercent
  wastePercent := wastePercent
  maxCapacity := maxCapacity
  samples := samples
  predictor := predictor
  lengths := Window.ofTenWeighing weight
  rates := Window.ofTenWeighing weight
  youngSize := 0

/-- Whether both windows have as many samples as a prediction needs. -/
def isReady (f : Forecast α) : Bool :=
  decide (f.samples ≤ f.lengths.size) && decide (f.samples ≤ f.rates.size)

def length (f : Forecast α) : α := f.predictor.predict f.lengths

def rate (f : Forecast α) : α := f.predictor.predict f.rates

/-- The bytes predicted to be allocated into the old generation while marking runs. -/
def promotion (f : Forecast α) : Nat := Scalar.truncate (f.length * f.rate)

/-- The occupancy at which marking has to be over. It leaves out the reserve and the space that
mixed collections may leave behind. -/
def safeOccupancy (f : Forecast α) (target : Nat) : Checked α Nat := do
  demand (0 < target) .targetOccupancyMissing
  let unsafePercent ← Word.add f.reservePercent f.wastePercent
  let kept : α := num 100 - Scalar.min (num unsafePercent) (num 100)
  let byCapacity := num f.maxCapacity * kept / num 100
  let byTarget := num target * (num 100 - num f.wastePercent) / num 100
  return Scalar.truncate (Scalar.min byCapacity byTarget)

/-- The predicted threshold: the safe occupancy less what marking and the young generation need, or
zero if they need more. -/
def threshold (f : Forecast α) (target : Nat) : Checked α Nat := do
  let needed ← Word.add f.promotion f.youngSize
  let safe ← f.safeOccupancy target
  return safe - needed

end Forecast

namespace Threshold

/-- A threshold without history. The percentage has to be one. -/
def create (percent : α) (forecast : Option (Forecast α)) : Checked α (Threshold α) := do
  demand (num 0 ≤ percent ∧ percent ≤ num 100) (.thresholdNotPercentage percent)
  return {
    percent := percent
    target := 0
    allocationTime := num 0
    allocatedBytes := 0
    markingLength := num 0
    forecast := forecast }

def isAdaptive (t : Threshold α) : Bool := t.forecast.isSome

/-- The forecast, if it has enough samples. -/
def readyForecast (t : Threshold α) : Option (Forecast α) :=
  t.forecast.filter Forecast.isReady

/-- The threshold by percentage. -/
def byPercentage (t : Threshold α) : Checked α Nat := do
  demand (0 < t.target) .targetOccupancyMissing
  return Scalar.truncate (t.percent * num t.target / num 100)

/-- The old occupancy in bytes at which marking starts. -/
def bytes (t : Threshold α) : Checked α Nat :=
  match t.readyForecast with
  | none => t.byPercentage
  | some f => f.threshold t.target

def setTarget (t : Threshold α) (target : Nat) : Threshold α :=
  { t with
    target := target
    forecast := t.forecast.map fun f => { f with maxCapacity := Nat.max f.maxCapacity target } }

/-- Learns from a mutator phase: its length in seconds, the bytes allocated into the old generation
during it, and the size of an unrestrained young generation. A phase without length has no rate. -/
def addAllocation (t : Threshold α) (time : α) (bytes youngSize : Nat) :
    Checked α (Threshold α) := do
  demand (num 0 ≤ time) (.negativeAllocationTime time)
  return { t with
    allocationTime := time
    allocatedBytes := bytes
    forecast := t.forecast.map fun f =>
      { f with
        rates := if num 0 < time then f.rates.add (num bytes / time) else f.rates
        youngSize := youngSize } }

def addMarking (t : Threshold α) (length : α) : Checked α (Threshold α) :=
  match t.forecast with
  | none => do
    demand (num 0 < length) .markingLengthNotPositive
    return { t with markingLength := length }
  | some f => do
    demand (num 0 ≤ length) (.negativeMarkingLength length)
    return { t with
      markingLength := length
      forecast := some { f with lengths := f.lengths.add length } }

/-- The threshold and what it was computed from. -/
def report (t : Threshold α) (current : Nat) : Checked α (Report α) := do
  let threshold ← t.bytes
  return {
    threshold := threshold
    target := t.target
    current := current
    allocatedBytes := t.allocatedBytes
    allocationTime := t.allocationTime
    markingLength := t.markingLength
    predictedLength := t.readyForecast.map Forecast.length
    predictedRate := t.readyForecast.map Forecast.rate }

end Threshold

def Report.log (r : Report α) : Logged α Unit := do
  Logged.write .debug .occupancy
    ["Basic information (value update), threshold: ", r.threshold, "B (",
      .fixed 2 (percentOf r.threshold r.target), "), target occupancy: ", r.target,
      "B, current occupancy: ", r.current, "B, recent allocation size: ", r.allocatedBytes,
      "B, recent allocation duration: ", .fixed 2 (r.allocationTime * num 1000),
      "ms, recent old gen allocation rate: ", .fixed 2 r.allocationRate,
      "B/s, recent marking phase length: ", .fixed 2 (r.markingLength * num 1000), "ms"]
  match r.predictedLength, r.predictedRate with
  | some length, some rate =>
    Logged.write .debug .occupancy
      ["Adaptive IHOP information (value update), prediction active: true, ",
        "predicted marking phase length: ", .fixed 2 (length * num 1000),
        "ms, predicted old gen allocation rate: ", .fixed 2 rate, "B/s"]
  | _, _ => return

end PauseGoal.Marking
