import PauseGoal.Settings.Error
import PauseGoal.Tenuring

/-!
# Settings

What the operator chooses. Settings are read once, when the policy starts; `Settings.validate` names
the first one that is out of range.
-/

namespace PauseGoal

/-- The settings of the policy. Percentages are whole numbers. -/
structure Settings (α : Type) where
  /-- The size of a heap region in bytes. -/
  regionSize : Nat
  /-- The pause time goal in milliseconds. -/
  pauseGoal : α
  /-- The length of the window that the goal is a promise about, in milliseconds. -/
  pauseInterval : α
  /-- The least young generation as a percentage of the heap. -/
  leastYoungPercent : Nat
  /-- The largest young generation as a percentage of the heap. -/
  largestYoungPercent : Nat
  /-- The least young generation in bytes; it overrides the percentage. -/
  leastYoungSize : Option Nat
  /-- The largest young generation in bytes; it overrides the percentage. -/
  largestYoungSize : Option Nat
  /-- Old regions per young region. Explicit sizes override it. -/
  oldPerYoung : Option Nat
  /-- The part of the heap kept free for failing evacuations. -/
  reservePercent : Nat
  /-- The part of the heap that mixed collections may leave uncollected. -/
  wastePercent : Nat
  /-- Over how many mixed collections the candidates are spread. -/
  mixedCollections : Nat
  /-- The most old regions in one mixed collection, as a part of the heap. -/
  oldRegionPercent : Nat
  /-- The confidence in predictions; it also sets their pessimism. -/
  confidencePercent : Nat
  /-- The expected waste in copy buffers. -/
  bufferWastePercent : Nat
  /-- Young regions per survivor region. -/
  youngPerSurvivor : Nat
  /-- How much of the survivor space should be in use after a pause. -/
  survivorFillPercent : Nat
  maxTenuring : Nat
  /-- The old occupancy that starts marking before there is a prediction. -/
  markingPercent : Nat
  adaptiveMarking : Bool
  /-- How many samples a prediction of the marking threshold needs. -/
  markingSamples : Nat
  /-- The part of a pause that may go to logged cards. -/
  refinementPercent : Nat
  /-- How far the young generation may outgrow its target while a critical region is held. -/
  expansionPercent : Nat
  workers : Nat
deriving DecidableEq, Repr

namespace Settings

variable {α : Type} [Scalar α]

def default : Settings α where
  regionSize := 1048576
  pauseGoal := num 200
  pauseInterval := num 201
  leastYoungPercent := 5
  largestYoungPercent := 60
  leastYoungSize := none
  largestYoungSize := none
  oldPerYoung := none
  reservePercent := 10
  wastePercent := 5
  mixedCollections := 8
  oldRegionPercent := 10
  confidencePercent := 50
  bufferWastePercent := 10
  youngPerSurvivor := 8
  survivorFillPercent := 50
  maxTenuring := 15
  markingPercent := 45
  adaptiveMarking := true
  markingSamples := 3
  refinementPercent := 10
  expansionPercent := 5
  workers := 4

/-- Accepts a setting if the condition holds. -/
def require (condition : Prop) [Decidable condition] (error : SettingsError α) :
    Except (SettingsError α) Unit :=
  if condition then .ok () else .error error

/-- The percentages in the order in which they are checked. -/
def percentages (s : Settings α) : List (String × Nat) :=
  [("new_size_percent", s.leastYoungPercent),
    ("max_new_size_percent", s.largestYoungPercent),
    ("reserve_percent", s.reservePercent),
    ("heap_waste_percent", s.wastePercent),
    ("old_cset_region_threshold_percent", s.oldRegionPercent),
    ("confidence_percent", s.confidencePercent),
    ("target_plab_waste_percent", s.bufferWastePercent),
    ("target_survivor_ratio", s.survivorFillPercent),
    ("initiating_heap_occupancy_percent", s.markingPercent),
    ("refinement_pause_time_percent", s.refinementPercent),
    ("gc_locker_eden_expansion_percent", s.expansionPercent)]

/-- Whether a count is one of 1, 2, 4, 8, … -/
def isPowerOfTwo (n : Nat) : Bool := n != 0 && Nat.pow 2 n.log2 == n

/-- Accepts settings that are in range; otherwise names the first that is not. An interval that is
no number is not at most the goal and so passes. -/
def validate (s : Settings α) : Except (SettingsError α) Unit := do
  require (isPowerOfTwo s.regionSize) (.regionSize s.regionSize)
  require (num 0 < s.pauseGoal) (.pauseGoal s.pauseGoal)
  require (¬ s.pauseInterval ≤ s.pauseGoal) (.pauseInterval s.pauseGoal s.pauseInterval)
  s.percentages.forM fun setting => require (setting.2 ≤ 100) (.percent setting.1 (num setting.2))
  require (s.confidencePercent ≠ 0) (.zero "confidence_percent")
  require (s.youngPerSurvivor ≠ 0) (.zero "survivor_ratio")
  require (s.workers ≠ 0) (.zero "parallel_gc_threads")
  require (s.leastYoungPercent ≤ s.largestYoungPercent)
    (.youngPercents s.leastYoungPercent s.largestYoungPercent)
  require (s.oldPerYoung ≠ some 0) (.zero "new_ratio")
  require (s.mixedCollections ≠ 0) .mixedCollections
  require (s.maxTenuring < ageCount) (.tenuringThreshold s.maxTenuring ageCount)

def pauseGoalSeconds (s : Settings α) : α := s.pauseGoal / num 1000

def pauseIntervalSeconds (s : Settings α) : α := s.pauseInterval / num 1000

/-- How many deviations a prediction adds to the mean. -/
def sigma (s : Settings α) : α := num s.confidencePercent / num 100

end Settings

end PauseGoal
