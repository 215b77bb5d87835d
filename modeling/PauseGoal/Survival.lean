import PauseGoal.Sample.Predictor

/-!
# Survival rates

How much of a young region survives depends on how long ago it was handed out. The regions of a
population are numbered as they join it; the age of a region is the number of those that joined
after it. After a pause the surviving part of each region is a sample for its age, and the
predictions for all ages are added up, so that what to expect from the youngest regions is a
look-up.
-/

namespace PauseGoal

open Sample (Window Predictor)

/-- The young populations whose survival is tracked. -/
inductive Population where
  /-- Regions that mutators allocated into since the last pause. -/
  | eden
  /-- Regions of objects that survived the last pause. -/
  | survivor
deriving DecidableEq, Repr

/-- The number that a region gets when it joins a population. -/
structure SurvivalTag where
  population : Population
  index : Nat
deriving DecidableEq, Repr

/-- What is known about the regions of one age. -/
structure AgeStatistics (α : Type) where
  rates : Window α
  /-- The expected survivors of all regions up to this age, in regions. -/
  accumulated : α
deriving Repr

/-- Survival by age of one population. -/
structure SurvivalGroup (α : Type) where
  population : Population
  /-- Youngest age first. -/
  ages : Array (AgeStatistics α)
  /-- The predicted rate of the oldest age. -/
  lastRate : α
  /-- The number of regions that joined, which is the number of the last one. -/
  allocated : Nat
  /-- The number of regions in the population. -/
  regions : Nat
deriving Repr

namespace SurvivalGroup

variable {α : Type} [Scalar α]

/-- The rate assumed before any was observed. -/
def initialRate : α := ratio 4 10

def unknownAge : AgeStatistics α := { rates := Window.ofTen, accumulated := num 0 }

def blank (population : Population) : SurvivalGroup α where
  population := population
  ages := #[]
  lastRate := num 0
  allocated := 0
  regions := 0

/-- A population without history. Its youngest age starts with the assumed rate. -/
def create (population : Population) : SurvivalGroup α where
  population := population
  ages := #[{ rates := Window.ofTen.add initialRate, accumulated := initialRate }]
  lastRate := initialRate
  allocated := 0
  regions := 0

def reset (g : SurvivalGroup α) : SurvivalGroup α := create g.population

/-- Starts over with an empty population; the statistics stay. -/
def startAdding (g : SurvivalGroup α) : SurvivalGroup α := { g with allocated := 0, regions := 0 }

/-- Makes sure that every region of the population has an age in the statistics. -/
def stopAdding (g : SurvivalGroup α) : SurvivalGroup α :=
  { g with ages := g.ages ++ Array.replicate (g.regions - g.ages.size) unknownAge }

def join (g : SurvivalGroup α) : SurvivalTag × SurvivalGroup α :=
  (⟨g.population, g.allocated + 1⟩,
    { g with regions := g.regions + 1, allocated := g.allocated + 1 })

def joinTimes (count : Nat) (g : SurvivalGroup α) : List SurvivalTag × SurvivalGroup α :=
  ((List.range' (g.allocated + 1) count).map fun index => ⟨g.population, index⟩,
    { g with regions := g.regions + count, allocated := g.allocated + count })

/-- The age of a region: how many joined after it. -/
def ageOf (g : SurvivalGroup α) (index : Nat) : Checked α Nat :=
  if index ≤ g.allocated then .ok (g.allocated - index)
  else .error (.ageFromFuture index g.allocated)

/-- Records the surviving bytes of a region of the given age. -/
def record (g : SurvivalGroup α) (age bytes regionSize : Nat) : Checked α (SurvivalGroup α) :=
  if age < g.regions ∧ age < g.ages.size then
    .ok { g with
      ages := g.ages.modify age fun a =>
        { a with rates := a.rates.add (num bytes / num regionSize) } }
  else .error (.ageNotCollected age g.regions)

/-- The ages after those of the population get the rate last observed at its oldest age. -/
def fillIn (g : SurvivalGroup α) : SurvivalGroup α :=
  match g.ages[g.regions - 1]? with
  | none => g
  | some oldest =>
    if g.regions = 0 then g
    else
      { g with
        ages := g.ages.mapIdx fun age a =>
          if age < g.regions then a else { a with rates := a.rates.add oldest.rates.latest } }

/-- The predicted rate of an age; no region survives more than once. -/
def predictedRate (p : Predictor α) (a : AgeStatistics α) : α :=
  Scalar.min (p.predict a.rates) (num 1)

/-- Takes an age into the accumulated predictions: the ages done and what they came to. -/
def accumulate (p : Predictor α) (done : Array (AgeStatistics α) × α) (a : AgeStatistics α) :
    Array (AgeStatistics α) × α :=
  let sum := done.2 + predictedRate p a
  (done.1.push { a with accumulated := sum }, sum)

/-- Brings the predictions up to date with the samples: adds them up from the youngest age on. -/
def refresh (g : SurvivalGroup α) (p : Predictor α) : SurvivalGroup α :=
  { g with
    ages := (g.ages.foldl (accumulate p) (#[], num 0)).1
    lastRate := (g.ages.back?.map (predictedRate p)).getD (num 0) }

/-- All regions of the population were collected. Without `learn` their samples say nothing about
ages that were not collected. -/
def finish (g : SurvivalGroup α) (p : Predictor α) (learn : Bool) : SurvivalGroup α :=
  (if learn then g.fillIn else g).refresh p

/-- The expected survivors of the regions up to an age, in regions. Past the known ages every region
counts at the rate of the oldest. -/
def expected (g : SurvivalGroup α) (age : Nat) : α :=
  match g.ages[age]? with
  | some a => a.accumulated
  | none =>
    (g.ages.back?.map (·.accumulated)).getD (num 0) + num (age - g.ages.size + 1) * g.lastRate

/-- The predicted surviving fraction of a region of an age, or of the oldest known age. -/
def rate (g : SurvivalGroup α) (p : Predictor α) (age : Nat) : α :=
  match g.ages[Nat.min age (g.ages.size - 1)]? with
  | some a => p.predict a.rates
  | none => num 0

omit [Scalar α] in
theorem joinTimes_zero (g : SurvivalGroup α) : g.joinTimes 0 = ([], g) := by
  simp [joinTimes]

omit [Scalar α] in
/-- Several regions join one by one. -/
theorem joinTimes_succ (count : Nat) (g : SurvivalGroup α) :
    g.joinTimes (count + 1) =
      (g.join.1 :: (g.join.2.joinTimes count).1, (g.join.2.joinTimes count).2) := by
  simp [joinTimes, join, List.range'_succ, Nat.add_assoc, Nat.add_comm 1 count]

end SurvivalGroup

end PauseGoal
