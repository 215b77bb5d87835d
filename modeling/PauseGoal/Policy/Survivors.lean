import PauseGoal.Policy.State

/-!
# Survivors

Young regions get a tag when they join a population; what survives of them is recorded against the
tag. The survivors of a pause are counted by age, and at the start of the next pause the counts give
the tenuring threshold.
-/

namespace PauseGoal.Policy

variable {α : Type} [Scalar α]

/-- A new eden region joins the young generation. -/
def newEdenRegion (p : Policy α) : SurvivalTag × Policy α :=
  let (tag, g) := p.eden.join
  (tag, { p with eden := g })

/-- Several new eden regions. -/
def newEdenRegions (p : Policy α) (count : Nat) : List SurvivalTag × Policy α :=
  let (tags, g) := p.eden.joinTimes count
  (tags, { p with eden := g })

/-- The survivors of the pause that ends become the next survivor regions. Settles the statistics of
the survivors before them first. -/
def transferSurvivors (p : Policy α) (count : Nat) (learn : Bool) :
    List SurvivalTag × Policy α :=
  let (tags, g) := (p.survivors.finish p.predictor learn).startAdding.joinTimes count
  (tags, { p with survivors := g.stopAdding })

/-- Records how much of a collected young region survived. The statistics leave the policy while
they change, so that they have one owner and change in place. -/
def recordSurvivors (p : Policy α) (tag : SurvivalTag) (bytes : Nat) : Checked α (Policy α) := do
  let g := p.group tag.population
  let p := p.setGroup (.blank tag.population) tag.population
  let age ← g.ageOf tag.index
  let g ← g.record age bytes p.settings.regionSize
  return p.setGroup g tag.population

/-- Adds a worker's survivors to those of the pause. -/
def recordAges (p : Policy α) (ages : SurvivorAges) : Checked α (Policy α) := do
  let ages ← p.ages.merge ages
  return { p with ages := ages }

/-- Promotes all survivors for the rest of the pause. -/
def exhaustSurvivorSpace (p : Policy α) : Act α (Policy α) := do
  Act.write .debug .ages ["Survivor space exhausted, promoting all survivors"]
  return { p with tenuring := 0 }

/-- The bytes that should survive in so many survivor regions. The product with the percentage is
taken in two parts, so that it stays a word whenever the capacity is one. -/
def desiredSurvivorBytes (p : Policy α) (regions : Nat) : Checked α Nat := do
  let capacity ← Word.mul regions p.settings.regionSize
  let hundreds ← Word.mul (capacity / 100) p.settings.survivorFillPercent
  let rest ← Word.mul (capacity % 100) p.settings.survivorFillPercent
  Word.add hundreds (rest / 100)

/-- The survivor regions wanted for the young generation, at least one. -/
def desiredSurvivorRegions (p : Policy α) : Nat :=
  Scalar.ceil (num p.youngTarget / num p.settings.youngPerSurvivor : α)

/-- Chooses the tenuring threshold and the survivor regions of the pause that starts. How much of
the heap is left plays no part in the desired size, so that survivors are not promoted early when it
is little. -/
def chooseTenuring (p : Policy α) (heap : Heap α) : Act α (Policy α) := do
  let regions := p.desiredSurvivorRegions
  let desired ← Act.ofChecked (p.desiredSurvivorBytes regions)
  let threshold ← Act.ofChecked (p.ages.threshold desired p.settings.maxTenuring)
  Act.ofLogged (p.ages.log desired threshold p.settings.maxTenuring)
  let available ← Act.ofChecked heap.available
  let maxSurvivors := Nat.min regions available
  Act.report (.tenuring threshold desired maxSurvivors)
  return { p with tenuring := threshold, maxSurvivors := maxSurvivors }

end PauseGoal.Policy
