import PauseGoal.Policy.Prediction

/-!
# Mixed collections
-/

namespace PauseGoal.Policy

open OldRegions (Candidates Limits Budget)

variable {α : Type} [Scalar α]

/-- Bytes as a percentage of the capacity of the heap. -/
def reclaimablePercent (heap : Heap α) (bytes : Nat) : α := percentOf bytes heap.capacity

/-- Whether the candidates hold enough reclaimable space for another mixed collection. The two texts
say in the log what follows in either case. -/
def mixedIsWorthwhile (p : Policy α) (heap : Heap α) (yes no : String) : Act α Bool := do
  match heap.remainingCandidates with
  | none =>
    Act.write .debug .decisions [no, " (candidate old regions not available)"]
    return false
  | some candidates =>
    let percent : α := reclaimablePercent heap candidates.reclaimable
    let worthwhile := decide (num p.settings.wastePercent < percent)
    let outcome := if worthwhile then yes else no
    let reason :=
      if worthwhile then "candidate old regions available"
      else "reclaimable percentage not over threshold"
    Act.write .debug .decisions
      [outcome, " (", reason, "). candidate old regions: ", candidates.size, " reclaimable: ",
        candidates.reclaimable, " (", .fixed 2 percent, ") threshold: ",
        p.settings.wastePercent]
    return worthwhile

/-- The fewest old regions of a mixed collection. -/
def leastOldRegions (p : Policy α) (heap : Heap α) : Checked α Nat :=
  let candidates := (heap.candidates.map fun c => c.regions.length).getD 0
  OldRegions.leastRegions candidates p.settings.mixedCollections

/-- The most old regions of a mixed collection, never less than the fewest. -/
def mostOldRegions (p : Policy α) (heap : Heap α) : Checked α Nat := do
  let most ← OldRegions.mostRegions heap.regions p.settings.oldRegionPercent
  let least ← p.leastOldRegions heap
  return Nat.max most least

/-- Chooses the old part of a collection set for the pause time that young regions leave. -/
def chooseOldRegions (p : Policy α) (heap : Heap α) (timeLeft : α) : Act α (Budget α) := do
  match heap.candidates with
  | none => Act.ofChecked (.error .noCandidates)
  | some candidates =>
    let limits ← Act.ofChecked <|
      Limits.create candidates heap.regions heap.capacity p.settings.mixedCollections
        p.settings.oldRegionPercent p.settings.wastePercent p.isAdaptive
    let budget ← Act.ofLogged <|
      OldRegions.choose candidates timeLeft limits (p.oldRegionTime false)
    Act.report (.collectionSet heap.eden heap.survivors.length budget)
    return budget

/-- Chooses how many old regions the next optional round of a mixed pause evacuates. -/
def chooseOptionalRegions (p : Policy α) (heap : Heap α) (most : Nat) (timeLeft : α) :
    Act α Nat := do
  Act.ofChecked (demand (p.phases.mixed = true) .optionalOutsideMixed)
  match heap.candidates with
  | none => Act.ofChecked (.error .noOptionalCandidates)
  | some candidates =>
    Act.ofLogged (OldRegions.chooseOptional candidates most timeLeft (p.oldRegionTime false))

end PauseGoal.Policy
