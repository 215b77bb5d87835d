import PauseGoal.Policy.State

/-!
# Predicted pause times
-/

namespace PauseGoal.Policy

variable {α : Type} [Scalar α]

/-- The time of a collection without any regions, in milliseconds, for the given pending cards and
remembered set entries. -/
def baseTime (p : Policy α) (pendingCards entries : Nat) : α :=
  p.costs.pendingCardTime pendingCards +
    p.costs.scanTime (p.costs.cardCount entries p.phases.youngOnly) p.phases.youngOnly +
    p.costs.constantOtherTime

/-- The bytes that evacuating a region copies: the live ones of an old region, the share predicted
to survive of a young one. -/
def bytesToCopy (p : Policy α) : Region → Checked α Nat
  | .old r => .ok r.live
  | .young r => do
    let g := p.group r.tag.population
    let age ← g.ageOf r.tag.index
    return Scalar.truncate (num r.used * g.rate p.predictor age)

/-- The time to scan the remembered set of a region and to copy the given bytes. -/
def evacuationTime (p : Policy α) (entries bytes : Nat) (young : Bool) : α :=
  p.costs.scanTime (p.costs.cardCount entries young) p.phases.youngOnly +
    p.costs.copyTime bytes p.phases.marking

/-- The time to evacuate an old region, in milliseconds. -/
def oldRegionTime (p : Policy α) (young : Bool) (r : OldRegion) : α :=
  p.evacuationTime r.entries r.live young + p.costs.oldOtherTime 1

/-- The time to evacuate a region in a young or a mixed collection, in milliseconds. The time beside
copying depends on the region and not on the collection. -/
def regionTime (p : Policy α) (young : Bool) : Region → Checked α α
  | .old r => .ok (p.oldRegionTime young r)
  | .young r => do
    let bytes ← p.bytesToCopy (.young r)
    return p.evacuationTime r.entries bytes young + p.costs.youngOtherTime 1

/-- The time to evacuate the survivors of the last collection, in milliseconds. -/
def survivorTime (p : Policy α) (heap : Heap α) : Checked α α := do
  let times ← heap.survivors.mapM fun r => p.regionTime p.phases.youngOnly (.young r)
  return Scalar.sum times

end PauseGoal.Policy
