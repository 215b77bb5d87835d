import PauseGoal.Policy.Pauses

/-!
# Full collections

A full collection compacts the whole heap. Whatever the policy was in the middle of is over, and
young collections start over after it.
-/

namespace PauseGoal.Policy

variable {α : Type} [Scalar α]

/-- A full collection starts. It compacts into all free space, that for survivors included. -/
def startFull (p : Policy α) (heap : Heap α) (now : α) : Act α (Policy α × Heap α) := do
  let heap := heap.clearCandidates
  let p ← { p with fullStart := now, phases.youngOnly := false, phases.full := true }.readRefinement
    heap true
  return (p, heap)

/-- Settles the marking flag at the end of a full collection: an initial mark that was scheduled for
the pause is done with, and a request stands exactly if marking is needed. -/
def settleRequest (p : Policy α) (needed : Bool) : Policy α :=
  let (_, request) := p.request.complete
  { p with request := if needed then request.ask.2 else request.withdraw.2 }

/-- A full collection ends. -/
def endFull (p : Policy α) (heap : Heap α) (now : α) : Act α (Policy α) := do
  let pause := (now - p.fullStart) * num 1000
  let p :=
    { p with
      costs := p.costs.addPause now pause
      phases := { p.phases with full := false, youngOnly := true, beforeMixed := false } }
  let needed ← p.needsMarking heap "end of Full GC" 0
  let p := p.settleRequest needed
  let p :=
    { p with
      phases := { p.phases with marking := false, clearing := false }
      eden := p.eden.startAdding
      freeRegions := heap.free
      survivors := p.survivors.reset }
  let (_, p) ← p.chooseYoungLength heap now
  let p ← Act.ofChecked p.expectPredictedEntries
  let p := { p with pendingAtEnd := heap.pendingCards, oldAllocation := 0 }
  let p ← p.recordPause .full p.fullStart now
  Act.write .info .phases
    [Pause.Kind.full.name, " ", .fixed 3 pause, "ms, young target ", p.youngTarget, " regions"]
  return p

end PauseGoal.Policy
