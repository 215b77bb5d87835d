import PauseGoal.Policy.Pauses

/-!
# Remark and cleanup

Concurrent marking is interrupted by two pauses. Remark finishes marking; cleanup decides whether
mixed collections follow.
-/

namespace PauseGoal.Policy

variable {α : Type} [Scalar α]

/-- A remark pause starts. -/
def startRemark (p : Policy α) (now : α) : Policy α := { p with remarkStart := now }

/-- A remark pause ends. -/
def endRemark (p : Policy α) (now : α) : Act α (Policy α) := do
  let pause := (now - p.remarkStart) * num 1000
  let costs := (p.costs.addRemark pause).postponePauseEnd pause
  { p with costs := costs }.recordPause .remark p.remarkStart now

/-- A cleanup pause starts. -/
def startCleanup (p : Policy α) (now : α) : Policy α := { p with cleanupStart := now }

/-- A cleanup pause ends. If mixed collections are worthwhile, the next young collection is the last
one before them; otherwise the candidates are dropped. -/
def endCleanup (p : Policy α) (heap : Heap α) (now : α) : Act α (Policy α × Heap α) := do
  let worthwhile ← p.mixedIsWorthwhile heap "request mixed gcs" "request young-only gcs"
  let heap := if worthwhile then heap else heap.clearCandidates
  let p := if worthwhile then p else p.forgetMarkingLength
  let pause := (now - p.cleanupStart) * num 1000
  let p :=
    { p with
      phases := { p.phases with beforeMixed := worthwhile, marking := false }
      costs := (p.costs.addCleanup pause).postponePauseEnd pause }
  let p ← p.recordPause .cleanup p.cleanupStart now
  return (p, heap)

end PauseGoal.Policy
