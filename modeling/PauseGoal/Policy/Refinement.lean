import PauseGoal.Policy.State

/-!
# Card refinement

Mutators log the cards that they write to; concurrent workers and, if these fall behind, the
mutators themselves refine them. What is left is done in the next pause, for which the policy grants
a part of the pause time goal.
-/

namespace PauseGoal.Policy

variable {α : Type} [Scalar α]

/-- Reads the refinement totals at the start of a collection and learns the rates since the last
reading. A full collection only brings the totals up to date; rates from no work or from very short
phases are left out. -/
def readRefinement (p : Policy α) (heap : Heap α) (full : Bool) : Act α (Policy α) := do
  let pending := heap.pendingCards
  let now := heap.refinement
  let time := now.concurrentTime - p.refinement.concurrentTime
  let concurrentCards := now.concurrentCards - p.refinement.concurrentCards
  let mutatorCards := now.mutatorCards - p.refinement.mutatorCards
  let costs :=
    if full = false ∧ 0 < concurrentCards ∧ num 0 < time then
      p.costs.addRefinementRate (num concurrentCards / time)
    else p.costs
  let costs ←
    if full then pure costs
    else do
      let refined ← Act.ofChecked (Word.add pending concurrentCards)
      let cards ← Act.ofChecked (Word.add refined mutatorCards)
      let phase := p.breakdown.start * num 1000 - costs.lastPauseEnd
      if num 1 < phase then pure (costs.addLoggingRate (num cards / phase)) else pure costs
  Act.write .trace .refinement
    ["Refinement data: pending ", pending, " concurrent ", concurrentCards, " cards in ",
      .fixed 3 time, "ms, mutator ", mutatorCards, " cards"]
  return { p with pendingAtStart := pending, refinement := now, costs := costs }

/-- Grants the next pause its time for logged cards: a percentage of the goal, less the time that
hot cards took. Also takes note of the cards still pending. -/
def grantRefinementTime (p : Policy α) (heap : Heap α) (hotCards : α) : Act α (Policy α) := do
  let granted :=
    p.utilization.limit * num 1000 * num p.settings.refinementPercent / num 100
  let goal ←
    if granted < hotCards then do
      Act.write .debug .refinement
        ["Adjust concurrent refinement thresholds (scanning the HCC expected to take longer ",
          "than Update RS time goal). Logged Cards Scan time goal: ", .fixed 2 granted,
          "ms Scan HCC time: ", .fixed 2 hotCards, "ms"]
      pure (num 0)
    else pure (granted - hotCards)
  let loggedCards := p.breakdown.loggedCardTime
  Act.write .debug .refinement
    ["Concurrent refinement times: Logged Cards Scan time goal: ", .fixed 2 goal,
      "ms Logged Cards Scan time: ", .fixed 2 loggedCards, "ms HCC time: ", .fixed 2 hotCards,
      "ms"]
  Act.report (.refinementGoal goal loggedCards hotCards)
  return { p with refinementGoal := goal, pendingAtEnd := heap.pendingCards }

end PauseGoal.Policy
