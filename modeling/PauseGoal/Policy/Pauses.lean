import PauseGoal.Policy.MarkingStart
import PauseGoal.Policy.Mixed
import PauseGoal.Policy.Refinement
import PauseGoal.Policy.Survivors
import PauseGoal.Policy.YoungLength

/-!
# Evacuation pauses

The collector brackets an evacuation pause with `beginCollection`, `decideMarking`, `startPause` and
`endPause`. At the end of the pause the policy learns what it cost, moves the phases on, and chooses
the length of the next young generation.
-/

namespace PauseGoal.Policy

variable {α : Type} [Scalar α]

/-- The least mutator phase in milliseconds that the clock can tell from none. -/
def clockGranularity : α := ratio 1 10000000

/-- The least time in seconds from which the marking threshold learns. -/
def leastThresholdTime : α := ratio 1 1000000

/-- Forgets the measurements of the last pause. -/
def beginCollection (p : Policy α) : Policy α := { p with breakdown := .zero }

/-- The pause starts, at the given time in seconds: chooses the tenuring threshold from the
survivors of the last pause, reads the refinement totals, and closes eden. -/
def startPause (p : Policy α) (heap : Heap α) (start : α) : Act α (Policy α) := do
  let p ← { p with cause := heap.cause }.chooseTenuring heap
  let p ← { p with breakdown.start := start }.readRefinement heap false
  return { p with eden := p.eden.stopAdding, ages := .empty }

/-- What a finished pause means for the measurement of the marking length. A periodic initial mark
says nothing about it. -/
def trackMarkingLength (p : Policy α) (kind : Pause.Kind) (start finish : α) :
    Checked α (Marking.Length α) :=
  match kind with
  | .full => .ok .unknown
  | .cleanup | .remark | .young | .lastYoung => .ok (p.markingLength.addPause (finish - start))
  | .initialMark =>
    if p.cause = .periodic then .ok p.markingLength else p.markingLength.startAt finish
  | .mixed => .ok (p.markingLength.stopAt start)

/-- Takes a finished pause into all accounts. A full collection does not count against the pause
time goal. -/
def recordPause (p : Policy α) (kind : Pause.Kind) (start finish : α) : Act α (Policy α) := do
  let utilization ←
    if kind = .full then pure p.utilization else Act.ofLogged (p.utilization.add start finish)
  let markingLength ← Act.ofChecked (p.trackMarkingLength kind start finish)
  let record ← Act.ofChecked (Pause.Record.create kind start finish)
  Act.report (.pause kind start finish)
  return { p with
    utilization := utilization
    markingLength := markingLength
    costs := p.costs.countPause record }

/-- What the parts of a pause of the given length cost. A part with nothing to do has no cost; too
few cards of remembered sets give no good cost. Only young collections are samples for pending cards
and remembered sets, since the next young generation is sized from them. -/
def learnCosts (p : Policy α) (pause : α) (youngOnly : Bool) : Checked α (CostModel α) := do
  let b := p.breakdown
  let m := p.costs
  let m :=
    if 0 < b.loggedCards then m.addLoggedCardCost (b.loggedCardTime / num b.loggedCards) else m
  let m := m.addHotCardTime b.mergeHotCards
  let m :=
    if 10 < b.rememberedCards then
      m.addRememberedCost (b.rememberedSetTime / num b.rememberedCards) youngOnly
    else m
  let m :=
    if 0 < b.entries then m.addCardsPerEntry (num b.rememberedCards / num b.entries) youngOnly
    else m
  let m :=
    if b.expectedEntries < b.entries then m.addEntryExcess (num (b.entries - b.expectedEntries))
    else m
  let m :=
    if 0 < b.copiedBytes then m.addByteCost (b.copy / num b.copiedBytes) p.phases.marking else m
  let youngRegions ← b.youngRegions
  let m := if 0 < youngRegions then m.addYoungOther (b.youngOther / num youngRegions) else m
  let m := if 0 < b.oldRegions then m.addOldOther (b.oldOther / num b.oldRegions) else m
  let m := m.addConstantOther (b.constantOtherTime pause)
  if youngOnly then
    return (m.addPendingCards (num p.pendingAtStart)).addEntries (num b.entries)
  else return m

/-- The cost model after a pause; one whose evacuation failed teaches nothing. -/
def costsAfter (p : Policy α) (pause : α) (youngOnly learn : Bool) : Checked α (CostModel α) :=
  if learn then p.learnCosts pause youngOnly else .ok p.costs

/-- The length of the mutator phase before the current pause, in milliseconds. A phase too short to
measure counts as one. -/
def mutatorTime (p : Policy α) : α :=
  let time := p.breakdown.start * num 1000 - p.costs.lastPauseEnd
  if time < clockGranularity then num 1 else time

/-- Learns how much mutators allocated before a pause and how much of the time pauses took. -/
def learnFrequency (p : Policy α) (mutatorTime finish pause : α) : CostModel α :=
  let m := p.costs.addAllocationRate (num p.breakdown.edenRegions / mutatorTime)
  let interval := (finish - m.oldestPauseEnd) * num 1000
  (m.addPause finish pause).updateRatios interval pause

/-- The cost model once a pause counts for the frequency of pauses; one whose evacuation failed does
not. -/
def frequencyAfter (p : Policy α) (mutatorTime finish pause : α) (learn : Bool) : CostModel α :=
  if learn then p.learnFrequency mutatorTime finish pause else p.costs

/-- The marking length for the marking threshold: known and long enough, at a mixed pause. -/
def markingSample (p : Policy α) (youngOnly : Bool) : Option α :=
  if youngOnly then none
  else
    (p.markingLength.ends.map p.markingLength.between).filter
      fun length => decide (leastThresholdTime < length)

/-- What the marking threshold learns from a pause: the marking length at the first mixed pause of a
cycle, and the allocation of the mutator phase, in seconds, before a young pause. Allocation while
marking runs is taken to be like that of all young-only phases. -/
def learnThreshold (p : Policy α) (heap : Heap α) (mutatorTime : α) (youngSize : Nat)
    (youngOnly initialMark : Bool) : Act α (Policy α) := do
  let marking := p.markingSample youngOnly
  let threshold ←
    match marking with
    | some length => Act.ofChecked (p.threshold.addMarking length)
    | none => pure p.threshold
  let markingLength :=
    if !youngOnly && p.markingLength.isKnown then .unknown else p.markingLength
  let allocation := youngOnly && !initialMark && decide (leastThresholdTime < mutatorTime)
  let threshold ←
    if allocation then
      Act.ofChecked (threshold.addAllocation mutatorTime p.oldAllocation youngSize)
    else pure threshold
  if marking.isSome || allocation then
    let report ← Act.ofChecked (threshold.report heap.oldBytes)
    Act.ofLogged report.log
    Act.report (.threshold report)
  return { p with threshold := threshold, markingLength := markingLength }

/-- Moves the phases on at the end of a pause. After the last young collection mixed ones run until
they are no longer worthwhile. -/
def advancePhases (p : Policy α) (heap : Heap α) (youngOnly initialMark : Bool) :
    Act α (Policy α × Heap α) := do
  if p.phases.beforeMixed then
    Act.ofChecked (demand (initialMark = false) .lastYoungStartsMarking)
    return ({ p with phases.youngOnly := false, phases.beforeMixed := false }, heap)
  else if youngOnly then return (p, heap)
  else if ← p.mixedIsWorthwhile heap "continue mixed GCs" "do not continue mixed GCs" then
    return (p, heap)
  else
    let heap := heap.clearCandidates
    let p ← { p with phases.youngOnly := true }.askForMarkingIfNeeded heap
    return (p, heap)

/-- Learns the marking threshold from a pause, unless the collection was a periodic one: those run
while the application idles and say nothing about how long marking takes. -/
def learnThresholdUnlessPeriodic (p : Policy α) (heap : Heap α) (mutatorTime : α)
    (unbounded : Nat) (youngOnly initialMark : Bool) : Act α (Policy α) := do
  if heap.cause = .periodic then return p.forgetMarkingLength
  else
    let youngSize ← Act.ofChecked (Word.mul unbounded p.settings.regionSize)
    let p ← p.learnThreshold heap (mutatorTime / num 1000) youngSize youngOnly initialMark
    return { p with oldAllocation := 0 }

/-- Prepares the time up to the next pause: the length of the young generation, the marking
threshold and the time for logged cards. -/
def prepareNext (p : Policy α) (heap : Heap α) (now mutatorTime hotCards : α)
    (youngOnly initialMark : Bool) : Act α (Policy α) := do
  let (unbounded, p) ← p.chooseYoungLength heap now
  let p ← Act.ofChecked p.expectPredictedEntries
  let p ← p.learnThresholdUnlessPeriodic heap mutatorTime unbounded youngOnly initialMark
  p.grantRefinementTime heap hotCards

def logPauseEnd (p : Policy α) (heap : Heap α) (kind : Pause.Kind) (pause : α) : Act α Unit := do
  Act.ofLogged (p.breakdown.log pause)
  Act.write .info .phases
    [kind.name, " (", heap.cause.name, ") ", .fixed 3 pause, "ms, young target ", p.youngTarget,
      " regions, used ", .bytes heap.usedBytes]

/-- The pause ends at the present time, after the given time in milliseconds. Measurements of a
pause whose evacuation failed are not learned. -/
def endPause (p : Policy α) (heap : Heap α) (now pause : α) : Act α (Policy α × Heap α) := do
  let youngOnly := p.phases.youngOnly
  let learn := !heap.evacuationFailed
  let (initialMark, p) := p.seesInitialMark
  let kind ← Act.ofChecked (p.phases.evacuationKind initialMark)
  let p ← p.recordPause kind (now - pause / num 1000) now
  let (initialMark, p) := p.seesInitialMark
  let p ← p.settleMarking heap initialMark
  let mutatorTime := p.mutatorTime
  let p := { p with costs := p.frequencyAfter mutatorTime now pause learn }
  let (p, heap) ← p.advancePhases heap youngOnly initialMark
  let p := { p with eden := (p.eden.finish p.predictor learn).startAdding }
  let hotCards := p.breakdown.mergeHotCards
  let costs ← Act.ofChecked (p.costsAfter pause youngOnly learn)
  Act.ofChecked (demand (¬ (initialMark = true ∧ p.phases.marking = true)) .initialMarkWhileMarking)
  let p :=
    { p with
      costs := costs
      phases.marking := p.phases.marking || initialMark
      freeRegions := heap.free }
  let p ← p.prepareNext heap now mutatorTime hotCards youngOnly initialMark
  p.logPauseEnd heap kind pause
  return (p, heap)

end PauseGoal.Policy
