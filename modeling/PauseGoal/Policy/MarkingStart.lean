import PauseGoal.Policy.State

/-!
# Starting a marking cycle

Marking is asked for when the old generation outgrows the marking threshold, or by an explicit
request. The request waits for a pause that may do initial-mark work: one in the young-only phase
with no cycle running. A concurrent cycle that somebody asked for does not wait for the mixed phase
to end.
-/

namespace PauseGoal.Policy

variable {α : Type} [Scalar α]

/-- Counts bytes allocated into the old generation. -/
def addOldAllocation (p : Policy α) (bytes : Nat) : Checked α (Policy α) := do
  let total ← Word.add p.oldAllocation bytes
  return { p with oldAllocation := total }

/-- Whether a marking cycle is on, or over but for the last young collection. -/
def mixedIsNear (p : Policy α) (heap : Heap α) : Bool := heap.cycleRunning || p.phases.beforeMixed

/-- Whether the old generation together with an allocation exceeds the marking threshold, so that
marking should start. -/
def needsMarking (p : Policy α) (heap : Heap α) (source : String) (bytes : Nat) : Act α Bool := do
  if p.mixedIsNear heap then return false
  else
    let threshold ← Act.ofChecked p.threshold.bytes
    let occupied ← Act.ofChecked (Word.add heap.oldBytes bytes)
    if occupied ≤ threshold then return false
    else
      let needed := p.phases.youngOnly && !p.phases.beforeMixed
      let outcome :=
        if needed then "Request concurrent cycle initiation (occupancy higher than threshold)"
        else "Do not request concurrent cycle initiation (still doing mixed collections)"
      Act.write .debug .occupancy
        [outcome, " occupancy: ", heap.oldBytes, "B allocation request: ", bytes,
          "B threshold: ", threshold, "B (", .fixed 2 (percentOf threshold heap.capacity),
          ") source: ", source]
      return needed

/-- Asks for marking at the end of a pause if it is needed. A request that was postponed at the
start of the pause may still be there. -/
def askForMarkingIfNeeded (p : Policy α) (heap : Heap α) : Act α (Policy α) := do
  if ← p.needsMarking heap "end of GC" 0 then return { p with request := p.request.ask.2 }
  else return p

/-- Asks for marking on behalf of a cause, unless a cycle runs. -/
def forceMarking (p : Policy α) (heap : Heap α) (cause : Cause) : Act α (Bool × Policy α) := do
  if heap.cycleRunning then
    Act.write .debug .decisions
      ["Do not request concurrent cycle initiation (concurrent cycle already in progress). ",
        "GC cause: ", cause.name]
    return (false, p)
  else
    Act.write .debug .decisions
      ["Request concurrent cycle initiation (requested by GC cause). GC cause: ", cause.name]
    return (true, { p with request := p.request.ask.2 })

/-- Gives up the current measurement of the marking length. -/
def forgetMarkingLength (p : Policy α) : Policy α := { p with markingLength := .unknown }

/-- Looks whether an initial mark is scheduled. -/
def seesInitialMark (p : Policy α) : Bool × Policy α :=
  let (flag, request) := p.request.load
  (decide (flag = .scheduled), { p with request := request })

/-- Takes up the request that was just seen. With the world stopped nobody else can. -/
def scheduleMarking (p : Policy α) : Checked α (Policy α) := do
  let (scheduled, request) := p.request.schedule
  demand (scheduled = true) .requestVanished
  return { p with request := request }

/-- Writes and reports what became of a request. -/
def reportMarkingDecision (initiated : Bool) (reason : String) : Act α Unit := do
  Act.write .debug .decisions
    [if initiated then "Initiate" else "Do not initiate", " concurrent cycle (", reason, ")"]
  Act.report (.markingDecision initiated reason)

/-- Decides whether the pause that is about to start does initial-mark work.

A request to serve a cause concurrently overrides the mixed phase: the pause is made a young one,
and the candidates, which the new marking would outdate anyway, are dropped. Any other request that
comes while a cycle is finishing waits for the next pause. -/
def decideMarking (p : Policy α) (heap : Heap α) : Act α (Bool × Policy α × Heap α) := do
  let (scheduled, p) := p.seesInitialMark
  Act.ofChecked (demand (scheduled = false) .initialMarkLeftScheduled)
  let (flag, request) := p.request.load
  let p := { p with request := request }
  if flag ≠ .requested then return (false, p, heap)
  else if !p.mixedIsNear heap && p.phases.youngOnly then
    let p ← Act.ofChecked p.scheduleMarking
    reportMarkingDecision true "concurrent cycle initiation requested"
    return (true, p, heap)
  else if heap.cause.asksForMarking then
    let phases := { p.phases with youngOnly := true, beforeMixed := false }
    let p ← Act.ofChecked { p.forgetMarkingLength with phases := phases }.scheduleMarking
    reportMarkingDecision true "user requested concurrent cycle"
    return (true, p, heap.clearCandidates)
  else
    reportMarkingDecision false "concurrent cycle already in progress"
    return (false, p, heap)

/-- The initial-mark work of the current pause is done. A request raised since waits for the next
pause. -/
def finishInitialMark (p : Policy α) : Act α (Policy α) := do
  let (completed, request) := p.request.complete
  if !completed then
    Act.write .debug .decisions ["initial mark end without a scheduled initial mark"]
  return { p with request := request }

/-- What the end of a pause means for marking: initial-mark work is over, and after any other pause
marking may be needed. -/
def settleMarking (p : Policy α) (heap : Heap α) (initialMark : Bool) : Act α (Policy α) :=
  if initialMark then p.finishInitialMark else p.askForMarkingIfNeeded heap

end PauseGoal.Policy
