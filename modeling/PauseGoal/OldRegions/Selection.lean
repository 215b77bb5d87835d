import PauseGoal.Log
import PauseGoal.Percent
import PauseGoal.OldRegions.Candidates

/-!
# The old part of a collection set

A mixed collection takes old regions from the front of the candidates in two parts. The initial part
is evacuated for sure: a minimum that spreads the candidates over the allowed number of collections,
and beyond it as many regions as fit most of the pause time left, as long as enough space can be
reclaimed. The optional part is evacuated only if the pause has time left after the initial part.
-/

namespace PauseGoal.OldRegions

structure Limits (α : Type) where
  /-- The regions taken in any case. -/
  least : Nat
  /-- The most regions taken, optional ones included. -/
  most : Nat
  /-- The reclaimable percentage at which collecting is no longer worthwhile. -/
  wastePercent : α
  capacity : Nat
  /-- Whether more than the minimum may be taken. -/
  timed : Bool
deriving DecidableEq, Repr

/-- A selection: how many regions in which part, and the times predicted for them in
milliseconds. -/
structure Budget (α : Type) where
  /-- The pause time left for old regions. -/
  timeLeft : α
  initial : Nat
  optional : Nat
  /-- The most optional regions that may still be taken in this pause. -/
  mostOptional : Nat
  initialTime : α
  optionalTime : α
deriving DecidableEq, Repr

/-- Why the initial part ends. -/
inductive Stop (α : Type) where
  | exhausted
  /-- The maximum is reached. -/
  | atMost
  /-- The minimum is reached and no more may be taken. -/
  | atLeast
  /-- What could still be reclaimed is not worth it. -/
  | waste (reclaimable : Nat) (percent : α)
  | time
deriving DecidableEq, Repr

/-- A prefix of the candidates and its predicted time. -/
structure Part (α : Type) where
  count : Nat
  time : α
deriving DecidableEq, Repr

section

variable {α : Type}

/-- The minimum of a selection: the candidates, spread evenly over the allowed collections. -/
def leastRegions (candidates collections : Nat) : Checked α Nat := do
  let collections := Nat.max collections 1
  let sum ← Word.add candidates collections
  return (sum - 1) / collections

/-- The maximum of a selection: a percentage of the heap. -/
def mostRegions (heapRegions percent : Nat) : Checked α Nat := ceilPercent heapRegions percent

end

variable {α : Type} [Scalar α]

/-- The bounds of a selection from the given candidates. -/
def Limits.create (candidates : Candidates) (heapRegions capacity collections regionPercent
    wastePercent : Nat) (timed : Bool) : Checked α (Limits α) := do
  let least ← leastRegions candidates.regions.length collections
  let most ← mostRegions heapRegions regionPercent
  return {
    least := least
    most := Nat.max most least
    wastePercent := num wastePercent
    capacity := capacity
    timed := timed }

/-- The part of the time left that the initial part may use. -/
def initialShare : α := ratio 8 10

/-- The part of the time left that is offered to the optional part. -/
def optionalShare : α := ratio 75 100

/-- Takes regions into the initial part, which has `part` so far; `reclaimable` are the bytes that
the regions not yet taken would free. -/
def initialPart (limits : Limits α) (cost : OldRegion → α) (available : α) :
    List OldRegion → Part α → Nat → Checked α (Part α × Stop α)
  | [], part, _ => return (part, .exhausted)
  | r :: rest, part, reclaimable =>
    if limits.most ≤ part.count then return (part, .atMost)
    else if limits.least ≤ part.count ∧ limits.timed = false then return (part, .atLeast)
    else if limits.least ≤ part.count ∧
        (percentOf reclaimable limits.capacity : α) ≤ limits.wastePercent then
      return (part, .waste reclaimable (percentOf reclaimable limits.capacity))
    else if limits.least ≤ part.count ∧ available < part.time + cost r then
      return (part, .time)
    else do
      let left ← Word.sub reclaimable r.reclaimable
      initialPart limits cost available rest ⟨part.count + 1, part.time + cost r⟩ left

/-- Takes regions while they fit the available time. Also gives the first region that does not and
the time that would have been needed with it. -/
def fittingPart (cost : OldRegion → α) (available : α) :
    List OldRegion → Part α → Part α × Option (OldRegion × α)
  | [], part => (part, none)
  | r :: rest, part =>
    if available < part.time + cost r then (part, some (r, part.time + cost r))
    else fittingPart cost available rest ⟨part.count + 1, part.time + cost r⟩

def Part.none : Part α := { count := 0, time := num 0 }

def Stop.log (limits : Limits α) : Stop α → Logged α Unit
  | .exhausted => return
  | .atMost =>
    Logged.write .debug .collectionSet
      ["Finish adding old regions to collection set (Maximum number of regions)."]
  | .atLeast =>
    Logged.write .debug .collectionSet
      ["Finish adding old regions to collection set (Region amount reached min)."]
  | .waste reclaimable percent =>
    Logged.write .debug .collectionSet
      ["Finish adding old regions to collection set (Reclaimable percentage below threshold). ",
        "Reclaimable: ", reclaimable, " (", .fixed 2 percent, ") threshold: ",
        .shortest limits.wastePercent, "%"]
  | .time =>
    Logged.write .debug .collectionSet
      ["Finish adding old regions to collection set (Predicted time too high)."]

/-- Takes regions for optional evacuation: at most `most`, within the available time. -/
def takeOptional (regions : List OldRegion) (most : Nat) (available : α) (cost : OldRegion → α) :
    Logged α (Part α) := do
  match fittingPart cost available (regions.take most) Part.none with
  | (part, none) => return part
  | (part, some (r, time)) =>
    Logged.write .trace .collectionSet
      ["Prediction ", .fixed 3 time, "ms for region ", r.index, " does not fit remaining time: ",
        .fixed 3 available, "ms."]
    return part

/-- Chooses the old part of a collection set; `cost` predicts the time of a region. Time that is
already overspent counts as none. -/
def choose (candidates : Candidates) (timeLeft : α) (limits : Limits α) (cost : OldRegion → α) :
    Logged α (Budget α) := do
  let timeLeft := Scalar.max timeLeft (num 0)
  Logged.write .debug .collectionSet
    ["Start adding old regions to collection set. Min ", limits.least, " regions, max ",
      limits.most, " regions, time remaining ", .fixed 2 timeLeft, "ms"]
  let (initial, stop) ← Logged.ofChecked <|
    initialPart limits cost (timeLeft * initialShare) candidates.remaining Part.none
      candidates.reclaimable
  stop.log limits
  let mostOptional ← Logged.ofChecked (Word.sub limits.most initial.count)
  let optional ←
    if limits.timed then
      takeOptional (candidates.remaining.drop initial.count) mostOptional
        (timeLeft * optionalShare) cost
    else pure Part.none
  Logged.write .debug .collectionSet
    ["Finish choosing collection set old regions. Initial: ", initial.count, ", optional: ",
      optional.count, ". Predicted old time: ", .fixed 2 initial.time,
      "ms, predicted optional time: ", .fixed 2 optional.time, "ms, time remaining: ",
      .fixed 2 timeLeft]
  return {
    timeLeft := timeLeft
    initial := initial.count
    optional := optional.count
    mostOptional := mostOptional
    initialTime := initial.time
    optionalTime := optional.time }

/-- How many of the remaining candidates to evacuate in the next optional round of a pause. -/
def chooseOptional (candidates : Candidates) (most : Nat) (timeLeft : α) (cost : OldRegion → α) :
    Logged α Nat := do
  let part ← takeOptional candidates.remaining most (Scalar.max timeLeft (num 0)) cost
  Logged.write .debug .collectionSet
    ["Prepared ", part.count, " regions out of ", most,
      " for optional evacuation. Predicted time: ", .fixed 3 part.time, "ms"]
  return part.count

end PauseGoal.OldRegions
