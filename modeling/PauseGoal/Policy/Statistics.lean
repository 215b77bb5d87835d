import PauseGoal.Policy.State

/-!
# Statistics
-/

namespace PauseGoal

/-- A summary of the policy for a report. -/
structure Statistics (α : Type) where
  /-- All pauses, added up by kind. -/
  pauses : Pause.Ledger α
  youngTarget : Nat
  youngMaximum : Nat
  maxSurvivors : Nat
  reserve : Nat
  tenuring : Nat
  /-- The old occupancy in bytes at which marking starts. -/
  threshold : Nat
  capacity : Nat
  /-- The recent part of time spent in pauses. -/
  pauseRatio : α
deriving DecidableEq, Repr

variable {α : Type} [Scalar α]

def Policy.statistics (p : Policy α) (heap : Heap α) : Checked α (Statistics α) := do
  let threshold ← p.threshold.bytes
  return {
    pauses := p.costs.ledger
    youngTarget := p.youngTarget
    youngMaximum := p.youngMaximum
    maxSurvivors := p.maxSurvivors
    reserve := p.reserve
    tenuring := p.tenuring
    threshold := threshold
    capacity := heap.capacity
    pauseRatio := p.costs.pauseRatio }

namespace Statistics

def totalPauses (s : Statistics α) : Nat := s.pauses.size

/-- The line of the report about one kind of pause. -/
def pauseLine (kind : Pause.Kind) (totals : Pause.Totals α) : List (Piece α) :=
  ["  ", kind.name, ": ", totals.count, " pauses, total ", .fixed 3 totals.total, "ms, avg ",
    .fixed 3 totals.average, "ms, max ", .fixed 3 totals.longest, "ms"]

/-- The lines about the kinds of pause that happened. -/
def pauseLines (s : Statistics α) : List (List (Piece α)) :=
  (Pause.Kind.all.filter fun kind => (s.pauses.totalsOf kind).count != 0).map
    fun kind => pauseLine kind (s.pauses.totalsOf kind)

/-- The lines about the whole policy. -/
def sizeLines (s : Statistics α) : List (List (Piece α)) :=
  [["  Total pauses: ", s.totalPauses],
    ["  Young list target length: ", s.youngTarget, " (max ", s.youngMaximum, ")"],
    ["  Survivor regions: at most ", s.maxSurvivors, ", tenuring threshold ", s.tenuring],
    ["  Reserve regions: ", s.reserve],
    ["  Marking threshold: ", .bytes s.threshold, " of ", .bytes s.capacity, " (",
      .fixed 2 (percentOf s.threshold s.capacity), "%)"],
    ["  Recent GC time ratio: ", .fixed 2 (s.pauseRatio * num 100), "%"]]

def lines (s : Statistics α) : List (List (Piece α)) :=
  ["Policy statistics:"] :: (s.pauseLines ++ s.sizeLines)

def text (s : Statistics Float) : String :=
  String.join (s.lines.map fun line => String.join (line.map Piece.render) ++ "\n")

end Statistics

end PauseGoal
