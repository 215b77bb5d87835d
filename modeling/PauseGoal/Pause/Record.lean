import PauseGoal.Pause.Kind
import PauseGoal.Word

/-!
# Finished pauses and their totals
-/

namespace PauseGoal.Pause

/-- A finished pause, with the times of its start and end in seconds. -/
structure Record (α : Type) where
  kind : Kind
  start : α
  finish : α
deriving DecidableEq, Repr

/-- The number of pauses of one kind, their total and their longest time in milliseconds. -/
structure Totals (α : Type) where
  count : Nat
  total : α
  longest : α
deriving DecidableEq, Repr

variable {α : Type} [Scalar α]

namespace Record

/-- A record of a pause that does not end before it starts. -/
def create (kind : Kind) (start finish : α) : Checked α (Record α) := do
  demand (start ≤ finish) (.pauseEndsBeforeStart finish start)
  return { kind, start, finish }

/-- The length of the pause in seconds. -/
def seconds (r : Record α) : α := r.finish - r.start

/-- The length of the pause in milliseconds. -/
def milliseconds (r : Record α) : α := r.seconds * num 1000

end Record

namespace Totals

/-- No pauses. -/
def zero : Totals α := { count := 0, total := num 0, longest := num 0 }

/-- Counts a pause of the given length in milliseconds. -/
def add (t : Totals α) (length : α) : Totals α where
  count := t.count + 1
  total := t.total + length
  longest := Scalar.max t.longest length

/-- The average length; zero if there were no pauses. -/
def average (t : Totals α) : α := if t.count = 0 then num 0 else t.total / num t.count

end Totals

end PauseGoal.Pause
