import PauseGoal.Word

/-!
# The length of marking

Concurrent marking runs from the end of an initial-mark pause to the start of the first mixed pause.
Pauses in between are not marking time and are subtracted.
-/

namespace PauseGoal.Marking

/-- The measurement of the current or last marking, in seconds. -/
structure Length (α : Type) where
  /-- Whether a measurement is running. -/
  active : Bool
  /-- The end of the last initial-mark pause. -/
  markEnd : Option α
  /-- The start of the last first mixed pause. -/
  mixedStart : Option α
  /-- The pauses in between. -/
  paused : α
deriving DecidableEq, Repr

namespace Length

variable {α : Type} [Scalar α]

def unknown : Length α := { active := false, markEnd := none, mixedStart := none, paused := num 0 }

/-- Starts a measurement at the end of an initial-mark pause. -/
def startAt (l : Length α) (markEnd : α) : Checked α (Length α) := do
  demand (l.active = false) .initialMarkRepeated
  return { l with markEnd := some markEnd, active := true }

/-- Ends a running measurement at the start of a mixed pause. -/
def stopAt (l : Length α) (mixedStart : α) : Length α :=
  if l.active then { l with mixedStart := some mixedStart, active := false } else l

/-- Takes a pause out of a running measurement. -/
def addPause (l : Length α) (seconds : α) : Length α :=
  if l.active then { l with paused := l.paused + seconds } else l

/-- The ends of a measurement, if both are known and after the origin of time. -/
def ends (l : Length α) : Option (α × α) :=
  match l.markEnd, l.mixedStart with
  | some markEnd, some mixedStart =>
    if num 0 < mixedStart ∧ num 0 < markEnd then some (markEnd, mixedStart) else none
  | _, _ => none

def isKnown (l : Length α) : Bool := l.ends.isSome

/-- The marking time between the ends of a measurement. -/
def between (l : Length α) (ends : α × α) : α := (ends.2 - ends.1) - l.paused

/-- The length of marking in seconds. -/
def seconds (l : Length α) : Checked α α :=
  match l.ends with
  | some ends => .ok (l.between ends)
  | none => .error .markingLengthUnknown

end Length

end PauseGoal.Marking
