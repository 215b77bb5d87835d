import PauseGoal.Log

/-!
# Minimum mutator utilization

The pause time goal is a promise about every time slice: of `slice` seconds, no more than `limit` go
to pauses. The tracker keeps the recent pauses and answers how long the next one has to wait so that
the promise holds.

Pauses that ended before the current slice are dropped, and so is the oldest one of a full queue,
which can only make the answers more optimistic.
-/

namespace PauseGoal.Utilization

/-- How many pauses the tracker keeps. -/
def queueLength : Nat := 64

/-- The time between start and end of a pause, in seconds. -/
structure Span (α : Type) where
  start : α
  finish : α
deriving DecidableEq, Repr

/-- The recent pauses and the promise. -/
structure Tracker (α : Type) where
  /-- The length of the time slice in seconds. -/
  slice : α
  /-- The pause time allowed in a slice, in seconds. -/
  limit : α
  pauses : List (Span α)
deriving DecidableEq, Repr

variable {α : Type} [Scalar α]

/-- Pause times below this many seconds do not count. -/
def tolerance : α := ratio 1 10000000

namespace Span

def duration (s : Span α) : α := s.finish - s.start

/-- The part of a pause after a moment, for pauses that end after it. -/
def durationAfter (s : Span α) (moment : α) : α :=
  if moment < s.start then s.duration else s.finish - moment

end Span

namespace Tracker

/-- A tracker without pauses. The allowed pause time has to be shorter than the slice. -/
def create (slice limit : α) : Checked α (Tracker α) := do
  demand (limit < slice) (.pauseExceedsSlice limit slice)
  return { slice, limit, pauses := [] }

/-- The pauses left when those that ended before a moment are dropped from the front. -/
def unexpired (t : Tracker α) (moment : α) : List (Span α) :=
  t.pauses.dropWhile fun s => ! decide (moment ≤ s.finish)

def add (t : Tracker α) (start finish : α) : Logged α (Tracker α) := do
  let recent := t.unexpired (finish - t.slice)
  if recent.length = queueLength then
    Logged.write .trace .decisions ["MMU tracker full, dropping oldest pause"]
    return { t with pauses := recent.tail ++ [⟨start, finish⟩] }
  else
    return { t with pauses := recent ++ [⟨start, finish⟩] }

/-- The pauses that reach into the slice that ends at a moment. -/
def pausesAfter (t : Tracker α) (moment : α) : List (Span α) :=
  t.pauses.filter fun s => decide (moment < s.finish)

/-- The pause time in the slice that ends at `now`. -/
def pauseTime (t : Tracker α) (now : α) : α :=
  Scalar.sum ((t.pausesAfter (now - t.slice)).map fun s => s.durationAfter (now - t.slice))

/-- Looks for the first pause whose leaving the slice brings the excess down to nothing, and gives
the moment at which enough of it has left. -/
def releaseMoment (moment : α) : List (Span α) → α → Checked α α
  | [], excess => .error (.windowExhausted excess)
  | s :: rest, excess =>
    let left := excess - s.durationAfter moment
    if left < tolerance then .ok (s.finish + left) else releaseMoment moment rest left

/-- The delay from `now` until a pause of the given length may start. A pause longer than the
allowed time is treated as one that uses it up. -/
def delay (t : Tracker α) (now pause : α) : Checked α α := do
  let length := Scalar.min pause t.limit
  let finish := now + length
  let moment := finish - t.slice
  let excess := t.pauseTime finish + length - t.limit
  if excess < tolerance then return num 0
  else
    let release ← releaseMoment moment (t.pausesAfter moment) excess
    return release + t.slice - length - now

/-- The delay until a pause of the longest allowed length may start. -/
def delayOfLongest (t : Tracker α) (now : α) : Checked α α := t.delay now t.limit

end Tracker

end PauseGoal.Utilization
