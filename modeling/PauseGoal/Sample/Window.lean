import PauseGoal.Word

/-!
# Sample windows

A window keeps the most recent samples of a quantity, and beside them a mean and a variance of all
samples ever added, in which older samples decay geometrically. Sum and sum of squares of the kept
samples are carried along rather than recomputed: adding a sample takes the evicted one out again.
-/

namespace PauseGoal.Sample

/-- The most recent samples, oldest first, with running sums and decaying statistics. -/
structure Window (α : Type) where
  /-- How many samples the window holds. -/
  capacity : Nat
  /-- The weight of the previous mean and variance when a sample is added. -/
  weight : α
  samples : List α
  sum : α
  /-- The sum of their squares. -/
  sumOfSquares : α
  /-- The decaying mean of all samples. -/
  mean : α
  /-- The decaying variance of all samples, as carried along. -/
  spread : α
  capacity_pos : 0 < capacity
deriving Repr

namespace Window

variable {α : Type} [Scalar α]

/-- The weight of the past unless a window asks for another one. -/
def defaultWeight : α := ratio 7 10

def empty (capacity : Nat) (weight : α) (capacity_pos : 0 < capacity := by decide) : Window α where
  capacity := capacity
  weight := weight
  samples := []
  sum := num 0
  sumOfSquares := num 0
  mean := num 0
  spread := num 0
  capacity_pos := capacity_pos

/-- A window of ten samples in which the past has the given weight. -/
def ofTenWeighing (weight : α) : Window α := empty 10 weight

def ofTen : Window α := ofTenWeighing defaultWeight

def create (capacity : Nat) (weight : α) : Checked α (Window α) :=
  if h : 0 < capacity then .ok (empty capacity weight h) else .error .emptyWindow

def size (w : Window α) : Nat := w.samples.length

def isEmpty (w : Window α) : Bool := w.samples.isEmpty

/-- The oldest sample in the window; zero if there is none. -/
def oldest (w : Window α) : α := w.samples.head?.getD (num 0)

/-- The latest sample; zero if there is none. -/
def latest (w : Window α) : α := w.samples.getLast?.getD (num 0)

/-- What the next sample pushes out of the window: the oldest sample of a full window. A window that
still has room gives up nothing, which the sums see as a zero. -/
def evicted (w : Window α) : α := if w.size < w.capacity then num 0 else w.oldest

/-- The decaying mean after a sample. The first sample is the mean. -/
def nextMean (w : Window α) (x : α) : α :=
  if w.isEmpty then x else (num 1 - w.weight) * x + w.weight * w.mean

/-- The decaying variance after a sample, taken around the new mean. -/
def nextSpread (w : Window α) (x : α) : α :=
  if w.isEmpty then num 0
  else
    (num 1 - w.weight) * (x - w.nextMean x) * (x - w.nextMean x) + w.weight * w.spread

def add (w : Window α) (x : α) : Window α :=
  { w with
    samples := if w.size < w.capacity then w.samples ++ [x] else w.samples.tail ++ [x]
    sum := w.sum - w.evicted + x
    sumOfSquares := w.sumOfSquares - w.evicted * w.evicted + x * x
    mean := w.nextMean x
    spread := w.nextSpread x }

/-- The mean of the samples in the window; zero if there is none. -/
def average (w : Window α) : α := if w.isEmpty then num 0 else w.sum / num w.size

/-- The decaying variance, which rounding must not make negative. -/
def variance (w : Window α) : α := Scalar.max w.spread (num 0)

def deviation (w : Window α) : α := Scalar.sqrt w.variance

end Window

end PauseGoal.Sample
