import PauseGoal.OldRegions.Candidates

/-!
# The heap as the policy sees it

The collector owns the heap. The policy reads it at the points where it decides, and changes nothing
but the candidates, which it drops when they are out of date.
-/

namespace PauseGoal

/-- Why a collection was started. -/
inductive Cause where
  /-- Eden is full. -/
  | allocation
  /-- A large allocation pushed the old generation over the marking threshold. -/
  | largeAllocation
  /-- Somebody asked for a full collection. -/
  | user
  /-- Somebody asked for a concurrent cycle. -/
  | userConcurrent
  /-- A timer while the application is idle. -/
  | periodic
  /-- An allocation waited for a critical region. -/
  | criticalRegion
deriving DecidableEq, Repr

def Cause.name : Cause → String
  | .allocation => "Allocation Failure"
  | .largeAllocation => "Humongous Allocation"
  | .user => "User Requested"
  | .userConcurrent => "User Requested Concurrent"
  | .periodic => "Periodic Collection"
  | .criticalRegion => "GCLocker Initiated GC"

def Cause.asksForMarking (cause : Cause) : Bool := cause == .userConcurrent

/-- Running totals of card refinement outside pauses. -/
structure RefinementStatistics (α : Type) where
  concurrentCards : Nat
  /-- The time that these took, in milliseconds. -/
  concurrentTime : α
  mutatorCards : Nat
deriving DecidableEq, Repr

/-- The answers that the heap gives. -/
structure Heap (α : Type) where
  /-- The committed regions. -/
  regions : Nat
  /-- The regions that can still be committed. -/
  expandable : Nat
  free : Nat
  capacity : Nat
  maxCapacity : Nat
  /-- The bytes occupied outside the young generation. -/
  oldBytes : Nat
  usedBytes : Nat
  eden : Nat
  survivors : List YoungRegion
  /-- Whether a concurrent cycle runs, cleanup included. -/
  cycleRunning : Bool
  /-- The cards that were logged and not refined yet. -/
  pendingCards : Nat
  refinement : RefinementStatistics α
  cause : Cause
  evacuationFailed : Bool
  /-- The old regions that the last marking selected. -/
  candidates : Option OldRegions.Candidates
deriving DecidableEq, Repr

namespace Heap

variable {α : Type}

/-- The regions that are free or can be committed. -/
def available (h : Heap α) : Checked α Nat := Word.add h.free h.expandable

def youngRegions (h : Heap α) : Checked α Nat := Word.add h.eden h.survivors.length

/-- The candidates, if any are left. -/
def remainingCandidates (h : Heap α) : Option OldRegions.Candidates :=
  h.candidates.filter fun c => !c.isEmpty

/-- Takes candidates from the front, once they are part of a collection set. -/
def takeCandidates (h : Heap α) (count : Nat) : Checked α (Heap α) :=
  match h.candidates with
  | none => .ok h
  | some candidates => do
    let rest ← candidates.take count
    return { h with candidates := some rest }

def clearCandidates (h : Heap α) : Heap α := { h with candidates := none }

end Heap

end PauseGoal
