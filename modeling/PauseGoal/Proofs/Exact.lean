import PauseGoal.Proofs.Collector

/-!
# Exact numbers

The rationals are scalars: all that the policy computes is then exact, but for square roots, which
are rounded down to a multiple of the unit that the denominator gives. With them a run is something
that the kernel computes, and a statement about runs can be held against one.
-/

namespace PauseGoal

/-- The largest number whose square is at most `n`, found bit by bit on top of `root`. -/
def sqrtBelow (n : Nat) : Nat → Nat → Nat
  | 0, root => root
  | bit + 1, root =>
    let larger := root + 2 ^ bit
    sqrtBelow n bit (if larger * larger ≤ n then larger else root)

/-- The square root, rounded down. -/
def floorSqrt (n : Nat) : Nat := sqrtBelow n (n.log2 / 2 + 1) 0

instance Scalar.exact : Scalar Rat where
  ofCount n := n
  sqrt x := mkRat (floorSqrt (x.num.toNat * x.den)) x.den
  truncate x := Nat.min x.floor.toNat (wordBound - 1)
  decideLT _ _ := inferInstance
  decideLE _ _ := inferInstance

theorem Scalar.sum_append_singleton {α : Type} [Scalar α] (xs : List α) (x : α) :
    Scalar.sum (xs ++ [x]) = Scalar.sum xs + x := by
  rw [Scalar.sum, List.foldl_append]
  rfl

namespace Collector

open OldRegions (Candidates reclaimableIn)

/-- The young generation always has ten regions, and marking starts at a fixed occupancy. -/
def plainSettings : Settings Rat :=
  { Settings.default with
    leastYoungSize := some 10485760
    largestYoungSize := some 10485760
    adaptiveMarking := false }

/-- A heap of a hundred regions, almost all of them free. -/
def plainHeap : Heap Rat where
  regions := 100
  expandable := 0
  free := 90
  capacity := 104857600
  maxCapacity := 104857600
  oldBytes := 0
  usedBytes := 0
  eden := 0
  survivors := []
  cycleRunning := false
  pendingCards := 0
  refinement := { concurrentCards := 0, concurrentTime := 0, mutatorCards := 0 }
  cause := .allocation
  evacuationFailed := false
  candidates := none

/-- The same heap while a concurrent cycle runs. -/
def busyHeap : Heap Rat := { plainHeap with cycleRunning := true }

/-- An old region without live data. -/
def deadRegion : OldRegion where
  index := 0
  used := 1048576
  live := 0
  entries := 0
  live_le_used := Nat.zero_le _

/-- Old regions without live data, some of which were taken. -/
def garbage (count taken : Nat) (h : taken ≤ count) : Candidates where
  regions := List.replicate count deadRegion
  taken := taken
  reclaimable := reclaimableIn ((List.replicate count deadRegion).drop taken)
  taken_le := by rwa [List.length_replicate]
  reclaimable_eq := rfl

/-- An evacuation pause of a second, with some calls inside it. -/
def plainPause (heap : Heap Rat) (start : Nat) (inside : List (Call Rat)) : List (Call Rat) :=
  [.beginPause, .decide heap, .startPause heap start] ++ inside ++
    [.transfer 0 false, .endPause heap (start + 1) 1000]

/-- A request, the initial mark, remark and a cleanup with the given number of candidates. -/
def plainCycle (start count : Nat) : List (Call Rat) :=
  [.request] ++ plainPause plainHeap start [] ++
    [.setCandidates (some (garbage count 0 (Nat.zero_le _))), .startRemark (start + 2),
      .endRemark (start + 3), .startCleanup (start + 4), .endCleanup plainHeap (start + 5)]

end Collector

end PauseGoal
