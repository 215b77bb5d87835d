import PauseGoal.Log

/-!
# Tenuring

An object that survives a collection gets one age older. While survivors are copied, their bytes are
counted by age; the tenuring threshold is the age from which objects are promoted, chosen so that
the younger ones fit the desired survivor size.
-/

namespace PauseGoal

/-- The number of ages told apart. Older objects count at the oldest age. -/
def ageCount : Nat := 16

/-- Bytes of surviving objects by age. -/
structure SurvivorAges where
  /-- The bytes, youngest age first. -/
  sizes : List Nat
  /-- Every age told apart has its bytes. -/
  length_sizes : sizes.length = ageCount
deriving DecidableEq, Repr

namespace SurvivorAges

variable {α : Type}

/-- No survivors. -/
def empty : SurvivorAges := ⟨List.replicate ageCount 0, List.length_replicate⟩

/-- The age at which an object of a given age is counted. -/
def slot (age : Nat) : Nat := Nat.min age (ageCount - 1)

/-- Counts the bytes of objects of one age. -/
def add (ages : SurvivorAges) (age bytes : Nat) : Checked α SurvivorAges := do
  let size ← Word.add (ages.sizes.getD (slot age) 0) bytes
  return ⟨ages.sizes.set (slot age) size, List.length_set.trans ages.length_sizes⟩

/-- Counts a list of additions. -/
def addAll (ages : SurvivorAges) (additions : List (Nat × Nat)) : Checked α SurvivorAges :=
  additions.foldlM (fun table a => table.add a.1 a.2) ages

/-- Adds another count, age by age, if all sums are words. -/
def merge (ages other : SurvivorAges) : Checked α SurvivorAges :=
  let sums := ages.sizes.zipWith (· + ·) other.sizes
  if sums.all (fun sum => decide (sum < wordBound)) then
    .ok ⟨sums, by simp [sums, ages.length_sizes, other.length_sizes]⟩
  else .error .additionOverflow

/-- The bytes counted at an age. -/
def sizeAt (ages : SurvivorAges) (age : Nat) : Checked α Nat :=
  match ages.sizes[age]? with
  | some size => .ok size
  | none => .error (.indexOutOfBounds ages.sizes.length age)

/-- The bytes counted at all ages. -/
def total (ages : SurvivorAges) : Checked α Nat := Word.sum ages.sizes

/-- The first age, counted from `age`, at which the running total exceeds the desired size. -/
def firstExceeding (desired : Nat) : List Nat → Nat → Nat → Checked α (Option Nat)
  | [], _, _ => .ok none
  | size :: older, age, sum => do
    let sum ← Word.add sum size
    if desired < sum then return some age else firstExceeding desired older (age + 1) sum

/-- The age from which survivors are promoted: the first one at which they no longer fit the desired
size, and never more than the maximum. Nothing fits a desired size of zero. -/
def threshold (ages : SurvivorAges) (desired maximum : Nat) : Checked α Nat :=
  if desired = 0 then .ok 0
  else do
    match ← firstExceeding desired ages.sizes 0 0 with
    | some age => return Nat.min age maximum
    | none => return maximum

/-- Writes the ages that have survivors with their running totals. -/
def logSizes : List Nat → Nat → Nat → Logged α Unit
  | [], _, _ => return
  | size :: older, age, sum =>
    if size = 0 then logSizes older (age + 1) sum
    else do
      let sum ← Logged.ofChecked (Word.add sum size)
      Logged.write .trace .ages
        ["- age ", .column 3 age, ": ", .column 10 size, " bytes, ", .column 10 sum, " total (",
          .bytes sum, ")"]
      logSizes older (age + 1) sum

/-- Writes the outcome of a threshold computation, and the table itself if the log keeps traces. -/
def log (ages : SurvivorAges) (desired threshold maximum : Nat) : Logged α Unit := do
  Logged.write .debug .ages
    ["Desired survivor size ", desired, " bytes, new threshold ", threshold, " (max threshold ",
      maximum, ")"]
  if ← Logged.keeps .trace then logSizes ages.sizes 0 0

end SurvivorAges

end PauseGoal
