import PauseGoal.Log

/-!
# Where the time of a pause went

The collector measures the phases of a pause while it runs; times are averages over the parallel
workers. Cards are scanned for two reasons, because a mutator logged them or because a remembered
set names them, and the time to scan them is split between the two in proportion.
-/

namespace PauseGoal.Pause

/-- The measurements of the current pause. Times are in milliseconds but for its start. -/
structure Breakdown (α : Type) where
  /-- When the pause started, in seconds. -/
  start : α
  parallel : α
  edenRegions : Nat
  survivorRegions : Nat
  oldRegions : Nat
  /-- The remembered set entries of the collection set at the start of the pause. -/
  entries : Nat
  /-- The entries that were expected when the collection set was chosen. -/
  expectedEntries : Nat
  mergeLogs : α
  loggedCards : Nat
  mergeHotCards : α
  mergeRememberedSets : α
  scanRoots : α
  /-- All cards scanned, logged ones included. -/
  scannedCards : Nat
  copy : α
  copiedBytes : Nat
  youngOther : α
  oldOther : α
deriving DecidableEq, Repr

namespace Breakdown

variable {α : Type} [Scalar α]

def zero : Breakdown α where
  start := num 0
  parallel := num 0
  edenRegions := 0
  survivorRegions := 0
  oldRegions := 0
  entries := 0
  expectedEntries := 0
  mergeLogs := num 0
  loggedCards := 0
  mergeHotCards := num 0
  mergeRememberedSets := num 0
  scanRoots := num 0
  scannedCards := 0
  copy := num 0
  copiedBytes := 0
  youngOther := num 0
  oldOther := num 0

def youngRegions (b : Breakdown α) : Checked α Nat := Word.add b.edenRegions b.survivorRegions

/-- The time that logged cards took. A card that several buffers logged is scanned once, so more
cards can be logged than scanned; then all scanning is due to them. -/
def loggedCardTime (b : Breakdown α) : α :=
  if b.scannedCards = 0 ∨ b.scannedCards < b.loggedCards then b.scanRoots + b.mergeLogs
  else b.scanRoots * num b.loggedCards / num b.scannedCards + b.mergeLogs

/-- The cards scanned because a remembered set names them. -/
def rememberedCards (b : Breakdown α) : Nat := b.scannedCards - b.loggedCards

def rememberedSetTime (b : Breakdown α) : α :=
  if b.scannedCards = 0 then b.mergeRememberedSets
  else b.scanRoots * num b.rememberedCards / num b.scannedCards + b.mergeRememberedSets

/-- The part of a pause of the given length outside parallel phases. -/
def otherTime (b : Breakdown α) (pause : α) : α := Scalar.max (pause - b.parallel) (num 0)

/-- The part of that time that does not depend on the number of regions. -/
def constantOtherTime (b : Breakdown α) (pause : α) : α :=
  Scalar.max (b.otherTime pause - b.youngOther - b.oldOther) (num 0)

def log (b : Breakdown α) (pause : α) : Logged α Unit := do
  Logged.write .debug .phases
    ["Pause ", .fixed 3 pause, "ms: parallel ", .fixed 3 b.parallel, "ms, other ",
      .fixed 3 (b.otherTime pause), "ms"]
  Logged.write .trace .phases
    ["  Merge log buffers ", .fixed 3 b.mergeLogs, "ms (", b.loggedCards, " cards), merge HCC ",
      .fixed 3 b.mergeHotCards, "ms, merge remembered sets ", .fixed 3 b.mergeRememberedSets, "ms"]
  Logged.write .trace .phases
    ["  Scan heap roots ", .fixed 3 b.scanRoots, "ms (", b.scannedCards, " cards), object copy ",
      .fixed 3 b.copy, "ms (", b.copiedBytes, " bytes)"]
  Logged.write .trace .phases
    ["  Collection set: eden ", b.edenRegions, ", survivor ", b.survivorRegions, ", old ",
      b.oldRegions, "; young other ", .fixed 3 b.youngOther, "ms, non-young other ",
      .fixed 3 b.oldOther, "ms"]

end Breakdown

end PauseGoal.Pause
