import PauseGoal.Pause.Ledger
import PauseGoal.Sample.Predictor

/-!
# The cost model

Everything the policy predicts comes from the recent past: what each part of the last pauses cost,
how fast mutators allocate and log cards, and how long and how frequent pauses were. The model keeps
a window of samples for each of these and predicts from the window. Before the first pause it starts
from estimates that depend on the number of workers.

Costs are in milliseconds per unit, rates in units per millisecond.
-/

namespace PauseGoal

open Sample (Window Predictor)

/-- The recent past, as samples. -/
structure CostModel (α : Type) where
  predictor : Predictor α
  /-- Times of recent pauses, full collections included. -/
  pauseTimes : Window α
  /-- When recent pauses ended, in seconds; the start of the model counts as one. -/
  pauseEnds : Window α
  /-- When the last pause ended, in milliseconds. -/
  lastPauseEnd : α
  /-- The recent part of time spent in pauses. -/
  pauseRatio : α
  /-- The last pause, if all recent ones were like it, as a part of time. -/
  lastPauseRatio : α
  remarkTimes : Window α
  cleanupTimes : Window α
  /-- Eden regions allocated per millisecond. -/
  allocationRates : Window α
  /-- Cards refined concurrently per millisecond. -/
  refinementRates : Window α
  /-- Cards logged per millisecond. -/
  loggingRates : Window α
  loggedCardCosts : Window α
  hotCardTimes : Window α
  youngCardsPerEntry : Window α
  mixedCardsPerEntry : Window α
  youngRememberedCosts : Window α
  mixedRememberedCosts : Window α
  /-- By how much remembered sets turned out longer than expected. -/
  entryExcess : Window α
  byteCosts : Window α
  /-- The costs per byte while marking runs. -/
  markingByteCosts : Window α
  constantOtherTimes : Window α
  youngOtherCosts : Window α
  oldOtherCosts : Window α
  pendingCards : Window α
  entries : Window α
  /-- All pauses, added up by kind. -/
  ledger : Pause.Ledger α
deriving Repr

namespace CostModel

variable {α : Type} [Scalar α]

/-! ## Estimates before the first pause -/

/-- The number of worker counts with estimates of their own; more workers share the last ones. -/
def estimateCount : Nat := 8

/-- The estimate for a number of workers, from a table in units of `1 / unit`. -/
def estimate (workers : Nat) (unit : Nat) (table : List Nat) : α :=
  ratio (table.getD (Nat.min (Nat.max workers 1 - 1) (estimateCount - 1)) 0) unit

/-- Milliseconds per logged card. -/
def loggedCardEstimates : List Nat := [100, 50, 50, 30, 30, 20, 20, 15]

/-- Milliseconds per card of a remembered set in a young collection. -/
def rememberedEstimates : List Nat := [150, 100, 100, 80, 80, 55, 55, 50]

/-- Milliseconds per copied byte. -/
def byteEstimates : List Nat := [60, 30, 30, 15, 15, 10, 10, 9]

/-- Milliseconds per young region beside copying. -/
def youngOtherEstimates : List Nat := [30, 20, 20, 15, 15, 12, 12, 10]

/-- Milliseconds per old region beside copying. -/
def oldOtherEstimates : List Nat := [100, 70, 70, 50, 50, 42, 42, 30]

/-- The model at its start, `now` seconds after the origin of time. Cards are taken to be refined as
fast as one worker processes them in a pause. -/
def create (predictor : Predictor α) (workers : Nat) (now : α) : CostModel α where
  predictor := predictor
  pauseTimes := Window.ofTen
  pauseEnds := Window.ofTen.add now
  lastPauseEnd := now * num 1000
  pauseRatio := num 0
  lastPauseRatio := num 0
  remarkTimes := Window.ofTen.add (ratio 5 100)
  cleanupTimes := Window.ofTen.add (ratio 20 100)
  allocationRates := Window.ofTen
  refinementRates := Window.ofTen.add (num 1 / estimate 1 10000 loggedCardEstimates)
  loggingRates := Window.ofTen.add (num 0)
  loggedCardCosts := Window.ofTen.add (estimate workers 10000 loggedCardEstimates)
  hotCardTimes := Window.ofTen.add (num 0)
  youngCardsPerEntry := Window.ofTen.add (num 1)
  mixedCardsPerEntry := Window.ofTen
  youngRememberedCosts := Window.ofTen.add (estimate workers 10000 rememberedEstimates)
  mixedRememberedCosts := Window.ofTen
  entryExcess := Window.ofTen.add (num 0)
  byteCosts := Window.ofTen.add (estimate workers 1000000 byteEstimates)
  markingByteCosts := Window.ofTen
  constantOtherTimes := Window.ofTen.add (num 5)
  youngOtherCosts := Window.ofTen.add (estimate workers 100 youngOtherEstimates)
  oldOtherCosts := Window.ofTen.add (estimate workers 100 oldOtherEstimates)
  pendingCards := Window.ofTen
  entries := Window.ofTen
  ledger := .empty

/-! ## Learning -/

def countPause (m : CostModel α) (record : Pause.Record α) : CostModel α :=
  { m with ledger := m.ledger.count record }

def oldestPauseEnd (m : CostModel α) : α := m.pauseEnds.oldest

/-- Learns the end of a pause in seconds and its time in milliseconds. -/
def addPause (m : CostModel α) (finish time : α) : CostModel α :=
  { m with
    pauseTimes := m.pauseTimes.add time
    pauseEnds := m.pauseEnds.add finish
    lastPauseEnd := finish * num 1000 }

/-- Learns that a pause outside evacuation took some milliseconds of the mutator phase. -/
def postponePauseEnd (m : CostModel α) (time : α) : CostModel α :=
  { m with lastPauseEnd := m.lastPauseEnd + time }

/-- Relates the recent pauses to the interval in which they ended. The last pause is compared with
the whole interval, so that a short burst of pauses does not look like a trend. -/
def updateRatios (m : CostModel α) (interval time : α) : CostModel α :=
  if interval ≤ num 0 then m
  else
    { m with
      pauseRatio := Scalar.min (Scalar.max (m.pauseTimes.sum / interval) (num 0)) (num 1)
      lastPauseRatio := time * num m.pauseEnds.size / interval }

def addRemark (m : CostModel α) (time : α) : CostModel α :=
  { m with remarkTimes := m.remarkTimes.add time }

def addCleanup (m : CostModel α) (time : α) : CostModel α :=
  { m with cleanupTimes := m.cleanupTimes.add time }

def addAllocationRate (m : CostModel α) (rate : α) : CostModel α :=
  { m with allocationRates := m.allocationRates.add rate }

def addRefinementRate (m : CostModel α) (rate : α) : CostModel α :=
  { m with refinementRates := m.refinementRates.add rate }

def addLoggingRate (m : CostModel α) (rate : α) : CostModel α :=
  { m with loggingRates := m.loggingRates.add rate }

def addLoggedCardCost (m : CostModel α) (cost : α) : CostModel α :=
  { m with loggedCardCosts := m.loggedCardCosts.add cost }

def addHotCardTime (m : CostModel α) (time : α) : CostModel α :=
  { m with hotCardTimes := m.hotCardTimes.add time }

def addRememberedCost (m : CostModel α) (cost : α) (young : Bool) : CostModel α :=
  if young then { m with youngRememberedCosts := m.youngRememberedCosts.add cost }
  else { m with mixedRememberedCosts := m.mixedRememberedCosts.add cost }

def addCardsPerEntry (m : CostModel α) (cards : α) (young : Bool) : CostModel α :=
  if young then { m with youngCardsPerEntry := m.youngCardsPerEntry.add cards }
  else { m with mixedCardsPerEntry := m.mixedCardsPerEntry.add cards }

def addEntryExcess (m : CostModel α) (excess : α) : CostModel α :=
  { m with entryExcess := m.entryExcess.add excess }

def addByteCost (m : CostModel α) (cost : α) (marking : Bool) : CostModel α :=
  if marking then { m with markingByteCosts := m.markingByteCosts.add cost }
  else { m with byteCosts := m.byteCosts.add cost }

def addYoungOther (m : CostModel α) (cost : α) : CostModel α :=
  { m with youngOtherCosts := m.youngOtherCosts.add cost }

def addOldOther (m : CostModel α) (cost : α) : CostModel α :=
  { m with oldOtherCosts := m.oldOtherCosts.add cost }

def addConstantOther (m : CostModel α) (time : α) : CostModel α :=
  { m with constantOtherTimes := m.constantOtherTimes.add time }

def addPendingCards (m : CostModel α) (cards : α) : CostModel α :=
  { m with pendingCards := m.pendingCards.add cards }

def addEntries (m : CostModel α) (entries : α) : CostModel α :=
  { m with entries := m.entries.add entries }

/-! ## Predicting -/

def predict (m : CostModel α) (w : Window α) : α := m.predictor.predict w

/-- Eden regions per millisecond; zero before the first pause. -/
def allocationRate (m : CostModel α) : α :=
  if m.allocationRates.isEmpty then num 0 else m.predict m.allocationRates

def refinementRate (m : CostModel α) : α := m.predict m.refinementRates

def loggingRate (m : CostModel α) : α := m.predict m.loggingRates

def loggedCardCost (m : CostModel α) : α := m.predict m.loggedCardCosts

def hotCardTime (m : CostModel α) : α := m.predict m.hotCardTimes

def pendingCardTime (m : CostModel α) (cards : Nat) : α :=
  num cards * m.loggedCardCost + m.hotCardTime

/-- Cards per entry of a remembered set. Mixed collections need two samples of their own. -/
def cardsPerEntry (m : CostModel α) (young : Bool) : α :=
  if young = true ∨ m.mixedCardsPerEntry.size < 2 then m.predict m.youngCardsPerEntry
  else m.predict m.mixedCardsPerEntry

def cardCount (m : CostModel α) (entries : Nat) (young : Bool) : Nat :=
  Scalar.truncate (Scalar.max (num entries * m.cardsPerEntry young) (num 0))

/-- The time to scan cards of remembered sets. Mixed collections need three samples of their own. -/
def scanTime (m : CostModel α) (cards : Nat) (young : Bool) : α :=
  if young = true ∨ m.mixedRememberedCosts.size < 3 then
    num cards * m.predict m.youngRememberedCosts
  else num cards * m.predict m.mixedRememberedCosts

/-- The time to copy bytes. Copying while marking runs needs three samples of its own; before that
it is taken to be a tenth slower. -/
def copyTime (m : CostModel α) (bytes : Nat) (marking : Bool) : α :=
  if marking then
    if m.markingByteCosts.size < 3 then ratio 11 10 * num bytes * m.predict m.byteCosts
    else num bytes * m.predict m.markingByteCosts
  else num bytes * m.predict m.byteCosts

/-- The time of a pause that does not depend on regions. -/
def constantOtherTime (m : CostModel α) : α := m.predict m.constantOtherTimes

def youngOtherTime (m : CostModel α) (regions : Nat) : α :=
  num regions * m.predict m.youngOtherCosts

def oldOtherTime (m : CostModel α) (regions : Nat) : α :=
  num regions * m.predict m.oldOtherCosts

def remarkTime (m : CostModel α) : α := m.predict m.remarkTimes

def cleanupTime (m : CostModel α) : α := m.predict m.cleanupTimes

/-- The length of remembered sets in the next pause, allowing for its excess. -/
def entryCount (m : CostModel α) : Checked α Nat :=
  Word.add (m.predictor.predictCount m.entries)
    (Scalar.truncate (Scalar.max (m.predict m.entryExcess) (num 0)))

def pendingCardCount (m : CostModel α) : Nat := m.predictor.predictCount m.pendingCards

end CostModel

end PauseGoal
