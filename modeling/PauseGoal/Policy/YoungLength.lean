import PauseGoal.Policy.Prediction

/-!
# The length of the young generation

After every collection the policy chooses the length to which mutators may fill the young
generation: as long as its collection is predicted to meet the pause time goal. While mixed
collections run it is as short as allowed instead, so that the next mixed collection comes soon.
-/

namespace PauseGoal.Policy

open Young (Bounds Target Forecast)

variable {α : Type} [Scalar α]

/-- Takes note of a new number of committed regions. The reserve is rounded up, so that it is at
least one region unless it is switched off. -/
def resize (p : Policy α) (regions : Nat) : Checked α (Policy α) := do
  let sizer ← p.sizer.resize regions
  let target ← Word.mul regions p.settings.regionSize
  return { p with
    reserve := Scalar.ceil (num regions * (num p.settings.reservePercent / num 100 : α))
    sizer := sizer
    threshold := p.threshold.setTarget target }

/-- The regions that mutators will allocate before the next pause may start. Known only with more
than three samples of the allocation rate, and of no interest when the length is fixed. -/
def regionsUntilPause (p : Policy α) (now : α) : Checked α Nat :=
  if p.isAdaptive && decide (3 < p.costs.allocationRates.size) then do
    let delay ← p.utilization.delayOfLongest now
    return Scalar.ceil (p.costs.allocationRate * (delay * num 1000))
  else .ok 0

/-- The least length that is wanted, with `survivors` regions in the young generation already. -/
def desiredLeast (p : Policy α) (now : α) (survivors : Nat) : Checked α Nat := do
  let allocated ← p.regionsUntilPause now
  return Nat.max (← Word.add allocated survivors) p.sizer.least

/-- The bounds of the next young generation. It has room for at least one eden region on top of the
survivors and is never shorter than the young generation is now. -/
def youngBounds (p : Policy α) (heap : Heap α) (now : α) : Checked α Bounds := do
  let desired ← p.desiredLeast now heap.survivors.length
  let present ← Word.add heap.survivors.length (Nat.max heap.eden 1)
  return {
    fixed := p.fixedYoungLength
    least := Nat.max desired present
    largest := p.sizer.largest
    allowed := p.freeRegions - p.reserve }

/-- What the next young collection would take, on top of the given base time. -/
def youngForecast (p : Policy α) (freeRegions : Nat) (baseTime : α) : Forecast α where
  costs := p.costs
  eden := p.eden
  baseTime := baseTime
  freeRegions := freeRegions
  goal := p.settings.pauseGoal
  regionSize := p.settings.regionSize
  marking := p.phases.marking
  confidencePercent := num p.settings.confidencePercent
  bufferWastePercent := num p.settings.bufferWastePercent

def optionText : Option Nat → String
  | none => "None"
  | some n => s!"Some({n})"

def logYoungTarget (target : Target) (bounds : Bounds) (baseTime : α)
    (entries pendingCards : Nat) : Act α Unit :=
  Act.write .trace .decisions
    ["Young target lengths: YoungTargetLengths \x7b bounded: ", target.bounded, ", unbounded: ",
      target.unbounded, " \x7d for YoungGenBounds \x7b fixed_length: ", optionText bounds.fixed,
      ", min_desired: ", bounds.least, ", max_desired: ", bounds.largest, ", max_allowed: ",
      bounds.allowed, " \x7d, base time ", .fixed 2 baseTime, "ms, rs length ", entries,
      ", pending cards ", pendingCards]

/-- The length of the next young generation for the given remembered set entries. -/
def youngTargetFor (p : Policy α) (heap : Heap α) (now : α) (entries : Nat) : Act α Target := do
  let bounds ← Act.ofChecked (p.youngBounds heap now)
  let survivorTime ← Act.ofChecked (p.survivorTime heap)
  let baseTime := p.baseTime p.costs.pendingCardCount entries + survivorTime
  let forecast := p.youngForecast bounds.allowed baseTime
  let target ← Act.ofChecked <|
    bounds.target heap.survivors.length p.phases.youngOnly forecast.fits
  logYoungTarget target bounds baseTime entries p.costs.pendingCardCount
  return target

/-- How far a young generation of the given length may grow while a critical region is held: a
percentage of the length, rounded up. -/
def youngExpansion (p : Policy α) (length : Nat) : Nat :=
  Scalar.ceil ((num p.settings.expansionPercent / num 100 : α) * num length)

/-- Chooses the length of the young generation for the given remembered set entries. Also gives the
length that the pause time goal alone asks for. -/
def chooseYoungLengthFor (p : Policy α) (heap : Heap α) (now : α) (entries : Nat) :
    Act α (Nat × Policy α) := do
  let target ← p.youngTargetFor heap now entries
  let maximum ← Act.ofChecked (Word.add target.bounded (p.youngExpansion target.bounded))
  Act.report (.youngTarget target.bounded target.unbounded maximum)
  return (target.unbounded, { p with youngTarget := target.bounded, youngMaximum := maximum })

/-- Chooses the length of the young generation for the predicted remembered set entries. -/
def chooseYoungLength (p : Policy α) (heap : Heap α) (now : α) : Act α (Nat × Policy α) := do
  let entries ← Act.ofChecked p.costs.entryCount
  p.chooseYoungLengthFor heap now entries

/-- Sets the remembered set entries to expect. They matter only while the length is chosen by
predictions. -/
def expectEntries (p : Policy α) (entries : Nat) : Policy α :=
  if p.phases.youngOnly && p.isAdaptive then { p with expectedEntries := entries } else p

/-- Expects the predicted remembered set entries. -/
def expectPredictedEntries (p : Policy α) : Checked α (Policy α) := do
  return p.expectEntries (← p.costs.entryCount)

/-- Shortens the young generation when its remembered sets turn out longer than expected. Expects a
tenth more than was found, so that this does not happen at every look. -/
def revise (p : Policy α) (heap : Heap α) (now : α) (entries : Nat) : Act α (Policy α) := do
  Act.ofChecked (demand (p.isAdaptive = true) .fixedYoungLength)
  if p.expectedEntries < entries then
    let scaled ← Act.ofChecked (Word.mul entries 1100)
    let expected := scaled / 1000
    let (_, p) ← (p.expectEntries expected).chooseYoungLengthFor heap now expected
    return p
  else return p

/-- Whether mutators may take another region. -/
def mayAllocate (p : Policy α) (heap : Heap α) : Checked α Bool := do
  return decide ((← heap.youngRegions) < p.youngTarget)

/-- Whether the young generation may grow while a critical region is held. -/
def mayExpand (p : Policy α) (heap : Heap α) : Checked α Bool := do
  return decide ((← heap.youngRegions) < p.youngMaximum)

end PauseGoal.Policy
