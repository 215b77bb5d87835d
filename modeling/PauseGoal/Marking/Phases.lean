import PauseGoal.Word
import PauseGoal.Pause.Kind

/-!
# Phases of the collector

Young collections run until marking ends and finds enough old space to reclaim. One more young
collection follows, the last one before mixed collections. Mixed collections then run until the
candidates are used up, and young collections start over.
-/

namespace PauseGoal.Marking

/-- Where the collector is in its cycle. -/
structure Phases where
  /-- Only young collections run. -/
  youngOnly : Bool := true
  /-- The next young collection is the last one before mixed ones. -/
  beforeMixed : Bool := false
  /-- Marking, or rebuilding remembered sets after it, is running. -/
  marking : Bool := false
  /-- The bitmap for the next marking is being cleared. -/
  clearing : Bool := false
  /-- A full collection is running. -/
  full : Bool := false
deriving DecidableEq, Repr

namespace Phases

/-- Mixed collections run. -/
def mixed (p : Phases) : Bool := !p.youngOnly && !p.beforeMixed

/-- The kind of an evacuation pause that ends in these phases; `initialMark` says whether it did
initial-mark work. -/
def evacuationKind {α : Type} (p : Phases) (initialMark : Bool) : Checked α Pause.Kind := do
  demand (p.full = false) .fullCollectionAsEvacuation
  if initialMark then
    demand (p.beforeMixed = false) .initialMarkBeforeMixed
    return .initialMark
  else if p.beforeMixed then return .lastYoung
  else if p.mixed then return .mixed
  else return .young

end Phases

end PauseGoal.Marking
