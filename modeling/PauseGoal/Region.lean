import PauseGoal.Survival

/-!
# Heap regions

The heap is divided into regions of one size. Old regions were marked, so their live bytes are
known; young regions carry a tag from which their survival is predicted.
-/

namespace PauseGoal

/-- An old region; marking found some of its used bytes live. -/
structure OldRegion where
  index : Nat
  used : Nat
  live : Nat
  /-- The number of remembered set entries. -/
  entries : Nat
  live_le_used : live ≤ used
deriving DecidableEq, Repr

structure YoungRegion where
  index : Nat
  used : Nat
  /-- The number of remembered set entries. -/
  entries : Nat
  tag : SurvivalTag
deriving DecidableEq, Repr

inductive Region where
  | old (region : OldRegion)
  | young (region : YoungRegion)
deriving DecidableEq, Repr

/-- An old region whose live bytes are among its used ones. -/
def OldRegion.create {α : Type} (index used live entries : Nat) : Checked α OldRegion :=
  if h : live ≤ used then .ok ⟨index, used, live, entries, h⟩
  else .error (.liveExceedsUsed index live used)

/-- The bytes that evacuating an old region frees. -/
def OldRegion.reclaimable (r : OldRegion) : Nat := r.used - r.live

namespace Region

def isYoung : Region → Bool
  | .old _ => false
  | .young _ => true

/-- The live bytes; all of a young region counts as live. -/
def live : Region → Nat
  | .old r => r.live
  | .young r => r.used

/-- The number of remembered set entries. -/
def entries : Region → Nat
  | .old r => r.entries
  | .young r => r.entries

/-- The bytes that evacuating the region frees for sure. -/
def reclaimable : Region → Nat
  | .old r => r.reclaimable
  | .young _ => 0

end Region

end PauseGoal
