/-!
# Kinds of pauses
-/

namespace PauseGoal.Pause

/-- What a stop-the-world pause does. -/
inductive Kind where
  | full
  | young
  /-- A collection of young and old regions. -/
  | mixed
  /-- The young collection before the first mixed one of a cycle. -/
  | lastYoung
  /-- A young collection that also starts concurrent marking. -/
  | initialMark
  /-- The end of a marking cycle. -/
  | cleanup
  /-- The end of marking. -/
  | remark
deriving DecidableEq, Repr

namespace Kind

/-- All kinds, in the order in which they are reported. -/
def all : List Kind := [.full, .young, .mixed, .lastYoung, .initialMark, .cleanup, .remark]

/-- The place of a kind in a report. -/
def index : Kind → Nat
  | .full => 0
  | .young => 1
  | .mixed => 2
  | .lastYoung => 3
  | .initialMark => 4
  | .cleanup => 5
  | .remark => 6

def name : Kind → String
  | .full => "Pause Full"
  | .young => "Pause Young (Normal)"
  | .mixed => "Pause Young (Mixed)"
  | .lastYoung => "Pause Young (Prepare Mixed)"
  | .initialMark => "Pause Young (Concurrent Start)"
  | .cleanup => "Pause Cleanup"
  | .remark => "Pause Remark"

theorem all_getElem?_index (kind : Kind) : all[kind.index]? = some kind := by
  cases kind <;> rfl

theorem index_lt (kind : Kind) : kind.index < all.length := by
  cases kind <;> decide

/-- No two kinds share a place. -/
theorem index_inj {a b : Kind} : a.index = b.index ↔ a = b := by
  constructor
  · intro h
    have same : some a = some b := by rw [← all_getElem?_index a, ← all_getElem?_index b, h]
    exact Option.some.inj same
  · rintro rfl
    rfl

end Kind

end PauseGoal.Pause
