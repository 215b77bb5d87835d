import PauseGoal.Pause.Record

/-!
# The ledger of pauses

Finished pauses are added up by kind. Counting a pause changes the totals of its kind and of no other
(`totalsOf_count`).
-/

namespace PauseGoal.Pause

/-- The totals of every kind of pause. -/
structure Ledger (α : Type) where
  /-- The totals, in the order in which the kinds are reported. -/
  totals : List (Totals α)
  /-- Every kind has its totals. -/
  length_totals : totals.length = Kind.all.length
deriving DecidableEq, Repr

namespace Ledger

variable {α : Type} [Scalar α]

/-- No pauses. -/
def empty : Ledger α where
  totals := Kind.all.map fun _ => .zero
  length_totals := List.length_map _

/-- The totals of one kind. -/
def totalsOf (ledger : Ledger α) (kind : Kind) : Totals α :=
  ledger.totals.get ⟨kind.index, ledger.length_totals ▸ kind.index_lt⟩

/-- Counts a finished pause. -/
def count (ledger : Ledger α) (record : Record α) : Ledger α where
  totals := ledger.totals.modify record.kind.index fun t => t.add record.milliseconds
  length_totals := (List.length_modify _ _ _).trans ledger.length_totals

/-- The number of all pauses. -/
def size (ledger : Ledger α) : Nat := ledger.totals.foldl (fun sum t => sum + t.count) 0

@[simp]
theorem totalsOf_empty (kind : Kind) : (empty : Ledger α).totalsOf kind = .zero := by
  simp [totalsOf, empty]

theorem totalsOf_count (ledger : Ledger α) (record : Record α) (kind : Kind) :
    (ledger.count record).totalsOf kind =
      if record.kind = kind then (ledger.totalsOf kind).add record.milliseconds
      else ledger.totalsOf kind := by
  simp [totalsOf, count, List.getElem_modify, Kind.index_inj]

end Ledger

end PauseGoal.Pause
