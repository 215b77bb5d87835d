import PauseGoal.Word

/-!
# Percentages of counts
-/

namespace PauseGoal

/-- `part` as a percentage of `total`; zero percent of nothing. -/
def percentOf {α : Type} [Scalar α] (part total : Nat) : α :=
  if total = 0 then num 0 else num part / num total * num 100

/-- `percent` percent of `value`, rounded up. -/
def ceilPercent {α : Type} (value percent : Nat) : Checked α Nat := do
  let scaled ← Word.mul value percent
  let result := scaled / 100
  if 100 * result < scaled then Word.add result 1 else return result

end PauseGoal
