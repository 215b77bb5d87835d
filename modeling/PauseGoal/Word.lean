import PauseGoal.Scalar
import PauseGoal.Fault

/-!
# Checked arithmetic on counts

Counts are 64-bit words. A sum, difference or product that is no word is a fault and never wraps
around; where a cut at zero or at the largest word is meant, the operation says so.

A sum, a difference or a product is settled by one lemma: it succeeds exactly when its exact result
is a word, and then the result is exact.
-/

namespace PauseGoal

/-- A computation that ends in a value or in a fault. -/
abbrev Checked (α : Type) (β : Type) : Type := Except (Fault α) β

/-- Ends in a fault unless the condition holds. -/
def demand {α : Type} (condition : Prop) [Decidable condition] (fault : Fault α) :
    Checked α Unit :=
  if condition then .ok () else .error fault

theorem demand_eq_ok_iff {α : Type} {condition : Prop} [Decidable condition] {fault : Fault α}
    {done : Unit} : demand condition fault = .ok done ↔ condition := by
  unfold demand; split <;> rename_i h <;> simp [h]

namespace Word

variable {α : Type}

/-- The sum, if it is a word. -/
def add (a b : Nat) : Checked α Nat :=
  if a + b < wordBound then .ok (a + b) else .error .additionOverflow

/-- The difference, if it is not negative. -/
def sub (a b : Nat) : Checked α Nat :=
  if b ≤ a then .ok (a - b) else .error .subtractionOverflow

/-- The product, if it is a word. -/
def mul (a b : Nat) : Checked α Nat :=
  if a * b < wordBound then .ok (a * b) else .error .multiplicationOverflow

/-- The quotient rounded down, if the divisor is not zero. -/
def div (a b : Nat) : Checked α Nat :=
  if b = 0 then .error .divisionByZero else .ok (a / b)

/-- The sum of a list from left to right, if no partial sum leaves the words. -/
def sum (ns : List Nat) : Checked α Nat :=
  ns.foldlM (fun total n => add total n) 0

theorem add_eq_ok_iff {a b c : Nat} :
    (add a b : Checked α Nat) = .ok c ↔ a + b < wordBound ∧ a + b = c := by
  unfold add; split <;> rename_i h <;> simp [h]

theorem sub_eq_ok_iff {a b c : Nat} :
    (sub a b : Checked α Nat) = .ok c ↔ b ≤ a ∧ a - b = c := by
  unfold sub; split <;> rename_i h <;> simp [h]

theorem mul_eq_ok_iff {a b c : Nat} :
    (mul a b : Checked α Nat) = .ok c ↔ a * b < wordBound ∧ a * b = c := by
  unfold mul; split <;> rename_i h <;> simp [h]

end Word

end PauseGoal
