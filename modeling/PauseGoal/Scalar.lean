/-!
# The numbers of the pause model

Every quantity that is not a count (seconds, milliseconds, rates, percentages) is a *scalar*. The
model needs little of it: the four operations, comparisons, square roots, counts read as scalars,
and scalars cut down to counts. `Scalar` is that list. The running program uses `Float`; a statement
about exact quantities instantiates the same definitions with an exact field.

Decimal constants are quotients of counts (`ratio 7 10`). On doubles the quotient of two exact
counts is the double nearest to it, so such a constant is the one that its decimal text denotes.
-/

namespace PauseGoal

/-- One more than the largest count: counts are 64-bit words. -/
def wordBound : Nat := 18446744073709551616

/-- The arithmetic that the pause model uses. No law is required, so that doubles qualify. -/
class Scalar (α : Type) extends Add α, Sub α, Mul α, Div α, LT α, LE α where
  /-- The scalar nearest to a count. -/
  ofCount : Nat → α
  sqrt : α → α
  /-- The integer part as a count: zero below zero, the largest count above all counts. -/
  truncate : α → Nat
  decideLT : ∀ a b : α, Decidable (a < b)
  decideLE : ∀ a b : α, Decidable (a ≤ b)

instance Scalar.decidableLT {α : Type} [Scalar α] (a b : α) : Decidable (a < b) :=
  Scalar.decideLT a b

instance Scalar.decidableLE {α : Type} [Scalar α] (a b : α) : Decidable (a ≤ b) :=
  Scalar.decideLE a b

/-- Doubles: truncation of a value that is no number gives zero. -/
instance Scalar.double : Scalar Float where
  ofCount n := n.toUInt64.toFloat
  sqrt := Float.sqrt
  truncate x := x.toUInt64.toNat
  decideLT := Float.decLt
  decideLE := Float.decLe

section

variable {α : Type} [Scalar α]

/-- The count `n` as a scalar. -/
def num (n : Nat) : α := Scalar.ofCount n

/-- The constant `p / q`. -/
def ratio (p q : Nat) : α := num p / num q

/-- The larger of two scalars; an operand that is no number loses. -/
def Scalar.max (a b : α) : α :=
  if a < b then b else if a ≤ a then a else b

/-- The smaller of two scalars; an operand that is no number loses. -/
def Scalar.min (a b : α) : α :=
  if b < a then b else if a ≤ a then a else b

/-- The least count that is not below `x`, or the largest count if there is none. -/
def Scalar.ceil (x : α) : Nat :=
  if (num (Scalar.truncate x) : α) < x then Nat.min (Scalar.truncate x + 1) (wordBound - 1)
  else Scalar.truncate x

/-- The sum from left to right, starting at zero. -/
def Scalar.sum (xs : List α) : α :=
  xs.foldl (· + ·) (num 0)

end

end PauseGoal
