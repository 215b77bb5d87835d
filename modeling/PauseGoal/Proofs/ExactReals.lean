import PauseGoal.Proofs.Exact
import Mathlib.Analysis.Real.Sqrt
import Mathlib.Data.Rat.Floor

/-!
# Scalars read as real numbers

An inequality between computed quantities may hold of the quantities and not of their roundings.
`Scalar.Exact` are the scalars that do not round: each stands for a real number, and the operations
are those of the reals. Only square roots may be approximated, as those of the rationals are. A
statement about these scalars is one about the reals themselves, which are among them, and can be
held against runs that the kernel computes, for the rationals are among them too.
-/

namespace PauseGoal

/-- Scalars that are exact real numbers. -/
class Scalar.Exact (α : Type) [Scalar α] where
  toReal : α → ℝ
  toReal_add (a b : α) : toReal (a + b) = toReal a + toReal b
  toReal_sub (a b : α) : toReal (a - b) = toReal a - toReal b
  toReal_mul (a b : α) : toReal (a * b) = toReal a * toReal b
  toReal_div (a b : α) : toReal (a / b) = toReal a / toReal b
  toReal_num (n : Nat) : toReal (num n) = n
  lt_iff (a b : α) : a < b ↔ toReal a < toReal b
  le_iff (a b : α) : a ≤ b ↔ toReal a ≤ toReal b
  sqrt_nonneg (a : α) : 0 ≤ toReal (Scalar.sqrt a)

namespace Scalar

open Exact (toReal)

attribute [simp] Exact.toReal_add Exact.toReal_sub Exact.toReal_mul Exact.toReal_div
  Exact.toReal_num

/-! ## The operations that are composed of others -/

section

variable {α : Type} [Scalar α] [Exact α]

theorem zero_le_iff {a : α} : num 0 ≤ a ↔ 0 ≤ toReal a := by
  simp [Exact.le_iff]

theorem zero_lt_iff {a : α} : num 0 < a ↔ 0 < toReal a := by
  simp [Exact.lt_iff]

theorem not_lt_iff {a b : α} : ¬ a < b ↔ b ≤ a := by
  rw [Exact.lt_iff, Exact.le_iff, not_lt]

@[simp]
theorem toReal_ratio (p q : Nat) : toReal (ratio p q : α) = p / q := by
  simp [ratio]

@[simp]
theorem toReal_max (a b : α) : toReal (Scalar.max a b) = Max.max (toReal a) (toReal b) := by
  unfold Scalar.max
  simp only [Exact.lt_iff, Exact.le_iff, le_refl, if_true]
  split
  · next hlt => rw [max_eq_right hlt.le]
  · next hge => rw [max_eq_left (not_lt.mp hge)]

@[simp]
theorem toReal_min (a b : α) : toReal (Scalar.min a b) = Min.min (toReal a) (toReal b) := by
  unfold Scalar.min
  simp only [Exact.lt_iff, Exact.le_iff, le_refl, if_true]
  split
  · next hlt => rw [min_eq_right hlt.le]
  · next hge => rw [min_eq_left (not_lt.mp hge)]

@[simp]
theorem toReal_sum (xs : List α) : toReal (Scalar.sum xs) = (xs.map toReal).sum := by
  induction xs using List.reverseRecOn with
  | nil => simp [Scalar.sum]
  | append_singleton xs x ih => simp [Scalar.sum_append_singleton, ih]

end

/-! ## Reals and rationals -/

/-- The reals themselves. Not an instance: their operations already have the usual ones. -/
@[reducible]
noncomputable def real : Scalar ℝ where
  ofCount n := n
  sqrt := Real.sqrt
  truncate x := Nat.min ⌊x⌋₊ (wordBound - 1)
  decideLT := Classical.decRel _
  decideLE := Classical.decRel _

@[reducible]
noncomputable def Exact.real : @Exact ℝ Scalar.real :=
  letI := Scalar.real
  { toReal := id
    toReal_add := fun _ _ => rfl
    toReal_sub := fun _ _ => rfl
    toReal_mul := fun _ _ => rfl
    toReal_div := fun _ _ => rfl
    toReal_num := fun _ => rfl
    lt_iff := fun _ _ => Iff.rfl
    le_iff := fun _ _ => Iff.rfl
    sqrt_nonneg := Real.sqrt_nonneg }

theorem sqrt_rat_nonneg (x : Rat) : 0 ≤ (Scalar.sqrt x : Rat) := by
  show 0 ≤ mkRat (floorSqrt (x.num.toNat * x.den)) x.den
  rw [Rat.mkRat_eq_divInt]
  exact Rat.divInt_nonneg (Int.natCast_nonneg _) (Int.natCast_nonneg _)

noncomputable instance Exact.rat : Exact Rat where
  toReal x := x
  toReal_add := Rat.cast_add
  toReal_sub := Rat.cast_sub
  toReal_mul := Rat.cast_mul
  toReal_div := Rat.cast_div
  toReal_num n := Rat.cast_natCast n
  lt_iff _ _ := Rat.cast_lt.symm
  le_iff _ _ := Rat.cast_le.symm
  sqrt_nonneg x := Rat.cast_nonneg.mpr (sqrt_rat_nonneg x)

/-! ## Square roots -/

/-- Exact scalars at which an approximate square root is right about zero. -/
class ZeroRoot (α : Type) [Scalar α] [Exact α] : Prop where
  toReal_sqrt {a : α} : toReal a = 0 → toReal (Scalar.sqrt a) = 0

theorem ZeroRoot.real : @ZeroRoot ℝ Scalar.real Exact.real :=
  letI := Scalar.real
  letI := Exact.real
  { toReal_sqrt := fun {a} (h : a = 0) => show Real.sqrt a = 0 by rw [h, Real.sqrt_zero] }

instance ZeroRoot.rat : ZeroRoot Rat where
  toReal_sqrt {a} h := by
    have hzero : a = 0 := Rat.cast_eq_zero.mp h
    rw [hzero]
    show ((Scalar.sqrt (0 : Rat) : Rat) : ℝ) = 0
    rw [show Scalar.sqrt (0 : Rat) = 0 by decide, Rat.cast_zero]

/-! ## Integer parts -/

/-- Exact scalars of which only the integer part is dropped when they are cut down to counts, and
what is above all counts. -/
class Truncating (α : Type) [Scalar α] [Exact α] : Prop where
  truncate_eq (a : α) : truncate a = Nat.min ⌊toReal a⌋₊ (wordBound - 1)

theorem Truncating.real : @Truncating ℝ Scalar.real Exact.real :=
  letI := Scalar.real
  letI := Exact.real
  { truncate_eq := fun _ => rfl }

instance Truncating.rat : Truncating Rat where
  truncate_eq a := by
    show Nat.min a.floor.toNat _ = Nat.min ⌊(a : ℝ)⌋₊ _
    rw [← Int.floor_toNat, Rat.floor_cast]
    rfl

theorem truncate_mono {α : Type} [Scalar α] [Exact α] [Truncating α] {a b : α}
    (h : toReal a ≤ toReal b) : truncate a ≤ truncate b := by
  rw [Truncating.truncate_eq, Truncating.truncate_eq]
  exact min_le_min_right _ (Nat.floor_mono h)

end Scalar

end PauseGoal
