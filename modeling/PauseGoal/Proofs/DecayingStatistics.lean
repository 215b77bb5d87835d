import PauseGoal.Proofs.ExactReals
import PauseGoal.Proofs.SampleWindows
import PauseGoal.Sample.Predictor
import Mathlib.Analysis.Convex.Basic
import Mathlib.Data.Set.Finite.Lemmas
import Mathlib.Tactic.Linarith

/-!
# Decaying statistics

The mean of a window lies between its latest sample and the mean before, so it never leaves the
range of the samples. The variance lies in the same way between the one before and a square, but
the square is taken around the new mean: the distance to the sample that is left after the mean has
moved is the old one times the weight of the past (`toReal_spread_add`). As no sample is further
from a mean than the range is wide, neither is what is left, and the variance is at most the square
of the width (`InRange`).

The prediction from equal samples shows what a predictor adds of its own: half of the mean for each
sample that is missing to five (`toReal_predict_of_few`). A negative mean gets no such headroom, for
it would lower the prediction.
-/

namespace PauseGoal.Sample

open Scalar.Exact (toReal)

variable {α : Type} [Scalar α] [Scalar.Exact α]

namespace Window

variable {w : Window α} {x : α} {xs : List α} {least largest : ℝ}

theorem toReal_mean_add (h : w.isEmpty = false) (x : α) :
    toReal (w.add x).mean =
      (1 - toReal w.weight) * toReal x + toReal w.weight * toReal w.mean := by
  show toReal (w.nextMean x) = _
  unfold nextMean
  simp [h]

/-- The new mean has moved towards the sample: of the distance only the weight of the past is
left. -/
theorem toReal_spread_add (h : w.isEmpty = false) (x : α) :
    toReal (w.add x).spread =
      (1 - toReal w.weight) * (toReal w.weight * (toReal x - toReal w.mean)) ^ 2 +
        toReal w.weight * toReal w.spread := by
  have hmean : toReal (w.nextMean x) = _ := toReal_mean_add h x
  show toReal (w.nextSpread x) = _
  unfold nextSpread
  simp only [h, Bool.false_eq_true, if_false, Scalar.Exact.toReal_add, Scalar.Exact.toReal_sub,
    Scalar.Exact.toReal_mul, Scalar.Exact.toReal_num, hmean]
  push_cast
  ring

omit [Scalar.Exact α] in
theorem spread_add_of_isEmpty (h : w.isEmpty = true) (x : α) : (w.add x).spread = num 0 :=
  if_pos h

/-! ## The range of the samples -/

/-- A window that has seen samples, all of them in the range. -/
structure InRange (least largest : ℝ) (w : Window α) : Prop where
  weight : toReal w.weight ∈ Set.Icc 0 1
  sampled : w.isEmpty = false
  mean : toReal w.mean ∈ Set.Icc least largest
  spread : toReal w.spread ∈ Set.Icc 0 ((largest - least) ^ 2)

/-- The first sample is the mean, and nothing deviates from it. -/
theorem inRange_add_first (hweight : toReal w.weight ∈ Set.Icc 0 1) (h : w.isEmpty = true)
    (hx : toReal x ∈ Set.Icc least largest) : (w.add x).InRange least largest where
  weight := hweight
  sampled := isEmpty_add w x
  mean := by rwa [mean_add_of_isEmpty h]
  spread := by
    rw [spread_add_of_isEmpty h, Scalar.Exact.toReal_num, Nat.cast_zero]
    exact ⟨le_rfl, sq_nonneg _⟩

theorem InRange.add (h : w.InRange least largest) (hx : toReal x ∈ Set.Icc least largest) :
    (w.add x).InRange least largest := by
  obtain ⟨hpast, hone⟩ := h.weight
  have hpresent : 0 ≤ 1 - toReal w.weight := sub_nonneg.mpr hone
  refine ⟨h.weight, isEmpty_add w x, ?_, ?_⟩
  · rw [toReal_mean_add h.sampled]
    exact convex_Icc least largest hx h.mean hpresent hpast (sub_add_cancel 1 _)
  · have hdistance : |toReal x - toReal w.mean| ≤ largest - least :=
      abs_sub_le_of_le_of_le hx.1 hx.2 h.mean.1 h.mean.2
    have hleft : |toReal w.weight * (toReal x - toReal w.mean)| ≤ largest - least := by
      rw [abs_mul, abs_of_nonneg hpast]
      exact (mul_le_of_le_one_left (abs_nonneg _) hone).trans hdistance
    have hsquare : (toReal w.weight * (toReal x - toReal w.mean)) ^ 2 ∈
        Set.Icc 0 ((largest - least) ^ 2) :=
      ⟨sq_nonneg _, sq_le_sq.mpr (hleft.trans (le_abs_self _))⟩
    rw [toReal_spread_add h.sampled]
    exact convex_Icc 0 _ hsquare h.spread hpresent hpast (sub_add_cancel 1 _)

theorem InRange.foldl_add (h : w.InRange least largest)
    (hxs : ∀ x ∈ xs, toReal x ∈ Set.Icc least largest) :
    (xs.foldl Window.add w).InRange least largest := by
  induction xs generalizing w with
  | nil => exact h
  | cons x rest ih =>
    rw [List.forall_mem_cons] at hxs
    exact ih (h.add hxs.1) hxs.2

theorem inRange_foldl_add (hweight : toReal w.weight ∈ Set.Icc 0 1) (h : w.isEmpty = true)
    (hne : xs ≠ []) (hxs : ∀ x ∈ xs, toReal x ∈ Set.Icc least largest) :
    (xs.foldl Window.add w).InRange least largest := by
  cases xs with
  | nil => exact absurd rfl hne
  | cons x rest =>
    rw [List.forall_mem_cons] at hxs
    exact (inRange_add_first hweight h hxs.1).foldl_add hxs.2

/-- What rounding could make negative is not. -/
theorem InRange.variance_eq (h : w.InRange least largest) : w.variance = w.spread := by
  have hspread : ¬ w.spread < num 0 := by
    rw [Scalar.not_lt_iff, Scalar.zero_le_iff]
    exact h.spread.1
  have hself : w.spread ≤ w.spread := (Scalar.Exact.le_iff _ _).mpr le_rfl
  rw [variance, Scalar.max, if_neg hspread, if_pos hself]

/-- From a range of a single number nothing deviates. -/
theorem InRange.spread_eq_zero (h : w.InRange least least) : toReal w.spread = 0 := by
  obtain ⟨hnonneg, hwidth⟩ := h.spread
  rw [sub_self, zero_pow two_ne_zero] at hwidth
  exact le_antisymm hwidth hnonneg

end Window

namespace Predictor

variable {p : Predictor α} {w : Window α}

theorem deviation_nonneg (w : Window α) : 0 ≤ toReal (deviation w) := by
  have hroot : 0 ≤ toReal w.deviation := Scalar.Exact.sqrt_nonneg _
  unfold deviation
  split
  · rw [Scalar.toReal_max]
    exact le_max_of_le_left hroot
  · exact hroot

/-- A prediction is pessimistic. -/
theorem mean_le_predict (hsigma : 0 ≤ toReal p.sigma) (w : Window α) :
    toReal w.mean ≤ toReal (p.predict w) := by
  unfold predict
  simp only [Scalar.Exact.toReal_add, Scalar.Exact.toReal_mul]
  exact le_add_of_nonneg_right (mul_nonneg hsigma (deviation_nonneg w))

/-! ## Equal samples -/

variable [Scalar.ZeroRoot α]

theorem toReal_deviation_of_still (h : toReal w.spread = 0) : toReal w.deviation = 0 := by
  refine Scalar.ZeroRoot.toReal_sqrt ?_
  rw [Window.variance, Scalar.toReal_max, h, Scalar.Exact.toReal_num, Nat.cast_zero, max_self]

/-- Few samples without a deviation: half of the mean is added for each that is missing to five. -/
theorem toReal_predict_of_few (h : toReal w.spread = 0) (hfew : w.size < 5) :
    toReal (p.predict w) =
      toReal w.mean + toReal p.sigma * max 0 (toReal w.mean * (5 - w.size) / 2) := by
  unfold predict deviation
  simp [hfew, hfew.le, toReal_deviation_of_still h]

theorem toReal_predict_of_few_nonneg (h : toReal w.spread = 0) (hfew : w.size < 5)
    (hmean : 0 ≤ toReal w.mean) :
    toReal (p.predict w) = toReal w.mean * (1 + toReal p.sigma * (5 - w.size) / 2) := by
  have hmissing : (0 : ℝ) ≤ 5 - w.size := sub_nonneg.mpr (by exact_mod_cast hfew.le)
  rw [toReal_predict_of_few h hfew,
    max_eq_right (div_nonneg (mul_nonneg hmean hmissing) zero_le_two)]
  ring

theorem toReal_predict_of_few_nonpos (h : toReal w.spread = 0) (hfew : w.size < 5)
    (hmean : toReal w.mean ≤ 0) : toReal (p.predict w) = toReal w.mean := by
  have hmissing : (0 : ℝ) ≤ 5 - w.size := sub_nonneg.mpr (by exact_mod_cast hfew.le)
  rw [toReal_predict_of_few h hfew,
    max_eq_left (div_nonpos_of_nonpos_of_nonneg (mul_nonpos_of_nonpos_of_nonneg hmean hmissing)
      zero_le_two), mul_zero, add_zero]

theorem toReal_predict_of_many (h : toReal w.spread = 0) (hmany : 5 ≤ w.size) :
    toReal (p.predict w) = toReal w.mean := by
  unfold predict deviation
  simp [Nat.not_lt.mpr hmany, toReal_deviation_of_still h]

end Predictor

/-! ## Any samples -/

namespace Window

theorem exists_range {xs : List α} (hne : xs ≠ []) :
    ∃ least ∈ xs, ∃ largest ∈ xs, ∀ x ∈ xs, toReal x ∈ Set.Icc (toReal least) (toReal largest) := by
  have hsome : {x | x ∈ xs}.Nonempty := List.exists_mem_of_ne_nil xs hne
  obtain ⟨least, hleast, hbelow⟩ := Set.exists_min_image _ toReal (List.finite_toSet xs) hsome
  obtain ⟨largest, hlargest, habove⟩ := Set.exists_max_image _ toReal (List.finite_toSet xs) hsome
  exact ⟨least, hleast, largest, hlargest, fun x hx => ⟨hbelow x hx, habove x hx⟩⟩

/-- Samples of any number keep the mean in their range and the variance below the square of its
width, without the cut at zero, and what is predicted is not below the mean. Equal samples in a
window of five and more are predicted as they are, but for the headroom of the first four, which a
negative sample does not get. -/
theorem statistics_stay_in_range [Scalar.ZeroRoot α] {capacity : Nat} (hcapacity : 0 < capacity)
    {weight : α} (hweight : num 0 ≤ weight ∧ weight ≤ num 1) {p : Predictor α}
    (hsigma : num 0 ≤ p.sigma) {xs : List α} (hne : xs ≠ []) :
    ∃ w, create capacity weight = .ok w ∧
      let v := xs.foldl add w
      (∃ least ∈ xs, ∃ largest ∈ xs, (∀ x ∈ xs, least ≤ x ∧ x ≤ largest) ∧
        least ≤ v.mean ∧ v.mean ≤ largest ∧
        num 0 ≤ v.spread ∧ v.spread ≤ (largest - least) * (largest - least)) ∧
      v.variance = v.spread ∧
      v.mean ≤ p.predict v ∧
      (5 ≤ capacity → (∀ x ∈ xs, ∀ y ∈ xs, toReal x = toReal y) →
        (xs.length < 5 → (∀ x ∈ xs, num 0 ≤ x) →
          toReal (p.predict v) =
            toReal v.mean * (1 + toReal p.sigma * (5 - xs.length) / 2)) ∧
        (xs.length < 5 → (∀ x ∈ xs, x < num 0) → toReal (p.predict v) = toReal v.mean) ∧
        (5 ≤ xs.length → toReal (p.predict v) = toReal v.mean)) := by
  refine ⟨empty capacity weight hcapacity, create_of_pos hcapacity weight, ?_⟩
  intro v
  obtain ⟨least, hleast, largest, hlargest, hrange⟩ := exists_range hne
  have hpast : toReal weight ∈ Set.Icc 0 1 := by
    rw [Scalar.zero_le_iff, Scalar.Exact.le_iff, Scalar.Exact.toReal_num, Nat.cast_one] at hweight
    exact hweight
  have hv : v.InRange (toReal least) (toReal largest) := inRange_foldl_add hpast rfl hne hrange
  refine ⟨⟨least, hleast, largest, hlargest, fun x hx => ?_, ?_⟩, hv.variance_eq, ?_,
    fun hroom hequal => ?_⟩
  · rw [Scalar.Exact.le_iff, Scalar.Exact.le_iff]
    exact hrange x hx
  · simp only [Scalar.Exact.le_iff, Scalar.Exact.toReal_mul, Scalar.Exact.toReal_sub, ← sq]
    rw [Scalar.Exact.toReal_num, Nat.cast_zero]
    exact ⟨hv.mean.1, hv.mean.2, hv.spread.1, hv.spread.2⟩
  · rw [Scalar.Exact.le_iff]
    exact Predictor.mean_le_predict (Scalar.zero_le_iff.mp hsigma) v
  · rw [hequal largest hlargest least hleast] at hv
    have hstill : toReal v.spread = 0 := hv.spread_eq_zero
    have hsize : v.size = min xs.length capacity := size_foldl_add_empty hcapacity weight xs
    refine ⟨fun hfew hsign => ?_, fun hfew hsign => ?_, fun hmany => ?_⟩
    · have hmean : 0 ≤ toReal v.mean :=
        (Scalar.zero_le_iff.mp (hsign least hleast)).trans hv.mean.1
      rw [Predictor.toReal_predict_of_few_nonneg hstill (by omega) hmean, hsize,
        Nat.min_eq_left (by omega)]
    · have hmean : toReal v.mean < 0 := by
        have hlt := (Scalar.Exact.lt_iff _ _).mp (hsign least hleast)
        rw [Scalar.Exact.toReal_num, Nat.cast_zero] at hlt
        exact hv.mean.2.trans_lt hlt
      exact Predictor.toReal_predict_of_few_nonpos hstill (by omega) hmean.le
    · exact Predictor.toReal_predict_of_many hstill (by omega)

/-- Three different samples, and equal ones: three of them, five, and a single negative one. -/
theorem statistics_stay_in_range_of_few_and_many :
    let p : Predictor Rat := ⟨1 / 2⟩
    0 < 10 ∧ (num 0 ≤ (7 / 10 : Rat) ∧ (7 / 10 : Rat) ≤ num 1) ∧ num 0 ≤ p.sigma ∧
    ([10, 20, 5] : List Rat) ≠ [] ∧
    ∃ w, create 10 (7 / 10 : Rat) = .ok w ∧
      (let v := [10, 20, 5].foldl add w
       (∃ least ∈ [10, 20, 5], ∃ largest ∈ [10, 20, 5],
         (∀ x ∈ [10, 20, 5], least ≤ x ∧ x ≤ largest) ∧ least ≤ v.mean ∧ v.mean ≤ largest ∧
         num 0 ≤ v.spread ∧ v.spread ≤ (largest - least) * (largest - least)) ∧
       v.variance = v.spread ∧ v.mean ≤ p.predict v) ∧
      (let v := [2, 2, 2].foldl add w
       toReal (p.predict v) = toReal v.mean * (1 + toReal p.sigma * (5 - (3 : Nat)) / 2)) ∧
      (let v := [2, 2, 2, 2, 2].foldl add w
       toReal (p.predict v) = toReal v.mean) ∧
      (let v := [-1].foldl add w
       toReal (p.predict v) = toReal v.mean) := by
  intro p
  have hweight : num 0 ≤ (7 / 10 : Rat) ∧ (7 / 10 : Rat) ≤ num 1 := by decide +kernel
  have hsigma : num 0 ≤ p.sigma := by decide +kernel
  obtain ⟨w, hw, hrange, hvariance, hpredict, _⟩ := statistics_stay_in_range
    (show 0 < 10 by decide) hweight hsigma (List.cons_ne_nil 10 [20, 5])
  obtain ⟨w₁, hw₁, _, _, _, hfew⟩ := statistics_stay_in_range
    (show 0 < 10 by decide) hweight hsigma (List.cons_ne_nil 2 [2, 2])
  obtain ⟨w₂, hw₂, _, _, _, hmany⟩ := statistics_stay_in_range
    (show 0 < 10 by decide) hweight hsigma (List.cons_ne_nil 2 [2, 2, 2, 2])
  obtain ⟨w₃, hw₃, _, _, _, hnegative⟩ := statistics_stay_in_range
    (show 0 < 10 by decide) hweight hsigma (List.cons_ne_nil (-1) [])
  obtain rfl : w = w₁ := Except.ok.inj (hw.symm.trans hw₁)
  obtain rfl : w = w₂ := Except.ok.inj (hw.symm.trans hw₂)
  obtain rfl : w = w₃ := Except.ok.inj (hw.symm.trans hw₃)
  refine ⟨by decide, hweight, hsigma, List.cons_ne_nil _ _, w, hw, ⟨hrange, hvariance, hpredict⟩,
    ?_, ?_, ?_⟩
  · exact (hfew (by decide) (by simp)).1 (by decide) (by decide +kernel)
  · exact (hmany (by decide) (by simp)).2.2 (by decide)
  · exact (hnegative (by decide) (by simp)).2.1 (by decide) (by decide +kernel)

/-- A single minus one is predicted as it is. The headroom of other samples would have made it minus
three. -/
theorem negative_sample_without_headroom :
    let w : Window Rat := [-1].foldl add ofTen
    let p : Predictor Rat := ⟨1⟩
    num 0 ≤ w.weight ∧ w.weight ≤ num 1 ∧ num 0 ≤ p.sigma ∧ 5 ≤ w.capacity ∧ w.size < 5 ∧
      p.predict w = -1 ∧ w.mean * (1 + p.sigma * (5 - w.size) / 2) = -3 := by
  decide +kernel

end Window

end PauseGoal.Sample
