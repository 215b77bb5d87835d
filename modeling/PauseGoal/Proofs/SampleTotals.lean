import PauseGoal.Proofs.ExactReals
import PauseGoal.Proofs.SampleCircle

/-!
# A window holds the last samples

The sums of a window are carried along: a sample is added and the evicted one taken out again. What
is evicted from a window with room is a zero, which a sum does not see. So a total that every sample
enters and every evicted one leaves is the total of the samples in the window
(`total_foldl_add`), however often all of them have been replaced. That is exact arithmetic: with
rounding a sum carries the errors of all samples ever added.
-/

namespace PauseGoal.Sample.Window

open Scalar.Exact (toReal)

variable {α : Type} [Scalar α] [Scalar.Exact α] {capacity : Nat} {w : Window α}

/-! ## Totals -/

omit [Scalar.Exact α] in
/-- The evicted sample leaves the samples and their total together. -/
theorem sum_map_samples_add {f : α → ℝ} (hzero : f (num 0) = 0) (w : Window α) (x : α) :
    ((w.add x).samples.map f).sum = (w.samples.map f).sum - f w.evicted + f x := by
  have hsamples : (w.add x).samples =
      if w.size < w.capacity then w.samples ++ [x] else w.samples.tail ++ [x] := rfl
  rw [hsamples, evicted]
  split
  · simp [hzero]
  · next hfull =>
    cases hcases : w.samples with
    | nil =>
      have hsize : w.size = 0 := by rw [size, hcases, List.length_nil]
      exact absurd (hsize ▸ w.capacity_pos) hfull
    | cons oldest rest => simp [Window.oldest, hcases]

omit [Scalar.Exact α] in
/-- A total that every sample enters and every evicted one leaves. -/
theorem total_foldl_add (total : Window α → ℝ) (f : α → ℝ) (hzero : f (num 0) = 0)
    (hadd : ∀ w x, total (w.add x) = total w - f w.evicted + f x)
    (hw : total w = (w.samples.map f).sum) (xs : List α) :
    total (xs.foldl add w) = ((xs.foldl add w).samples.map f).sum := by
  induction xs generalizing w with
  | nil => exact hw
  | cons x xs ih =>
    refine ih ?_
    rw [hadd, hw, sum_map_samples_add hzero]

/-- The window is no larger than it may be, and its sum is that of its samples. -/
structure Summed (w : Window α) : Prop where
  size_le : w.size ≤ w.capacity
  sum_eq : toReal w.sum = (w.samples.map toReal).sum

theorem summed_empty (h : 0 < capacity) (weight : α) : (empty capacity weight h).Summed where
  size_le := Nat.zero_le capacity
  sum_eq := Scalar.Exact.toReal_num 0 |>.trans Nat.cast_zero

theorem Summed.foldl_add (h : w.Summed) (xs : List α) : (xs.foldl Window.add w).Summed where
  size_le := by
    rw [size_foldl_add h.size_le, capacity_foldl_add]
    exact Nat.min_le_right _ _
  sum_eq :=
    total_foldl_add (fun w => toReal w.sum) toReal (by simp) (fun w x => by simp [Window.add])
      h.sum_eq xs

/-- Without samples the mean is zero, which is also what dividing by zero gives. -/
theorem Summed.toReal_average (h : w.Summed) :
    toReal w.average = (w.samples.map toReal).sum / w.size := by
  unfold average
  split
  · next hempty =>
    rw [List.isEmpty_iff.mp hempty]
    simp
  · simp [h.sum_eq]

/-! ## The last samples -/

/-- After any samples the window holds the last of them, as many as there is room for: it shows the
first and the last of these, and its sums and its mean are theirs. A circle of slots that is filled
with the same samples has the same to show and evicts the same. -/
theorem holds_last_samples (h : 0 < capacity) (weight : α) (xs : List α) :
    ∃ w, create capacity weight = .ok w ∧
      let v := xs.foldl add w
      let kept := xs.drop (xs.length - v.size)
      v.size = min xs.length capacity ∧
      (xs ≠ [] → xs[xs.length - 1]? = some v.latest ∧
        xs[xs.length - v.size]? = some v.oldest) ∧
      toReal v.sum = (kept.map toReal).sum ∧
      toReal v.sumOfSquares = (kept.map fun x => toReal x ^ 2).sum ∧
      toReal v.average = (kept.map toReal).sum / v.size ∧
      (xs.foldl Circle.add (Circle.empty h)).ReadsLike v := by
  refine ⟨empty capacity weight h, create_of_pos h weight, ?_⟩
  intro v kept
  have hsize : v.size = min xs.length capacity := size_foldl_add_empty h weight xs
  have hindex : xs.length - v.size = xs.length - capacity := by omega
  have hkept : v.samples = kept := by
    rw [show kept = xs.drop (xs.length - capacity) from congrArg xs.drop hindex]
    exact samples_foldl_add_empty h weight xs
  have hsummed : v.Summed := (summed_empty h weight).foldl_add xs
  have hsquares : toReal v.sumOfSquares = (v.samples.map fun x => toReal x ^ 2).sum :=
    total_foldl_add (fun w => toReal w.sumOfSquares) (fun x => toReal x ^ 2) (by simp)
      (fun w x => by simp [add, sq]) (by simp [empty]) xs
  refine ⟨hsize, fun hne => ⟨?_, ?_⟩, hkept ▸ hsummed.sum_eq, hkept ▸ hsquares,
    hkept ▸ hsummed.toReal_average, Circle.readsLike_foldl_add h weight xs⟩
  · rw [latest_foldl_add_empty, ← List.getLast?_eq_getElem?, List.getLast?_eq_some_getLast hne]
    rfl
  · have hlength := List.length_pos_iff.mpr hne
    have hlt : xs.length - capacity < xs.length := by omega
    rw [hindex, oldest_foldl_add_empty, List.getElem?_eq_getElem hlt]
    rfl

theorem holds_last_samples_of_five :
    0 < 3 ∧ ∃ w, create 3 (7 / 10 : Rat) = .ok w ∧
      let v := ([1, 2, 3, 4, 5] : List Rat).foldl add w
      v.size = 3 ∧ v.latest = 5 ∧ v.oldest = 3 ∧
      toReal v.sum = 3 + 4 + 5 ∧ toReal v.sumOfSquares = 3 ^ 2 + 4 ^ 2 + 5 ^ 2 ∧
      toReal v.average = (3 + 4 + 5) / 3 ∧
      (([1, 2, 3, 4, 5] : List Rat).foldl Circle.add
        (Circle.empty (show 0 < 3 by decide))).ReadsLike v := by
  obtain ⟨w, hcreate, hsize, hshown, hsum, hsquares, haverage, hcircle⟩ :=
    holds_last_samples (show 0 < 3 by decide) (7 / 10 : Rat) [1, 2, 3, 4, 5]
  obtain ⟨hlatest, holdest⟩ := hshown (by decide)
  rw [hsize] at holdest hsum hsquares haverage
  refine ⟨by decide, w, hcreate, hsize, ?_, ?_, ?_, ?_, ?_, hcircle⟩
  · exact (Option.some.inj hlatest).symm
  · exact (Option.some.inj holdest).symm
  · rw [hsum]
    norm_num [toReal]
  · rw [hsquares]
    norm_num [toReal]
  · rw [haverage]
    norm_num [toReal]

end PauseGoal.Sample.Window
