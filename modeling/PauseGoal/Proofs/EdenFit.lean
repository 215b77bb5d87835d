import PauseGoal.Proofs.SurvivalForecast
import PauseGoal.Proofs.YoungSearch

/-!
# A shorter eden fits where a longer one does

The search for a target length takes it that no eden fits above one that does not. The forecast
answers so as long as nothing that it adds up falls with the length (`Plausible`): a longer eden
leaves more survivors, whose copies take longer and need more room, and it leaves less room itself.
That the survivors are cut down to bytes, and the room that they need once more, keeps the order.

What can go wrong is the room of the shorter eden, which may be no word. The room is computed only
for an eden that can be collected in time, and then the answer is a fault and not `true`
(`Overflows`). Such a length is the only obstacle: the target is the longest eden that fits the goal
and the room, unless the least eden of the search is one (`shorter_eden_fits`).
-/

namespace PauseGoal

open Scalar (truncate_mono)
open Scalar.Exact (toReal)

variable {α : Type} [Scalar α] [Scalar.Exact α]

/-! ## What is expected to survive -/

namespace SurvivalGroup

variable {g : SurvivalGroup α}

/-- The table never falls, and neither does what is added beyond it. -/
structure Rising (g : SurvivalGroup α) : Prop where
  nonneg : ∀ (i : Nat) (h : i < g.ages.size), num 0 ≤ g.ages[i].accumulated
  table : ∀ (i : Nat) (h : i + 1 < g.ages.size),
    g.ages[i].accumulated ≤ g.ages[i + 1].accumulated
  lastRate : num 0 ≤ g.lastRate

theorem toReal_expected_beyond {age : Nat} (h : g.ages.size ≤ age) :
    toReal (g.expected age) =
      toReal ((g.ages.back?.map (·.accumulated)).getD (num 0)) +
        (age - g.ages.size + 1 : Nat) * toReal g.lastRate := by
  unfold expected
  rw [Array.getElem?_eq_none h]
  simp

theorem Rising.expected_mono (h : g.Rising) : Monotone fun age => toReal (g.expected age) := by
  refine monotone_nat_of_le_succ fun age => ?_
  have hrate : 0 ≤ toReal g.lastRate := Scalar.zero_le_iff.mp h.lastRate
  rcases Nat.lt_trichotomy (age + 1) g.ages.size with hinside | hlast | hbeyond
  · rw [expected_of_lt (Nat.lt_of_succ_lt hinside), expected_of_lt hinside]
    exact (Scalar.Exact.le_iff _ _).mp (h.table age hinside)
  · -- from the last age of the table to the first beyond it
    have hage : age < g.ages.size := Nat.lt_of_lt_of_eq (Nat.lt_succ_self age) hlast
    have hback : g.ages.back? = some g.ages[age] := by
      rw [Array.back?_eq_getElem?, ← hlast, Nat.add_sub_cancel, Array.getElem?_eq_getElem hage]
    rw [expected_of_lt hage, toReal_expected_beyond hlast.ge, hback]
    exact le_add_of_nonneg_right (mul_nonneg (Nat.cast_nonneg _) hrate)
  · have hsize : g.ages.size ≤ age := Nat.le_of_lt_succ hbeyond
    rw [toReal_expected_beyond hsize, toReal_expected_beyond (hsize.trans (Nat.le_succ age))]
    refine add_le_add_right (mul_le_mul_of_nonneg_right ?_ hrate) _
    exact Nat.cast_le.mpr (by omega)

/-- A population whose expected survivors are steady has a table that does not fall. -/
theorem Steady.rising (h : g.Steady) : g.Rising where
  nonneg i hi := by
    rw [← expected_of_lt hi]
    exact (h i).1
  table i hi := by
    rw [← expected_of_lt (Nat.lt_of_succ_lt hi), ← expected_of_lt hi]
    exact (h i).2.1
  lastRate := by
    have hlast := (steady_iff.mp h g.ages.size).2.1
    rw [toReal_expected_beyond (Nat.le_refl _), toReal_expected_beyond (Nat.le_succ _)] at hlast
    rw [Nat.succ_eq_add_one, Nat.sub_self, Nat.add_sub_cancel_left] at hlast
    push_cast at hlast
    refine Scalar.zero_le_iff.mpr ?_
    linarith

end SurvivalGroup

/-! ## What it costs -/

namespace CostModel

theorem toReal_copyTime (m : CostModel α) (bytes : Nat) (marking : Bool) :
    toReal (m.copyTime bytes marking) = bytes * toReal (m.copyTime 1 marking) := by
  unfold copyTime
  split
  · split
    · simp
      ring
    · simp
  · simp

theorem toReal_youngOtherTime (m : CostModel α) (regions : Nat) :
    toReal (m.youngOtherTime regions) = regions * toReal (m.youngOtherTime 1) := by
  simp [youngOtherTime]

end CostModel

namespace Young

namespace Forecast

variable {f : Forecast α} {m n : Nat}

/-- No cost is negative and no forecast falls with the length. -/
structure Plausible (f : Forecast α) : Prop where
  regionSize : 0 < f.regionSize
  confidence : num 0 < f.confidencePercent
  waste : num 0 ≤ f.bufferWastePercent
  copyCost : num 0 ≤ f.costs.copyTime 1 f.marking
  regionCost : num 0 ≤ f.costs.youngOtherTime 1
  eden : f.eden.Rising

theorem Plausible.safetyFactor_nonneg (h : f.Plausible) : 0 ≤ toReal f.safetyFactor := by
  have hconfidence := Scalar.zero_lt_iff.mp h.confidence
  have hwaste := Scalar.zero_le_iff.mp h.waste
  simp only [safetyFactor, Scalar.Exact.toReal_div, Scalar.Exact.toReal_mul,
    Scalar.Exact.toReal_add, Scalar.Exact.toReal_num]
  positivity

section

variable [Scalar.Truncating α]

theorem Plausible.survivingBytes_mono (h : f.Plausible) : Monotone f.survivingBytes := by
  intro m n hle
  unfold survivingBytes
  split
  · exact Nat.zero_le _
  · next hm =>
    rw [if_neg (by omega)]
    refine truncate_mono ?_
    rw [Scalar.Exact.toReal_mul, Scalar.Exact.toReal_mul, Scalar.Exact.toReal_num]
    refine mul_le_mul_of_nonneg_right ?_ (Nat.cast_nonneg _)
    exact h.eden.expected_mono (Nat.sub_le_sub_right hle 1)

theorem Plausible.pauseTime_mono (h : f.Plausible) (hle : m ≤ n) :
    f.pauseTime m ≤ f.pauseTime n := by
  have hcopy := Scalar.zero_le_iff.mp h.copyCost
  have hregion := Scalar.zero_le_iff.mp h.regionCost
  rw [Scalar.Exact.le_iff]
  simp only [pauseTime, Scalar.Exact.toReal_add]
  rw [f.costs.toReal_copyTime (f.survivingBytes m), f.costs.toReal_copyTime (f.survivingBytes n),
    f.costs.toReal_youngOtherTime m, f.costs.toReal_youngOtherTime n]
  have hbytes : (f.survivingBytes m : ℝ) ≤ f.survivingBytes n :=
    Nat.cast_le.mpr (h.survivingBytes_mono hle)
  have hlength : (m : ℝ) ≤ n := Nat.cast_le.mpr hle
  gcongr

theorem Plausible.copyBytes_mono (h : f.Plausible) : Monotone f.copyBytes := by
  intro m n hle
  refine truncate_mono ?_
  simp only [Scalar.Exact.toReal_mul, Scalar.Exact.toReal_num]
  exact mul_le_mul_of_nonneg_left (Nat.cast_le.mpr (h.survivingBytes_mono hle))
    h.safetyFactor_nonneg

end

/-! ## The answer -/

section

omit [Scalar.Exact α]

/-- The bytes that an eden of the given length leaves free. -/
def room (f : Forecast α) (length : Nat) : Nat := (f.freeRegions - length) * f.regionSize

/-- The length is below that of the free regions, and its collection is within the goal. -/
def InTime (f : Forecast α) (length : Nat) : Prop :=
  length < f.freeRegions ∧ f.pauseTime length ≤ f.goal

/-- An eden of the given length can be collected within the goal and into the free regions. -/
def Holds (f : Forecast α) (length : Nat) : Prop :=
  f.InTime length ∧ f.copyBytes length ≤ f.room length

/-- The room of the length is computed, and it is no word. -/
def Overflows (f : Forecast α) (length : Nat) : Prop :=
  f.InTime length ∧ wordBound ≤ f.room length

instance (f : Forecast α) (length : Nat) : Decidable (f.InTime length) :=
  inferInstanceAs (Decidable (_ ∧ _))

instance (f : Forecast α) (length : Nat) : Decidable (f.Holds length) :=
  inferInstanceAs (Decidable (_ ∧ _))

instance (f : Forecast α) (length : Nat) : Decidable (f.Overflows length) :=
  inferInstanceAs (Decidable (_ ∧ _))

omit [Scalar α] in
theorem room_anti (f : Forecast α) : Antitone f.room :=
  fun _ _ hle => Nat.mul_le_mul_right _ (Nat.sub_le_sub_left hle _)

end

theorem fits_eq (f : Forecast α) (length : Nat) :
    f.fits length =
      if f.Overflows length then .error .multiplicationOverflow
      else .ok (decide (f.Holds length)) := by
  unfold fits
  by_cases hlength : f.freeRegions ≤ length
  · have hlate : ¬ f.InTime length := fun h => absurd hlength (Nat.not_le_of_lt h.1)
    simp [hlength, Overflows, Holds, hlate]
  · by_cases hgoal : f.goal < f.pauseTime length
    · have hlate : ¬ f.InTime length := fun h => Scalar.not_lt_iff.mpr h.2 hgoal
      simp [hlength, hgoal, Overflows, Holds, hlate]
    · have htime : f.InTime length := ⟨Nat.lt_of_not_le hlength, Scalar.not_lt_iff.mp hgoal⟩
      rw [if_neg hlength, if_neg hgoal]
      unfold Word.mul
      by_cases hroom : (f.freeRegions - length) * f.regionSize < wordBound
      · have hword : ¬ f.Overflows length := fun h => absurd h.2 (Nat.not_le_of_lt hroom)
        rw [if_pos hroom, if_neg hword]
        simp [Holds, htime, room, bind, Except.bind, pure, Except.pure]
      · have hover : f.Overflows length := ⟨htime, Nat.le_of_not_lt hroom⟩
        rw [if_neg hroom, if_pos hover]
        rfl

theorem fits_eq_true_iff :
    f.fits n = .ok true ↔ f.Holds n ∧ f.room n < wordBound := by
  rw [fits_eq]
  split
  · next hover => simp [Nat.not_lt_of_le hover.2]
  · next hword =>
    simp only [Except.ok.injEq, decide_eq_true_eq]
    refine ⟨fun hholds => ⟨hholds, ?_⟩, And.left⟩
    exact Nat.lt_of_not_le fun hroom => hword ⟨hholds.1, hroom⟩

variable [Scalar.Truncating α]

theorem Plausible.inTime_anti (h : f.Plausible) : Antitone f.InTime := by
  intro m n hle hn
  refine ⟨Nat.lt_of_le_of_lt hle hn.1, ?_⟩
  have hpause := (Scalar.Exact.le_iff _ _).mp (h.pauseTime_mono hle)
  exact (Scalar.Exact.le_iff _ _).mpr (hpause.trans ((Scalar.Exact.le_iff _ _).mp hn.2))

/-- A shorter eden is collected sooner, copies less and leaves more room. -/
theorem Plausible.holds_anti (h : f.Plausible) : Antitone f.Holds := by
  intro m n hle hn
  refine ⟨h.inTime_anti hle hn.1, ?_⟩
  calc f.copyBytes m ≤ f.copyBytes n := h.copyBytes_mono hle
    _ ≤ f.room n := hn.2
    _ ≤ f.room m := f.room_anti hle

/-- If the room of a length that is asked about is no word, so is that of every shorter one. -/
theorem Plausible.overflows_anti (h : f.Plausible) : Antitone f.Overflows :=
  fun _ _ hle hn => ⟨h.inTime_anti hle hn.1, hn.2.trans (f.room_anti hle)⟩

theorem Plausible.answers (h : f.Plausible) {low : Nat} (hlow : ¬ f.Overflows low) (high : Nat) :
    Answers f.fits low high f.Holds := by
  intro n hle _
  rw [fits_eq, if_neg fun hover => hlow (h.overflows_anti hle hover)]

/-! ## A new collector -/

/-- The forecast of a collector with four workers that has not paused yet. -/
def freshForecast (freeRegions regionSize goal : Nat) : Forecast Rat where
  costs := .create ⟨1 / 2⟩ 4 0
  eden := .create .eden
  baseTime := 0
  freeRegions := freeRegions
  goal := goal
  regionSize := regionSize
  marking := false
  confidencePercent := 50
  bufferWastePercent := 10

theorem plausible_freshForecast {freeRegions regionSize goal : Nat} (h : 0 < regionSize) :
    (freshForecast freeRegions regionSize goal).Plausible where
  regionSize := h
  confidence := by
    show num 0 < (50 : Rat)
    decide +kernel
  waste := by
    show num 0 ≤ (10 : Rat)
    decide +kernel
  copyCost := by
    show num 0 ≤ (CostModel.create ⟨1 / 2⟩ 4 0 : CostModel Rat).copyTime 1 false
    decide +kernel
  regionCost := by
    show num 0 ≤ (CostModel.create ⟨1 / 2⟩ 4 0 : CostModel Rat).youngOtherTime 1
    decide +kernel
  eden := (SurvivalGroup.steady_create .eden).rising

/-- A length below one that fits does so too, unless its room is no word. Hence the target is the
longest eden, with the survivors in front of it, that fits both the goal and the room, unless the
search starts at a length whose room is no word. -/
theorem shorter_eden_fits (h : f.Plausible) :
    (∀ m n, m ≤ n → f.fits n = .ok true →
      f.fits m = if wordBound ≤ f.room m then .error .multiplicationOverflow else .ok true) ∧
    ∀ (b : Bounds) (survivors : Nat), b.fixed = none → survivors < b.least →
      if b.least < b.largest ∧ f.Overflows (b.least - survivors) then
        b.target survivors true f.fits = .error .multiplicationOverflow
      else
        ∃ target, b.target survivors true f.fits = .ok target ∧
          Longest b.least b.ceiling (fun n => f.Holds (n - survivors)) target.bounded := by
  refine ⟨fun m n hle hn => ?_, fun b survivors hfixed hroom => ?_⟩
  · have hholds : f.Holds m := h.holds_anti hle (fits_eq_true_iff.mp hn).1
    rw [fits_eq]
    simp [Overflows, hholds, hholds.1]
  · split
    · next hover =>
      refine Bounds.target_of_error hfixed hroom hover.1 ?_
      rw [fits_eq, if_pos hover.2]
    · next hword =>
      refine Bounds.target_longest hfixed hroom (fun hwide => ?_) h.holds_anti
      exact h.answers (fun hover => hword ⟨hwide, hover⟩) _

theorem shorter_eden_fits_in_a_hundred_regions :
    (freshForecast 100 1048576 200).Plausible ∧ 2 ≤ 8 ∧
      (freshForecast 100 1048576 200).fits 8 = .ok true ∧
      (freshForecast 100 1048576 200).fits 2 = .ok true ∧
      (⟨none, 5, 60, 40⟩ : Bounds).fixed = none ∧ 3 < (⟨none, 5, 60, 40⟩ : Bounds).least ∧
      ∃ target,
        (⟨none, 5, 60, 40⟩ : Bounds).target 3 true (freshForecast 100 1048576 200).fits =
          .ok target ∧
        Longest 5 40 (fun n => (freshForecast 100 1048576 200).Holds (n - 3)) target.bounded := by
  have hforecast : (freshForecast 100 1048576 200).Plausible :=
    plausible_freshForecast (by decide)
  have hfits : (freshForecast 100 1048576 200).fits 8 = .ok true := by decide +kernel
  have hshorter := (shorter_eden_fits hforecast).1 2 8 (by decide) hfits
  rw [if_neg (by decide)] at hshorter
  have htarget := (shorter_eden_fits hforecast).2 ⟨none, 5, 60, 40⟩ 3 rfl (by decide)
  rw [if_neg fun hover => absurd hover.2.2 (by decide)] at htarget
  exact ⟨hforecast, by decide, hfits, hshorter, rfl, by decide, htarget⟩

/-- In a heap of 2⁶⁴ bytes and more an eden of a hundred regions leaves a room that is a word, and
one of a single region does not. -/
theorem shorter_eden_overflows :
    (freshForecast 549755813898 33554432 1000000).Plausible ∧ 1 ≤ 100 ∧
      (freshForecast 549755813898 33554432 1000000).fits 100 = .ok true ∧
      (freshForecast 549755813898 33554432 1000000).fits 1 = .error .multiplicationOverflow := by
  refine ⟨plausible_freshForecast (by decide), by decide, ?_, ?_⟩
  · decide +kernel
  · decide +kernel

end Forecast

end Young

end PauseGoal
