import PauseGoal.Proofs.ThresholdLessons

/-!
# What marking needs

A predicted threshold is what is safe less what marking and the young generation need, and zero if
they need more. The promotion is cut down to the largest word and the last subtraction stops at
zero, but two sums in between do neither: promotion and young generation, and the two percentages
that are kept free. The threshold saturates exactly while both are words, and otherwise there is
neither a threshold nor a report (`threshold_saturates_while_words`). Lessons that are accepted can
take the first sum out of the words (`threshold_overflows_of_fast_phase`).
-/

namespace PauseGoal.Marking

open Sample (Predictor)

variable {α : Type} [Scalar α]

/-! ## Lessons that are accepted -/

/-- What an adaptive threshold accepts: a target that is set, and times that are not negative. -/
def Lesson.Acceptable : Lesson α → Prop
  | target bytes => 0 < bytes
  | allocation time _ _ => num 0 ≤ time
  | marking length => num 0 ≤ length

namespace Threshold

variable {t : Threshold α} {percent : α}

theorem exists_tell {lesson : Lesson α} (hadaptive : t.isAdaptive = true)
    (h : lesson.Acceptable) : ∃ t', t.tell lesson = .ok t' := by
  cases lesson with
  | target bytes => exact ⟨_, rfl⟩
  | allocation time bytes youngSize =>
    rw [tell, addAllocation, demand, if_pos (show num 0 ≤ time from h)]
    exact ⟨_, rfl⟩
  | marking length =>
    obtain ⟨f, hf⟩ := Option.isSome_iff_exists.mp hadaptive
    have hlength : (demand (num 0 ≤ length) (.negativeMarkingLength length) : Checked α Unit) =
        .ok () := demand_eq_ok_iff.mpr h
    rw [tell, addMarking, hf]
    simp only [hlength]
    exact ⟨_, rfl⟩

theorem isAdaptive_learned (lessons : List (Lesson α)) :
    (t.learned lessons).isAdaptive = t.isAdaptive :=
  Option.isSome_map

theorem exists_foldlM_tell {lessons : List (Lesson α)} (hadaptive : t.isAdaptive = true)
    (h : ∀ lesson ∈ lessons, lesson.Acceptable) : ∃ t', lessons.foldlM tell t = .ok t' := by
  -- on the lessons; no lesson takes the forecast away
  induction lessons generalizing t with
  | nil => exact ⟨t, rfl⟩
  | cons lesson lessons ih =>
    obtain ⟨t₁, htell⟩ := exists_tell hadaptive (h lesson List.mem_cons_self)
    have hstill : t₁.isAdaptive = true := by
      rw [eq_learned_of_tell htell, isAdaptive_learned, hadaptive]
    rw [List.foldlM_cons, htell]
    exact ih hstill fun later hlater => h later (List.mem_cons_of_mem _ hlater)

theorem educated_of_acceptable {f : Forecast α} {lessons : List (Lesson α)}
    (hpercent : num 0 ≤ percent ∧ percent ≤ num 100) (h : ∀ lesson ∈ lessons, lesson.Acceptable) :
    educated percent (some f) lessons = .ok ((new percent (some f)).learned lessons) := by
  obtain ⟨t, ht⟩ := exists_foldlM_tell (t := new percent (some f)) rfl h
  have hcreate : create percent (some f) = .ok (new percent (some f)) := by
    rw [create, demand, if_pos hpercent]
    rfl
  have heducated : educated percent (some f) lessons = .ok t := by
    rw [educated, hcreate]
    exact ht
  rw [heducated, eq_learned_of_foldlM ht]

end Threshold

/-! ## The two sums -/

namespace Forecast

variable (f : Forecast α) (target : Nat)

/-- What marking and the young generation need together. -/
def need : Nat := f.promotion + f.youngSize

/-- The occupancy at which marking has to be over, for percentages whose sum is a word. -/
def safeBytes : Nat :=
  Scalar.truncate <| Scalar.min
    (num f.maxCapacity *
      (num 100 - Scalar.min (num (f.reservePercent + f.wastePercent)) (num 100)) / num 100 : α)
    (num target * (num 100 - num f.wastePercent) / num 100)

/-- Both sums that a prediction makes are words. -/
def InWords : Prop := f.need < wordBound ∧ f.reservePercent + f.wastePercent < wordBound

theorem threshold_of_inWords (htarget : 0 < target) (h : f.InWords) :
    f.threshold target = .ok (f.safeBytes target - f.need) := by
  have hneed : (Word.add f.promotion f.youngSize : Checked α Nat) = .ok f.need :=
    Word.add_eq_ok_iff.mpr ⟨h.1, rfl⟩
  rw [threshold, hneed, safeOccupancy, demand, if_pos htarget, Word.add, if_pos h.2]
  rfl

theorem threshold_of_not_inWords (htarget : 0 < target) (h : ¬ f.InWords) :
    f.threshold target = .error .additionOverflow := by
  by_cases hneed : f.need < wordBound
  · have hkept : ¬ f.reservePercent + f.wastePercent < wordBound := fun hkept => h ⟨hneed, hkept⟩
    have hadd : (Word.add f.promotion f.youngSize : Checked α Nat) = .ok f.need :=
      Word.add_eq_ok_iff.mpr ⟨hneed, rfl⟩
    rw [threshold, hadd, safeOccupancy, demand, if_pos htarget, Word.add, if_neg hkept]
    rfl
  · have hadd : (Word.add f.promotion f.youngSize : Checked α Nat) = .error .additionOverflow :=
      if_neg hneed
    rw [threshold, hadd]
    rfl

end Forecast

/-! ## Which thresholds saturate -/

namespace Threshold

variable {percent : α} {predictor : Predictor α} {reserve waste maxCapacity samples first : Nat}
  {lessons : List (Lesson α)}

theorem latest_target_pos (hfirst : 0 < first) (hlessons : ∀ lesson ∈ lessons, lesson.Acceptable) :
    0 < (lessons.filterMap Lesson.target?).getLastD first := by
  rw [List.getLastD_eq_getLast?]
  cases hlast : (lessons.filterMap Lesson.target?).getLast? with
  | none => exact hfirst
  | some bytes =>
    obtain ⟨lesson, hmem, htarget⟩ := List.mem_filterMap.mp (List.mem_of_getLast? hlast)
    cases lesson with
    | target bytes' =>
      obtain rfl : bytes' = bytes := Option.some.inj htarget
      exact hlessons _ hmem
    | allocation time bytes' youngSize => cases htarget
    | marking length => cases htarget

/-- Let an adaptive threshold be told a target and then, in any order, targets that are set, times
and lengths that are not negative, and any counts of bytes. It accepts them all.

* While the lessons do not suffice the threshold is the percentage of the latest target.
* Once they suffice it is what is safe less what marking and the young generation need, zero if
  they need more, as long as the need is a word and the percentages kept free add up to one.
* Otherwise there is no threshold: the sum overflows.

There is a report exactly if there is a threshold. -/
theorem threshold_saturates_while_words (hpercent : num 0 ≤ percent ∧ percent ≤ num 100)
    (hfirst : 0 < first) (hlessons : ∀ lesson ∈ lessons, lesson.Acceptable) :
    ∃ t forecast target,
      educated percent (some (Forecast.empty predictor reserve waste maxCapacity samples))
        (.target first :: lessons) = .ok t ∧
      forecast = (Forecast.empty predictor reserve waste maxCapacity samples).learned
        (.target first :: lessons) ∧
      target = (lessons.filterMap Lesson.target?).getLastD first ∧
      (¬ (samples ≤ 10 ∧ Lesson.Suffice samples lessons) →
        t.bytes = .ok (Scalar.truncate (percent * num target / num 100))) ∧
      (samples ≤ 10 ∧ Lesson.Suffice samples lessons →
        (forecast.InWords → t.bytes = .ok (forecast.safeBytes target - forecast.need)) ∧
        (¬ forecast.InWords → t.bytes = .error .additionOverflow)) ∧
      ∀ current, (t.report current).map Report.threshold = t.bytes := by
  have hall : ∀ lesson ∈ Lesson.target first :: lessons, lesson.Acceptable :=
    List.forall_mem_cons.mpr ⟨hfirst, hlessons⟩
  have heducated := educated_of_acceptable
    (f := Forecast.empty predictor reserve waste maxCapacity samples) hpercent hall
  obtain ⟨t, ht⟩ : ∃ t, t = (new percent (some (Forecast.empty predictor reserve waste maxCapacity
    samples))).learned (.target first :: lessons) := ⟨_, rfl⟩
  obtain ⟨f, hf⟩ : ∃ f, f = (Forecast.empty predictor reserve waste maxCapacity samples).learned
    (.target first :: lessons) := ⟨_, rfl⟩
  have hready : f.isReady = true ↔ samples ≤ 10 ∧ Lesson.Suffice samples lessons := by
    rw [hf]
    exact Forecast.isReady_learned
  have hreadyForecast : t.readyForecast = (some f).filter Forecast.isReady := by
    rw [ht, hf]
    rfl
  have htarget : t.target = (lessons.filterMap Lesson.target?).getLastD first := by
    rw [ht]
    simp only [learned, Lesson.target?, List.filterMap_cons, List.getLastD_cons]
  have hpos : 0 < t.target := htarget ▸ latest_target_pos hfirst hlessons
  refine ⟨t, f, t.target, ht ▸ heducated, hf, htarget, fun hwaits => ?_, fun henough => ?_,
    fun current => ?_⟩
  · have hnone : t.readyForecast = none := by
      rw [hreadyForecast, Option.filter_some_neg]
      exact Bool.eq_false_iff.mpr (mt hready.mp hwaits)
    have hkept : t.percent = percent := by
      rw [ht]
      rfl
    rw [bytes_of_none hnone, byPercentage_of_target hpos, hkept]
  · have hsome : t.readyForecast = some f := by
      rw [hreadyForecast, Option.filter_some_pos (hready.mpr henough)]
    rw [bytes_of_some hsome]
    exact ⟨f.threshold_of_inWords t.target hpos, f.threshold_of_not_inWords t.target hpos⟩
  · rw [report]
    cases t.bytes <;> rfl

/-- A target of 1000 bytes, a phase of a second with much allocation and a marking of a second. -/
def busyLessons : List (Lesson Float) :=
  [.target 1000, .allocation (num 1) 5000 50, .marking (num 1)]

/-- Of the 850 bytes that are safe, marking and the young generation need 5050: the threshold is
zero. -/
theorem threshold_is_zero_of_large_need :
    ∃ t, educated (num 45) (some (plainForecast 1)) busyLessons = .ok t ∧
      ((plainForecast 1).learned busyLessons).need = 5050 ∧ t.bytes = .ok 0 := by
  have hacceptable : ∀ lesson ∈ busyLessons, lesson.Acceptable := by
    simp only [busyLessons, List.mem_cons, List.not_mem_nil, or_false, forall_eq_or_imp, forall_eq,
      Lesson.Acceptable]
    decide +kernel
  obtain ⟨t, f, target, heducated, hf, htarget, -, hpredicted, -⟩ :=
    @threshold_saturates_while_words Float _ (num 45) ⟨num 0⟩ 10 5 1000 1 1000
      [.allocation (num 1) 5000 50, .marking (num 1)] (by decide +kernel) (by decide)
      fun lesson hmem => hacceptable lesson (List.mem_cons_of_mem _ hmem)
  obtain rfl : f = (plainForecast 1).learned busyLessons := hf
  obtain rfl : target = 1000 := htarget
  have hneed : ((plainForecast 1).learned busyLessons).need = 5050 := by
    decide +kernel
  have hwords : ((plainForecast 1).learned busyLessons).InWords := by
    rw [Forecast.InWords, hneed]
    decide
  have hzero : ((plainForecast 1).learned busyLessons).safeBytes 1000 -
      ((plainForecast 1).learned busyLessons).need = 0 := by
    decide +kernel
  refine ⟨t, heducated, hneed, ?_⟩
  rw [(hpredicted ⟨by decide, by decide +kernel, by decide +kernel⟩).1 hwords, hzero]

/-- The same with a phase of a nanosecond, in which a terabyte was allocated. -/
def fastLessons : List (Lesson Float) :=
  [.target 1000, .allocation (ratio 1 1000000000) 1000000000000 1, .marking (num 1)]

/-- The promotion predicted from a fast phase is cut down to the largest word, and a young
generation of one byte is one too many. -/
theorem threshold_overflows_of_fast_phase :
    (∀ lesson ∈ fastLessons, lesson.Acceptable) ∧
      ∃ t, educated (num 45) (some (plainForecast 1)) fastLessons = .ok t ∧
        ((plainForecast 1).learned fastLessons).safeBytes 1000 = 850 ∧
        ((plainForecast 1).learned fastLessons).need = wordBound ∧
        t.bytes = .error .additionOverflow := by
  have hacceptable : ∀ lesson ∈ fastLessons, lesson.Acceptable := by
    simp only [fastLessons, List.mem_cons, List.not_mem_nil, or_false, forall_eq_or_imp, forall_eq,
      Lesson.Acceptable]
    decide +kernel
  have hneed : ((plainForecast 1).learned fastLessons).need = wordBound := by
    decide +kernel
  have hready : ((new (num 45) (some (plainForecast 1))).learned fastLessons).readyForecast =
      some ((plainForecast 1).learned fastLessons) :=
    Option.filter_some_pos (Forecast.isReady_learned.mpr
      ⟨by decide, by decide +kernel, by decide +kernel⟩)
  refine ⟨hacceptable, _, educated_of_acceptable (by decide +kernel) hacceptable,
    by decide +kernel, hneed, ?_⟩
  rw [bytes_of_some hready]
  refine Forecast.threshold_of_not_inWords _ _ (by decide) fun hwords => ?_
  exact Nat.lt_irrefl _ (hneed ▸ hwords.1)

end Threshold

end PauseGoal.Marking
