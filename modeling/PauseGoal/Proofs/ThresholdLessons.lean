import PauseGoal.Marking.Threshold
import PauseGoal.Proofs.Returns
import PauseGoal.Proofs.SampleWindows

/-!
# What a threshold learns

A threshold is a function of the lessons it was given: the latest target, mutator phase and marking
length, and, with a forecast, the windows that all lengths and all rates were added to. An adaptive
threshold and a fixed one with the same percentage that were given the same lessons therefore differ
in their forecasts only, and the forecast counts once both its windows are full enough.

The windows of a forecast hold ten samples, so that they are never full enough for a forecast that
asks for more.
-/

namespace PauseGoal

variable {α : Type} [Scalar α]

namespace Marking

open Sample (Window Predictor)

/-! ## Lessons -/

/-- What a threshold is told. -/
inductive Lesson (α : Type)
  /-- The occupancy that the heap may reach, in bytes. -/
  | target (bytes : Nat)
  /-- A mutator phase: its length in seconds, the bytes allocated into the old generation during it
  and the size of an unrestrained young generation. -/
  | allocation (time : α) (bytes youngSize : Nat)
  /-- The length of a marking in seconds. -/
  | marking (length : α)

namespace Lesson

def target? : Lesson α → Option Nat
  | target bytes => some bytes
  | _ => none

def time? : Lesson α → Option α
  | allocation time _ _ => some time
  | _ => none

def bytes? : Lesson α → Option Nat
  | allocation _ bytes _ => some bytes
  | _ => none

def youngSize? : Lesson α → Option Nat
  | allocation _ _ youngSize => some youngSize
  | _ => none

/-- The rate of a mutator phase. A phase without length has none. -/
def rate? : Lesson α → Option α
  | allocation time bytes _ => if num 0 < time then some (num bytes / time) else none
  | _ => none

def length? : Lesson α → Option α
  | marking length => some length
  | _ => none

end Lesson

/-- Tells a threshold a lesson. -/
def Threshold.tell (t : Threshold α) : Lesson α → Checked α (Threshold α)
  | .target bytes => .ok (t.setTarget bytes)
  | .allocation time bytes youngSize => t.addAllocation time bytes youngSize
  | .marking length => t.addMarking length

/-- A new threshold that was told some lessons. -/
def Threshold.educated (percent : α) (forecast : Option (Forecast α)) (lessons : List (Lesson α)) :
    Checked α (Threshold α) := do
  let t ← create percent forecast
  lessons.foldlM Threshold.tell t

/-- A forecast after the lessons. -/
def Forecast.learned (f : Forecast α) (lessons : List (Lesson α)) : Forecast α :=
  { f with
    maxCapacity := (lessons.filterMap Lesson.target?).foldl Nat.max f.maxCapacity
    lengths := (lessons.filterMap Lesson.length?).foldl Window.add f.lengths
    rates := (lessons.filterMap Lesson.rate?).foldl Window.add f.rates
    youngSize := (lessons.filterMap Lesson.youngSize?).getLastD f.youngSize }

/-- A threshold after the lessons, if it accepts them. -/
def Threshold.learned (t : Threshold α) (lessons : List (Lesson α)) : Threshold α :=
  { t with
    target := (lessons.filterMap Lesson.target?).getLastD t.target
    allocationTime := (lessons.filterMap Lesson.time?).getLastD t.allocationTime
    allocatedBytes := (lessons.filterMap Lesson.bytes?).getLastD t.allocatedBytes
    markingLength := (lessons.filterMap Lesson.length?).getLastD t.markingLength
    forecast := t.forecast.map (Forecast.learned · lessons) }

theorem Threshold.eq_learned_of_tell {t t' : Threshold α} {lesson : Lesson α}
    (h : t.tell lesson = .ok t') : t' = t.learned [lesson] := by
  cases lesson with
  | target bytes =>
    cases h
    rfl
  | allocation time bytes youngSize =>
    obtain ⟨_, _, h⟩ := Checked.exists_of_bind_eq_ok h
    cases h
    by_cases htime : num 0 < time <;>
      simp only [learned, Forecast.learned, List.filterMap, Lesson.rate?, htime] <;> rfl
  | marking length =>
    unfold tell addMarking at h
    cases hforecast : t.forecast with
    | none =>
      rw [hforecast] at h
      obtain ⟨_, _, h⟩ := Checked.exists_of_bind_eq_ok h
      cases h
      simp only [learned, hforecast]
      rfl
    | some f =>
      rw [hforecast] at h
      obtain ⟨_, _, h⟩ := Checked.exists_of_bind_eq_ok h
      cases h
      simp only [learned, hforecast]
      rfl

theorem Forecast.learned_append (f : Forecast α) (earlier later : List (Lesson α)) :
    f.learned (earlier ++ later) = (f.learned earlier).learned later := by
  simp only [learned, List.filterMap_append, List.foldl_append, List.getLastD_eq_getLast?,
    List.getLast?_append, Option.getD_or]

theorem Threshold.learned_append (t : Threshold α) (earlier later : List (Lesson α)) :
    t.learned (earlier ++ later) = (t.learned earlier).learned later := by
  simp only [learned, List.filterMap_append, List.getLastD_eq_getLast?, List.getLast?_append,
    Option.getD_or, Option.map_map, Function.comp_def, Forecast.learned_append]

theorem Threshold.eq_learned_of_foldlM {t t' : Threshold α} {lessons : List (Lesson α)}
    (h : lessons.foldlM tell t = .ok t') : t' = t.learned lessons := by
  induction lessons generalizing t with
  | nil =>
    obtain rfl : t = t' := Except.ok.inj h
    simp only [learned, Forecast.learned, List.filterMap_nil, List.foldl_nil, List.getLastD_nil,
      Option.map_id']
  | cons lesson lessons ih =>
    rw [List.foldlM_cons] at h
    obtain ⟨middle, hfirst, hrest⟩ := Checked.exists_of_bind_eq_ok h
    rw [ih hrest, eq_learned_of_tell hfirst, ← learned_append, List.singleton_append]

/-! ## With and without a forecast -/

/-- A threshold before its first lesson. -/
def Threshold.new (percent : α) (forecast : Option (Forecast α)) : Threshold α where
  percent := percent
  target := 0
  allocationTime := num 0
  allocatedBytes := 0
  markingLength := num 0
  forecast := forecast

theorem Threshold.eq_learned_of_educated {percent : α} {forecast : Option (Forecast α)}
    {lessons : List (Lesson α)} {t : Threshold α} (h : educated percent forecast lessons = .ok t) :
    t = (new percent forecast).learned lessons := by
  obtain ⟨t₀, hcreate, h⟩ := Checked.exists_of_bind_eq_ok h
  obtain ⟨_, _, hcreate⟩ := Checked.exists_of_bind_eq_ok hcreate
  cases hcreate
  exact eq_learned_of_foldlM h

/-- As many lengths and as many rates as a prediction asks for. -/
def Lesson.Suffice (samples : Nat) (lessons : List (Lesson α)) : Prop :=
  samples ≤ (lessons.filterMap length?).length ∧ samples ≤ (lessons.filterMap rate?).length

/-- What was enough stays enough. -/
theorem Lesson.Suffice.mono {samples : Nat} {earlier lessons : List (Lesson α)}
    (h : Suffice samples earlier) (hearlier : earlier <+: lessons) : Suffice samples lessons :=
  ⟨Nat.le_trans h.1 (hearlier.filterMap length?).length_le,
    Nat.le_trans h.2 (hearlier.filterMap rate?).length_le⟩

section

variable {predictor : Predictor α} {reserve waste maxCapacity samples : Nat}
  {lessons : List (Lesson α)}

/-- A forecast is ready if the lessons suffice and its windows can hold that many samples. -/
theorem Forecast.isReady_learned :
    ((empty predictor reserve waste maxCapacity samples).learned lessons).isReady = true ↔
      samples ≤ 10 ∧ Lesson.Suffice samples lessons := by
  have hsize (xs : List α) :
      (xs.foldl Window.add (Window.ofTenWeighing weight)).size = min xs.length 10 := by
    rw [Window.size_foldl_add (Nat.zero_le _)]
    exact congrArg (min · 10) (Nat.zero_add _)
  simp only [isReady, learned, empty, hsize, Lesson.Suffice, Bool.and_eq_true, decide_eq_true_eq]
  omega

end

/-- The prediction fails in three ways: two sums that are no words, and a target that is missing. -/
theorem Forecast.threshold_of_words {f : Forecast α} {target : Nat}
    (hneeded : f.promotion + f.youngSize < wordBound)
    (hspare : f.reservePercent + f.wastePercent < wordBound) (htarget : 0 < target) :
    ∃ bytes, f.threshold target = .ok bytes := by
  rw [threshold, safeOccupancy, Word.add, if_pos hneeded, Word.add, if_pos hspare, demand,
    if_pos htarget]
  exact ⟨_, rfl⟩

namespace Threshold

variable {percent : α} {t : Threshold α}

theorem bytes_of_none (h : t.readyForecast = none) : t.bytes = t.byPercentage := by
  rw [bytes, h]

theorem bytes_of_some {f : Forecast α} (h : t.readyForecast = some f) :
    t.bytes = f.threshold t.target := by
  rw [bytes, h]

theorem byPercentage_of_target (h : 0 < t.target) :
    t.byPercentage = .ok (Scalar.truncate (t.percent * num t.target / num 100)) := by
  rw [byPercentage, demand, if_pos h]
  rfl

/-- There is a report exactly if there is a threshold. It has predictions exactly if the threshold
is predicted. -/
theorem report_predictions (t : Threshold α) (current : Nat) :
    (t.report current).map (fun r => (r.threshold, r.predictedLength, r.predictedRate)) =
      t.bytes.map fun bytes =>
        (bytes, t.readyForecast.map Forecast.length, t.readyForecast.map Forecast.rate) := by
  rw [report]
  cases t.bytes <;> rfl

/-- Let a fixed threshold and an adaptive one with the same percentage be told the same lessons.

* As long as the lessons do not suffice, both have the same threshold, by percentage, and the same
  reports, without predictions. This stays so if the adaptive one asks for more than ten samples.
* From the lessons on with which ten samples or fewer suffice, the threshold is the predicted one
  and reports carry both predictions. -/
theorem adaptive_until_lessons_suffice {predictor : Predictor α}
    {reserve waste maxCapacity samples : Nat} {lessons : List (Lesson α)}
    {fixed adaptive : Threshold α} (hfixed : educated percent none lessons = .ok fixed)
    (hadaptive : educated percent
      (some (Forecast.empty predictor reserve waste maxCapacity samples)) lessons = .ok adaptive) :
    (¬ (samples ≤ 10 ∧ Lesson.Suffice samples lessons) →
      adaptive.bytes = fixed.bytes ∧
        (∀ target, (lessons.filterMap Lesson.target?).getLast? = some target → 0 < target →
          adaptive.bytes = .ok (Scalar.truncate (percent * num target / num 100))) ∧
        ∀ current,
          adaptive.report current = fixed.report current ∧
          (adaptive.report current).map
              (fun r => (r.threshold, r.predictedLength, r.predictedRate)) =
            adaptive.bytes.map fun bytes => (bytes, none, none)) ∧
    ∀ earlier, earlier <+: lessons → samples ≤ 10 → Lesson.Suffice samples earlier →
      ∃ forecast target,
        forecast = (Forecast.empty predictor reserve waste maxCapacity samples).learned lessons ∧
        target = (lessons.filterMap Lesson.target?).getLastD 0 ∧
        adaptive.bytes = forecast.threshold target ∧
        (forecast.promotion + forecast.youngSize < wordBound → reserve + waste < wordBound →
          0 < target → ∃ bytes, adaptive.bytes = .ok bytes) ∧
        ∀ current,
          (adaptive.report current).map
              (fun r => (r.threshold, r.predictedLength, r.predictedRate)) =
            adaptive.bytes.map fun bytes => (bytes, some forecast.length, some forecast.rate) := by
  have heqFixed := eq_learned_of_educated hfixed
  have heqAdaptive := eq_learned_of_educated hadaptive
  have hready : adaptive.readyForecast =
      (some ((Forecast.empty predictor reserve waste maxCapacity samples).learned lessons)).filter
        Forecast.isReady := by
    rw [heqAdaptive]
    rfl
  constructor
  · intro hwaits
    have hnone : adaptive.readyForecast = none := by
      rw [hready, Option.filter_some_neg]
      rwa [← Bool.not_eq_true, Forecast.isReady_learned]
    have hfixedNone : fixed.readyForecast = none := by
      rw [heqFixed]
      rfl
    -- the two differ in their forecasts only, which the percentage does not read
    have hbytes : adaptive.bytes = fixed.bytes := by
      rw [bytes_of_none hnone, bytes_of_none hfixedNone, heqAdaptive, heqFixed]
      rfl
    refine ⟨hbytes, fun target htarget hpos => ?_, fun current => ⟨?_, ?_⟩⟩
    · have hlatest : adaptive.target = target := by
        rw [heqAdaptive]
        simp only [learned, List.getLastD_eq_getLast?, htarget, Option.getD_some]
      have hpercent : adaptive.percent = percent := by
        rw [heqAdaptive]
        rfl
      rw [bytes_of_none hnone, byPercentage_of_target (hlatest ▸ hpos), hpercent, hlatest]
    · rw [report, report, hbytes, hnone, hfixedNone, heqAdaptive, heqFixed]
      rfl
    · rw [report_predictions, hnone]
      rfl
  · intro earlier hearlier hsamples henough
    have hsome : adaptive.readyForecast =
        some ((Forecast.empty predictor reserve waste maxCapacity samples).learned lessons) := by
      rw [hready, Option.filter_some_pos]
      exact Forecast.isReady_learned.mpr ⟨hsamples, henough.mono hearlier⟩
    have hbytes := bytes_of_some hsome
    have htarget : adaptive.target = (lessons.filterMap Lesson.target?).getLastD 0 := by
      rw [heqAdaptive]
      rfl
    refine ⟨_, _, rfl, rfl, htarget ▸ hbytes, fun hneeded hspare hpos => ?_, fun current => ?_⟩
    · rw [hbytes, htarget]
      exact Forecast.threshold_of_words hneeded hspare hpos
    · rw [report_predictions, hsome]
      rfl

/-- A target, and as many markings and mutator phases of a second each. -/
def plainLessons (count : Nat) : List (Lesson Float) :=
  .target 1000 ::
    (List.replicate count (.marking (num 1)) ++ List.replicate count (.allocation (num 1) 100 50))

def plainForecast (samples : Nat) : Forecast Float := .empty ⟨num 0⟩ 10 5 1000 samples

theorem truncate_plain_share : Scalar.truncate ((num 45 : Float) * num 1000 / num 100) = 450 := by
  decide +kernel

/-- Two samples of each sort do not suffice for a forecast that asks for three, and three do: then
850 bytes are safe, of which marking and the young generation need 150. -/
theorem adaptive_until_three_samples :
    (∃ fixed adaptive, educated (num 45) none (plainLessons 2) = .ok fixed ∧
      educated (num 45) (some (plainForecast 3)) (plainLessons 2) = .ok adaptive ∧
      adaptive.bytes = fixed.bytes ∧ adaptive.bytes = .ok 450) ∧
    ∃ fixed adaptive, educated (num 45) none (plainLessons 3) = .ok fixed ∧
      educated (num 45) (some (plainForecast 3)) (plainLessons 3) = .ok adaptive ∧
      adaptive.bytes = ((plainForecast 3).learned (plainLessons 3)).threshold 1000 ∧
      ∃ bytes, adaptive.bytes = .ok bytes := by
  constructor
  · obtain ⟨fixed, hfixed⟩ := Checked.exists_of_toBool
      (x := educated (num 45) none (plainLessons 2)) (by decide +kernel)
    obtain ⟨adaptive, hadaptive⟩ := Checked.exists_of_toBool
      (x := educated (num 45) (some (plainForecast 3)) (plainLessons 2)) (by decide +kernel)
    obtain ⟨hbytes, hpercent, _⟩ := (adaptive_until_lessons_suffice hfixed hadaptive).1
      fun h => absurd h.2.1 (by decide)
    exact ⟨fixed, adaptive, hfixed, hadaptive, hbytes,
      truncate_plain_share ▸ hpercent 1000 rfl (by decide)⟩
  · obtain ⟨fixed, hfixed⟩ := Checked.exists_of_toBool
      (x := educated (num 45) none (plainLessons 3)) (by decide +kernel)
    obtain ⟨adaptive, hadaptive⟩ := Checked.exists_of_toBool
      (x := educated (num 45) (some (plainForecast 3)) (plainLessons 3)) (by decide +kernel)
    obtain ⟨_, _, rfl, rfl, hbytes, hsome, _⟩ :=
      (adaptive_until_lessons_suffice hfixed hadaptive).2 (plainLessons 3) List.prefix_rfl
        (by decide) ⟨by decide +kernel, by decide +kernel⟩
    exact ⟨fixed, adaptive, hfixed, hadaptive, hbytes,
      hsome (by decide +kernel) (by decide) (by decide)⟩

/-- A forecast that asks for eleven samples was given eleven of each sort, and is still not used:
the threshold is 45 percent of the target where 700 bytes are predicted. -/
theorem adaptive_never_predicts_of_eleven :
    Lesson.Suffice 11 (plainLessons 11) ∧
      ∃ adaptive, educated (num 45) (some (plainForecast 11)) (plainLessons 11) = .ok adaptive ∧
        adaptive.bytes = .ok 450 ∧
        ((plainForecast 11).learned (plainLessons 11)).threshold 1000 ≠ .ok 450 ∧
        (adaptive.report 0).map (fun r => (r.threshold, r.predictedLength, r.predictedRate)) =
          .ok (450, none, none) := by
  refine ⟨⟨by decide +kernel, by decide +kernel⟩, ?_⟩
  obtain ⟨adaptive, hadaptive⟩ := Checked.exists_of_toBool
    (x := educated (num 45) (some (plainForecast 11)) (plainLessons 11)) (by decide +kernel)
  have hlearned := eq_learned_of_educated hadaptive
  have hnone : adaptive.readyForecast = none := by
    have hwaits : ((plainForecast 11).learned (plainLessons 11)).isReady = false := by
      rw [plainForecast, ← Bool.not_eq_true, Forecast.isReady_learned]
      exact fun h => absurd h.1 (by decide)
    rw [hlearned]
    exact Option.filter_some_neg hwaits
  have hbytes : adaptive.bytes = .ok 450 := by
    have htarget : adaptive.target = 1000 := hlearned ▸ rfl
    have hpercent : adaptive.percent = num 45 := hlearned ▸ rfl
    rw [bytes_of_none hnone, byPercentage_of_target (by rw [htarget]; decide), htarget, hpercent,
      truncate_plain_share]
  have hpredicted : (((plainForecast 11).learned (plainLessons 11)).threshold 1000).toOption ≠
      some 450 := by
    decide +kernel
  refine ⟨adaptive, hadaptive, hbytes, fun h => hpredicted (congrArg Except.toOption h), ?_⟩
  rw [report_predictions, hnone, hbytes]
  rfl

end Threshold

end Marking

end PauseGoal
