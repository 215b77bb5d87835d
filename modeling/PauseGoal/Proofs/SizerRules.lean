import PauseGoal.Proofs.Contracts

/-!
# From settings to bounds of the young generation

Settings that validate satisfy every single check. From them comes one of five sizers, or the
refusal of explicit sizes that cross; for a heap of a given size the sizer then has bounds. The
lemmas say which sizer it is, and that its bounds never cross while the counts of the heap are small
enough to be multiplied.
-/

namespace PauseGoal

open Checked (Meets meets_pure meets_demand)

variable {α : Type}

/-! ## Settings that validate -/

namespace Settings

variable [Scalar α]

/-- Every setting is in range. -/
structure Valid (s : Settings α) : Prop where
  regionSize : isPowerOfTwo s.regionSize = true
  pauseGoal : num 0 < s.pauseGoal
  /-- Not the same as an interval above the goal: the interval may be no number. -/
  pauseInterval : ¬ s.pauseInterval ≤ s.pauseGoal
  percentages : ∀ setting ∈ s.percentages, setting.2 ≤ 100
  confidencePercent : s.confidencePercent ≠ 0
  youngPerSurvivor : s.youngPerSurvivor ≠ 0
  workers : s.workers ≠ 0
  youngPercents : s.leastYoungPercent ≤ s.largestYoungPercent
  oldPerYoung : s.oldPerYoung ≠ some 0
  mixedCollections : s.mixedCollections ≠ 0
  maxTenuring : s.maxTenuring < ageCount

omit [Scalar α] in
theorem require_eq_ok_iff {condition : Prop} [Decidable condition] {error : SettingsError α} :
    require condition error = .ok () ↔ condition := by
  unfold require
  split <;> simp_all

omit [Scalar α] in
theorem require_bind_eq_ok_iff {condition : Prop} [Decidable condition] {error : SettingsError α}
    {rest : Unit → Except (SettingsError α) Unit} :
    require condition error >>= rest = .ok () ↔ condition ∧ rest () = .ok () := by
  unfold require
  split
  · next hmet => exact ⟨fun h => ⟨hmet, h⟩, fun h => h.2⟩
  · next hunmet => exact ⟨nofun, fun h => absurd h.1 hunmet⟩

omit [Scalar α] in
theorem forM_bind_eq_ok_iff {β : Type} {l : List β} {f : β → Except (SettingsError α) Unit}
    {rest : Unit → Except (SettingsError α) Unit} :
    l.forM f >>= rest = .ok () ↔ (∀ b ∈ l, f b = .ok ()) ∧ rest () = .ok () := by
  induction l with
  | nil => exact ⟨fun h => ⟨nofun, h⟩, fun h => h.2⟩
  | cons b l ih =>
    rw [show (b :: l).forM f = (f b >>= fun _ => l.forM f) from rfl, List.forall_mem_cons,
      and_assoc, ← ih]
    cases f b with
    | ok _ => exact ⟨fun h => ⟨rfl, h⟩, fun h => h.2⟩
    | error error => exact ⟨nofun, fun h => nomatch h.1⟩

theorem validate_eq_ok_iff {s : Settings α} : s.validate = .ok () ↔ s.Valid := by
  unfold validate
  simp only [require_bind_eq_ok_iff, forM_bind_eq_ok_iff, require_eq_ok_iff]
  constructor
  · rintro ⟨h₁, h₂, h₃, h₄, h₅, h₆, h₇, h₈, h₉, h₁₀, h₁₁⟩
    exact ⟨h₁, h₂, h₃, h₄, h₅, h₆, h₇, h₈, h₉, h₁₀, h₁₁⟩
  · rintro ⟨h₁, h₂, h₃, h₄, h₅, h₆, h₇, h₈, h₉, h₁₀, h₁₁⟩
    exact ⟨h₁, h₂, h₃, h₄, h₅, h₆, h₇, h₈, h₉, h₁₀, h₁₁⟩

theorem validate_of_toBool {s : Settings α} (h : s.validate.toBool = true) :
    s.validate = .ok () := by
  cases hresult : s.validate with
  | ok _ => rfl
  | error error =>
    rw [hresult] at h
    cases h

theorem Valid.regionSize_ne_zero {s : Settings α} (h : s.Valid) : s.regionSize ≠ 0 := by
  intro hzero
  have hpower := h.regionSize
  rw [hzero] at hpower
  cases hpower

end Settings

/-- The explicit sizes of the young generation cross. -/
def Settings.Crossed (s : Settings α) : Prop :=
  ∃ least ∈ s.leastYoungSize, ∃ largest ∈ s.largestYoungSize, largest < least

namespace Young.Sizer

/-! ## The sizer that the settings ask for -/

/-- A size in regions, rounded down, at least one. -/
def regionsIn (size regionSize : Nat) : Nat := Nat.max (size / regionSize) 1

/-- A percentage of the heap in regions, rounded down, at least one. -/
def regionsAt (heapRegions percent : Nat) : Nat := Nat.max (heapRegions * percent / 100) 1

theorem regionsIn_mono {size size' : Nat} (regionSize : Nat) (h : size ≤ size') :
    regionsIn size regionSize ≤ regionsIn size' regionSize :=
  Nat.max_le.mpr ⟨Nat.le_trans (Nat.div_le_div_right h) (Nat.le_max_left _ _),
    Nat.le_max_right _ _⟩

theorem regionsAt_mono (heapRegions : Nat) {percent percent' : Nat} (h : percent ≤ percent') :
    regionsAt heapRegions percent ≤ regionsAt heapRegions percent' :=
  Nat.max_le.mpr
    ⟨Nat.le_trans (Nat.div_le_div_right (Nat.mul_le_mul_left _ h)) (Nat.le_max_left _ _),
      Nat.le_max_right _ _⟩

theorem regionsIn_le {size regionSize bound : Nat} (hsize : size ≤ bound) (hbound : 1 ≤ bound) :
    regionsIn size regionSize ≤ bound :=
  Nat.max_le.mpr ⟨Nat.le_trans (Nat.div_le_self _ _) hsize, hbound⟩

theorem regionsAt_le {heapRegions percent bound : Nat} (hproduct : heapRegions * percent ≤ bound)
    (hbound : 1 ≤ bound) : regionsAt heapRegions percent ≤ bound :=
  Nat.max_le.mpr ⟨Nat.le_trans (Nat.div_le_self _ _) hproduct, hbound⟩

/-- The sizer of each combination of settings, or the refusal of sizes that cross. Both explicit
sizes make a sizer that predicts unless they come to the same number of regions; a ratio counts only
without a size and makes one that never predicts. -/
inductive Chosen (s : Settings α) : Except (SettingsError α) Sizer → Prop
  | crossed {least largest : Nat} (hleast : s.leastYoungSize = some least)
      (hlargest : s.largestYoungSize = some largest) (h : largest < least) :
      Chosen s (.error (.youngSizes least largest))
  | sizes {least largest : Nat} (hleast : s.leastYoungSize = some least)
      (hlargest : s.largestYoungSize = some largest) (h : least ≤ largest) :
      Chosen s (.ok { byPercentages s with
        rule := .sizes
        adaptive := regionsIn least s.regionSize != regionsIn largest s.regionSize
        least := regionsIn least s.regionSize
        largest := regionsIn largest s.regionSize })
  | leastSize {least : Nat} (hleast : s.leastYoungSize = some least)
      (hlargest : s.largestYoungSize = none) :
      Chosen s (.ok { byPercentages s with
        rule := .leastSize, least := regionsIn least s.regionSize })
  | largestSize {largest : Nat} (hleast : s.leastYoungSize = none)
      (hlargest : s.largestYoungSize = some largest) :
      Chosen s (.ok { byPercentages s with
        rule := .largestSize, largest := regionsIn largest s.regionSize })
  | ratio {old : Nat} (hleast : s.leastYoungSize = none) (hlargest : s.largestYoungSize = none)
      (hold : s.oldPerYoung = some old) :
      Chosen s (.ok { byPercentages s with rule := .ratio, adaptive := false, oldPerYoung := old })
  | percentages (hleast : s.leastYoungSize = none) (hlargest : s.largestYoungSize = none)
      (hold : s.oldPerYoung = none) : Chosen s (.ok (byPercentages s))

theorem Chosen.not_crossed {s : Settings α} {z : Sizer} (h : Chosen s (.ok z)) : ¬ s.Crossed := by
  rintro ⟨least, hleast, largest, hlargest, hcrossed⟩
  cases h with
  | sizes hleast' hlargest' hordered =>
    cases hleast'.symm.trans hleast
    cases hlargest'.symm.trans hlargest
    exact absurd hordered (Nat.not_le.mpr hcrossed)
  | leastSize _ hnone => exact nomatch hnone.symm.trans hlargest
  | largestSize hnone _ => exact nomatch hnone.symm.trans hleast
  | ratio hnone _ _ => exact nomatch hnone.symm.trans hleast
  | percentages hnone _ _ => exact nomatch hnone.symm.trans hleast

variable {fail : Fault α → Prop}

theorem regionsOf_meets {size regionSize : Nat} (h : regionSize ≠ 0) :
    Meets (regionsOf size regionSize) (fun regions => regions = regionsIn size regionSize)
      fail := by
  refine (Word.meets_div fun hzero => absurd hzero h).bind ?_
  rintro _ ⟨_, rfl⟩
  exact meets_pure rfl

theorem regionsOfPercent_meets {heapRegions percent : Nat}
    (h : wordBound ≤ heapRegions * percent → fail .multiplicationOverflow) :
    Meets (regionsOfPercent heapRegions percent)
      (fun regions => regions = regionsAt heapRegions percent) fail := by
  refine (Word.meets_mul h).bind ?_
  rintro _ ⟨_, rfl⟩
  exact meets_pure rfl

/-- Sizes are turned into regions; without any the percentages count. -/
theorem bySizes_meets {s : Settings α} (hsize : s.regionSize ≠ 0)
    (hratio : hasSize s = false → s.oldPerYoung = none) :
    Meets (bySizes s) (Chosen s) fail := by
  unfold bySizes
  split
  · next least largest hleast hlargest =>
    split
    · next hcrossed => exact meets_pure (.crossed hleast hlargest hcrossed)
    · next hordered =>
      refine (regionsOf_meets hsize).bind ?_
      rintro _ rfl
      refine (regionsOf_meets hsize).bind ?_
      rintro _ rfl
      exact meets_pure (.sizes hleast hlargest (Nat.le_of_not_lt hordered))
  · next least hleast hlargest =>
    refine (regionsOf_meets hsize).bind ?_
    rintro _ rfl
    exact meets_pure (.leastSize hleast hlargest)
  · next largest hleast hlargest =>
    refine (regionsOf_meets hsize).bind ?_
    rintro _ rfl
    exact meets_pure (.largestSize hleast hlargest)
  · next hleast hlargest =>
    refine meets_pure (.percentages hleast hlargest (hratio ?_))
    simp [hasSize, hleast, hlargest]

theorem ofSettings_meets {s : Settings α} (hsize : s.regionSize ≠ 0) (log : Log α) :
    Meets ((ofSettings s).run.run log).1 (Chosen s) fail := by
  unfold ofSettings
  split
  · next hold => exact bySizes_meets hsize fun _ => hold
  · next old hold =>
    split
    · next hsized =>
      rw [Logged.run_bind]
      exact bySizes_meets hsize fun hnone => absurd (hsized.symm.trans hnone) nofun
    · next hnone =>
      simp only [hasSize, Bool.or_eq_true, Option.isSome_iff_ne_none, not_or, ne_eq,
        Classical.not_not] at hnone
      exact meets_pure (.ratio hnone.1 hnone.2 hold)

/-! ## The bounds for a heap -/

/-- The bounds that a rule gives. -/
def boundsAt (z : Sizer) (heapRegions : Nat) : Nat × Nat :=
  match z.rule with
  | .percentages => (regionsAt heapRegions z.leastPercent, regionsAt heapRegions z.largestPercent)
  | .leastSize => (z.least, Nat.max (regionsAt heapRegions z.largestPercent) z.least)
  | .largestSize => (Nat.min (regionsAt heapRegions z.leastPercent) z.largest, z.largest)
  | .sizes => (z.least, z.largest)
  | .ratio =>
    (Nat.max (heapRegions / (z.oldPerYoung + 1)) 1, Nat.max (heapRegions / (z.oldPerYoung + 1)) 1)

/-- The sizer with its bounds for a heap. -/
def forHeap (z : Sizer) (heapRegions : Nat) : Sizer :=
  { z with least := (z.boundsAt heapRegions).1, largest := (z.boundsAt heapRegions).2 }

/-- A bound that a heap gives is not what the bounds for another heap are made from. -/
theorem boundsAt_forHeap (z : Sizer) (heapRegions other : Nat) :
    (z.forHeap heapRegions).boundsAt other = z.boundsAt other := by
  unfold forHeap boundsAt
  cases z.rule <;> rfl

theorem forHeap_forHeap (z : Sizer) (heapRegions other : Nat) :
    (z.forHeap heapRegions).forHeap other = z.forHeap other := by
  rw [forHeap, boundsAt_forHeap]
  rfl

/-- The percentages do not cross, and neither do explicit sizes. -/
structure Ordered (z : Sizer) : Prop where
  percents : z.leastPercent ≤ z.largestPercent
  sizes : z.rule = .sizes → z.least ≤ z.largest

theorem Ordered.boundsAt_le {z : Sizer} (h : z.Ordered) (heapRegions : Nat) :
    (z.boundsAt heapRegions).1 ≤ (z.boundsAt heapRegions).2 := by
  unfold boundsAt
  split
  · exact regionsAt_mono heapRegions h.percents
  · exact Nat.le_max_right _ _
  · exact Nat.min_le_right _ _
  · next hrule => exact h.sizes hrule
  · exact Nat.le_refl _

theorem Chosen.ordered {s : Settings α} {z : Sizer}
    (hpercents : s.leastYoungPercent ≤ s.largestYoungPercent) (h : Chosen s (.ok z)) :
    z.Ordered := by
  cases h with
  | sizes hleast hlargest h => exact ⟨hpercents, fun _ => regionsIn_mono _ h⟩
  | leastSize => exact ⟨hpercents, nofun⟩
  | largestSize => exact ⟨hpercents, nofun⟩
  | ratio => exact ⟨hpercents, nofun⟩
  | percentages => exact ⟨hpercents, nofun⟩

theorem boundsFor_meets {z : Sizer} {heapRegions : Nat}
    (hleast : wordBound ≤ heapRegions * z.leastPercent → fail .multiplicationOverflow)
    (hlargest : wordBound ≤ heapRegions * z.largestPercent → fail .multiplicationOverflow) :
    Meets (z.boundsFor heapRegions) (fun bounds => bounds = z.boundsAt heapRegions) fail := by
  unfold boundsFor boundsAt
  cases z.rule with
  | percentages =>
    refine (regionsOfPercent_meets hleast).bind ?_
    rintro _ rfl
    refine (regionsOfPercent_meets hlargest).bind ?_
    rintro _ rfl
    exact meets_pure rfl
  | leastSize =>
    refine (regionsOfPercent_meets hlargest).bind ?_
    rintro _ rfl
    exact meets_pure rfl
  | largestSize =>
    refine (regionsOfPercent_meets hleast).bind ?_
    rintro _ rfl
    exact meets_pure rfl
  | sizes => exact meets_pure rfl
  | ratio => exact meets_pure rfl

/-- Without a fault a heap gives bounds. -/
theorem resize_meets {z : Sizer} {heapRegions : Nat}
    (hempty : heapRegions = 0 → fail .emptyHeap)
    (hleast : wordBound ≤ heapRegions * z.leastPercent → fail .multiplicationOverflow)
    (hlargest : wordBound ≤ heapRegions * z.largestPercent → fail .multiplicationOverflow)
    (hcrossed : (z.boundsAt heapRegions).2 < (z.boundsAt heapRegions).1 →
      fail .youngBoundsCrossed) :
    Meets (z.resize heapRegions) (fun z' => z' = z.forHeap heapRegions) fail := by
  refine (meets_demand fun h => hempty (Nat.eq_zero_of_not_pos h)).bind fun _ _ => ?_
  refine (boundsFor_meets hleast hlargest).bind ?_
  rintro _ rfl
  refine (meets_demand fun h => hcrossed (Nat.lt_of_not_le h)).bind fun _ _ => ?_
  exact meets_pure rfl

/-- A heap with regions gets bounds, if they can be multiplied with a percentage. -/
theorem Ordered.resize_meets {z : Sizer} (h : z.Ordered) {heapRegions : Nat}
    (hregions : 0 < heapRegions) (hproduct : heapRegions * z.largestPercent < wordBound) :
    Meets (z.resize heapRegions) (fun z' => z' = z.forHeap heapRegions) fail := by
  have hleast : heapRegions * z.leastPercent < wordBound :=
    Nat.lt_of_le_of_lt (Nat.mul_le_mul_left _ h.percents) hproduct
  have hordered := h.boundsAt_le heapRegions
  exact Sizer.resize_meets (fun hempty => absurd hempty (Nat.ne_of_gt hregions))
    (fun hover => absurd hleast (Nat.not_lt.mpr hover))
    (fun hover => absurd hproduct (Nat.not_lt.mpr hover))
    (fun hcrossed => absurd hordered (Nat.not_le.mpr hcrossed))

end Young.Sizer

end PauseGoal
