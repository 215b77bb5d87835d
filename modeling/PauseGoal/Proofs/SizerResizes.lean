import PauseGoal.Proofs.Exact
import PauseGoal.Proofs.SizerRules
import Mathlib.Order.MinMax

/-!
# A heap that is resized many times

A sizer recomputes its bounds from its own state whenever the heap is resized. Rules that fix one
bound by a size clamp the other bound against it, so what a recomputation overwrites must never be
what a later one starts from.

Main statement: after any resizes the bounds are those that a fresh sizer has when it is told the
last size alone, and they are at least one region, in order and monotone in that size
(`bounds_of_last_resize`).
-/

namespace PauseGoal.Young.Sizer

variable {α : Type}

/-- Tells a sizer one heap size after another. -/
def resizeEach (z : Sizer) (counts : List Nat) : Checked α Sizer := counts.foldlM resize z

/-- The products of a heap size and a percentage that the rule computes. -/
def products (z : Sizer) (heapRegions : Nat) : List Nat :=
  match z.rule with
  | .percentages => [heapRegions * z.leastPercent, heapRegions * z.largestPercent]
  | .leastSize => [heapRegions * z.largestPercent]
  | .largestSize => [heapRegions * z.leastPercent]
  | .sizes | .ratio => []

/-- A heap has regions, and no product that its bounds need overflows. -/
structure Admits (z : Sizer) (heapRegions : Nat) : Prop where
  regions_pos : 0 < heapRegions
  words : ∀ product ∈ z.products heapRegions, product < wordBound

instance (z : Sizer) (heapRegions : Nat) : Decidable (z.Admits heapRegions) :=
  decidable_of_iff (0 < heapRegions ∧ ∀ product ∈ z.products heapRegions, product < wordBound)
    ⟨fun h => ⟨h.1, h.2⟩, fun h => ⟨h.regions_pos, h.words⟩⟩

variable {z : Sizer} {heapRegions other : Nat}

/-! ## One resize -/

theorem regionsOfPercent_of_word {percent : Nat} (h : heapRegions * percent < wordBound) :
    (regionsOfPercent heapRegions percent : Checked α Nat) =
      .ok (regionsAt heapRegions percent) := by
  have hproduct : (Word.mul heapRegions percent : Checked α Nat) = .ok (heapRegions * percent) :=
    Word.mul_eq_ok_iff.mpr ⟨h, rfl⟩
  rw [regionsOfPercent, hproduct]
  rfl

theorem Admits.boundsFor_eq (h : z.Admits heapRegions) :
    (z.boundsFor heapRegions : Checked α (Nat × Nat)) = .ok (z.boundsAt heapRegions) := by
  have hwords := h.words
  unfold products at hwords
  unfold boundsFor boundsAt
  cases hrule : z.rule with
  | percentages =>
    simp only [hrule, List.forall_mem_cons] at hwords
    simp only [regionsOfPercent_of_word hwords.1, regionsOfPercent_of_word hwords.2.1]
    rfl
  | leastSize =>
    simp only [hrule, List.forall_mem_cons] at hwords
    simp only [regionsOfPercent_of_word hwords.1]
    rfl
  | largestSize =>
    simp only [hrule, List.forall_mem_cons] at hwords
    simp only [regionsOfPercent_of_word hwords.1]
    rfl
  | sizes => rfl
  | ratio => rfl

/-- Bounds in order never end in a fault. -/
theorem Ordered.resize_eq (h : z.Ordered) (hadmits : z.Admits heapRegions) :
    (z.resize heapRegions : Checked α Sizer) = .ok (z.forHeap heapRegions) := by
  have hregions : (demand (0 < heapRegions) .emptyHeap : Checked α Unit) = .ok () :=
    demand_eq_ok_iff.mpr hadmits.regions_pos
  have hordered : (demand ((z.boundsAt heapRegions).1 ≤ (z.boundsAt heapRegions).2)
      .youngBoundsCrossed : Checked α Unit) = .ok () :=
    demand_eq_ok_iff.mpr (h.boundsAt_le heapRegions)
  rw [resize, hregions, hadmits.boundsFor_eq]
  show (do
    demand ((z.boundsAt heapRegions).1 ≤ (z.boundsAt heapRegions).2) .youngBoundsCrossed
    return z.forHeap heapRegions : Checked α Sizer) = _
  rw [hordered]
  rfl

/-! ## What a resize leaves alone -/

theorem Ordered.forHeap (h : z.Ordered) (heapRegions : Nat) : (z.forHeap heapRegions).Ordered := by
  refine ⟨h.percents, fun hrule => ?_⟩
  have hbounds := h.boundsAt_le heapRegions
  exact hbounds

theorem admits_forHeap (h : z.Admits other) (heapRegions : Nat) :
    (z.forHeap heapRegions).Admits other := ⟨h.regions_pos, h.words⟩

/-- Only the last heap size counts. -/
theorem Ordered.resizeEach_eq (h : z.Ordered) {counts : List Nat} {last : Nat}
    (hlast : counts.getLast? = some last) (hcounts : ∀ n ∈ counts, z.Admits n) :
    (z.resizeEach counts : Checked α Sizer) = .ok (z.forHeap last) := by
  induction counts generalizing z with
  | nil => cases hlast
  | cons n rest ih =>
    obtain ⟨hn, hrest⟩ := List.forall_mem_cons.mp hcounts
    show (z.resize n >>= fun next => next.resizeEach rest : Checked α Sizer) = _
    rw [h.resize_eq hn]
    cases rest with
    | nil =>
      cases hlast
      rfl
    | cons m rest =>
      rw [List.getLast?_cons_cons] at hlast
      rw [← forHeap_forHeap z n last]
      exact ih (h.forHeap n) hlast fun k hk => admits_forHeap (hrest k hk) n

/-! ## The bounds for a heap -/

theorem one_le_regionsIn (size regionSize : Nat) : 1 ≤ regionsIn size regionSize :=
  Nat.le_max_right _ _

theorem one_le_regionsAt (heapRegions percent : Nat) : 1 ≤ regionsAt heapRegions percent :=
  Nat.le_max_right _ _

theorem regionsAt_mono_left {heapRegions other : Nat} (percent : Nat) (h : heapRegions ≤ other) :
    regionsAt heapRegions percent ≤ regionsAt other percent :=
  max_le_max_right 1 (Nat.div_le_div_right (Nat.mul_le_mul_right percent h))

theorem Chosen.one_le_least {s : Settings α} (h : Chosen s (.ok z)) (heapRegions : Nat) :
    1 ≤ (z.forHeap heapRegions).least := by
  cases h with
  | sizes => exact one_le_regionsIn _ _
  | leastSize => exact one_le_regionsIn _ _
  | largestSize => exact Nat.le_min.mpr ⟨one_le_regionsAt _ _, one_le_regionsIn _ _⟩
  | ratio => exact Nat.le_max_right _ _
  | percentages => exact one_le_regionsAt _ _

/-- A larger heap never has smaller bounds. -/
theorem boundsAt_mono (z : Sizer) (h : heapRegions ≤ other) :
    (z.boundsAt heapRegions).1 ≤ (z.boundsAt other).1 ∧
      (z.boundsAt heapRegions).2 ≤ (z.boundsAt other).2 := by
  unfold boundsAt
  cases z.rule with
  | percentages => exact ⟨regionsAt_mono_left _ h, regionsAt_mono_left _ h⟩
  | leastSize => exact ⟨Nat.le_refl _, max_le_max_right _ (regionsAt_mono_left _ h)⟩
  | largestSize => exact ⟨min_le_min_right _ (regionsAt_mono_left _ h), Nat.le_refl _⟩
  | sizes => exact ⟨Nat.le_refl _, Nat.le_refl _⟩
  | ratio =>
    have hlength := max_le_max_right 1 (Nat.div_le_div_right (c := z.oldPerYoung + 1) h)
    exact ⟨hlength, hlength⟩

theorem Chosen.least_eq_largest {s : Settings α} (h : Chosen s (.ok z))
    (hfixed : z.adaptive = false) (heapRegions : Nat) :
    (z.forHeap heapRegions).least = (z.forHeap heapRegions).largest := by
  cases h with
  | sizes => exact bne_eq_false_iff_eq.mp hfixed
  | leastSize => cases hfixed
  | largestSize => cases hfixed
  | ratio => rfl
  | percentages => cases hfixed

/-- A sizer made from settings that validate is told heap sizes with at least one region, none of
which makes a percentage overflow. No resize ends in a fault. In the end the bounds are those of the
fresh sizer after the last size alone, at least one region and in order, and whether predictions
choose the length is as before; where they do not, both bounds are the same. Resizes that end in a
larger heap end in bounds that are not smaller. -/
theorem bounds_of_last_resize [Scalar α] {s : Settings α} (hvalid : s.validate = .ok ())
    (log : Log α) (hmade : ((ofSettings s).run.run log).1 = .ok (.ok z)) {counts : List Nat}
    {last : Nat} (hlast : counts.getLast? = some last) (hcounts : ∀ n ∈ counts, z.Admits n) :
    ∃ z', (z.resizeEach counts : Checked α Sizer) = .ok z' ∧
      (z.resize last : Checked α Sizer) = .ok z' ∧
      1 ≤ z'.least ∧ z'.least ≤ z'.largest ∧
      z'.adaptive = z.adaptive ∧ (z'.adaptive = false → z'.least = z'.largest) ∧
      ∀ counts' last', counts'.getLast? = some last' → (∀ n ∈ counts', z.Admits n) →
        last ≤ last' →
        ∃ z'', (z.resizeEach counts' : Checked α Sizer) = .ok z'' ∧
          z'.least ≤ z''.least ∧ z'.largest ≤ z''.largest := by
  have hsettings := Settings.validate_eq_ok_iff.mp hvalid
  have hmeets : Checked.Meets ((ofSettings s).run.run log).1 (Chosen s) fun _ => True :=
    ofSettings_meets hsettings.regionSize_ne_zero log
  have hchosen : Chosen s (.ok z) := hmeets.of_eq_ok hmade
  have hordered := hchosen.ordered hsettings.youngPercents
  have hadmits : z.Admits last := hcounts last (List.mem_of_getLast? hlast)
  refine ⟨z.forHeap last, hordered.resizeEach_eq hlast hcounts, hordered.resize_eq hadmits,
    hchosen.one_le_least last, hordered.boundsAt_le last, rfl,
    fun hfixed => hchosen.least_eq_largest hfixed last, ?_⟩
  intro counts' last' hlast' hcounts' hle
  obtain ⟨hleast, hlargest⟩ := z.boundsAt_mono hle
  exact ⟨z.forHeap last', hordered.resizeEach_eq hlast' hcounts', hleast, hlargest⟩

/-- A minimum of ten regions in a heap of at most sixty percent young regions: in the small heaps
the maximum is moved up to the minimum, and the large heap in between leaves no trace. -/
theorem bounds_of_last_resize_of_least_size :
    let s : Settings Rat := { Settings.default with leastYoungSize := some 10485760 }
    let z : Sizer := ⟨.leastSize, true, 5, 60, 0, 10, 0⟩
    s.validate = .ok () ∧ ((ofSettings s).run.run {}).1 = .ok (.ok z) ∧
      ∃ z', (z.resizeEach [1, 1000, 7] : Checked Rat Sizer) = .ok z' ∧
        (z.resize 7 : Checked Rat Sizer) = .ok z' ∧ z'.least ≤ z'.largest ∧
        ∃ z'', (z.resizeEach [1000, 20] : Checked Rat Sizer) = .ok z'' ∧
          z'.largest ≤ z''.largest := by
  intro s z
  have hvalid : s.validate = .ok () := Settings.validate_of_toBool (by decide +kernel)
  have hmade : ((ofSettings s).run.run {}).1 = .ok (.ok z) := by decide +kernel
  have hlast : [1, 1000, 7].getLast? = some 7 := rfl
  obtain ⟨z', hresized, hfresh, _, hordered, _, _, hlarger⟩ :=
    bounds_of_last_resize hvalid {} hmade hlast (by decide)
  obtain ⟨z'', hresized', _, hlargest⟩ := hlarger [1000, 20] 20 rfl (by decide) (by decide)
  exact ⟨hvalid, hmade, z', hresized, hfresh, hordered, z'', hresized', hlargest⟩

end PauseGoal.Young.Sizer
