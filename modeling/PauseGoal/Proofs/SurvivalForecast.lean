import PauseGoal.Proofs.DecayingStatistics
import PauseGoal.Proofs.RegionAges
import Mathlib.Algebra.BigOperators.Intervals

/-!
# The forecast of a population

What to expect from the youngest regions of a population is looked up in a table. The table is right
when it was made: it holds the sums of the rates predicted for the ages (`expected_refresh`), and
since no rate is negative or above one, the look-up is `Steady`. Until the table is made again only
new ages touch it. They enter with nothing to expect, so that the look-up falls at the first of them
(`drops_stopAdding`): a table with new ages has to be made again before it is used.
-/

namespace PauseGoal

open Sample (Predictor Window)
open Scalar.Exact (toReal)

variable {α : Type} [Scalar α] [Scalar.Exact α]

/-! ## Windows of rates -/

/-- The window of an age: no sample was negative, and at the youngest age not all were zero. -/
structure Sample.Window.Rates (age : Nat) (w : Window α) : Prop where
  weight_pos : 0 < toReal w.weight
  weight_le : toReal w.weight ≤ 1
  mean : 0 ≤ toReal w.mean
  latest : 0 ≤ toReal w.latest
  youngest : age = 0 → w.isEmpty = false ∧ 0 < toReal w.mean

namespace Sample

namespace Window

variable {age : Nat} {w : Window α} {x : α}

theorem rates_ofTen (h : age ≠ 0) : (ofTen : Window α).Rates age where
  weight_pos := by
    show 0 < toReal (ratio 7 10 : α)
    norm_num
  weight_le := by
    show toReal (ratio 7 10 : α) ≤ 1
    norm_num
  mean := by
    show 0 ≤ toReal (num 0 : α)
    simp
  latest := by
    show 0 ≤ toReal (num 0 : α)
    simp
  youngest hage := absurd hage h

theorem Rates.add (h : w.Rates age) (hx : 0 ≤ toReal x) : (w.add x).Rates age := by
  have hpast := h.weight_pos
  have hpresent := sub_nonneg.mpr h.weight_le
  refine ⟨hpast, h.weight_le, ?_, ?_, ?_⟩
  · cases hempty : w.isEmpty with
    | true => rwa [mean_add_of_isEmpty hempty]
    | false =>
      rw [toReal_mean_add hempty]
      exact add_nonneg (mul_nonneg hpresent hx) (mul_nonneg hpast.le h.mean)
  · rwa [latest_add]
  · intro hage
    obtain ⟨hempty, hmean⟩ := h.youngest hage
    refine ⟨isEmpty_add w x, ?_⟩
    rw [toReal_mean_add hempty]
    exact add_pos_of_nonneg_of_pos (mul_nonneg hpresent hx) (mul_pos hpast hmean)

/-- The first sample of an age. -/
theorem rates_add_first (hx : 0 < toReal x) : ((ofTen : Window α).add x).Rates age := by
  have h : ((ofTen : Window α).add x).Rates 1 := (rates_ofTen Nat.one_ne_zero).add hx.le
  refine ⟨h.weight_pos, h.weight_le, h.mean, h.latest, fun _ => ⟨isEmpty_add _ _, ?_⟩⟩
  rw [mean_add_of_isEmpty rfl]
  exact hx

theorem Rates.foldl_add (h : w.Rates age) {xs : List α} (hxs : ∀ x ∈ xs, 0 ≤ toReal x) :
    (xs.foldl Window.add w).Rates age := by
  induction xs generalizing w with
  | nil => exact h
  | cons x rest ih =>
    rw [List.forall_mem_cons] at hxs
    exact ih (h.add hxs.1) hxs.2

end Window

end Sample

namespace SurvivalGroup

variable {g g' : SurvivalGroup α} {p : Predictor α}

/-! ## Looking up -/

/-- What to expect from the youngest regions is not negative, does not fall with their number, and
grows by at most one region for each of them. -/
def Steady (g : SurvivalGroup α) : Prop :=
  ∀ age, num 0 ≤ g.expected age ∧ g.expected age ≤ g.expected (age + 1) ∧
    g.expected (age + 1) ≤ g.expected age + num 1

theorem steady_iff : g.Steady ↔
    ∀ age, 0 ≤ toReal (g.expected age) ∧
      toReal (g.expected age) ≤ toReal (g.expected (age + 1)) ∧
        toReal (g.expected (age + 1)) ≤ toReal (g.expected age) + 1 := by
  unfold Steady
  refine forall_congr' fun age => ?_
  rw [Scalar.Exact.le_iff (num 0), Scalar.Exact.le_iff (g.expected age),
    Scalar.Exact.le_iff (g.expected (age + 1)), Scalar.Exact.toReal_add, Scalar.Exact.toReal_num,
    Scalar.Exact.toReal_num, Nat.cast_zero, Nat.cast_one]

/-- Less is expected from more regions. -/
def Drops (g : SurvivalGroup α) : Prop :=
  ∃ age, age + 1 < g.ages.size ∧ g.expected (age + 1) < g.expected age

theorem Steady.not_drops (h : g.Steady) : ¬ g.Drops := by
  intro hdrops
  obtain ⟨age, _, hlt⟩ := hdrops
  rw [Scalar.Exact.lt_iff] at hlt
  exact absurd (steady_iff.mp h age).2.1 (not_le.mpr hlt)

omit [Scalar.Exact α] in
theorem expected_of_lt {age : Nat} (h : age < g.ages.size) :
    g.expected age = g.ages[age].accumulated := by
  unfold expected
  rw [Array.getElem?_eq_getElem h]

omit [Scalar.Exact α] in
/-- What is expected follows from the table and the last rate. -/
theorem expected_congr (h : g'.ages.map (·.accumulated) = g.ages.map (·.accumulated))
    (hlast : g'.lastRate = g.lastRate) : g'.expected = g.expected := by
  have hsize : g'.ages.size = g.ages.size := by
    simpa using congrArg Array.size h
  have hlookup (i : Nat) :
      g'.ages[i]?.map (·.accumulated) = g.ages[i]?.map (·.accumulated) := by
    rw [← Array.getElem?_map, h, Array.getElem?_map]
  have hback : g'.ages.back?.map (·.accumulated) = g.ages.back?.map (·.accumulated) := by
    rw [Array.back?_eq_getElem?, Array.back?_eq_getElem?, hsize]
    exact hlookup _
  funext age
  have hage := hlookup age
  unfold expected
  rw [hback, hsize, hlast]
  revert hage
  cases g'.ages[age]? <;> cases g.ages[age]? <;> simp

/-! ## Making the table -/

/-- The rate that an age adds to the table: that of its regions, or of the oldest known age, but at
most one. -/
def cappedRate (g : SurvivalGroup α) (p : Predictor α) (age : Nat) : α :=
  Scalar.min (g.rate p age) (num 1)

/-- The table of the first ages and what it came to, if the rates are those that `f` gives. -/
structure Tabled (f : Nat → ℝ) (count : Nat) (done : Array (AgeStatistics α) × α) : Prop where
  size : done.1.size = count
  total : toReal done.2 = ∑ i ∈ Finset.range count, f i
  table : ∀ i a, done.1[i]? = some a → toReal a.accumulated = ∑ j ∈ Finset.range (i + 1), f j

theorem Tabled.accumulate {f : Nat → ℝ} {count : Nat} {done : Array (AgeStatistics α) × α}
    (h : Tabled f count done) {a : AgeStatistics α} (ha : toReal (predictedRate p a) = f count) :
    Tabled f (count + 1) (accumulate p done a) := by
  have htotal : toReal (done.2 + predictedRate p a) = ∑ i ∈ Finset.range (count + 1), f i := by
    rw [Finset.sum_range_succ, Scalar.Exact.toReal_add, h.total, ha]
  refine ⟨?_, htotal, ?_⟩
  · simp [SurvivalGroup.accumulate, h.size]
  · intro i b hb
    unfold SurvivalGroup.accumulate at hb
    rw [Array.getElem?_push, h.size] at hb
    split at hb
    · next hi =>
      cases hb
      rw [hi]
      exact htotal
    · exact h.table i b hb

theorem tabled_foldl_accumulate {f : Nat → ℝ} {ages : List (AgeStatistics α)}
    (hf : ∀ i a, ages[i]? = some a → toReal (predictedRate p a) = f i) :
    Tabled f ages.length (ages.foldl (accumulate p) (#[], num 0)) := by
  induction ages using List.reverseRecOn with
  | nil => exact ⟨rfl, by simp, nofun⟩
  | append_singleton ages a ih =>
    rw [List.foldl_append, List.length_append]
    refine (ih fun i b hb => hf i b ?_).accumulate (hf _ a (by simp))
    rw [List.getElem?_append_left (List.getElem?_eq_some_iff.mp hb).1]
    exact hb

omit [Scalar.Exact α] in
theorem cappedRate_eq {age : Nat} {a : AgeStatistics α}
    (ha : g.ages[Nat.min age (g.ages.size - 1)]? = some a) :
    g.cappedRate p age = predictedRate p a := by
  unfold cappedRate rate
  rw [ha]
  rfl

theorem tabled_refresh (g : SurvivalGroup α) (p : Predictor α) :
    Tabled (fun i => toReal (g.cappedRate p i)) g.ages.size
      (g.ages.foldl (accumulate p) (#[], num 0)) := by
  rw [← Array.foldl_toList, ← Array.length_toList]
  refine tabled_foldl_accumulate fun i a ha => congrArg toReal (cappedRate_eq ?_).symm
  have hi : i < g.ages.size := (List.getElem?_eq_some_iff.mp ha).1
  rw [show Nat.min i (g.ages.size - 1) = i from Nat.min_eq_left (by omega)]
  rwa [Array.getElem?_toList] at ha

omit [Scalar.Exact α] in
/-- From the oldest age on all rates are the last one. -/
theorem lastRate_refresh (p : Predictor α) (hages : 0 < g.ages.size) {age : Nat}
    (hage : g.ages.size - 1 ≤ age) : (g.refresh p).lastRate = g.cappedRate p age := by
  have hmin : Nat.min age (g.ages.size - 1) = g.ages.size - 1 := Nat.min_eq_right hage
  have holdest : ∃ a, g.ages[Nat.min age (g.ages.size - 1)]? = some a := by
    rw [hmin]
    exact ⟨_, Array.getElem?_eq_getElem (by omega)⟩
  obtain ⟨a, ha⟩ := holdest
  rw [cappedRate_eq ha]
  rw [hmin, ← Array.back?_eq_getElem?] at ha
  show (g.ages.back?.map (predictedRate p)).getD (num 0) = _
  rw [ha]
  rfl

/-- A table just made holds the sums of the rates, and so it is read beyond the known ages. -/
theorem expected_refresh (g : SurvivalGroup α) (p : Predictor α) (hages : 0 < g.ages.size)
    (age : Nat) :
    toReal ((g.refresh p).expected age) =
      ∑ i ∈ Finset.range (age + 1), toReal (g.cappedRate p i) := by
  have htabled := g.tabled_refresh p
  have hsize := g.size_refresh p
  have hentry (i : Nat) (hi : i < (g.refresh p).ages.size) :
      toReal (g.refresh p).ages[i].accumulated =
        ∑ j ∈ Finset.range (i + 1), toReal (g.cappedRate p j) :=
    htabled.table i _ (Array.getElem?_eq_getElem hi)
  rcases Nat.lt_or_ge age g.ages.size with hage | hage
  · rw [expected_of_lt (hsize ▸ hage), hentry]
  · obtain ⟨beyond, rfl⟩ := Nat.exists_eq_add_of_le hage
    have hbeyond (i : Nat) : toReal (g.cappedRate p (g.ages.size + i)) =
        toReal (g.refresh p).lastRate := by
      have hage : g.ages.size - 1 ≤ g.ages.size + i := by omega
      rw [lastRate_refresh p hages hage]
    have holdest : (g.refresh p).ages.size - 1 < (g.refresh p).ages.size := by omega
    unfold expected
    rw [Array.getElem?_eq_none (by omega), Array.back?_eq_getElem?,
      Array.getElem?_eq_getElem holdest]
    simp only [Option.map_some, Option.getD_some, Scalar.Exact.toReal_add,
      Scalar.Exact.toReal_mul, Scalar.Exact.toReal_num]
    rw [hentry _ holdest, Nat.sub_add_cancel (by omega), hsize, Nat.add_sub_cancel_left,
      Nat.add_assoc, Finset.sum_range_add, Finset.sum_congr rfl fun i _ => hbeyond i,
      Finset.sum_const, Finset.card_range, nsmul_eq_mul]

/-! ## Populations in use -/

/-- A population as a collector keeps it: its samples are rates, and at least some of the youngest
region is expected to survive. -/
structure Sampled (g : SurvivalGroup α) : Prop where
  ages_pos : 0 < g.ages.size
  rates : ∀ (age : Nat) (w : Window α), g.rates[age]? = some w → w.Rates age
  expected_pos : 0 < toReal (g.expected 0)

theorem toReal_initialRate : toReal (initialRate : α) = 2 / 5 := by
  unfold initialRate
  norm_num

theorem expected_create (population : Population) (age : Nat) :
    toReal ((create population : SurvivalGroup α).expected age) = (age + 1) * (2 / 5) := by
  unfold expected create
  cases age with
  | zero => simp [toReal_initialRate]
  | succ age =>
    simp [toReal_initialRate]
    ring

theorem sampled_create (population : Population) :
    (create population : SurvivalGroup α).Sampled where
  ages_pos := Nat.one_pos
  rates := by
    intro age w hw
    have hrates :
        (create population : SurvivalGroup α).rates = #[Window.ofTen.add initialRate] := by
      simp [SurvivalGroup.rates, create]
    rw [hrates] at hw
    obtain ⟨hage, rfl⟩ := Array.getElem?_eq_some_iff.mp hw
    obtain rfl : age = 0 := Nat.lt_one_iff.mp hage
    refine Window.rates_add_first ?_
    rw [toReal_initialRate]
    norm_num
  expected_pos := by
    rw [expected_create]
    norm_num

theorem steady_create (population : Population) :
    (create population : SurvivalGroup α).Steady := by
  rw [steady_iff]
  intro age
  rw [expected_create, expected_create]
  push_cast
  exact ⟨by positivity, by linarith, by linarith⟩

/-! ### Calls that leave the table alone -/

theorem Sampled.of_expected (h : g.Sampled) (hsize : g'.ages.size = g.ages.size)
    (hrates : ∀ (age : Nat) (w : Window α), g'.rates[age]? = some w → w.Rates age)
    (hexpected : g'.expected = g.expected) : g'.Sampled where
  ages_pos := hsize ▸ h.ages_pos
  rates := hrates
  expected_pos := by
    rw [hexpected]
    exact h.expected_pos

omit [Scalar.Exact α] in
theorem expected_record {age bytes regionSize : Nat}
    (h : g.record age bytes regionSize = .ok g') : g'.expected = g.expected := by
  unfold record at h
  split at h
  · cases h
    refine expected_congr (Array.ext (by simp) fun i _ _ => ?_) rfl
    rw [Array.getElem_map, Array.getElem_map, Array.getElem_modify]
    split <;> rfl
  · cases h

theorem Sampled.record (h : g.Sampled) {age bytes regionSize : Nat}
    (hrecord : g.record age bytes regionSize = .ok g') : g'.Sampled := by
  have hcollected := (Collected.refl regionSize g).record hrecord
  refine h.of_expected hcollected.size_eq (fun other w hw => ?_) (expected_record hrecord)
  rw [hcollected.rates] at hw
  obtain ⟨v, hv, rfl⟩ := Option.map_eq_some_iff.mp hw
  refine (h.rates other v hv).foldl_add fun x hx => ?_
  obtain ⟨r, _, rfl⟩ := List.mem_map.mp hx
  simp only [Scalar.Exact.toReal_div, Scalar.Exact.toReal_num]
  positivity

/-! ### New ages -/

omit [Scalar.Exact α] in
/-- If every region has its age already, nothing changes. -/
theorem stopAdding_of_le (h : g.regions ≤ g.ages.size) : g.stopAdding = g := by
  unfold stopAdding
  rw [Nat.sub_eq_zero_of_le h, Array.replicate_zero, Array.append_empty]

omit [Scalar.Exact α] in
theorem expected_stopAdding_of_lt {age : Nat} (h : age < g.ages.size) :
    g.stopAdding.expected age = g.expected age := by
  unfold expected stopAdding
  rw [Array.getElem?_append_left h, Array.getElem?_eq_getElem h]

omit [Scalar.Exact α] in
/-- From the youngest regions up to a new age nothing is expected. -/
theorem expected_stopAdding_of_ge {age : Nat} (hnew : g.ages.size ≤ age) (hage : age < g.regions) :
    g.stopAdding.expected age = num 0 := by
  unfold expected stopAdding
  rw [Array.getElem?_append_right hnew, Array.getElem?_replicate, if_pos (by omega)]
  rfl

theorem Sampled.stopAdding (h : g.Sampled) : g.stopAdding.Sampled where
  ages_pos := by
    rw [size_stopAdding]
    exact Nat.add_pos_left h.ages_pos _
  rates := by
    intro age w hw
    rcases Nat.lt_or_ge age g.ages.size with hage | hage
    · rw [rates_stopAdding hage] at hw
      exact h.rates age w hw
    · unfold SurvivalGroup.rates SurvivalGroup.stopAdding at hw
      rw [Array.map_append, Array.getElem?_append_right (by simpa using hage), Array.map_replicate,
        Array.getElem?_replicate] at hw
      split at hw
      · cases hw
        exact Window.rates_ofTen (Nat.ne_of_gt (Nat.lt_of_lt_of_le h.ages_pos hage))
      · cases hw
  expected_pos := by
    rw [expected_stopAdding_of_lt h.ages_pos]
    exact h.expected_pos

theorem Steady.le_expected (h : g.Steady) (age : Nat) :
    toReal (g.expected 0) ≤ toReal (g.expected age) :=
  monotone_nat_of_le_succ (fun age => (steady_iff.mp h age).2.1) (Nat.zero_le age)

/-- A population that outgrows its statistics expects less from more regions until its table is
made again. -/
theorem Sampled.drops_stopAdding (h : g.Sampled) (hsteady : g.Steady)
    (hgrows : g.ages.size < g.regions) : g.stopAdding.Drops := by
  have hages := h.ages_pos
  have hlast : 0 < toReal (g.expected (g.ages.size - 1)) :=
    lt_of_lt_of_le h.expected_pos (hsteady.le_expected _)
  refine ⟨g.ages.size - 1, ?_, ?_⟩
  · rw [size_stopAdding]
    omega
  · rw [Nat.sub_add_cancel hages, Scalar.Exact.lt_iff, expected_stopAdding_of_ge (Nat.le_refl _)
      hgrows, expected_stopAdding_of_lt (by omega), Scalar.Exact.toReal_num, Nat.cast_zero]
    exact hlast

omit [Scalar.Exact α] in
theorem Drops.stopAdding (h : g.Drops) : g.stopAdding.Drops := by
  obtain ⟨age, hage, hlt⟩ := h
  refine ⟨age, ?_, ?_⟩
  · rw [size_stopAdding]
    omega
  · rw [expected_stopAdding_of_lt hage, expected_stopAdding_of_lt (Nat.lt_of_succ_lt hage)]
    exact hlt

/-! ### A new table -/

/-- The ages after the oldest region get its latest sample, which is a rate. -/
theorem Sampled.of_fillIn (h : g.Sampled) (age : Nat) (w : Window α)
    (hw : g.fillIn.rates[age]? = some w) : w.Rates age := by
  rcases Nat.eq_zero_or_pos g.regions with hnone | hregions
  · have hsame : g.fillIn = g := by
      unfold fillIn
      split
      · rfl
      · rw [if_pos hnone]
    rw [hsame] at hw
    exact h.rates age w hw
  · cases holdest : g.rates[g.regions - 1]? with
    | none =>
      have hsame : g.fillIn = g := by
        unfold SurvivalGroup.rates at holdest
        rw [Array.getElem?_map, Option.map_eq_none_iff] at holdest
        unfold fillIn
        rw [holdest]
      rw [hsame] at hw
      exact h.rates age w hw
    | some oldest =>
      rw [rates_fillIn hregions holdest] at hw
      split at hw
      · exact h.rates age w hw
      · obtain ⟨v, hv, rfl⟩ := Option.map_eq_some_iff.mp hw
        exact (h.rates age v hv).add (h.rates _ oldest holdest).latest

theorem cappedRate_bounds (hages : 0 < g.ages.size)
    (hrates : ∀ (age : Nat) (w : Window α), g.rates[age]? = some w → w.Rates age)
    (hsigma : 0 ≤ toReal p.sigma) (age : Nat) :
    0 ≤ toReal (g.cappedRate p age) ∧ toReal (g.cappedRate p age) ≤ 1 ∧
      (age = 0 → 0 < toReal (g.cappedRate p age)) := by
  have hknown : Nat.min age (g.ages.size - 1) < g.ages.size :=
    Nat.lt_of_le_of_lt (Nat.min_le_right _ _) (by omega)
  obtain ⟨a, ha⟩ : ∃ a, g.ages[Nat.min age (g.ages.size - 1)]? = some a :=
    ⟨_, Array.getElem?_eq_getElem hknown⟩
  have hrate : a.rates.Rates (Nat.min age (g.ages.size - 1)) := by
    refine hrates _ _ ?_
    rw [SurvivalGroup.rates, Array.getElem?_map, ha]
    rfl
  have hpredicted := Predictor.mean_le_predict hsigma a.rates
  rw [cappedRate_eq ha, predictedRate, Scalar.toReal_min, Scalar.Exact.toReal_num, Nat.cast_one]
  refine ⟨le_min (hrate.mean.trans hpredicted) zero_le_one, min_le_right _ _, ?_⟩
  rintro rfl
  exact lt_min ((hrate.youngest (Nat.zero_min _)).2.trans_le hpredicted) one_pos

/-- Whatever the table was before, a new one is steady. -/
theorem steady_refresh (hages : 0 < g.ages.size)
    (hrates : ∀ (age : Nat) (w : Window α), g.rates[age]? = some w → w.Rates age)
    (hsigma : 0 ≤ toReal p.sigma) : (g.refresh p).Sampled ∧ (g.refresh p).Steady := by
  have hbounds := cappedRate_bounds hages hrates hsigma
  refine ⟨⟨?_, ?_, ?_⟩, steady_iff.mpr fun age => ?_⟩
  · rw [size_refresh]
    exact hages
  · rw [rates_refresh]
    exact hrates
  · rw [expected_refresh g p hages, Finset.sum_range_one]
    exact (hbounds 0).2.2 rfl
  · rw [expected_refresh g p hages, expected_refresh g p hages, Finset.sum_range_succ _ (age + 1)]
    have hsum : 0 ≤ ∑ i ∈ Finset.range (age + 1), toReal (g.cappedRate p i) :=
      Finset.sum_nonneg fun i _ => (hbounds i).1
    obtain ⟨hnonneg, hle, _⟩ := hbounds (age + 1)
    exact ⟨hsum, by linarith, by linarith⟩

theorem Sampled.finish (h : g.Sampled) (hsigma : 0 ≤ toReal p.sigma) (learn : Bool) :
    (g.finish p learn).Sampled ∧ (g.finish p learn).Steady := by
  cases learn with
  | false => exact steady_refresh h.ages_pos h.rates hsigma
  | true =>
    have hages : 0 < g.fillIn.ages.size := by
      obtain ⟨ages, hages, hsize⟩ := g.fillIn_eq
      rw [hages]
      exact hsize ▸ h.ages_pos
    exact steady_refresh hages h.of_fillIn hsigma

end SurvivalGroup

end PauseGoal
