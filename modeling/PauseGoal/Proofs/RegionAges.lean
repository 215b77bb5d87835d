import PauseGoal.Proofs.Returns
import PauseGoal.Proofs.SampleWindows
import Mathlib.Data.List.Range
import Mathlib.Data.List.Nodup

/-!
# Ages and samples of a population

The regions of a population are numbered from one on as they join it, so its tags are known from
their number, and their ages count down to zero (`map_ageOf_tagsUpTo`). `Collected` says what
recorded survivors did to the samples: each age got those recorded for it, in order, and nothing
else changed. If every region was recorded once, finishing the population leaves one new sample at
each age, which at the ages after the oldest region is that region's (`ratesAt_finish_of_once`).
-/

namespace PauseGoal

open Sample (Predictor Window)

variable {α : Type}

theorem map_modify {β γ : Type} {f : β → β} {f' : γ → γ} {view : β → γ}
    (h : ∀ b, view (f b) = f' (view b)) (xs : Array β) (i : Nat) :
    (xs.modify i f).map view = (xs.map view).modify i f' := by
  refine Array.ext (by simp) fun j _ _ => ?_
  rw [Array.getElem_map, Array.getElem_modify, Array.getElem_modify, Array.getElem_map]
  split
  · exact h _
  · rfl

/-- The element with a key is the only one if no key is repeated. -/
theorem filter_key_eq_singleton {β : Type} {xs : List (Nat × β)} {key : Nat} {b : β}
    (hnodup : (xs.map Prod.fst).Nodup) (hmem : (key, b) ∈ xs) :
    xs.filter (fun x => x.1 == key) = [(key, b)] := by
  induction xs with
  | nil => cases hmem
  | cons x rest ih =>
    rw [List.map_cons, List.nodup_cons] at hnodup
    obtain ⟨hnotMem, hnodup⟩ := hnodup
    rcases List.mem_cons.mp hmem with rfl | hmem
    · have hnone : rest.filter (fun x => x.1 == key) = [] := by
        refine List.filter_eq_nil_iff.mpr fun y hy hkey => hnotMem ?_
        exact List.mem_map.mpr ⟨y, hy, eq_of_beq hkey⟩
      rw [List.filter_cons, if_pos (beq_self_eq_true key), hnone]
    · have hother : ¬ (x.1 == key) = true := by
        intro hkey
        exact hnotMem (List.mem_map.mpr ⟨_, hmem, (eq_of_beq hkey).symm⟩)
      rw [List.filter_cons, if_neg hother, ih hnodup hmem]

namespace SurvivalGroup

/-! ## Numbers -/

/-- The tags of the first regions that joined a population. -/
def tagsUpTo (population : Population) (count : Nat) : List SurvivalTag :=
  (List.range' 1 count).map fun index => ⟨population, index⟩

@[simp]
theorem length_tagsUpTo (population : Population) (count : Nat) :
    (tagsUpTo population count).length = count := by
  simp [tagsUpTo]

theorem mem_tagsUpTo {population : Population} {count : Nat} {tag : SurvivalTag} :
    tag ∈ tagsUpTo population count ↔
      tag.population = population ∧ 1 ≤ tag.index ∧ tag.index ≤ count := by
  unfold tagsUpTo
  rw [List.mem_map]
  constructor
  · rintro ⟨index, hindex, rfl⟩
    rw [List.mem_range'_1] at hindex
    refine ⟨rfl, hindex.1, ?_⟩
    show index ≤ count
    omega
  · rintro ⟨rfl, hfirst, hlast⟩
    exact ⟨tag.index, List.mem_range'_1.mpr ⟨hfirst, by omega⟩, rfl⟩

theorem tagsUpTo_add (population : Population) (count more : Nat) :
    tagsUpTo population (count + more) =
      tagsUpTo population count ++
        (List.range' (count + 1) more).map fun index => ⟨population, index⟩ := by
  unfold tagsUpTo
  rw [← List.range'_append_1, List.map_append, Nat.add_comm 1 count]

/-- The regions of a population are those that joined it, and some age has statistics. -/
structure Numbered (g : SurvivalGroup α) (population : Population) : Prop where
  population : g.population = population
  regions : g.regions = g.allocated
  ages_pos : 0 < g.ages.size

theorem ageOf_eq {g : SurvivalGroup α} {index : Nat} (h : index ≤ g.allocated) :
    g.ageOf index = .ok (g.allocated - index) := if_pos h

/-- The ages of the tags count down to the newest region. -/
theorem map_ageOf_tagsUpTo (g : SurvivalGroup α) (population : Population) :
    ((tagsUpTo population g.allocated).map fun tag => g.ageOf tag.index) =
      (List.range g.allocated).reverse.map .ok := by
  unfold tagsUpTo
  refine List.ext_getElem (by simp) fun i hi _ => ?_
  have hi : i < g.allocated := by simpa using hi
  have hindex : 1 + i ≤ g.allocated := by omega
  simp only [List.getElem_map, List.getElem_range', List.getElem_reverse, List.getElem_range,
    List.length_range, Nat.one_mul]
  rw [ageOf_eq hindex, Nat.sub_sub]

/-! ## Samples -/

/-- The samples, youngest age first. -/
def rates (g : SurvivalGroup α) : Array (Window α) := g.ages.map (·.rates)

@[simp]
theorem size_rates (g : SurvivalGroup α) : g.rates.size = g.ages.size := Array.size_map

variable [Scalar α]

theorem exists_record {g : SurvivalGroup α} {age : Nat} (hregions : age < g.regions)
    (hages : age < g.ages.size) (bytes regionSize : Nat) :
    ∃ g', g.record age bytes regionSize = .ok g' := by
  unfold record
  rw [if_pos ⟨hregions, hages⟩]
  exact ⟨_, rfl⟩

/-- The samples after some survivors were recorded, given as ages and bytes in order. -/
structure Collected (regionSize : Nat) (recorded : List (Nat × Nat)) (g g' : SurvivalGroup α) :
    Prop where
  population : g'.population = g.population
  allocated : g'.allocated = g.allocated
  regions : g'.regions = g.regions
  rates : ∀ age, g'.rates[age]? = g.rates[age]?.map fun w =>
    ((recorded.filter fun r => r.1 == age).map fun r => num r.2 / num regionSize).foldl Window.add w

namespace Collected

variable {regionSize age bytes : Nat} {recorded : List (Nat × Nat)} {g g' g'' : SurvivalGroup α}

theorem refl (regionSize : Nat) (g : SurvivalGroup α) : Collected regionSize [] g g :=
  ⟨rfl, rfl, rfl, fun age => by simp⟩

/-- No age is added or lost. -/
theorem size_eq (h : Collected regionSize recorded g g') : g'.ages.size = g.ages.size := by
  have hnone (age : Nat) : g'.ages.size ≤ age ↔ g.ages.size ≤ age := by
    rw [← size_rates g', ← size_rates g, ← Array.getElem?_eq_none_iff, ← Array.getElem?_eq_none_iff,
      h.rates, Option.map_eq_none_iff]
  exact Nat.le_antisymm ((hnone _).mpr (Nat.le_refl _)) ((hnone _).mp (Nat.le_refl _))

theorem record (h : Collected regionSize recorded g g')
    (hrecord : g'.record age bytes regionSize = .ok g'') :
    Collected regionSize (recorded ++ [(age, bytes)]) g g'' := by
  unfold SurvivalGroup.record at hrecord
  split at hrecord
  · next hage =>
    cases hrecord
    refine ⟨h.population, h.allocated, h.regions, fun other => ?_⟩
    have hrates := h.rates other
    have hmodified : (g'.ages.modify age fun a =>
        { a with rates := a.rates.add (num bytes / num regionSize) }).map (·.rates) =
          g'.rates.modify age (Window.add · (num bytes / num regionSize)) := by
      refine map_modify ?_ _ _
      exact fun _ => rfl
    show (Array.map _ _)[other]? = _
    rw [hmodified, Array.getElem?_modify, hrates, List.filter_append, List.filter_cons]
    by_cases hother : age = other
    · rw [if_pos hother, if_pos (by simp [hother]), List.map_append, Option.map_map]
      congr 1
      funext w
      rw [List.foldl_append]
      rfl
    · rw [if_neg hother, if_neg (by simp [hother]), List.filter_nil, List.append_nil]
  · cases hrecord

end Collected

/-! ## The end of a population -/

theorem size_stopAdding (g : SurvivalGroup α) :
    g.stopAdding.ages.size = g.ages.size + (g.regions - g.ages.size) := by
  unfold stopAdding
  rw [Array.size_append, Array.size_replicate]

theorem rates_stopAdding {g : SurvivalGroup α} {age : Nat} (h : age < g.ages.size) :
    g.stopAdding.rates[age]? = g.rates[age]? := by
  unfold rates stopAdding
  rw [Array.map_append, Array.getElem?_append_left (by simpa using h)]

theorem toList_foldl_accumulate (p : Predictor α) (ages : List (AgeStatistics α))
    (done : Array (AgeStatistics α) × α) :
    (((ages.foldl (accumulate p) done).1).map (·.rates)).toList =
      (done.1.map (·.rates)).toList ++ ages.map (·.rates) := by
  induction ages generalizing done with
  | nil => simp
  | cons a rest ih =>
    rw [List.foldl_cons, ih]
    simp [accumulate]

/-- Predictions are made from the samples and do not change them. -/
theorem rates_refresh (g : SurvivalGroup α) (p : Predictor α) : (g.refresh p).rates = g.rates := by
  refine Array.toList_inj.mp ?_
  unfold rates refresh
  rw [← Array.foldl_toList, toList_foldl_accumulate]
  simp

@[simp]
theorem size_refresh (g : SurvivalGroup α) (p : Predictor α) :
    (g.refresh p).ages.size = g.ages.size := by
  rw [← size_rates, rates_refresh, size_rates]

theorem fillIn_eq (g : SurvivalGroup α) :
    ∃ ages, g.fillIn = { g with ages := ages } ∧ ages.size = g.ages.size := by
  unfold fillIn
  split
  · exact ⟨g.ages, rfl, rfl⟩
  · split
    · exact ⟨g.ages, rfl, rfl⟩
    · exact ⟨_, rfl, Array.size_mapIdx⟩

/-- Finishing a population changes its statistics and no number of ages. -/
theorem finish_eq (g : SurvivalGroup α) (p : Predictor α) (learn : Bool) :
    ∃ ages lastRate, g.finish p learn = { g with ages := ages, lastRate := lastRate } ∧
      ages.size = g.ages.size := by
  cases learn with
  | false => exact ⟨_, _, rfl, g.size_refresh p⟩
  | true =>
    obtain ⟨ages, hages, hsize⟩ := g.fillIn_eq
    refine ⟨_, (g.fillIn.refresh p).lastRate, ?_, (g.fillIn.size_refresh p).trans ?_⟩
    · show g.fillIn.refresh p = _
      rw [hages]
      rfl
    · rw [hages]
      exact hsize

/-- The ages after the oldest region get its latest sample. -/
theorem rates_fillIn {g : SurvivalGroup α} {oldest : Window α} (hregions : 0 < g.regions)
    (holdest : g.rates[g.regions - 1]? = some oldest) (age : Nat) :
    g.fillIn.rates[age]? =
      if age < g.regions then g.rates[age]?
      else g.rates[age]?.map (Window.add · oldest.latest) := by
  unfold rates at holdest ⊢
  rw [Array.getElem?_map] at holdest
  obtain ⟨a, ha, rfl⟩ := Option.map_eq_some_iff.mp holdest
  unfold fillIn
  rw [ha]
  simp only [if_neg (Nat.ne_of_gt hregions)]
  rw [Array.getElem?_map, Array.getElem?_map, Array.getElem?_mapIdx]
  split
  · cases g.ages[age]? <;> rfl
  · cases g.ages[age]? <;> rfl

/-- A population of which every region was recorded once, in whatever order. Finished with `learn`,
each age has one more sample: that of the region of the age, or of the oldest region. -/
theorem rates_finish_of_once {g g' : SurvivalGroup α} {regionSize : Nat}
    {recorded : List (Nat × Nat)} {bytes : Nat → Nat}
    (hcollected : Collected regionSize recorded g g')
    (hregions : 0 < g.regions) (hages : g.regions ≤ g.ages.size)
    (honce : recorded.Perm ((List.range g.regions).map fun age => (age, bytes age)))
    (p : Predictor α) (age : Nat) :
    (g'.finish p true).rates[age]? =
      g.rates[age]?.map
        (Window.add · (num (bytes (Nat.min age (g.regions - 1))) / num regionSize)) := by
  have hnodup : (recorded.map Prod.fst).Nodup := by
    refine (honce.map Prod.fst).nodup_iff.mpr ?_
    simpa [Function.comp_def] using List.nodup_range
  have hmem (age b : Nat) : (age, b) ∈ recorded ↔ age < g.regions ∧ b = bytes age := by
    rw [honce.mem_iff, List.mem_map]
    constructor
    · rintro ⟨other, hother, heq⟩
      cases heq
      exact ⟨List.mem_range.mp hother, rfl⟩
    · rintro ⟨hage, rfl⟩
      exact ⟨age, List.mem_range.mpr hage, rfl⟩
  -- what an age of the population got, and one after it
  have hyoung (age : Nat) (hage : age < g.regions) :
      g'.rates[age]? = g.rates[age]?.map (Window.add · (num (bytes age) / num regionSize)) := by
    rw [hcollected.rates, filter_key_eq_singleton hnodup ((hmem _ _).mpr ⟨hage, rfl⟩)]
    rfl
  have hold (age : Nat) (hage : g.regions ≤ age) : g'.rates[age]? = g.rates[age]? := by
    have hnone : recorded.filter (fun r => r.1 == age) = [] := by
      refine List.filter_eq_nil_iff.mpr fun r hr hkey => ?_
      have hlt := ((hmem r.1 r.2).mp hr).1
      rw [eq_of_beq hkey] at hlt
      omega
    rw [hcollected.rates, hnone]
    simp
  have hlast : g.regions - 1 < g.rates.size := by
    rw [size_rates]
    omega
  have holdest : g'.rates[g'.regions - 1]? = some
      ((g.rates[g.regions - 1]).add (num (bytes (g.regions - 1)) / num regionSize)) := by
    rw [hcollected.regions, hyoung _ (by omega), Array.getElem?_eq_getElem hlast]
    rfl
  show ((g'.fillIn.refresh p).rates)[age]? = _
  rw [rates_refresh, rates_fillIn (hcollected.regions ▸ hregions) holdest, hcollected.regions,
    Window.latest_add]
  split
  · next hage =>
    rw [hyoung age hage, show Nat.min age (g.regions - 1) = age from Nat.min_eq_left (by omega)]
  · next hage =>
    rw [hold age (by omega),
      show Nat.min age (g.regions - 1) = g.regions - 1 from Nat.min_eq_right (by omega)]

/-! ## Numbers, step by step -/

namespace Numbered

variable {g g' : SurvivalGroup α} {population : Population}

theorem create (population : Population) :
    Numbered (create population : SurvivalGroup α) population :=
  ⟨rfl, rfl, Nat.one_pos⟩

omit [Scalar α] in
theorem join (h : Numbered g population) : Numbered g.join.2 population :=
  ⟨h.population, congrArg (· + 1) h.regions, h.ages_pos⟩

omit [Scalar α] in
theorem startAdding (h : Numbered g population) : Numbered g.startAdding population :=
  ⟨h.population, rfl, h.ages_pos⟩

theorem stopAdding (h : Numbered g population) : Numbered g.stopAdding population := by
  refine ⟨h.population, h.regions, ?_⟩
  rw [size_stopAdding]
  exact Nat.add_pos_left h.ages_pos _

theorem finish (h : Numbered g population) (p : Predictor α) (learn : Bool) :
    Numbered (g.finish p learn) population := by
  obtain ⟨_, _, heq, hsize⟩ := g.finish_eq p learn
  rw [heq]
  exact ⟨h.population, h.regions, hsize ▸ h.ages_pos⟩

theorem collected (h : Numbered g population) {regionSize : Nat} {recorded : List (Nat × Nat)}
    (hcollected : Collected regionSize recorded g g') : Numbered g' population := by
  refine ⟨hcollected.population.trans h.population, ?_, hcollected.size_eq ▸ h.ages_pos⟩
  rw [hcollected.regions, hcollected.allocated, h.regions]

end Numbered

theorem regions_le_size_stopAdding (g : SurvivalGroup α) :
    g.stopAdding.regions ≤ g.stopAdding.ages.size := by
  rw [size_stopAdding]
  show g.regions ≤ _
  omega

end SurvivalGroup

end PauseGoal
