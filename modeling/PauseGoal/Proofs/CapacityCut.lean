import PauseGoal.Proofs.AgeTables
import Mathlib.Algebra.Order.BigOperators.Group.List

/-!
# Where the tenuring threshold cuts

The tenuring threshold is found by a walk over the ages. What it is can be said without the walk:
the survivors younger than the threshold fit the desired size together, and with those at the
threshold they no longer do, unless the threshold is the maximum (`Cuts`).

Results:
1. `threshold_cuts`: a threshold that is found cuts.
2. `Cuts.le_of_loosened`: with a larger desired size, a larger maximum or fewer bytes no cut is
   lower. So a table has one cut only.
3. `threshold_is_capacity_cut`: a table whose bytes add up to a word has its cut as threshold, and
   merging another table into it never raises the threshold.
-/

namespace PauseGoal.SurvivorAges

variable {α : Type} {ages other merged : SurvivorAges}
  {desired desired' maximum maximum' threshold threshold' : Nat}

/-- The bytes at all ages up to the given one. -/
def bytesUpTo (ages : SurvivorAges) (age : Nat) : Nat :=
  ((List.range (age + 1)).map ages.bytesAt).sum

/-- The threshold is the age at which the survivors no longer fit the desired size, cut off at the
maximum. A desired size of zero has no room for any age. -/
structure Cuts (ages : SurvivorAges) (desired maximum threshold : Nat) : Prop where
  le_maximum : threshold ≤ maximum
  fits : 0 < desired → ∀ age < threshold, ages.bytesUpTo age ≤ desired
  exceeds : threshold < maximum → desired = 0 ∨ desired < ages.bytesUpTo threshold
  eq_zero : desired = 0 → threshold = 0

/-! ## The walk over the ages -/

theorem sum_take_sizes (ages : SurvivorAges) (count : Nat) :
    (ages.sizes.take count).sum = ((List.range count).map ages.bytesAt).sum := by
  induction count with
  | zero => simp
  | succ count ih =>
    have hlast : ages.sizes[count]?.toList.sum = ages.bytesAt count := by
      cases hsize : ages.sizes[count]? <;> simp [bytesAt, hsize]
    rw [List.take_add_one, List.sum_append, ih, hlast, List.range_succ]
    simp

/-- A walk that starts within the desired size ends at the first running total above it. Without one
all running totals are within. -/
theorem firstExceeding_finds {sizes : List Nat} {age sum : Nat} {found : Option Nat}
    (hsum : sum ≤ desired)
    (h : (firstExceeding desired sizes age sum : Checked α (Option Nat)) = .ok found) :
    (found = none ∧ ∀ n, sum + (sizes.take n).sum ≤ desired) ∨
      ∃ i, found = some (age + i) ∧ desired < sum + (sizes.take (i + 1)).sum ∧
        ∀ n ≤ i, sum + (sizes.take n).sum ≤ desired := by
  -- on the sizes; age and total move on with every step
  induction sizes generalizing age sum with
  | nil =>
    cases h
    simp [hsum]
  | cons size older ih =>
    obtain ⟨next, hnext, hrest⟩ := Checked.exists_of_bind_eq_ok h
    obtain ⟨_, rfl⟩ := Word.add_eq_ok_iff.mp hnext
    by_cases hover : desired < sum + size
    · rw [if_pos hover] at hrest
      cases hrest
      refine .inr ⟨0, rfl, by simpa using hover, ?_⟩
      intro n hn
      simpa [Nat.le_zero.mp hn] using hsum
    · rw [if_neg hover] at hrest
      -- what holds of the rest holds of the whole, one place later
      have later {n : Nat} (hn : sum + size + (older.take n).sum ≤ desired) :
          sum + ((size :: older).take (n + 1)).sum ≤ desired := by
        simpa [Nat.add_assoc] using hn
      rcases ih (Nat.le_of_not_lt hover) hrest with ⟨hfound, hfits⟩ | ⟨i, hfound, hexceeds, hfits⟩
      · refine .inl ⟨hfound, ?_⟩
        intro n
        cases n with
        | zero => simpa using hsum
        | succ n => exact later (hfits n)
      · refine .inr ⟨i + 1, ?_, by simpa [Nat.add_assoc] using hexceeds, ?_⟩
        · rw [hfound, Nat.add_assoc, Nat.add_comm 1 i]
        · intro n hn
          cases n with
          | zero => simpa using hsum
          | succ n => exact later (hfits n (Nat.le_of_succ_le_succ hn))

/-- A threshold that is found cuts. -/
theorem threshold_cuts
    (h : (ages.threshold desired maximum : Checked α Nat) = .ok threshold) :
    ages.Cuts desired maximum threshold := by
  unfold SurvivorAges.threshold at h
  split at h
  · next hzero =>
    cases h
    exact ⟨Nat.zero_le _, fun hpos => absurd hzero (Nat.ne_of_gt hpos), fun _ => .inl hzero,
      fun _ => rfl⟩
  · next hpos =>
    obtain ⟨found, hfound, hthreshold⟩ := Checked.exists_of_bind_eq_ok h
    have hwalk := firstExceeding_finds (Nat.zero_le desired) hfound
    simp only [Nat.zero_add, sum_take_sizes] at hwalk
    rcases hwalk with ⟨rfl, hfits⟩ | ⟨age, rfl, hexceeds, hfits⟩
    · cases hthreshold
      exact ⟨Nat.le_refl _, fun _ age _ => hfits (age + 1), fun hlt => absurd hlt (Nat.lt_irrefl _),
        fun hzero => absurd hzero hpos⟩
    · cases hthreshold
      refine ⟨Nat.min_le_right _ _, ?_, ?_, fun hzero => absurd hzero hpos⟩
      · intro _ younger hyounger
        exact hfits (younger + 1) (Nat.lt_of_lt_of_le hyounger (Nat.min_le_left _ _))
      · intro hlt
        -- below the maximum the threshold is the age that was found
        have hage : Nat.min age maximum = age := by
          rcases Nat.le_total age maximum with hle | hle
          · exact Nat.min_eq_left hle
          · exact absurd (Nat.min_eq_right hle) (Nat.ne_of_lt hlt)
        rw [hage]
        exact .inr hexceeds

/-! ## Cuts compared -/

/-- With a larger desired size, a larger maximum or fewer bytes no cut is lower. -/
theorem Cuts.le_of_loosened (h : ages.Cuts desired maximum threshold)
    (h' : other.Cuts desired' maximum' threshold') (hdesired : desired ≤ desired')
    (hmaximum : maximum ≤ maximum') (hbytes : ∀ age, other.bytesUpTo age ≤ ages.bytesUpTo age) :
    threshold ≤ threshold' := by
  by_contra hlt
  have hlower : threshold' < threshold := Nat.lt_of_not_le hlt
  have hpos : 0 < desired := by
    rcases Nat.eq_zero_or_pos desired with hzero | hpos
    · rw [h.eq_zero hzero] at hlower
      exact absurd hlower (Nat.not_lt_zero _)
    · exact hpos
  have hbelow : threshold' < maximum' :=
    Nat.lt_of_lt_of_le hlower (Nat.le_trans h.le_maximum hmaximum)
  rcases h'.exceeds hbelow with hzero | hexceeds
  · exact absurd (Nat.lt_of_lt_of_le hpos hdesired) (Nat.not_lt.mpr (Nat.le_of_eq hzero))
  · -- what exceeds the larger size in the other table fits the smaller one in this table
    have hfits : other.bytesUpTo threshold' ≤ desired' :=
      calc other.bytesUpTo threshold'
        _ ≤ ages.bytesUpTo threshold' := hbytes threshold'
        _ ≤ desired := h.fits hpos threshold' hlower
        _ ≤ desired' := hdesired
    exact absurd hexceeds (Nat.not_lt.mpr hfits)

theorem bytesUpTo_le_of_merge (h : (ages.merge other : Checked α SurvivorAges) = .ok merged)
    (age : Nat) : ages.bytesUpTo age ≤ merged.bytesUpTo age := by
  refine List.sum_le_sum fun i _ => ?_
  by_cases hi : i < ageCount
  · rw [(merge_eq_ok_iff.mp h i hi).1]
    exact Nat.le_add_right _ _
  · -- an age that is not told apart has no bytes of its own
    have hnone : ages.sizes[i]? = none :=
      List.getElem?_eq_none (ages.length_sizes ▸ Nat.le_of_not_lt hi)
    simp [bytesAt, hnone]

/-- A table whose bytes add up to a word has a tenuring threshold, the one age that cuts. It rises
with the desired size and with the maximum, and never when another table is merged in. -/
theorem threshold_is_capacity_cut (hwords : ages.sizes.sum < wordBound) (desired maximum : Nat) :
    ∃ threshold : Nat,
      (ages.threshold desired maximum : Checked α Nat) = .ok threshold ∧
      (∀ cut, ages.Cuts desired maximum cut ↔ cut = threshold) ∧
      (∀ desired' maximum', desired ≤ desired' → maximum ≤ maximum' →
        ∃ threshold', (ages.threshold desired' maximum' : Checked α Nat) = .ok threshold' ∧
          threshold ≤ threshold') ∧
      ∀ other merged, (ages.merge other : Checked α SurvivorAges) = .ok merged →
        (merged.sizes.sum < wordBound →
          ∃ lower, (merged.threshold desired maximum : Checked α Nat) = .ok lower) ∧
        ∀ lower, (merged.threshold desired maximum : Checked α Nat) = .ok lower →
          lower ≤ threshold := by
  obtain ⟨threshold, hthreshold⟩ := threshold_of_words (α := α) hwords desired maximum
  have hcuts := threshold_cuts hthreshold
  refine ⟨threshold, hthreshold, ?_, ?_, ?_⟩
  · intro cut
    constructor
    · intro hcut
      have hsame (age : Nat) : ages.bytesUpTo age ≤ ages.bytesUpTo age := Nat.le_refl _
      exact Nat.le_antisymm
        (hcut.le_of_loosened hcuts (Nat.le_refl _) (Nat.le_refl _) hsame)
        (hcuts.le_of_loosened hcut (Nat.le_refl _) (Nat.le_refl _) hsame)
    · intro hcut
      rw [hcut]
      exact hcuts
  · intro desired' maximum' hdesired hmaximum
    obtain ⟨threshold', hthreshold'⟩ := threshold_of_words (α := α) hwords desired' maximum'
    exact ⟨threshold', hthreshold', hcuts.le_of_loosened (threshold_cuts hthreshold') hdesired
      hmaximum fun _ => Nat.le_refl _⟩
  · intro other merged hmerge
    refine ⟨fun hmerged => threshold_of_words hmerged desired maximum, ?_⟩
    intro lower hlower
    exact (threshold_cuts hlower).le_of_loosened hcuts (Nat.le_refl _) (Nat.le_refl _)
      (bytesUpTo_le_of_merge hmerge)

/-- Survivors of three ages, the oldest of which counts for all objects older than it. -/
def threeAges : SurvivorAges where
  sizes := [400, 400, 0, 0, 0, 0, 0, 0, 0, 0, 0, 0, 0, 0, 0, 400]
  length_sizes := rfl

/-- Two of three ages fit a thousand bytes, so the threshold is the oldest age. A maximum of seven
cuts lower, and so does a table that is merged in. -/
theorem threshold_is_capacity_cut_of_three_ages :
    threeAges.sizes.sum < wordBound ∧
      (threeAges.threshold 1000 15 : Checked Rat Nat) = .ok 15 ∧
      (threeAges.threshold 1000 7 : Checked Rat Nat) = .ok 7 ∧
      (∀ cut, threeAges.Cuts 1000 7 cut ↔ cut = 7) ∧
      ∃ merged lower, (threeAges.merge threeAges : Checked Rat SurvivorAges) = .ok merged ∧
        (merged.threshold 1000 7 : Checked Rat Nat) = .ok lower ∧ lower = 1 ∧ lower ≤ 7 := by
  have hwords : threeAges.sizes.sum < wordBound := by decide
  have hmerge : (threeAges.merge threeAges : Checked Rat SurvivorAges) =
      .ok ⟨[800, 800, 0, 0, 0, 0, 0, 0, 0, 0, 0, 0, 0, 0, 0, 800], rfl⟩ := by
    decide
  obtain ⟨threshold, hthreshold, hcut, hlarger, hmerged⟩ :=
    threshold_is_capacity_cut (α := Rat) hwords 1000 7
  have hseven : (threeAges.threshold 1000 7 : Checked Rat Nat) = .ok 7 := by decide
  obtain rfl := Except.ok.inj (hthreshold.symm.trans hseven)
  obtain ⟨lower, hlower⟩ := (hmerged _ _ hmerge).1 (by decide)
  have hone : lower = 1 := by
    refine Except.ok.inj (hlower.symm.trans ?_)
    decide
  exact ⟨hwords, by decide, hseven, hcut, _, lower, hmerge, hlower, hone,
    (hmerged _ _ hmerge).2 lower hlower⟩

end PauseGoal.SurvivorAges
