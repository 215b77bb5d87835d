import PauseGoal.Proofs.ExactReals
import PauseGoal.Proofs.OldSelection

/-!
# More time never selects fewer old regions

With more time left the initial part of a selection can only grow, for a test that passed still
passes. The optional part then starts at a later region and has less room, so that it may shrink.
Both parts together do not (`Selected.total_mono`): what the optional part took behind the new
border is a later piece of what fitted the smaller share, and costs that are not negative do not
make a piece more expensive than the whole.

An optional round of a pause always starts at the first region, so that it grows for any costs.
-/

namespace PauseGoal.OldRegions

open Scalar.Exact (toReal)

variable {α : Type} [Scalar α] [Scalar.Exact α] {cost : OldRegion → α} {available available' : α}
  {rs : List OldRegion}

/-! ## Tests and time -/

theorem toReal_timeOf (cost : OldRegion → α) (rs : List OldRegion) :
    toReal (timeOf cost rs) = (rs.map fun r => toReal (cost r)).sum := by
  simp [timeOf, Function.comp_def]

theorem fits_iff {n : Nat} :
    Fits cost available rs n ↔ toReal (timeOf cost (rs.take (n + 1))) ≤ toReal available := by
  rw [Fits, Scalar.not_lt_iff, Scalar.Exact.le_iff]

theorem Fits.mono {n : Nat} (h : Fits cost available rs n)
    (hmore : toReal available ≤ toReal available') : Fits cost available' rs n :=
  fits_iff.mpr ((fits_iff.mp h).trans hmore)

/-- A later piece of what fits does so too. -/
theorem Fits.drop (hcost : ∀ r ∈ rs, num 0 ≤ cost r) {skip n : Nat}
    (h : Fits cost available rs (skip + n)) : Fits cost available (rs.drop skip) n := by
  have hsplit : rs.take (skip + n + 1) = rs.take skip ++ (rs.drop skip).take (n + 1) := by
    rw [Nat.add_assoc, List.take_add]
  have hskipped : 0 ≤ toReal (timeOf cost (rs.take skip)) := by
    rw [toReal_timeOf]
    refine List.sum_nonneg fun x hx => ?_
    obtain ⟨r, hr, rfl⟩ := List.mem_map.mp hx
    exact Scalar.zero_le_iff.mp (hcost r (List.mem_of_mem_take hr))
  have htime : toReal (timeOf cost (rs.take (skip + n + 1))) =
      toReal (timeOf cost (rs.take skip)) +
        toReal (timeOf cost ((rs.drop skip).take (n + 1))) := by
    rw [hsplit, toReal_timeOf, toReal_timeOf, toReal_timeOf, List.map_append, List.sum_append]
  rw [fits_iff] at h ⊢
  linarith

theorem share_mono {time time' : α} (h : time ≤ time') (p q : Nat) :
    toReal (time * ratio p q) ≤ toReal (time' * ratio p q) := by
  rw [Scalar.Exact.le_iff] at h
  rw [Scalar.Exact.toReal_mul, Scalar.Exact.toReal_mul, Scalar.toReal_ratio]
  gcongr

theorem max_zero_mono {time time' : α} (h : time ≤ time') :
    Scalar.max time (num 0) ≤ Scalar.max time' (num 0) := by
  rw [Scalar.Exact.le_iff] at h ⊢
  rw [Scalar.toReal_max, Scalar.toReal_max]
  exact max_le_max_right _ h

/-! ## Two selections from the same regions -/

namespace Selected

variable {limits : Limits α} {time time' : α} {less more : Budget α}

theorem initial_mono (hless : Selected limits rs time cost less)
    (hmore : Selected limits rs time' cost more) (htime : time ≤ time') :
    less.initial ≤ more.initial := by
  refine hmore.initial.le_count hless.initial.le_most ?_
  intro n hstart hn
  rcases hless.initial.passes n hstart hn with hleast | ⟨htimed, hworth, hfits⟩
  · exact .inl hleast
  · exact .inr ⟨htimed, hworth, hfits.mono (share_mono htime 8 10)⟩

omit [Scalar.Exact α] in
theorem total_le_most (h : Selected limits rs time cost less) :
    less.initial + less.optional ≤ limits.most := by
  have hinitial := Nat.le_trans h.initial.le_most (Nat.min_le_left _ _)
  have hoptional := Nat.le_trans h.optional.le_most (Nat.min_le_left _ _)
  rw [h.mostOptional] at hoptional
  omega

theorem total_mono (hless : Selected limits rs time cost less)
    (hmore : Selected limits rs time' cost more) (htime : time ≤ time')
    (hcost : ∀ r ∈ rs, num 0 ≤ cost r) :
    less.initial + less.optional ≤ more.initial + more.optional := by
  obtain ⟨skip, hskip⟩ := Nat.exists_eq_add_of_le (hless.initial_mono hmore htime)
  -- the border moved by `skip` regions, so that the old optional part ends `skip` regions earlier
  have hrest : less.optional - skip ≤ more.optional := by
    refine hmore.optional.le_count ?_ ?_
    · have hmost := hless.total_le_most
      have hlength := hless.total_le
      rw [hmore.mostOptional, List.length_drop]
      omega
    · intro n _ hn
      obtain ⟨htimed, hfits⟩ := hless.optional.passes (skip + n) (Nat.zero_le _) (by omega)
      have hlater : Fits cost (time * optionalShare) (rs.drop more.initial) n := by
        rw [hskip, ← List.drop_drop]
        exact hfits.drop fun r hr => hcost r (List.mem_of_mem_drop hr)
      exact ⟨htimed, hlater.mono (share_mono htime 75 100)⟩
  omega

end Selected

/-! ## More time -/

/-- With more time left the initial part does not shrink, and neither do both parts together if no
cost is negative. An optional round does not shrink with more time or more room either. -/
theorem selection_grows (candidates : Candidates) (limits : Limits α) (cost : OldRegion → α)
    {time time' : α} (htime : time ≤ time') :
    (∃ less more, (choose candidates time limits cost).Yields less ∧
      (choose candidates time' limits cost).Yields more ∧
      less.initial ≤ more.initial ∧
      ((∀ r ∈ candidates.remaining, num 0 ≤ cost r) →
        less.initial + less.optional ≤ more.initial + more.optional)) ∧
    ∀ most most', most ≤ most' → ∃ less more,
      (chooseOptional candidates most time cost).Yields less ∧
      (chooseOptional candidates most' time' cost).Yields more ∧ less ≤ more := by
  have hleft := max_zero_mono htime
  refine ⟨?_, ?_⟩
  · obtain ⟨less, hyields, hless⟩ := choose_selects candidates time limits cost
    obtain ⟨more, hyields', hmore⟩ := choose_selects candidates time' limits cost
    exact ⟨less, more, hyields, hyields', hless.initial_mono hmore hleft,
      hless.total_mono hmore hleft⟩
  · intro most most' hmost
    obtain ⟨less, hyields, hless⟩ := chooseOptional_greedy candidates most time cost
    obtain ⟨more, hyields', hmore⟩ := chooseOptional_greedy candidates most' time' cost
    refine ⟨less, more, hyields, hyields', hmore.le_count ?_ ?_⟩
    · exact hless.le_most.trans (min_le_min_right _ hmost)
    · intro n hstart hn
      exact (hless.passes n hstart hn).mono ((Scalar.Exact.le_iff _ _).mp hleft)

/-- With 6 milliseconds the second of five regions is optional, with 12 it belongs to the initial
part and the fourth is optional. -/
theorem selection_grows_from_six_to_twelve :
    ((6 : Rat) ≤ 12 ∧ ∀ r ∈ fiveOfSeven.remaining, (num 0 : Rat) ≤ num r.index) ∧
    ∃ less more, (choose fiveOfSeven 6 oneToSix fun r => num r.index).Yields less ∧
      (choose fiveOfSeven 12 oneToSix fun r => num r.index).Yields more ∧
      (less.initial, less.optional) = (1, 1) ∧ (more.initial, more.optional) = (3, 1) ∧
      less.initial + less.optional ≤ more.initial + more.optional := by
  have htime : (6 : Rat) ≤ 12 := by norm_num
  have hcost : ∀ r ∈ fiveOfSeven.remaining, (num 0 : Rat) ≤ num r.index := by decide +kernel
  obtain ⟨⟨less, more, hless, hmore, _, htotal⟩, _⟩ :=
    selection_grows fiveOfSeven oneToSix (fun r => num r.index) htime
  have hcounts (time : Rat) : ∀ budget,
      (choose fiveOfSeven time oneToSix fun r => num r.index).Yields budget →
      ((choose fiveOfSeven time oneToSix fun r => num r.index).run.run {}).1.toOption.map
        (fun budget => (budget.initial, budget.optional)) =
          some (budget.initial, budget.optional) := by
    intro budget hyields
    rw [hyields {}]
    rfl
  refine ⟨⟨htime, hcost⟩, less, more, hless, hmore, ?_, ?_, htotal hcost⟩
  · exact Option.some.inj ((hcounts 6 less hless).symm.trans (by decide +kernel))
  · exact Option.some.inj ((hcounts 12 more hmore).symm.trans (by decide +kernel))

end PauseGoal.OldRegions
