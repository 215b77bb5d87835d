import PauseGoal.Proofs.CandidateBytes
import PauseGoal.Proofs.Frame

/-!
# The old part of a mixed collection

However the time left, the predicted costs and the heap turn out, the initial part of a selection
holds the minimum, or all candidates if fewer are left. The minimum comes from the length of the
whole list, so it is the same in every mixed collection of a phase.
-/

namespace PauseGoal

open Checked (Gives)

namespace OldRegions

/-- The candidates spread evenly over the collections, of which there is at least one. -/
def evenShare (candidates collections : Nat) : Nat :=
  (candidates + Nat.max collections 1 - 1) / Nat.max collections 1

theorem evenShare_eq {candidates collections : Nat} (h : collections ≠ 0) :
    evenShare candidates collections = (candidates + collections - 1) / collections := by
  have hmax : Nat.max collections 1 = collections := Nat.max_eq_left (Nat.pos_of_ne_zero h)
  rw [evenShare, hmax]

/-- In the allowed number of collections the shares add up to all candidates. -/
theorem le_mul_evenShare {candidates collections : Nat} (h : collections ≠ 0) :
    candidates ≤ collections * evenShare candidates collections := by
  have hdiv := Nat.div_add_mod (candidates + collections - 1) collections
  have hmod := Nat.mod_lt (candidates + collections - 1) (Nat.pos_of_ne_zero h)
  rw [evenShare_eq h]
  omega

variable {α : Type} [Scalar α]

omit [Scalar α] in
theorem gives_leastRegions (candidates collections : Nat) :
    Gives (leastRegions candidates collections : Checked α Nat) fun least =>
      least = evenShare candidates collections := by
  refine (Word.gives_add _ _).bind ?_
  rintro _ rfl
  exact Checked.gives_pure rfl

omit [Scalar α] in
/-- Taking candidates leaves the list itself as it is. -/
theorem Candidates.gives_take (candidates : Candidates) (count : Nat) :
    Gives (candidates.take count : Checked α Candidates) fun rest =>
      rest.regions = candidates.regions ∧ rest.size = candidates.size - count := by
  rcases Nat.lt_or_ge candidates.size count with hover | hcount
  · rw [Candidates.take_of_too_many hover]
    exact rfl
  · obtain ⟨rest, htake, hregions, _⟩ := Candidates.take_of_le (α := α) hcount
    rw [htake]
    exact ⟨hregions, Candidates.size_of_take htake⟩

theorem gives_initialPart {limits : Limits α} (hlimits : limits.least ≤ limits.most)
    (cost : OldRegion → α) (available : α) (rs : List OldRegion) (part : Part α)
    (reclaimable : Nat) :
    Gives (initialPart limits cost available rs part reclaimable) fun r =>
      min limits.least (part.count + rs.length) ≤ r.1.count := by
  -- on the regions that are left; the part grows by one with each that is taken
  induction rs generalizing part reclaimable with
  | nil => exact Checked.gives_pure (Nat.min_le_right _ _)
  | cons r rest ih =>
    -- whatever ends the part before the list does, the minimum has been reached
    have reached (h : limits.least ≤ part.count) :
        min limits.least (part.count + (r :: rest).length) ≤ part.count :=
      Nat.le_trans (Nat.min_le_left _ _) h
    unfold initialPart
    split
    · next h => exact Checked.gives_pure (reached (Nat.le_trans hlimits h))
    split
    · next h => exact Checked.gives_pure (reached h.1)
    split
    · next h => exact Checked.gives_pure (reached h.1)
    split
    · next h => exact Checked.gives_pure (reached h.1)
    · refine (Word.calm_sub _ _).bind_gives fun left => (ih _ left).mono fun t ht => ?_
      rwa [List.length_cons, Nat.add_comm rest.length 1, ← Nat.add_assoc]

theorem gives_choose {candidates : Candidates} {limits : Limits α}
    (hlimits : limits.least ≤ limits.most) (timeLeft : α) (cost : OldRegion → α) :
    Logged.Gives (choose candidates timeLeft limits cost) fun budget =>
      min limits.least candidates.size ≤ budget.initial := by
  unfold choose
  extract_lets time
  refine (Logged.calm_write _ _ _).bind_gives fun _ => ?_
  refine (Logged.gives_ofChecked (gives_initialPart hlimits _ _ _ _ _)).bind ?_
  rintro ⟨initial, stop⟩ hinitial
  refine (stop.calm_log limits).bind_gives fun _ => ?_
  refine (Logged.calm_ofChecked (Word.calm_sub _ _)).bind_gives fun mostOptional => ?_
  extract_lets finish
  have finished (optional : Part α) : Logged.Gives (finish optional) fun budget =>
      min limits.least candidates.size ≤ budget.initial := by
    refine (Logged.calm_write _ _ _).bind_gives fun _ => Logged.gives_pure ?_
    rwa [show Part.none.count = 0 from rfl, Nat.zero_add] at hinitial
  split
  · exact (calm_takeOptional _ _ _ _).bind_gives fun optional => finished optional
  · exact finished Part.none

/-- The minimum of a selection is the even share, and the maximum is never below it. -/
theorem Limits.gives_create (candidates : Candidates)
    (heapRegions capacity collections regionPercent wastePercent : Nat) (timed : Bool) :
    Gives (Limits.create candidates heapRegions capacity collections regionPercent wastePercent
        timed : Checked α (Limits α)) fun limits =>
      limits.least = evenShare candidates.regions.length collections ∧
        limits.least ≤ limits.most := by
  refine (gives_leastRegions _ _).bind ?_
  rintro _ rfl
  refine (calm_ceilPercent _ _).bind_gives fun most => Checked.gives_pure ⟨rfl, ?_⟩
  exact Nat.le_max_right _ _

end OldRegions

namespace Policy

open OldRegions (Candidates evenShare)

variable {α : Type} [Scalar α]

/-- The initial part of a mixed collection holds the even share of the whole list, or all candidates
if fewer are left. Only a missing list is a fault. -/
theorem ends_chooseOldRegions (p : Policy α) (heap : Heap α) (timeLeft : α) :
    (p.chooseOldRegions heap timeLeft).Ends
      (fun budget kinds => kinds = [] ∧ ∃ candidates, heap.candidates = some candidates ∧
        min (evenShare candidates.regions.length p.settings.mixedCollections) candidates.size ≤
          budget.initial)
      (fun fault => fault = .noCandidates ∧ heap.candidates = none) := by
  unfold chooseOldRegions
  cases hcandidates : heap.candidates with
  | none => exact Act.ends_ofChecked nofun fun _ hfault _ => ⟨(Except.error.inj hfault).symm, rfl⟩
  | some candidates =>
    refine Act.Gives.ends ?_
    refine (Act.gives_ofChecked (OldRegions.Limits.gives_create _ _ _ _ _ _ _)).bind ?_
    rintro limits ⟨hleast, hmost⟩
    refine (Act.gives_ofLogged (OldRegions.gives_choose hmost _ _)).bind fun budget hbudget => ?_
    refine (Act.gives_report rfl).bind fun _ _ => Act.gives_pure ⟨candidates, rfl, ?_⟩
    rwa [← hleast]

/-- Optional regions are chosen in the mixed phase and from candidates only. -/
theorem ends_chooseOptionalRegions (p : Policy α) (heap : Heap α) (most : Nat) (timeLeft : α) :
    (p.chooseOptionalRegions heap most timeLeft).Ends (fun _ kinds => kinds = [])
      (fun fault => (fault = .optionalOutsideMixed ∧ p.phases.mixed = false) ∨
        (fault = .noOptionalCandidates ∧ heap.candidates = none)) := by
  unfold chooseOptionalRegions
  refine (Act.ends_demand fun h => .inl ⟨rfl, Bool.not_eq_true _ ▸ h⟩).bind ?_
  rintro _ _ ⟨rfl, _⟩
  cases heap.candidates with
  | none =>
    exact Act.ends_ofChecked nofun fun _ hfault _ => .inr ⟨(Except.error.inj hfault).symm, rfl⟩
  | some candidates =>
    refine (Act.gives_ofLogged (OldRegions.calm_chooseOptional _ _ _ _)).ends.mono ?_ fun _ h => h
    rintro _ _ ⟨rfl, _⟩
    rfl

end Policy

end PauseGoal
