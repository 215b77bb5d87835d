import PauseGoal.Proofs.Exact
import PauseGoal.Proofs.YoungRuns

/-!
# The envelope of the young generation

While predictions choose its length, the target of the young generation stays in an envelope. Its
floor is never undercut, whatever was predicted and however few regions are free; above the floor
the target is bounded by the maximum of the sizer and by the free regions outside the reserve. While
mixed collections run, the target is the floor.

The envelope of a single choice comes from its contract. That each choice of a run is made from the
free regions and the reserve that the policy was told of comes from the plan.
-/

namespace PauseGoal

open Checked (Meets)
open Young (Lengths)

variable {α : Type} [Scalar α]

namespace Policy

section

variable {p : Policy α} {heap : Heap α} {now : α} {estimate unbounded : Nat}

/-! ## One choice -/

/-- The policy has a target length that it chose by predictions from this heap. The estimate says
how many regions mutators will allocate before the next pause may start; `unbounded` is the length
that the pause time goal alone asks for. -/
structure Envelope (p : Policy α) (heap : Heap α) (now : α) (estimate unbounded : Nat) : Prop where
  estimated : p.regionsUntilPause now = .ok estimate
  floor_le : p.youngFloor heap estimate ≤ p.youngTarget
  le_ceiling : p.youngTarget ≤
    max (p.youngFloor heap estimate) (min p.sizer.largest (p.freeRegions - p.reserve))
  eq_floor : p.phases.youngOnly = false → p.youngTarget = p.youngFloor heap estimate
  floor_le_unbounded : p.youngFloor heap estimate ≤ unbounded
  unbounded_le : unbounded ≤ max (p.youngFloor heap estimate) p.sizer.largest

theorem Sized.envelope (h : p.Sized heap now estimate unbounded) (hadaptive : p.isAdaptive = true) :
    p.Envelope heap now estimate unbounded := by
  obtain ⟨hleast, hlargest, _⟩ := h.unbounded_of_adaptive hadaptive
  exact ⟨h.estimated, h.floor_le, h.le_max, h.target_of_mixed hadaptive, hleast, hlargest⟩

/-- The lengths reported before and after differ by a choice that predictions made from the heap. -/
def ChoseWithin (p : Policy α) (heap : Heap α) (now : α) (before after : List Lengths) : Prop :=
  ∃ estimate unbounded, p.Envelope heap now estimate unbounded ∧
    after = before ++ [⟨p.youngTarget, unbounded, p.youngMaximum⟩]

/-- No count that a choice makes overflows, and the survivors are regions that were handed out. -/
structure CountsFit (p : Policy α) (heap : Heap α) (now : α) (estimate : Nat) : Prop where
  estimated : p.regionsUntilPause now = .ok estimate
  allocated : heap.survivors.length + estimate < wordBound
  present : heap.survivors.length + max heap.eden 1 < wordBound
  room : (p.freeRegions - p.reserve) * p.settings.regionSize < wordBound
  expanded : ∀ length, p.youngFloor heap estimate ≤ length →
    length ≤ max (p.youngFloor heap estimate) (min p.sizer.largest (p.freeRegions - p.reserve)) →
    length + p.youngExpansion length < wordBound
  known : ∀ r ∈ heap.survivors, p.Knows r

theorem CountsFit.choosable (h : p.CountsFit heap now estimate) :
    p.Choosable heap now estimate where
  estimated := h.estimated
  allocated := h.allocated
  present := h.present
  known := h.known
  room := fun _ => h.room
  maximum := fun unbounded _ => h.expanded _
    ((p.sizingBounds heap estimate).least_le_clamp unbounded)
    ((p.sizingBounds heap estimate).clamp_le unbounded)

omit [Scalar α] in
/-- Mutators that may take another region may also expand the young generation. -/
theorem mayExpand_of_mayAllocate (hle : p.youngTarget ≤ p.youngMaximum)
    (h : p.mayAllocate heap = .ok true) : p.mayExpand heap = .ok true := by
  obtain ⟨length, hlength, hbelow⟩ := Checked.exists_of_bind_eq_ok h
  have hbelow : length < p.youngTarget := of_decide_eq_true (Except.ok.inj hbelow)
  unfold mayExpand
  rw [hlength]
  exact congrArg Except.ok (decide_eq_true (Nat.lt_of_lt_of_le hbelow hle))

end

end Policy

/-! ## All choices of a run -/

namespace Collector

/-- Whatever a policy was started from and however it was called since, its target is at least one
region and at most its maximum, so that mutators that may take a region may also expand. The free
regions and the reserve that a choice is made from are those of the last end of a collection and of
the last heap size. If predictions choose the length, every choice, the first one included, lands in
the envelope and reports that. No choice fails in its search, and a choice whose counts fit into
words does not fail at all. -/
theorem young_length_within_envelope (s : Settings α) (heap : Heap α) (now : α)
    (fullCauses : List Cause) (before : Journal α) :
    (∀ fault after,
      (Policy.start s heap now fullCauses).outcome before = (.error fault, after) →
        fault.OutsideSearch) ∧
    (∀ policy after,
      (Policy.start s heap now fullCauses).outcome before = (.ok (.ok policy), after) →
        (policy.isAdaptive = true →
          policy.ChoseWithin heap now before.lengths after.lengths) ∧
        ∀ calls w, (World.opened policy after).run calls = .ok w →
          (1 ≤ w.policy.youngTarget ∧ w.policy.youngTarget ≤ w.policy.youngMaximum) ∧
          (∀ present, w.policy.mayAllocate present = .ok true →
            w.policy.mayExpand present = .ok true) ∧
          w.policy.freeRegions = freeAfter heap.free calls ∧
          w.policy.reserve = Policy.reserveAt s (regionsAfter heap.regions calls) ∧
          ∀ c present moment, w.chooses c = some (present, moment) →
            (∀ fault, w.call c = .error fault → fault.OutsideSearch) ∧
            ∀ w', w.call c = .ok w' → policy.isAdaptive = true →
              w'.policy.ChoseWithin present moment w.journal.lengths w'.journal.lengths) ∧
    ∀ (p : Policy α) present moment estimate entries, p.CountsFit present moment estimate →
      (p.chooseYoungLengthFor present moment entries).Succeeds := by
  have hmeets := Policy.start_meets_opening s heap now fullCauses
  refine ⟨fun fault after hstart => hmeets.of_eq_error hstart, fun policy after hstart => ?_,
    fun p present moment estimate entries hfit =>
      (hfit.choosable.chooseYoungLengthFor_meets entries).succeeds⟩
  obtain ⟨_, happend, hopened⟩ := hmeets.reports _ _ _ hstart
  obtain ⟨z, unbounded, rfl, hopening⟩ := hopened policy rfl
  have hcurrent := hopening.current
  refine ⟨fun hadaptive => ?_, fun calls w hrun => ?_⟩
  · obtain ⟨estimate, hsized⟩ := hopening.sized
    exact ⟨estimate, unbounded, hsized.envelope hadaptive, World.lengths_append happend⟩
  · have hw := current_of_run hrun hcurrent
    refine ⟨⟨hw.target_pos, hw.target_le⟩,
      fun present => Policy.mayExpand_of_mayAllocate hw.target_le, hw.freeRegions, hw.reserve, ?_⟩
    intro c present moment hchooses
    refine ⟨fun fault hcall => World.outsideSearch_of_call hcall (by rw [hchooses]; rfl), ?_⟩
    intro w' hcall hadaptive
    have hplanned := World.planned_of_call hcall
    obtain ⟨estimate, unbounded, hsized, hlengths⟩ := hplanned.sized hchooses
    have hsame : w'.policy.isAdaptive = policy.isAdaptive :=
      (hplanned.current hw).isAdaptive_eq.trans hcurrent.isAdaptive_eq.symm
    exact ⟨estimate, unbounded, hsized.envelope (hsame.trans hadaptive), hlengths⟩

/-- Predictions choose the length of the young generation. -/
def predictedSettings : Settings Rat := { Settings.default with adaptiveMarking := false }

/-- The end of the second pause, in a heap that was made smaller after the first one, and another
choice for the same heap. -/
theorem envelope_at_second_pause :
    let calls := plainPause plainHeap 10 [] ++ [.chore (.resize 80)] ++
      [.beginPause, .decide plainHeap, .startPause plainHeap 20, .transfer 0 false]
    ∃ policy after w w',
      (Policy.start predictedSettings plainHeap 1 []).outcome {} = (.ok (.ok policy), after) ∧
        (World.opened policy after).run calls = .ok w ∧ policy.isAdaptive = true ∧
        w.call (.endPause plainHeap 21 1000) = .ok w' ∧
        w.policy.reserve = Policy.reserveAt predictedSettings 80 ∧
        w'.policy.ChoseWithin plainHeap 21 w.journal.lengths w'.journal.lengths ∧
        w.policy.CountsFit plainHeap 21 0 ∧
        (w.policy.chooseYoungLengthFor plainHeap 21 100).Succeeds := by
  intro calls
  obtain ⟨policy, after, w, hstart, hrun, hends⟩ :=
    exists_openedRun predictedSettings plainHeap 1 calls
      (P := fun policy w =>
        (policy.isAdaptive && (w.call (.endPause plainHeap 21 1000)).toBool) &&
          decide (w.policy.costs.allocationRates.size ≤ 3 ∧
            w.policy.settings.regionSize = 1048576 ∧ w.policy.freeRegions = 90 ∧
            w.policy.sizer.least = 4 ∧
            ∀ length ∈ List.range 91, length + w.policy.youngExpansion length < wordBound))
      (by decide +kernel)
  obtain ⟨hends, hcounts⟩ := Bool.and_eq_true_iff.mp hends
  obtain ⟨hadaptive, hcalled⟩ := Bool.and_eq_true_iff.mp hends
  obtain ⟨hrates, hsize, hfree, hleast, hexpanded⟩ := of_decide_eq_true hcounts
  obtain ⟨w', hcall⟩ := Checked.exists_of_toBool hcalled
  obtain ⟨_, hruns, hsucceeds⟩ := young_length_within_envelope predictedSettings plainHeap 1 [] {}
  obtain ⟨_, _, _, hreserve, hchoices⟩ := (hruns policy after hstart).2 calls w hrun
  have hfit : w.policy.CountsFit plainHeap 21 0 := by
    refine ⟨?_, by decide, by decide, ?_, fun length _ hmost => ?_, nofun⟩
    · rw [Policy.regionsUntilPause, decide_eq_false (Nat.not_lt.mpr hrates), Bool.and_false]
      rfl
    · rw [hsize, hfree]
      exact Nat.lt_of_le_of_lt (Nat.mul_le_mul_right _ (Nat.sub_le _ _)) (by decide)
    · rw [Policy.youngFloor, hleast, hfree] at hmost
      simp only [plainHeap, List.length_nil] at hmost
      exact hexpanded length (List.mem_range.mpr (by omega))
  exact ⟨policy, after, w, w', hstart, hrun, hadaptive, hcall, hreserve,
    (hchoices _ _ _ rfl).2 w' hcall hadaptive, hfit, hsucceeds _ _ _ _ _ hfit⟩

end Collector

end PauseGoal
