import PauseGoal.Proofs.SizerResizes
import PauseGoal.Proofs.Traces
import PauseGoal.Proofs.YoungEnvelope
import PauseGoal.Proofs.YoungRuns

/-!
# A target length in a heap that was resized

The bounds of the sizer follow the heap at once when the policy is told a new size. The target is
what the last choice came to, and a new size is not among the calls that choose. So the target is
only known to reach the minimum of the sizer for the size that was told when it was chosen. In a
heap that grew since then the minimum may be above it until the next choice.
-/

namespace PauseGoal

open Young (Sizer)

variable {α : Type}

namespace Policy

/-- The target is at least the minimum of the sizer for the heap as it was told last, and at least
the fixed length if there is one. -/
structure TracksHeap (p : Policy α) : Prop where
  least_le : p.sizer.least ≤ p.youngTarget
  fixed_le : ∀ length, p.fixedYoungLength = some length → length ≤ p.youngTarget

/-- A fixed length is the minimum of the sizer. -/
theorem tracksHeap_iff {p : Policy α} : p.TracksHeap ↔ p.sizer.least ≤ p.youngTarget := by
  refine ⟨TracksHeap.least_le, fun h => ⟨h, fun length hlength => ?_⟩⟩
  unfold fixedYoungLength at hlength
  split at hlength
  · cases hlength
  · cases hlength
    exact h

theorem Sized.tracksHeap [Scalar α] {p : Policy α} {heap : Heap α} {now : α}
    {estimate unbounded : Nat} (h : p.Sized heap now estimate unbounded) : p.TracksHeap :=
  tracksHeap_iff.mpr (Nat.le_trans (Nat.le_max_left _ _) h.floor_le)

end Policy

namespace Collector

variable [Scalar α]

/-- The size of the heap, in regions, that was told last, and the one that had been told when the
length of the young generation was chosen last. -/
structure HeapSizes where
  told : Nat
  chosenFor : Nat

def HeapSizes.after (sizes : HeapSizes) (m : Moment α) : HeapSizes :=
  let told := m.call.resized?.getD sizes.told
  { told := told
    chosenFor := if (m.world.chooses m.call).isSome then told else sizes.chosenFor }

/-- The sizes after a run that began with a heap of the given size. -/
def heapSizes (regions : Nat) (t : List (Moment α)) : HeapSizes :=
  t.foldl HeapSizes.after ⟨regions, regions⟩

/-- The plan is that for the size told last, and the target reaches the minimum for the size at the
last choice. -/
structure ChosenFor (s : Settings α) (z : Sizer) (sizes : HeapSizes) (p : Policy α) : Prop where
  current : ∃ free, p.plan.Current s z free sizes.told
  least_le : (z.forHeap sizes.chosenFor).least ≤ p.youngTarget

section

variable {s : Settings α} {z : Sizer} {sizes : HeapSizes} {p : Policy α} {w w' : World α}
  {c : Call α}

theorem ChosenFor.sizer_eq (h : ChosenFor s z sizes p) :
    p.sizer = z.forHeap sizes.told := by
  obtain ⟨_, hcurrent⟩ := h.current
  exact hcurrent.sizer

/-- A call that chooses a length makes the target reach the minimum. -/
theorem Planned.tracksHeap (h : Planned w c w') (hchooses : (w.chooses c).isSome = true) :
    w'.policy.TracksHeap := by
  obtain ⟨⟨heap, now⟩, hchooses⟩ := Option.isSome_iff_exists.mp hchooses
  obtain ⟨_, _, hsized, _⟩ := h.sized hchooses
  exact hsized.tracksHeap

/-- No other call moves the target. -/
theorem Planned.youngTarget_eq (h : Planned w c w') (hchooses : (w.chooses c).isSome = false) :
    w'.policy.youngTarget = w.policy.youngTarget := by
  cases h with
  | kept _ _ _ hplan => exact congrArg Plan.youngTarget hplan
  | resized _ _ _ hplan => exact congrArg Plan.youngTarget hplan
  | chosen hchooses' =>
    rw [hchooses'] at hchooses
    cases hchooses

/-- A new size of the heap moves the minimum and leaves the target. -/
theorem Planned.of_resized {regions : Nat} (h : Planned w c w') (hc : c.resized? = some regions) :
    w'.policy.youngTarget = w.policy.youngTarget ∧
      w'.policy.sizer = w.policy.sizer.forHeap regions := by
  cases h with
  | kept _ _ hresized => exact nomatch hresized.symm.trans hc
  | resized _ _ hresized hplan =>
    cases hresized.symm.trans hc
    exact ⟨congrArg Plan.youngTarget hplan, congrArg Plan.sizer hplan⟩
  | chosen _ hresized => exact nomatch hresized.symm.trans hc

/-- Only a new size moves the minimum. -/
theorem Planned.sizer_eq (h : Planned w c w') (hc : c.resized? = none) :
    w'.policy.sizer = w.policy.sizer := by
  cases h with
  | kept _ _ _ hplan => exact congrArg Plan.sizer hplan
  | resized _ _ hresized => exact nomatch hresized.symm.trans hc
  | chosen _ _ hchosen => exact congrArg Plan.sizer hchosen.plan

theorem Planned.chosenFor (h : Planned w c w') (hw : ChosenFor s z sizes w.policy) :
    ChosenFor s z (sizes.after ⟨w, c⟩) w'.policy := by
  obtain ⟨free, hcurrent⟩ := hw.current
  have hcurrent' := h.current hcurrent
  refine ⟨⟨_, hcurrent'⟩, ?_⟩
  unfold HeapSizes.after
  simp only
  cases hchooses : (w.chooses c).isSome with
  | true =>
    have hsizer : w'.policy.sizer = z.forHeap (c.resized?.getD sizes.told) := hcurrent'.sizer
    rw [if_pos rfl, ← hsizer]
    exact (h.tracksHeap hchooses).least_le
  | false =>
    rw [if_neg nofun, h.youngTarget_eq hchooses]
    exact hw.least_le

theorem chosenFor_of_traces {allowed : List (Moment α) → Call α → Bool} {w₀ : World α}
    {t : List (Moment α)} {regions : Nat} (hrun : Traces allowed w₀ t w)
    (h₀ : ChosenFor s z ⟨regions, regions⟩ w₀.policy) :
    ChosenFor s z (heapSizes regions t) w.policy := by
  induction hrun with
  | start => exact h₀
  | call _ _ hcall ih =>
    rw [heapSizes, List.foldl_append]
    exact (World.planned_of_call hcall).chosenFor ih

/-- In a heap that is no larger than when the length was chosen the target reaches the minimum. -/
theorem ChosenFor.tracksHeap (h : ChosenFor s z sizes p) (hle : sizes.told ≤ sizes.chosenFor) :
    p.TracksHeap := by
  refine Policy.tracksHeap_iff.mpr ?_
  calc p.sizer.least
      = (z.forHeap sizes.told).least := congrArg Sizer.least h.sizer_eq
    _ ≤ (z.forHeap sizes.chosenFor).least := (z.boundsAt_mono hle).1
    _ ≤ p.youngTarget := h.least_le

end

theorem chosenFor_opening {s : Settings α} {z : Sizer} {heap : Heap α} {now : α} {unbounded : Nat}
    {p : Policy α} (h : Policy.Opening s z heap now unbounded p) :
    ChosenFor s z ⟨heap.regions, heap.regions⟩ p := by
  obtain ⟨_, hsized⟩ := h.sized
  refine ⟨⟨_, h.current⟩, ?_⟩
  rw [← h.sizer]
  exact hsized.tracksHeap.least_le

/-- Over every run from a start the target reaches the minimum of the sizer for the size that the
heap had been told to have when a length was chosen last. So it reaches the minimum for the heap as
it is now, and the fixed length if there is one, unless the heap was told to have grown since then.
Every call that chooses restores this, no call but a new size of the heap loses it, and a new size
loses it just if the minimum for that size is above the target, which it leaves alone. -/
theorem target_tracks_heap_of_last_choice (settings : Settings α) (heap : Heap α) (now : α)
    (fullCauses : List Cause) {before after : Journal α} {policy : Policy α}
    (hstart : (Policy.start settings heap now fullCauses).outcome before =
      (.ok (.ok policy), after)) :
    policy.TracksHeap ∧
      ∃ z, Sizer.Chosen settings (.ok z) ∧
        ∀ t w, Traces anyCall (.opened policy after) t w →
          let sizes := heapSizes heap.regions t
          w.policy.sizer = z.forHeap sizes.told ∧
            (z.forHeap sizes.chosenFor).least ≤ w.policy.youngTarget ∧
            (sizes.told ≤ sizes.chosenFor → w.policy.TracksHeap) ∧
            ∀ c w', w.call c = .ok w' →
              ((w.chooses c).isSome = true → w'.policy.TracksHeap) ∧
              (c.resized? = none → w.policy.TracksHeap → w'.policy.TracksHeap) ∧
              ∀ regions, c.resized? = some regions →
                w'.policy.youngTarget = w.policy.youngTarget ∧
                  (w'.policy.TracksHeap ↔
                    (z.forHeap regions).least ≤ w.policy.youngTarget) := by
  obtain ⟨_, _, hopening⟩ :=
    (Policy.start_meets_opening settings heap now fullCauses).reports _ _ _ hstart
  obtain ⟨z, unbounded, _, hopening⟩ := hopening policy rfl
  have hchosen := chosenFor_opening hopening
  refine ⟨hchosen.tracksHeap (Nat.le_refl _), z, hopening.chosen, fun t w hrun => ?_⟩
  have hw := chosenFor_of_traces hrun hchosen
  refine ⟨hw.sizer_eq, hw.least_le, hw.tracksHeap, fun c w' hcall => ?_⟩
  have hplanned := World.planned_of_call hcall
  refine ⟨hplanned.tracksHeap, fun hsame htracks => ?_, fun regions hresized => ?_⟩
  · cases hchooses : (w.chooses c).isSome with
    | true => exact hplanned.tracksHeap hchooses
    | false =>
      rw [Policy.tracksHeap_iff, hplanned.sizer_eq hsame, hplanned.youngTarget_eq hchooses]
      exact htracks.least_le
  · obtain ⟨htarget, hsizer⟩ := hplanned.of_resized hresized
    refine ⟨htarget, ?_⟩
    rw [Policy.tracksHeap_iff, htarget, hsizer, hw.sizer_eq, Sizer.forHeap_forHeap]

/-- A heap that was told to have grown a hundredfold, and the next pause. -/
theorem target_tracks_heap_after_growth_and_pause :
    let calls := .chore (.resize 10000) :: plainPause plainHeap 10 []
    ∃ (policy : Policy Rat) (after : Journal Rat) (t : List (Moment Rat)) (w : World Rat),
      (Policy.start predictedSettings plainHeap 1 []).outcome {} = (.ok (.ok policy), after) ∧
        Traces anyCall (.opened policy after) t w ∧ t.map Moment.call = calls ∧
        (heapSizes plainHeap.regions t).told = 10000 ∧
        (heapSizes plainHeap.regions t).told ≤ (heapSizes plainHeap.regions t).chosenFor ∧
        w.policy.TracksHeap := by
  intro calls
  obtain ⟨policy, after, t, w, hstart, hrun, hcalls, hends⟩ :=
    exists_trace anyCall predictedSettings plainHeap 1 calls
      (P := fun t _ => decide ((heapSizes plainHeap.regions t).told = 10000 ∧
        (heapSizes plainHeap.regions t).chosenFor = 10000))
      (by decide +kernel)
  obtain ⟨htold, hchosen⟩ := of_decide_eq_true hends
  obtain ⟨_, _, _, hruns⟩ :=
    target_tracks_heap_of_last_choice predictedSettings plainHeap 1 [] hstart
  have hle : (heapSizes plainHeap.regions t).told ≤ (heapSizes plainHeap.regions t).chosenFor := by
    rw [htold, hchosen]
  exact ⟨policy, after, t, w, hstart, hrun, hcalls, htold, hle, (hruns t w hrun).2.2.1 hle⟩

/-- Between the new size and that pause the target is below the minimum. -/
theorem target_below_minimum_after_growth :
    ∃ (policy : Policy Rat) (after : Journal Rat) (w : World Rat),
      (Policy.start predictedSettings plainHeap 1 []).outcome {} = (.ok (.ok policy), after) ∧
        (World.opened policy after).run [.chore (.resize 10000)] = .ok w ∧
        w.policy.youngTarget < w.policy.sizer.least ∧ ¬ w.policy.TracksHeap := by
  obtain ⟨policy, after, w, hstart, hrun, hends⟩ :=
    exists_openedRun predictedSettings plainHeap 1 [.chore (.resize 10000)]
      (P := fun _ w => decide (w.policy.youngTarget < w.policy.sizer.least))
      (by decide +kernel)
  have hbelow := of_decide_eq_true hends
  exact ⟨policy, after, w, hstart, hrun, hbelow,
    fun htracks => absurd htracks.least_le (Nat.not_le.mpr hbelow)⟩

end Collector

end PauseGoal
