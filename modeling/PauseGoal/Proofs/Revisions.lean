import PauseGoal.Proofs.Register
import PauseGoal.Proofs.YoungEnvelope

/-!
# How often the young generation is revised

While mutators run the young generation is shortened when its remembered sets turn out longer than
expected. A revision expects a tenth more than was found, so that the looks after it change nothing.
The expectation is only kept while young collections run, though. In the mixed phase the entries
that were found are forgotten, and every look that finds more than were expected when the phase
began chooses the lengths again and reports them. Remembered sets have no part in the choice then:
it comes to the lengths that were there.
-/

namespace PauseGoal

open Checked (Meets)
open Young (Target)

variable {α : Type}

namespace Policy

/-! ## The expectation -/

theorem expectEntries_of_youngOnly {p : Policy α} (hadaptive : p.isAdaptive = true)
    (hyoung : p.phases.youngOnly = true) (entries : Nat) :
    p.expectEntries entries = { p with expectedEntries := entries } := by
  rw [expectEntries, hyoung, hadaptive]
  rfl

theorem expectEntries_of_not_youngOnly {p : Policy α} (hother : p.phases.youngOnly = false)
    (entries : Nat) : p.expectEntries entries = p := by
  rw [expectEntries, hother]
  rfl

variable [Scalar α]

/-- No more entries than expected are no reason to revise anything. -/
theorem revise_of_le {p : Policy α} (hadaptive : p.isAdaptive = true) {entries : Nat}
    (hfewer : entries ≤ p.expectedEntries) (heap : Heap α) (now : α) (journal : Journal α) :
    (p.revise heap now entries).outcome journal = (.ok p, journal) := by
  unfold revise demand
  rw [if_pos hadaptive, if_neg (Nat.not_lt.mpr hfewer)]
  rfl

theorem revise_of_lt {p : Policy α} (hadaptive : p.isAdaptive = true) {entries : Nat}
    (hmore : p.expectedEntries < entries) (hword : entries * 1100 < wordBound) (heap : Heap α)
    (now : α) :
    p.revise heap now entries = (do
      let (_, q) ← (p.expectEntries (entries * 1100 / 1000)).chooseYoungLengthFor heap now
        (entries * 1100 / 1000)
      return q) := by
  have hscaled : Word.mul entries 1100 = (.ok (entries * 1100) : Checked α Nat) := if_pos hword
  unfold revise demand
  rw [if_pos hadaptive, if_pos hmore, hscaled]
  rfl

/-! ## Choices without a search -/

open Act (meets_ofChecked meets_report)

/-- What a choice outside the young-only phase computes: the minimum as it is clamped, and how far
the young generation may grow. No length is asked whether it fits. -/
structure Computes (p : Policy α) (heap : Heap α) (now : α) (target : Target) (maximum : Nat) :
    Prop where
  bounded : ∃ bounds, p.youngBounds heap now = .ok bounds ∧
    ∀ fits, bounds.target heap.survivors.length false fits = (.ok target : Checked α Target)
  timed : ∃ time, p.survivorTime heap = .ok time
  added : Word.add target.bounded (p.youngExpansion target.bounded) =
    (.ok maximum : Checked α Nat)

theorem chooseYoungLengthFor_computes {p : Policy α} (hother : p.phases.youngOnly = false)
    (heap : Heap α) (now : α) (entries : Nat) :
    (p.chooseYoungLengthFor heap now entries).Returns fun r =>
      p.Computes heap now ⟨r.2.youngTarget, r.1⟩ r.2.youngMaximum := by
  have target_eq {bounds : Young.Bounds} {fits : Nat → Checked α Bool} {target : Target}
      (h : bounds.target heap.survivors.length p.phases.youngOnly fits = .ok target) :
      ∀ fits', bounds.target heap.survivors.length false fits' =
        (.ok target : Checked α Target) := by
    intro fits'
    rw [← h, hother]
    unfold Young.Bounds.target
    cases bounds.fixed <;> rfl
  unfold chooseYoungLengthFor youngTargetFor
  simp only [bind_assoc]
  refine (Act.returns_ofChecked fun bounds h => h).bind fun bounds hbounds => ?_
  refine (Act.returns_ofChecked fun time h => h).bind fun time htime => ?_
  refine (Act.returns_ofChecked fun target h => target_eq h).bind fun target htarget => ?_
  refine Act.returns_bind fun _ => ?_
  simp only [pure_bind]
  refine (Act.returns_ofChecked fun maximum h => h).bind fun maximum hmaximum => ?_
  exact Act.returns_bind fun _ => Act.returns_pure
    ⟨⟨bounds, hbounds, htarget⟩, ⟨time, htime⟩, hmaximum⟩

/-- Whatever entries there are, such a choice comes to the same lengths. -/
theorem Computes.chooseYoungLengthFor_meets {p : Policy α} {heap : Heap α} {now : α}
    {target : Target} {maximum : Nat} (h : p.Computes heap now target maximum)
    (hother : p.phases.youngOnly = false) (entries : Nat) :
    (p.chooseYoungLengthFor heap now entries).Meets
      (fun r events =>
        events = [.youngTarget target.bounded target.unbounded maximum] ∧
        r = (target.unbounded,
          { p with youngTarget := target.bounded, youngMaximum := maximum }))
      fun _ => False := by
  obtain ⟨⟨bounds, hbounds, htarget⟩, ⟨time, htime⟩, hadded⟩ := h
  have known {β : Type} {x : Checked α β} {b : β} (hx : x = .ok b) :
      Meets x (fun c => c = b) fun _ => False := by
    rw [hx]
    exact rfl
  have htarget : (p.youngTargetFor heap now entries).Meets
      (fun t events => events = [] ∧ t = target) fun _ => False := by
    refine (meets_ofChecked (known hbounds)).bind_silent ?_
    rintro _ rfl
    refine (meets_ofChecked (known htime)).bind_silent fun _ _ => ?_
    refine (meets_ofChecked (known (hother ▸ htarget _))).bind_silent ?_
    rintro _ rfl
    exact (Act.meets_write _ _ _).bind_silent fun _ _ => Act.meets_pure ⟨rfl, rfl⟩
  refine htarget.bind_silent ?_
  rintro _ rfl
  refine (meets_ofChecked (known hadded)).bind_silent ?_
  rintro _ rfl
  refine (meets_report _).bind ?_
  rintro _ _ rfl
  exact Act.meets_pure ⟨rfl, rfl⟩

/-- A revision in the mixed phase leaves the expectation as it is. -/
theorem revise_meets_of_not_youngOnly {p : Policy α} (hadaptive : p.isAdaptive = true)
    (hother : p.phases.youngOnly = false) {entries : Nat} (hmore : p.expectedEntries < entries)
    (hword : entries * 1100 < wordBound) (heap : Heap α) (now : α) :
    (p.revise heap now entries).Meets
      (fun q events => ∃ target maximum, p.Computes heap now target maximum ∧
        events = [.youngTarget target.bounded target.unbounded maximum] ∧
        q = { p with youngTarget := target.bounded, youngMaximum := maximum })
      (p.SizingFault heap now) := by
  rw [revise_of_lt hadaptive hmore hword, expectEntries_of_not_youngOnly hother]
  refine ((p.chooseYoungLengthFor_meets heap now _).and_returns
    (chooseYoungLengthFor_computes hother heap now _)).bind ?_
  rintro ⟨unbounded, q⟩ _ ⟨⟨rfl, hq, _⟩, hcomputes⟩
  exact Act.meets_pure ⟨⟨q.youngTarget, unbounded⟩, q.youngMaximum, hcomputes, rfl, hq⟩

theorem Computes.revise_meets {p : Policy α} {heap : Heap α} {now : α} {target : Target}
    {maximum : Nat} (h : p.Computes heap now target maximum) (hadaptive : p.isAdaptive = true)
    (hother : p.phases.youngOnly = false) {entries : Nat} (hmore : p.expectedEntries < entries)
    (hword : entries * 1100 < wordBound) :
    (p.revise heap now entries).Meets
      (fun q events => events = [.youngTarget target.bounded target.unbounded maximum] ∧
        q = { p with youngTarget := target.bounded, youngMaximum := maximum })
      fun _ => False := by
  rw [revise_of_lt hadaptive hmore hword, expectEntries_of_not_youngOnly hother]
  refine (h.chooseYoungLengthFor_meets hother _).bind ?_
  rintro ⟨_, q⟩ _ ⟨rfl, hq⟩
  exact Act.meets_pure ⟨rfl, congrArg Prod.snd hq⟩

/-! ## One revision after another -/

theorem RevisionFault.sizingFault {p : Policy α} {heap : Heap α} {now : α} {entries : Nat}
    {fault : Fault α} (h : p.RevisionFault heap now entries fault) (hadaptive : p.isAdaptive = true)
    (hword : entries * 1100 < wordBound) : p.SizingFault heap now fault := by
  cases h with
  | fixed hfixed => exact nomatch hfixed.symm.trans hadaptive
  | scaled hover => exact absurd hword (Nat.not_lt.mpr hover)
  | sizing h => exact h

/-- While young collections run a revision expects at least what it found. -/
theorem revise_expects {p : Policy α} (hadaptive : p.isAdaptive = true) {entries : Nat}
    (hword : entries * 1100 < wordBound) (heap : Heap α) (now : α) :
    (p.revise heap now entries).Meets
      (fun q _ => q.isAdaptive = true ∧
        (p.phases.youngOnly = true ∨ entries ≤ p.expectedEntries → entries ≤ q.expectedEntries))
      (p.SizingFault heap now) := by
  refine (p.revised_meets heap now entries).mono ?_ fun _ h => h.sizingFault hadaptive hword
  rintro q _ (⟨hfewer, _, rfl⟩ | ⟨hmore, _, _, _, hq⟩)
  · exact ⟨hadaptive, fun _ => Nat.le_of_not_lt hfewer⟩
  · obtain ⟨_, hexpected⟩ := p.expectEntries_eq (entries * 1100 / 1000)
    refine ⟨by rw [hq, hexpected]; exact hadaptive, ?_⟩
    rintro (hyoung | hfewer)
    · rw [hq, expectEntries_of_youngOnly hadaptive hyoung]
      show entries ≤ entries * 1100 / 1000
      omega
    · exact absurd hmore (Nat.not_lt.mpr hfewer)

/-- After a revision, another one for no more entries changes nothing and reports nothing, if young
collections run or the first one found no more than expected. In the mixed phase all that more
entries than expected do is that the same lengths are reported again, at every look. -/
theorem revision_settles_while_young_only {p : Policy α} (hadaptive : p.isAdaptive = true)
    {entries : Nat} (hword : entries * 1100 < wordBound) (heap : Heap α) (now : α) :
    (p.revise heap now entries).Meets
      (fun q events =>
        (p.phases.youngOnly = true ∨ entries ≤ p.expectedEntries →
          ∀ heap' later entries' journal, entries' ≤ entries →
            (q.revise heap' later entries').outcome journal = (.ok q, journal)) ∧
        (p.phases.youngOnly = false → ∀ entries', p.expectedEntries < entries' →
          entries' ≤ entries →
            (q.revise heap now entries').Meets
              (fun r again => r = q ∧ again = events ∧ again ≠ []) fun _ => False))
      (p.SizingFault heap now) := by
  have settled := revise_expects hadaptive hword heap now
  by_cases hmixed : p.phases.youngOnly = false ∧ p.expectedEntries < entries
  · obtain ⟨hother, hmore⟩ := hmixed
    refine (revise_meets_of_not_youngOnly hadaptive hother hmore hword heap now).mono ?_
      fun _ h => h
    rintro _ _ ⟨target, maximum, ⟨hbounded, htimed, hadded⟩, rfl, rfl⟩
    refine ⟨?_, fun _ entries' hmore' hle => ?_⟩
    · rintro (hyoung | hfewer)
      · exact nomatch hother.symm.trans hyoung
      · exact absurd hmore (Nat.not_lt.mpr hfewer)
    · -- the lengths that the first one set have no part in the second
      have hagain : Computes { p with youngTarget := target.bounded, youngMaximum := maximum }
          heap now target maximum := ⟨hbounded, htimed, hadded⟩
      refine (hagain.revise_meets hadaptive hother hmore'
        (Nat.lt_of_le_of_lt (Nat.mul_le_mul_right 1100 hle) hword)).mono ?_ fun _ h => h
      rintro _ _ ⟨rfl, rfl⟩
      exact ⟨rfl, rfl, nofun⟩
  · refine settled.mono ?_ fun _ h => h
    rintro q events ⟨hq, hexpects⟩
    refine ⟨fun h heap' later entries' journal hle => ?_, fun hother entries' hmore' hle => ?_⟩
    · exact revise_of_le hq (Nat.le_trans hle (hexpects h)) heap' later journal
    · exact absurd ⟨hother, Nat.lt_of_lt_of_le hmore' hle⟩ hmixed

end Policy

namespace Collector

/-- A policy that has just started revises its lengths, and a second look changes nothing. -/
theorem revision_settles_after_start :
    ∃ (policy q : Policy Rat) (after journal : Journal Rat),
      (Policy.start predictedSettings plainHeap 1 []).outcome {} = (.ok (.ok policy), after) ∧
        policy.isAdaptive = true ∧ 100 * 1100 < wordBound ∧ policy.phases.youngOnly = true ∧
        policy.expectedEntries < 100 ∧
        (policy.revise plainHeap 2 100).outcome after = (.ok q, journal) ∧
        (q.revise plainHeap 3 100).outcome journal = (.ok q, journal) := by
  obtain ⟨policy, after, w, hstart, hrun, hends⟩ :=
    exists_openedRun predictedSettings plainHeap 1 []
      (P := fun policy w => (policy.isAdaptive && policy.phases.youngOnly) &&
        (decide (policy.expectedEntries < 100) &&
          (w.call (.chore (.revise plainHeap 2 100))).toBool))
      (by decide +kernel)
  cases hrun
  obtain ⟨hpolicy, hends⟩ := Bool.and_eq_true_iff.mp hends
  obtain ⟨hadaptive, hyoung⟩ := Bool.and_eq_true_iff.mp hpolicy
  obtain ⟨hfewer, hcalled⟩ := Bool.and_eq_true_iff.mp hends
  obtain ⟨v, hcall⟩ := Checked.exists_of_toBool hcalled
  obtain ⟨w₁, hperform, _⟩ := World.exists_perform_of_call hcall
  obtain ⟨q, journal, hout, _⟩ := World.exists_of_act_eq_ok hperform
  have hword : 100 * 1100 < wordBound := by decide
  obtain ⟨_, _, hsettles, _⟩ := (Policy.revision_settles_while_young_only hadaptive hword
    plainHeap 2).reports _ _ _ hout
  exact ⟨policy, q, after, journal, hstart, hadaptive, hword, hyoung, of_decide_eq_true hfewer,
    hout, hsettles (.inl hyoung) plainHeap 3 100 journal (Nat.le_refl 100)⟩

/-- Once the mixed phase began, two looks that find the same entries both report the lengths. -/
theorem revision_repeats_in_mixed_phase :
    let calls := plainCycle 10 20 ++ plainPause plainHeap 20 []
    let look := Call.chore (.revise plainHeap 30 100)
    ∃ (policy : Policy Rat) (after : Journal Rat) (u v w : World Rat),
      (Policy.start predictedSettings plainHeap 1 []).outcome {} = (.ok (.ok policy), after) ∧
        (World.opened policy after).run calls = .ok u ∧ u.policy.isAdaptive = true ∧
        u.policy.phases.mixed = true ∧ 100 * 1100 < wordBound ∧
        u.call look = .ok v ∧ v.call look = .ok w ∧
        w.journal.lengths.length = v.journal.lengths.length + 1 := by
  intro calls look
  obtain ⟨policy, after, u, hstart, hrun, hends⟩ :=
    exists_openedRun predictedSettings plainHeap 1 calls
      (P := fun _ u => (u.policy.isAdaptive && u.policy.phases.mixed) &&
        (u.call look).toOption.any fun v => (v.call look).toOption.any fun w =>
          decide (w.journal.lengths.length = v.journal.lengths.length + 1))
      (by decide +kernel)
  obtain ⟨hpolicy, hends⟩ := Bool.and_eq_true_iff.mp hends
  obtain ⟨hadaptive, hmixed⟩ := Bool.and_eq_true_iff.mp hpolicy
  obtain ⟨v, hv, hends⟩ := Checked.exists_of_any_toOption hends
  obtain ⟨w, hw, hends⟩ := Checked.exists_of_any_toOption hends
  exact ⟨policy, after, u, v, w, hstart, hrun, hadaptive, hmixed, by decide, hv, hw,
    of_decide_eq_true hends⟩

end Collector

end PauseGoal
