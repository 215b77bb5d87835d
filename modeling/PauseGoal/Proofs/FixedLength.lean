import PauseGoal.Proofs.Exact
import PauseGoal.Proofs.YoungRuns

/-!
# A young generation of fixed length

Explicit sizes that come to the same number of regions, or a ratio without explicit sizes, fix the
length of the young generation. Each choice of a length still runs through the floor, the maxima and
the clamp, but these cancel: the target is the fixed length, or what survivors and eden take.
The fixed length is a function of the settings and of the size of the heap that was told last, and
nothing else that a choice reads has a part in the target.
-/

namespace PauseGoal

open Checked (Meets)
open Young (Sizer)

variable {α : Type}

/-! ## The settings that fix the length -/

/-- The length that the settings fix in a heap of the given size, if they fix one. -/
def Settings.fixedLength (s : Settings α) (heapRegions : Nat) : Option Nat :=
  match s.leastYoungSize, s.largestYoungSize with
  | some least, some largest =>
    let length := Sizer.regionsIn least s.regionSize
    if length = Sizer.regionsIn largest s.regionSize then some length else none
  | none, none => s.oldPerYoung.map fun old => Nat.max (heapRegions / (old + 1)) 1
  | _, _ => none

namespace Young.Sizer

/-- A sizer leaves the length to predictions unless the settings fix it. Then it gives that length
as minimum and as maximum for every heap. -/
theorem Chosen.fixedLength_eq {s : Settings α} {z : Sizer} (h : Chosen s (.ok z))
    (heapRegions : Nat) :
    (z.adaptive = true ∧ s.fixedLength heapRegions = none) ∨
    (z.adaptive = false ∧ s.fixedLength heapRegions = some (z.forHeap heapRegions).least ∧
      (z.forHeap heapRegions).largest = (z.forHeap heapRegions).least) := by
  cases h with
  | @sizes least largest hleast hlargest hordered =>
    simp only [Settings.fixedLength, hleast, hlargest]
    by_cases hsame : regionsIn least s.regionSize = regionsIn largest s.regionSize
    · exact .inr ⟨bne_eq_false_iff_eq.mpr hsame, if_pos hsame, hsame.symm⟩
    · exact .inl ⟨bne_iff_ne.mpr hsame, if_neg hsame⟩
  | leastSize hleast hlargest =>
    exact .inl ⟨rfl, by rw [Settings.fixedLength, hleast, hlargest]⟩
  | largestSize hleast hlargest =>
    exact .inl ⟨rfl, by rw [Settings.fixedLength, hleast, hlargest]⟩
  | @ratio old hleast hlargest hold =>
    refine .inr ⟨rfl, ?_, rfl⟩
    rw [Settings.fixedLength, hleast, hlargest, hold]
    rfl
  | percentages hleast hlargest hold =>
    refine .inl ⟨rfl, ?_⟩
    rw [Settings.fixedLength, hleast, hlargest, hold]
    rfl

theorem Chosen.adaptive_eq {s : Settings α} {z : Sizer} (h : Chosen s (.ok z))
    (heapRegions : Nat) : z.adaptive = (s.fixedLength heapRegions).isNone := by
  rcases h.fixedLength_eq heapRegions with ⟨hadaptive, hnone⟩ | ⟨hfixed, hsome, _⟩
  · rw [hadaptive, hnone]
    rfl
  · rw [hfixed, hsome]
    rfl

/-- The bounds of a sizer whose length is fixed. -/
theorem Chosen.forHeap_of_fixed {s : Settings α} {z : Sizer} (h : Chosen s (.ok z))
    {heapRegions length : Nat} (hlength : s.fixedLength heapRegions = some length) :
    z.adaptive = false ∧ (z.forHeap heapRegions).least = length ∧
      (z.forHeap heapRegions).largest = length := by
  rcases h.fixedLength_eq heapRegions with ⟨_, hnone⟩ | ⟨hfixed, hsome, hlargest⟩
  · exact nomatch hnone.symm.trans hlength
  · have hleast := Option.some.inj (hsome.symm.trans hlength)
    exact ⟨hfixed, hleast, hlargest.trans hleast⟩

end Young.Sizer

/-! ## One choice -/

namespace Policy

variable [Scalar α] {p q : Policy α} {heap heap' : Heap α} {now now' : α}

/-- No count that a choice of a fixed length makes overflows, and the survivors are regions that
were handed out. -/
structure FixedCountsFit (p : Policy α) (heap : Heap α) : Prop where
  present : heap.survivors.length + max heap.eden 1 < wordBound
  expanded : fixedTarget p.sizer.least heap + p.youngExpansion (fixedTarget p.sizer.least heap) <
    wordBound
  known : ∀ r ∈ heap.survivors, p.Knows r

theorem FixedCountsFit.choosable (h : p.FixedCountsFit heap) (hfixed : p.isAdaptive = false) :
    p.Choosable heap now 0 where
  estimated := regionsUntilPause_of_fixed hfixed now
  allocated := Nat.lt_of_le_of_lt (Nat.le_add_right _ _) h.present
  present := h.present
  known := h.known
  room := fun hadaptive => nomatch hfixed.symm.trans hadaptive
  maximum := by
    intro unbounded hasks
    rw [(clamp_of_fixed hfixed (regionsUntilPause_of_fixed hfixed now) hasks).2]
    exact h.expanded

theorem chooseYoungLengthFor_of_fixed (hfixed : p.isAdaptive = false) (entries : Nat) :
    (p.chooseYoungLengthFor heap now entries).Meets
      (fun r _ => r.1 = p.sizer.least ∧ r.2.youngTarget = fixedTarget p.sizer.least heap)
      fun _ => True := by
  refine (p.chooseYoungLengthFor_meets heap now entries).mono ?_ fun _ _ => trivial
  rintro ⟨unbounded, q⟩ _ ⟨_, hq, estimate, hsized⟩
  have hq : q = { p with youngTarget := q.youngTarget, youngMaximum := q.youngMaximum } := hq
  have hsizer : q.sizer = p.sizer := by rw [hq]
  rw [← hsizer]
  rw [isAdaptive, ← hsizer] at hfixed
  exact hsized.of_fixed hfixed

/-- Policies with the same sizer, whatever else they went through, set the same length for heaps
with as many survivors and as much eden. -/
theorem youngTarget_eq_of_fixed {entries entries' : Nat} {journal journal' after after' : Journal α}
    {r r' : Nat × Policy α} (hfixed : p.isAdaptive = false) (hsizer : q.sizer = p.sizer)
    (hsurvivors : heap'.survivors.length = heap.survivors.length) (heden : heap'.eden = heap.eden)
    (hp : (p.chooseYoungLengthFor heap now entries).outcome journal = (.ok r, after))
    (hq : (q.chooseYoungLengthFor heap' now' entries').outcome journal' = (.ok r', after')) :
    r'.1 = r.1 ∧ r'.2.youngTarget = r.2.youngTarget := by
  have hfixed' : q.isAdaptive = false := by
    rw [isAdaptive, hsizer]
    exact hfixed
  obtain ⟨_, _, hasked, htarget⟩ := (chooseYoungLengthFor_of_fixed hfixed entries).reports _ _ _ hp
  obtain ⟨_, _, hasked', htarget'⟩ :=
    (chooseYoungLengthFor_of_fixed hfixed' entries').reports _ _ _ hq
  refine ⟨hasked'.trans (hsizer ▸ hasked.symm), htarget'.trans ?_⟩
  rw [htarget, fixedTarget, fixedTarget, hsizer, hsurvivors, heden]

/-- A choice of a fixed length was made from the heap, and the lengths reported before and after
differ by it. -/
def ChoseFixed (p : Policy α) (length : Nat) (heap : Heap α) (before after : List Young.Lengths) :
    Prop :=
  p.youngTarget = fixedTarget length heap ∧
    after = before ++ [⟨p.youngTarget, length, p.youngMaximum⟩]

theorem Sized.choseFixed {length estimate unbounded : Nat} {before after : List Young.Lengths}
    (h : p.Sized heap now estimate unbounded) (hfixed : p.isAdaptive = false)
    (hleast : p.sizer.least = length)
    (hlengths : after = before ++ [⟨p.youngTarget, unbounded, p.youngMaximum⟩]) :
    p.ChoseFixed length heap before after := by
  obtain ⟨hasked, htarget⟩ := h.of_fixed hfixed
  exact ⟨hleast ▸ htarget, hlengths.trans (by rw [hasked, hleast])⟩

end Policy

/-! ## All choices of a run -/

namespace Collector

variable [Scalar α]

/-- The settings alone decide whether a policy leaves its length to predictions. If they fix it,
minimum and maximum of the sizer are the fixed length for the last size of the heap, whatever calls
there were, and every choice, the first one included, sets and reports what that length and the
regions already taken come to. -/
theorem young_length_of_fixed_settings (s : Settings α) (heap : Heap α) (now : α)
    (fullCauses : List Cause) (before : Journal α) :
    (∀ policy after,
      (Policy.start s heap now fullCauses).outcome before = (.ok (.ok policy), after) →
        (∀ length, s.fixedLength heap.regions = some length →
          policy.ChoseFixed length heap before.lengths after.lengths) ∧
        ∀ calls w, (World.opened policy after).run calls = .ok w →
          w.policy.isAdaptive = (s.fixedLength (regionsAfter heap.regions calls)).isNone ∧
          w.policy.isAdaptive = policy.isAdaptive ∧
          ∀ length, s.fixedLength (regionsAfter heap.regions calls) = some length →
            w.policy.sizer.least = length ∧ w.policy.sizer.largest = length ∧
            ∀ c present moment, w.chooses c = some (present, moment) →
              ∀ w', w.call c = .ok w' →
                w'.policy.ChoseFixed length present w.journal.lengths w'.journal.lengths) ∧
    (∀ (p : Policy α) present moment entries, p.isAdaptive = false → p.FixedCountsFit present →
      (p.chooseYoungLengthFor present moment entries).Succeeds) ∧
    ∀ (p q : Policy α) present present' moment moment' entries entries' journal journal' after
      after' r r', p.isAdaptive = false → q.sizer = p.sizer →
        present'.survivors.length = present.survivors.length → present'.eden = present.eden →
        (p.chooseYoungLengthFor present moment entries).outcome journal = (.ok r, after) →
        (q.chooseYoungLengthFor present' moment' entries').outcome journal' = (.ok r', after') →
        r'.1 = r.1 ∧ r'.2.youngTarget = r.2.youngTarget := by
  refine ⟨fun policy after hstart => ?_,
    fun p present moment entries hfixed hfit =>
      ((hfit.choosable hfixed).chooseYoungLengthFor_meets entries).succeeds,
    fun p q _ _ _ _ _ _ _ _ _ _ _ _ hfixed hsizer hsurvivors heden hp hq =>
      Policy.youngTarget_eq_of_fixed hfixed hsizer hsurvivors heden hp hq⟩
  have hmeets := Policy.start_meets_opening s heap now fullCauses
  obtain ⟨_, happend, hopened⟩ := hmeets.reports _ _ _ hstart
  obtain ⟨z, unbounded, rfl, hopening⟩ := hopened policy rfl
  have hcurrent := hopening.current
  refine ⟨fun length hlength => ?_, fun calls w hrun => ?_⟩
  · obtain ⟨hfixed, hleast, _⟩ := hopening.chosen.forHeap_of_fixed hlength
    obtain ⟨estimate, hsized⟩ := hopening.sized
    exact hsized.choseFixed (hcurrent.isAdaptive_eq.trans hfixed)
      ((congrArg Sizer.least hcurrent.sizer).trans hleast) (World.lengths_append happend)
  · have hw := current_of_run hrun hcurrent
    refine ⟨hw.isAdaptive_eq.trans (hopening.chosen.adaptive_eq _),
      hw.isAdaptive_eq.trans hcurrent.isAdaptive_eq.symm, fun length hlength => ?_⟩
    obtain ⟨hfixed, hleast, hlargest⟩ := hopening.chosen.forHeap_of_fixed hlength
    refine ⟨(congrArg Sizer.least hw.sizer).trans hleast,
      (congrArg Sizer.largest hw.sizer).trans hlargest, ?_⟩
    intro c present moment hchooses w' hcall
    have hplanned := World.planned_of_call hcall
    have hw' := hplanned.current hw
    obtain ⟨estimate, unbounded, hsized, hlengths⟩ := hplanned.sized hchooses
    -- a call that chooses a length tells no new size of the heap
    have hresized : c.resized? = none := hplanned.resized?_eq_none hchooses
    rw [hresized] at hw'
    exact hsized.choseFixed (hw'.isAdaptive_eq.trans hfixed)
      ((congrArg Sizer.least hw'.sizer).trans hleast) hlengths

/-- A fixed length of ten regions; the heap becomes smaller after the first pause, and mutators took
twelve regions before the second one ends. -/
theorem fixed_length_at_second_pause :
    let calls := plainPause plainHeap 10 [] ++ [.chore (.resize 80)] ++
      [.beginPause, .decide plainHeap, .startPause plainHeap 20, .transfer 0 false]
    let filled := { plainHeap with eden := 12 }
    ∃ policy after w w',
      (Policy.start plainSettings plainHeap 1 []).outcome {} = (.ok (.ok policy), after) ∧
        (World.opened policy after).run calls = .ok w ∧
        plainSettings.fixedLength (regionsAfter plainHeap.regions calls) = some 10 ∧
        w.call (.endPause filled 21 1000) = .ok w' ∧
        w'.policy.ChoseFixed 10 filled w.journal.lengths w'.journal.lengths ∧
        w'.policy.youngTarget = 12 ∧
        w.policy.isAdaptive = false ∧ w.policy.FixedCountsFit filled ∧
        (w.policy.chooseYoungLengthFor filled 21 100).Succeeds := by
  intro calls filled
  obtain ⟨policy, after, w, hstart, hrun, hends⟩ :=
    exists_openedRun plainSettings plainHeap 1 calls
      (P := fun _ w =>
        (w.call (.endPause { plainHeap with eden := 12 } 21 1000)).toBool &&
          decide (12 + w.policy.youngExpansion 12 < wordBound))
      (by decide +kernel)
  obtain ⟨hcalled, hexpanded⟩ := Bool.and_eq_true_iff.mp hends
  obtain ⟨w', hcall⟩ := Checked.exists_of_toBool hcalled
  have hlength : plainSettings.fixedLength (regionsAfter plainHeap.regions calls) = some 10 := by
    decide
  obtain ⟨hruns, hsucceeds, _⟩ := young_length_of_fixed_settings plainSettings plainHeap 1 [] {}
  obtain ⟨hadaptive, _, hfixed⟩ := (hruns policy after hstart).2 calls w hrun
  obtain ⟨hleast, _, hchoices⟩ := hfixed 10 hlength
  have hchosen := hchoices _ _ _ rfl w' hcall
  rw [hlength] at hadaptive
  have hfit : w.policy.FixedCountsFit filled := by
    refine ⟨by decide, ?_, nofun⟩
    rw [hleast]
    exact of_decide_eq_true hexpanded
  exact ⟨policy, after, w, w', hstart, hrun, hlength, hcall, hchosen, hchosen.1, hadaptive, hfit,
    hsucceeds _ _ _ _ hadaptive hfit⟩

end Collector

end PauseGoal
