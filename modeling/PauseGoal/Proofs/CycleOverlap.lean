import PauseGoal.Proofs.CycleOrder

/-!
# Cycles that overlap

A pause must not start a marking cycle while the last one still marks. The policy demands so at the
end of the pause, and a request that comes while a cycle is on waits at the start of one, with one
exception: a request on behalf of somebody who asked for a concurrent cycle is taken up although
marking runs. Over every run in order, with a heap that knows of its cycle:

* as long as this does not happen, no demand on phases, flag and measurement fails, and no initial
  mark is scheduled while marking runs;
* when it happens, an initial mark is scheduled while marking runs, and the pause cannot end: unless
  a full collection takes its place the demand at its end fails.
-/

namespace PauseGoal

/-- Whether a fault is about candidates only. -/
def Fault.aboutCandidates {α : Type} : Fault α → Bool
  | .noCandidates | .optionalOutsideMixed | .noOptionalCandidates => true
  | _ => false

/-- Whether a fault is a failed demand on the phases, the marking flag or the measurement of the
marking length. -/
def Fault.aboutPhases {α : Type} (fault : Fault α) : Bool :=
  fault.aboutCycle && !fault.aboutCandidates

namespace Collector

open Marking (Phases)

variable {α : Type} [Scalar α]

omit [Scalar α] in
/-- While marking runs, the heap says that a cycle does. -/
def truthful (s : Standing α) : Call α → Bool
  | .decide heap => !s.control.phases.marking || heap.cycleRunning
  | _ => true

omit [Scalar α] in
/-- The calls come in order and the heap knows of its cycle. -/
def protocol (s : Standing α) (c : Call α) : Bool := inOrder s c && truthful s c

omit [Scalar α] in
/-- A request for a concurrent cycle is pending at a pause while marking runs. -/
def overlaps (s : Standing α) : Call α → Bool
  | .decide heap =>
    s.control.phases.marking && s.control.pending && heap.cause.asksForMarking
  | _ => false

omit [Scalar α] in
/-- No request overlaps with marking. -/
def careful (s : Standing α) (c : Call α) : Bool := protocol s c && !overlaps s c

/-- The call fails a demand on the phases, or it schedules an initial mark while marking runs. -/
def Breaks (w : World α) (c : Call α) : Prop :=
  (∃ fault, w.call c = .error fault ∧ fault.aboutPhases = true) ∨
    ∃ heap w', c = .decide heap ∧ w.call c = .ok w' ∧
      w'.policy.phases.marking = true ∧ w'.policy.control.scheduled = true

/-! ## The measurement of the marking length -/

/-- When the marking length is measured, outside full collections. -/
structure Measured (s : Standing α) : Prop where
  active : s.control.phases.full = false → s.control.markingLength.active = true →
    s.control.phases.marking = true ∨ s.control.phases.beforeMixed = true ∨
      s.control.phases.youngOnly = false
  scheduled : s.control.phases.full = false → s.control.scheduled = true →
    s.control.markingLength.active = false

theorem measured_start {w : World α} (h : w.Fresh) : Measured w.standing := by
  obtain ⟨settings, _, hstanding⟩ := h.standing_eq
  rw [hstanding]
  exact ⟨nofun, nofun⟩

omit [Scalar α] in
/-- A cycle that may start finds no other one. -/
theorem free_of_mayStart {s : Standing α} {heap : Heap α}
    (htruthful : truthful s (.decide heap) = true)
    (hfree : s.control.mayStart (s.view heap) = true) :
    s.control.phases.marking = false ∧ s.control.phases.beforeMixed = false ∧
      s.control.phases.youngOnly = true := by
  obtain ⟨hnear, hyoung⟩ := Bool.and_eq_true_iff.mp hfree
  obtain ⟨hcycle, hbefore⟩ := Bool.or_eq_false_iff.mp (Bool.not_eq_true' _ ▸ hnear)
  refine ⟨?_, hbefore, hyoung⟩
  cases hmarking : s.control.phases.marking with
  | false => rfl
  | true =>
    rw [truthful, hmarking] at htruthful
    exact absurd (htruthful.symm.trans hcycle) nofun

namespace Measured

variable {s s' : Standing α} {c : Call α}

theorem endPause (h : Measured s) {heap heap' : Heap α} {d : Control α}
    (hend : PauseEnd s.control heap d heap') (candidates : Option OldRegions.Candidates)
    (stage : Stage) (owed : Option Nat) (history : List Mark) :
    Measured ⟨d, candidates, stage, owed, history⟩ := by
  refine ⟨fun _ hactive => ?_, fun _ hs => (hend.flag (Control.scheduled_iff.mp hs)).elim⟩
  rcases hend.measures hactive with hscheduled | ⟨hactive, hkind⟩
  · exact .inl (by simp [hend.marking, hscheduled])
  · rcases h.active hend.outsideFull hactive with hmarking | hbefore | hyoung
    · exact .inl (by simp [hend.marking, hmarking])
    · exact .inr (.inr (by simp [hend.youngOnly, hbefore]))
    · -- a pause that is no mixed one does initial-mark work there or is the last young one
      cases hscheduled : s.control.scheduled with
      | true => exact .inl (by simp [hend.marking, hscheduled])
      | false =>
        cases hbefore : s.control.phases.beforeMixed with
        | true => exact .inr (.inr (by simp [hend.youngOnly, hbefore]))
        | false =>
          exact absurd (Phases.pauseKind_eq_mixed.mpr ⟨hscheduled, hbefore, hyoung⟩) hkind

theorem step (h : Measured s) (hcoherent : Coherent s) (hallowed : protocol s c = true)
    (hstep : Step s c s') : Measured s' := by
  obtain ⟨horder, htruthful⟩ := Bool.and_eq_true_iff.mp hallowed
  cases hstep with
  | quiet hquiet hwaited =>
    obtain ⟨r, hlater, rfl⟩ := hwaited
    refine ⟨h.active, fun hfull hs => h.scheduled hfull ?_⟩
    exact (Control.scheduled_of_later hlater).symm.trans hs
  | decide hdecision =>
    cases hdecision with
    | waits hwaits hlater =>
      refine ⟨h.active, fun hfull hs => h.scheduled hfull ?_⟩
      exact (Control.scheduled_of_later hlater).symm.trans hs
    | starts hpending hfree hflag =>
      obtain ⟨hmarking, hbefore, hyoung⟩ := free_of_mayStart htruthful hfree
      refine ⟨h.active, fun hfull _ => ?_⟩
      cases hactive : s.control.markingLength.active with
      | false => rfl
      | true => simpa [hmarking, hbefore, hyoung] using h.active hfull hactive
    | overrides hpending hbusy hasks hflag => exact ⟨nofun, fun _ _ => rfl⟩
  | endPause hend => exact h.endPause hend _ _ _ _
  | startFull => exact ⟨nofun, nofun⟩
  | endFull hend =>
    refine ⟨fun _ hactive => ?_, fun _ _ => hend.measures⟩
    exact absurd (hend.measures.symm.trans hactive) nofun
  | endRemark hforgot =>
    obtain ⟨l, hl, rfl⟩ := hforgot
    refine ⟨fun hfull hactive => h.active hfull (hl hactive), fun hfull hs => ?_⟩
    cases hactive : l.active with
    | false => rfl
    | true => exact absurd ((h.scheduled hfull hs).symm.trans (hl hactive)) nofun
  | endCleanup hend =>
    obtain ⟨_, hnone, _⟩ := hcoherent.atCleanup (eq_of_beq horder)
    refine ⟨fun _ hactive => .inr (.inl ?_), fun _ hs => ?_⟩
    · rw [hend.phases]
      exact (hend.measures hactive).2
    · rw [Control.scheduled, hend.request] at hs
      exact absurd (hnone.symm.trans hs) nofun
  | finishInitialMark hsettled =>
    obtain ⟨r, hflag, rfl⟩ := hsettled
    exact ⟨h.active, fun _ hs => (hflag (Control.scheduled_iff.mp hs)).elim⟩
  | _ => exact ⟨h.active, h.scheduled⟩

end Measured

/-! ## Initial marks while marking runs -/

/-- No initial mark is scheduled while marking runs. -/
def Apart (s : Standing α) : Prop :=
  s.control.phases.full = false → s.control.scheduled = true → s.control.phases.marking = false

theorem apart_start {w : World α} (h : w.Fresh) : Apart w.standing := by
  obtain ⟨settings, _, hstanding⟩ := h.standing_eq
  rw [hstanding]
  exact nofun

theorem Apart.step {s s' : Standing α} {c : Call α} (h : Apart s)
    (hallowed : careful s c = true) (hstep : Step s c s') : Apart s' := by
  obtain ⟨hprotocol, hcareful⟩ := Bool.and_eq_true_iff.mp hallowed
  obtain ⟨horder, htruthful⟩ := Bool.and_eq_true_iff.mp hprotocol
  cases hstep with
  | quiet hquiet hwaited =>
    obtain ⟨r, hlater, rfl⟩ := hwaited
    intro hfull hs
    exact h hfull ((Control.scheduled_of_later hlater).symm.trans hs)
  | @decide heap _ _ _ hdecision =>
    cases hdecision with
    | waits hwaits hlater =>
      intro hfull hs
      exact h hfull ((Control.scheduled_of_later hlater).symm.trans hs)
    | starts hpending hfree hflag => exact fun _ _ => (free_of_mayStart htruthful hfree).1
    | @overrides _ hpending hbusy hasks hflag =>
      intro _ _
      cases hmarking : s.control.phases.marking with
      | false => rfl
      | true =>
        have hoverlaps : overlaps s (.decide heap) = true := by
          rw [overlaps, hmarking, hpending]
          exact hasks
        rw [hoverlaps] at hcareful
        cases hcareful
  | endPause hend => exact fun _ hs => (hend.flag (Control.scheduled_iff.mp hs)).elim
  | startFull => exact nofun
  | endFull hend => exact fun _ hs => (hend.flag (Control.scheduled_iff.mp hs)).elim
  | endRemark hforgot =>
    obtain ⟨l, _, rfl⟩ := hforgot
    exact h
  | endCleanup hend =>
    intro _ _
    rw [hend.phases]
    rfl
  | finishInitialMark hsettled =>
    obtain ⟨r, hflag, rfl⟩ := hsettled
    exact fun _ hs => (hflag (Control.scheduled_iff.mp hs)).elim
  | _ => exact h

/-! ## When the demands hold -/

theorem Reaches.measured {w₀ w : World α} (hfresh : w₀.Fresh) (hrun : Reaches protocol w₀ w) :
    Coherent w.standing ∧ Measured w.standing :=
  hrun.coherent hfresh (fun _ _ h => (Bool.and_eq_true_iff.mp h).1) (measured_start hfresh)
    fun _ _ _ h => h.step

theorem Reaches.apart {w₀ w : World α} (hfresh : w₀.Fresh) (hrun : Reaches careful w₀ w) :
    Coherent w.standing ∧ Apart w.standing := by
  refine hrun.coherent hfresh (fun s c h => ?_) (apart_start hfresh) fun _ _ _ h _ => h.step
  obtain ⟨hprotocol, _⟩ := Bool.and_eq_true_iff.mp h
  exact (Bool.and_eq_true_iff.mp hprotocol).1

omit [Scalar α] in
/-- The only demand on the phases that can fail at all is that no initial mark comes while marking
runs. -/
theorem marking_of_failure {s : Standing α} {c : Call α} {fault : Fault α}
    (hcoherent : Coherent s) (hmeasured : Measured s) (horder : inOrder s c = true)
    (hfailure : Failure s c fault) (hphases : fault.aboutPhases = true) :
    fault = .initialMarkWhileMarking ∧ s.stage = .transferred ∧
      s.control.scheduled = true ∧ s.control.phases.marking = true := by
  cases hfailure with
  | decide hscheduled =>
    have hstage : s.stage = .begun := eq_of_beq horder
    have hnone := hcoherent.notScheduled (by rw [hstage]; rfl) (by rw [hstage]; nofun)
    exact absurd (hnone.symm.trans hscheduled) nofun
  | endPause hfault =>
    have hstage : s.stage = .transferred := eq_of_beq horder
    have hfull := hcoherent.outsideFull (by rw [hstage]; nofun)
    cases hfault with
    | full h => exact absurd (hfull.symm.trans h) nofun
    | beforeMixed hscheduled h =>
      exact absurd ((hcoherent.initialMark hfull hscheduled).2.symm.trans h) nofun
    | repeated hscheduled h =>
      exact absurd ((hmeasured.scheduled hfull hscheduled).symm.trans h) nofun
    | marking hscheduled h => exact ⟨rfl, hstage, hscheduled, h⟩
  | chooseOld hnone => cases hphases
  | optionalOutside hmixed => cases hphases
  | optionalNone hnone => cases hphases

/-- An overlapping request is taken up. -/
theorem exists_overlap {w : World α} {heap : Heap α} (hcoherent : Coherent w.standing)
    (hallowed : protocol w.standing (.decide heap) = true)
    (hoverlaps : overlaps w.standing (.decide heap) = true) :
    ∃ w', w.call (.decide heap) = .ok w' ∧ w'.policy.phases.marking = true ∧
      w'.policy.control.scheduled = true := by
  obtain ⟨horder, htruthful⟩ := Bool.and_eq_true_iff.mp hallowed
  obtain ⟨hboth, hasks⟩ := Bool.and_eq_true_iff.mp hoverlaps
  obtain ⟨hmarking, hpending⟩ := Bool.and_eq_true_iff.mp hboth
  have hstage : w.stage = .begun := eq_of_beq horder
  have hnone : w.policy.control.scheduled = false :=
    hcoherent.notScheduled (by rw [World.standing, hstage]; rfl)
      (by simp [World.standing, hstage])
  obtain ⟨w', hcall⟩ := World.exists_call_decide hnone heap
  refine ⟨w', hcall, ?_⟩
  have hstep := World.step_of_call hcall
  show w'.standing.control.phases.marking = true ∧ w'.standing.control.scheduled = true
  cases hw : w'.standing
  rw [hw] at hstep
  cases hstep with
  | quiet hquiet hwaited => cases hquiet
  | decide hdecision =>
    cases hdecision with
    | waits hwaits hlater =>
      rcases hwaits with hidle | ⟨_, hother⟩
      · exact absurd (hidle.symm.trans hpending) Bool.false_ne_true
      · exact absurd (hother.symm.trans hasks) Bool.false_ne_true
    | starts _ hfree hflag =>
      -- a truthful heap lets no cycle start while marking runs
      have hidle := (free_of_mayStart htruthful hfree).1
      exact absurd (hidle.symm.trans hmarking) Bool.false_ne_true
    | overrides _ hbusy _ hflag => exact ⟨hmarking, Control.scheduled_iff.mpr hflag⟩

/-- Over every run in order with a truthful heap, the demands on the phases hold and no initial mark
is scheduled while marking runs exactly until a request overlaps with marking; and then the pause
that it scheduled can only end in the demand that there is no such pause. -/
theorem phases_break_iff_overlap {w₀ w : World α} (hfresh : w₀.Fresh) :
    (Reaches careful w₀ w → ∀ c, protocol w.standing c = true →
      (Breaks w c ↔ overlaps w.standing c = true)) ∧
    (Reaches protocol w₀ w → w.stage = .transferred → w.policy.phases.marking = true →
      w.policy.control.scheduled = true → ∀ heap now pause,
        ∃ fault, w.call (.endPause heap now pause) = .error fault ∧
          (fault.aboutCycle = true → fault = .initialMarkWhileMarking)) := by
  refine ⟨fun hrun c hallowed => ⟨fun hbreaks => ?_, fun hoverlaps => ?_⟩,
    fun hrun hstage hmarking hscheduled heap now pause => ?_⟩
  · obtain ⟨hcoherent, hapart⟩ := hrun.apart hfresh
    -- careful runs are runs with a truthful heap, so the measurement is known as well
    have hprotocol : Reaches protocol w₀ w :=
      hrun.mono fun _ _ h => (Bool.and_eq_true_iff.mp h).1
    obtain ⟨_, hmeasured⟩ := hprotocol.measured hfresh
    obtain ⟨horder, _⟩ := Bool.and_eq_true_iff.mp hallowed
    have hcycle {fault : Fault α} (h : fault.aboutPhases = true) : fault.aboutCycle = true :=
      (Bool.and_eq_true_iff.mp h).1
    rcases hbreaks with ⟨fault, hcall, hphases⟩ | ⟨heap, w', rfl, hcall, hmarking, hscheduled⟩
    · have hfailure := World.failure_of_call hcall (hcycle hphases)
      obtain ⟨_, hstage, hscheduled, hmarking⟩ :=
        marking_of_failure hcoherent hmeasured horder hfailure hphases
      have hfull := hcoherent.outsideFull (by rw [hstage]; nofun)
      exact absurd ((hapart hfull hscheduled).symm.trans hmarking) nofun
    · -- had nothing overlapped, one more careful step would keep both apart
      cases hoverlaps : overlaps w.standing (.decide heap) with
      | true => rfl
      | false =>
        have hcareful : careful w.standing (.decide heap) = true := by
          rw [careful, hallowed, hoverlaps]
          rfl
        obtain ⟨hcoherent', hapart'⟩ := (hrun.step hcareful hcall).apart hfresh
        have hfull : w'.policy.phases.full = false := by
          refine hcoherent'.outsideFull ?_
          rw [show w'.standing.stage = .decided from World.stage_of_call hcall]
          nofun
        exact absurd ((hapart' hfull hscheduled).symm.trans hmarking) nofun
  · obtain ⟨hcoherent, _⟩ := hrun.apart hfresh
    cases c with
    | decide heap =>
      obtain ⟨w', hcall, hboth⟩ := exists_overlap hcoherent hallowed hoverlaps
      exact .inr ⟨heap, w', rfl, hcall, hboth⟩
    | _ => cases hoverlaps
  · obtain ⟨hcoherent, hmeasured⟩ := hrun.measured hfresh
    cases hcall : w.call (.endPause heap now pause) with
    | ok w' =>
      have hend := World.step_of_call hcall
      cases hw : w'.standing
      rw [hw] at hend
      cases hend with
      | quiet hquiet hwaited => cases hquiet
      | endPause hend => exact absurd ((hend.notMarking hscheduled).symm.trans hmarking) nofun
    | error fault =>
      refine ⟨fault, rfl, fun hcycle => ?_⟩
      have horder : inOrder w.standing (.endPause heap now pause) = true := by
        rw [inOrder, show w.standing.stage = .transferred from hstage]
        rfl
      have hfailure := World.failure_of_call hcall hcycle
      have hphases : fault.aboutPhases = true := by
        cases hfailure with
        | endPause hfault => cases hfault <;> rfl
      exact (marking_of_failure hcoherent hmeasured horder hfailure hphases).1

/-- A pause while marking runs, with a request pending. -/
theorem overlap_breaks_phases :
    ∃ w₀ w : World Rat, w₀.Fresh ∧ Reaches careful w₀ w ∧
      Breaks w (.decide { busyHeap with cause := .userConcurrent }) ∧
      ¬ Breaks w (.decide busyHeap) := by
  obtain ⟨w₀, w, hfresh, hrun, hknown⟩ :=
    exists_run careful plainSettings plainHeap 1
      ([.request] ++ plainPause plainHeap 10 [] ++ [.request, .beginPause])
      (P := fun _ w => protocol w.standing (.decide { busyHeap with cause := .userConcurrent }) ∧
        overlaps w.standing (.decide { busyHeap with cause := .userConcurrent }) = true ∧
        protocol w.standing (.decide busyHeap) = true ∧
        overlaps w.standing (.decide busyHeap) = false)
      (by decide +kernel)
  obtain ⟨hprotocol, hoverlaps, hprotocol', hapart⟩ := of_decide_eq_true hknown
  have hiff := (phases_break_iff_overlap hfresh).1 hrun
  refine ⟨w₀, w, hfresh, hrun, (hiff _ hprotocol).mpr hoverlaps, fun hbreaks => ?_⟩
  exact absurd (hapart.symm.trans ((hiff _ hprotocol').mp hbreaks)) nofun

/-- The pause that an overlapping request makes an initial mark fails at its end. -/
theorem initial_mark_while_marking :
    ∃ w₀ w : World Rat, w₀.Fresh ∧ Reaches protocol w₀ w ∧
      w.policy.phases.marking = true ∧ w.policy.control.scheduled = true ∧
      ∃ heap now pause, protocol w.standing (.endPause heap now pause) = true ∧
        w.call (.endPause heap now pause) = .error .initialMarkWhileMarking := by
  obtain ⟨w₀, w, hfresh, hrun, hknown⟩ :=
    exists_run protocol plainSettings plainHeap 1
      ([.request] ++ plainPause plainHeap 10 [] ++
        [.request, .beginPause, .decide { busyHeap with cause := .userConcurrent },
          .startPause busyHeap 20, .transfer 0 false])
      (P := fun _ w => w.policy.phases.marking = true ∧ w.policy.control.scheduled = true ∧
        protocol w.standing (.endPause busyHeap 21 1000) = true ∧
        (w.call (.endPause busyHeap 21 1000)).fault? = some .initialMarkWhileMarking)
      (by decide +kernel)
  obtain ⟨hmarking, hscheduled, hprotocol, hfault⟩ := of_decide_eq_true hknown
  exact ⟨w₀, w, hfresh, hrun, hmarking, hscheduled, busyHeap, 21, 1000, hprotocol,
    Checked.eq_error_of_fault? hfault⟩

end Collector

end PauseGoal
