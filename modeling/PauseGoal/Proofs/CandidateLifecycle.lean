import PauseGoal.Proofs.CycleOrder

/-!
# The life of a list of candidates

The collector installs candidates while marking runs and takes from them in mixed pauses; all else
that happens to them is that the policy drops them. The policy drops them exactly when they are of
no use any more, however the mixed phase is left:

* outside full collections a list is there only until the mixed phase after its marking has ended;
* in the mixed phase, and in the young-only phase once the last young pause is due, there is one
  and something is left of it between pauses;
* no list is there when marking begins or a full collection runs.
-/

namespace PauseGoal.Collector

open Marking (Phases)
open OldRegions (Candidates)

variable {α : Type} [Scalar α]

omit [Scalar α] in
/-- Candidates are installed only while marking runs and no pause collects, and taken only in mixed
pauses. Only the policy drops them. -/
def tendsCandidates (s : Standing α) : Call α → Bool
  | .setCandidates candidates =>
    candidates.isSome && s.control.phases.marking &&
      (s.stage == .mutators || s.stage.interrupts)
  | .takeCandidates _ => s.stage.evacuates && s.control.phases.mixed
  | _ => true

omit [Scalar α] in
/-- The calls come in order and the candidates are tended to. -/
def tended (s : Standing α) (c : Call α) : Bool := inOrder s c && tendsCandidates s c

omit [Scalar α] in
/-- There are candidates left. -/
def Standing.HasCandidates (s : Standing α) : Prop :=
  ∃ candidates, s.candidates = some candidates ∧ 0 < candidates.size

/-- How the candidates go together with the phases. -/
structure Tended (s : Standing α) : Prop where
  full : s.stage = .full → s.candidates = none
  needed : s.control.phases.full = false → s.candidates.isSome = true →
    s.control.phases.marking = true ∨ s.control.phases.beforeMixed = true ∨
      s.control.phases.youngOnly = false
  lastYoung : s.control.phases.full = false → s.control.phases.beforeMixed = true →
    s.HasCandidates
  /-- A mixed pause may take the last candidates. -/
  mixed : s.control.phases.full = false → s.control.phases.youngOnly = false →
    s.candidates.isSome = true ∧ (s.stage.evacuates = false → s.HasCandidates)

theorem tended_start {w : World α} (h : w.Fresh) : Tended w.standing := by
  obtain ⟨settings, _, hstanding⟩ := h.standing_eq
  rw [hstanding]
  exact ⟨nofun, nofun, nofun, nofun⟩

/-- Mixed collections are worthwhile only if there is something to collect. -/
theorem hasCandidates_of_worthwhile {s : Standing α} {heap : Heap α}
    (h : s.control.worthwhile (s.view heap) = true) : s.HasCandidates := by
  unfold Control.worthwhile Heap.remainingCandidates at h
  cases hcandidates : s.candidates with
  | none =>
    rw [show (s.view heap).candidates = none from hcandidates] at h
    cases h
  | some candidates =>
    rw [show (s.view heap).candidates = some candidates from hcandidates] at h
    refine ⟨candidates, hcandidates, ?_⟩
    cases hempty : candidates.isEmpty with
    | true => simp [Option.filter, hempty] at h
    | false => exact List.length_pos_iff.mpr (List.isEmpty_eq_false_iff.mp hempty)

namespace Tended

variable {s s' : Standing α} {c : Call α}

omit [Scalar α] in
/-- Nothing changes while phases and candidates stay, no full collection begins and no pause that
evacuates ends. -/
theorem of_phases (h : Tended s) (hphases : s'.control.phases = s.control.phases)
    (hcandidates : s'.candidates = s.candidates) (hfull : s'.stage = .full → s.stage = .full)
    (hevacuates : s'.stage.evacuates = false → s.stage.evacuates = false) : Tended s' := by
  refine ⟨fun hstage => ?_, ?_, ?_, ?_⟩
  · rw [hcandidates]
    exact h.full (hfull hstage)
  · rw [hphases, hcandidates]
    exact h.needed
  · rw [hphases, Standing.HasCandidates, hcandidates]
    exact h.lastYoung
  · rw [hphases, Standing.HasCandidates, hcandidates]
    intro hf hyoung
    obtain ⟨hsome, hleft⟩ := h.mixed hf hyoung
    exact ⟨hsome, fun hs => hleft (hevacuates hs)⟩

theorem endPause (h : Tended s) {heap heap' : Heap α} {d : Control α}
    (hend : PauseEnd s.control (s.view heap) d heap') (owed : Option Nat) (history : List Mark) :
    Tended ⟨d, heap'.candidates, .mutators, owed, history⟩ := by
  have hfull := hend.outsideFull
  have hkept (hstay : s.control.phases.mixed = false ∨ s.control.worthwhile (s.view heap) = true) :
      heap'.candidates = s.candidates := hend.candidates_eq hstay
  refine ⟨nofun, fun _ hsome => ?_, fun _ hbefore => ?_, fun _ hmixed => ?_⟩
  · cases hbefore : s.control.phases.beforeMixed with
    | true => simp [hend.youngOnly, hbefore]
    | false =>
      cases hmixed : s.control.phases.youngOnly with
      | true =>
        -- the young-only phase goes on, so the list belongs to the marking that runs
        have hmarking : s.control.phases.marking = true := by
          rw [hkept (.inl (by simp [Phases.mixed, hmixed]))] at hsome
          simpa [hbefore, hmixed] using h.needed hfull hsome
        exact .inl (by simp [hend.marking, hmarking])
      | false =>
        cases hworth : s.control.worthwhile (s.view heap) with
        | true => simp [hend.youngOnly, hbefore, hmixed, hworth]
        | false =>
          rw [hend.candidates_eq_none (Phases.mixed_iff.mpr ⟨hmixed, hbefore⟩) hworth] at hsome
          cases hsome
  · exact absurd (hend.beforeMixed.symm.trans hbefore) Bool.false_ne_true
  · -- the mixed phase begins with what cleanup found and goes on with what is worthwhile
    have hleft : s.HasCandidates ∧ heap'.candidates = s.candidates := by
      cases hbefore : s.control.phases.beforeMixed with
      | true =>
        exact ⟨h.lastYoung hfull hbefore,
          hkept (.inl (by simp [Phases.mixed, hbefore]))⟩
      | false =>
        simp [hend.youngOnly, hbefore] at hmixed
        exact ⟨hasCandidates_of_worthwhile hmixed.2, hkept (.inr hmixed.2)⟩
    obtain ⟨⟨candidates, hsome, hpos⟩, heq⟩ := hleft
    have hsome' : heap'.candidates = some candidates := heq.trans hsome
    exact ⟨by simp [hsome'], fun _ => ⟨candidates, hsome', hpos⟩⟩

theorem endCleanup (h : Coherent s) (hstage : s.stage = .cleanup) {heap heap' : Heap α}
    {d : Control α} (hend : CleanupEnd s.control (s.view heap) d heap') (owed : Option Nat)
    (history : List Mark) : Tended ⟨d, heap'.candidates, .mutators, owed, history⟩ := by
  have hphases := hend.phases
  obtain ⟨_, _, hyoung⟩ := h.atCleanup hstage
  refine ⟨nofun, fun _ hsome => ?_, fun _ hbefore => ?_, fun _ hmixed => ?_⟩
  · cases hworth : s.control.worthwhile (s.view heap) with
    | true => exact .inr (.inl (by rw [hphases]; exact hworth))
    | false =>
      rw [hend.heap, hworth] at hsome
      cases hsome
  · have hworth : s.control.worthwhile (s.view heap) = true := by rwa [hphases] at hbefore
    obtain ⟨candidates, hsome, hpos⟩ := hasCandidates_of_worthwhile hworth
    exact ⟨candidates, by rw [hend.heap, hworth]; exact hsome, hpos⟩
  · rw [hphases] at hmixed
    exact absurd (hyoung.symm.trans hmixed) nofun

theorem step (h : Tended s) (hcoherent : Coherent s) (hallowed : tended s c = true)
    (hstep : Step s c s') : Tended s' := by
  obtain ⟨horder, htends⟩ := Bool.and_eq_true_iff.mp hallowed
  cases hstep with
  | quiet hquiet hwaited =>
    obtain ⟨r, _, rfl⟩ := hwaited
    obtain ⟨hfull, _, hevacuates, _⟩ := stageAfter_of_quiet hquiet horder
    exact h.of_phases rfl rfl hfull.mp hevacuates.symm.trans
  | beginPause =>
    exact h.of_phases rfl rfl nofun nofun
  | decide hdecision =>
    cases hdecision with
    | waits hwaits hlater => exact h.of_phases rfl rfl nofun nofun
    | starts hpending hfree hflag => exact h.of_phases rfl rfl nofun nofun
    | overrides hpending hbusy hasks hflag => exact ⟨nofun, nofun, nofun, nofun⟩
  | endPause hend => exact h.endPause hend _ _
  | startFull => exact ⟨fun _ => rfl, nofun, nofun, nofun⟩
  | endFull hend =>
    have hstage : s.stage = .full := eq_of_beq horder
    have hnone := h.full hstage
    have hphases := hend.phases
    refine ⟨nofun, fun _ hsome => ?_, fun _ hbefore => ?_, fun _ hmixed => ?_⟩
    · rw [show s.candidates = none from hnone] at hsome
      cases hsome
    · rw [hphases] at hbefore
      cases hbefore
    · rw [hphases] at hmixed
      cases hmixed
  | endRemark hforgot =>
    have hstage : s.stage = .remark := eq_of_beq horder
    obtain ⟨l, _, rfl⟩ := hforgot
    exact h.of_phases rfl rfl nofun fun _ => by rw [hstage]; rfl
  | endCleanup hend => exact endCleanup hcoherent (eq_of_beq horder) hend _ _
  | finishInitialMark hsettled =>
    obtain ⟨r, _, rfl⟩ := hsettled
    exact h.of_phases rfl rfl id id
  | setCandidates =>
    -- marking runs, so neither the mixed phase nor the last young pause is near
    obtain ⟨hmarks, hpause⟩ := Bool.and_eq_true_iff.mp htends
    obtain ⟨_, hmarking⟩ := Bool.and_eq_true_iff.mp hmarks
    have hfull : s.stage ≠ .full := by
      intro hstage
      rw [hstage] at hpause
      cases hpause
    obtain ⟨hyoung, hbefore⟩ := hcoherent.marking (hcoherent.outsideFull hfull) hmarking
    refine ⟨fun hs => absurd hs hfull, fun _ _ => .inl hmarking, fun _ hb => ?_, fun _ hm => ?_⟩
    · exact absurd (hbefore.symm.trans hb) nofun
    · exact absurd (hyoung.symm.trans hm) nofun
  | takeNone hnone => exact h
  | take hsome hregions hsize =>
    obtain ⟨hevacuates, hmixed⟩ := Bool.and_eq_true_iff.mp htends
    obtain ⟨hyoung, hbefore⟩ := Phases.mixed_iff.mp hmixed
    refine ⟨fun hs => ?_, fun _ _ => .inr (.inr hyoung), fun _ hb => ?_, fun _ _ => ⟨rfl, ?_⟩⟩
    · rw [show s.stage = .full from hs] at hevacuates
      cases hevacuates
    · exact absurd (hbefore.symm.trans hb) nofun
    · intro he
      exact absurd (hevacuates.symm.trans he) nofun
  | chooseOld hsome hinitial => exact h.of_phases rfl rfl id id

/-- Marking begins at the end of a pause, and no candidates are there then. -/
theorem none_of_marking_begins (h : Tended s) (hcoherent : Coherent s) (hstep : Step s c s')
    (hbefore : s.control.phases.marking = false) (hafter : s'.control.phases.marking = true) :
    s'.candidates = none := by
  have same {P : Prop} (hsame : s'.control.phases.marking = s.control.phases.marking) : P :=
    absurd (hafter.symm.trans (hsame.trans hbefore)) nofun
  cases hstep with
  | quiet hquiet hwaited =>
    obtain ⟨r, _, rfl⟩ := hwaited
    exact same rfl
  | decide hdecision =>
    cases hdecision with
    | waits hwaits hlater => exact same rfl
    | starts hpending hfree hflag => exact same rfl
    | overrides hpending hbusy hasks hflag => exact same rfl
  | endPause hend =>
    have hfull := hend.outsideFull
    have hscheduled : s.control.scheduled = true := by
      simpa [hbefore] using hend.marking.symm.trans hafter
    obtain ⟨hyoung, hlast⟩ := hcoherent.initialMark hfull hscheduled
    have hnone : s.candidates = none := by
      cases hcandidates : s.candidates with
      | none => rfl
      | some candidates => simpa [hbefore, hyoung, hlast, hcandidates] using h.needed hfull
    exact (hend.candidates_eq (.inl (by simp [Phases.mixed, hyoung]))).trans hnone
  | endFull hend =>
    rw [hend.phases] at hafter
    cases hafter
  | endRemark hforgot =>
    obtain ⟨l, _, rfl⟩ := hforgot
    exact same rfl
  | endCleanup hend =>
    rw [hend.phases] at hafter
    cases hafter
  | finishInitialMark hsettled =>
    obtain ⟨r, _, rfl⟩ := hsettled
    exact same rfl
  | _ => exact same rfl

end Tended

theorem Reaches.tended {w₀ w : World α} (hfresh : w₀.Fresh)
    (hrun : Reaches tended w₀ w) : Coherent w.standing ∧ Tended w.standing :=
  hrun.coherent hfresh (fun _ _ h => (Bool.and_eq_true_iff.mp h).1) (tended_start hfresh)
    fun _ _ _ h => h.step

/-- Over every run that tends to the candidates: between pauses a list is there only while it is
needed, and something is left of it whenever mixed collections are near, so that the old part of a
mixed collection is never chosen without one; no list is there in a full collection or when marking
begins. -/
theorem candidates_kept_while_needed {w₀ w : World α} (hfresh : w₀.Fresh)
    (hrun : Reaches tended w₀ w) :
    (w.stage.evacuates = false → w.stage ≠ .full →
      (w.candidates.isSome = true →
        w.policy.phases.marking = true ∨ w.policy.phases.beforeMixed = true ∨
          w.policy.phases.youngOnly = false) ∧
      (w.policy.phases.mixed = true ∨ w.policy.phases.beforeMixed = true →
        ∃ candidates, w.candidates = some candidates ∧ 0 < candidates.size)) ∧
    (w.stage ≠ .full → w.policy.phases.mixed = true ∨ w.policy.phases.beforeMixed = true →
      ∀ heap timeLeft, w.call (.chooseOld heap timeLeft) ≠ .error .noCandidates) ∧
    (w.stage = .full → w.candidates = none) ∧
    (∀ c w', w.call c = .ok w' → w.policy.phases.marking = false →
      w'.policy.phases.marking = true → w'.candidates = none) := by
  obtain ⟨hcoherent, htended⟩ := hrun.tended hfresh
  have hyoung (hmixed : w.policy.phases.mixed = true) : w.policy.phases.youngOnly = false :=
    (Phases.mixed_iff.mp hmixed).1
  refine ⟨fun hevacuates hstage => ?_, fun hstage hnear heap timeLeft hcall => ?_, htended.full,
    fun c w' hcall => htended.none_of_marking_begins hcoherent (World.step_of_call hcall)⟩
  · have hfull := hcoherent.outsideFull hstage
    refine ⟨htended.needed hfull, fun hnear => ?_⟩
    rcases hnear with hmixed | hbefore
    · exact (htended.mixed hfull (hyoung hmixed)).2 hevacuates
    · exact htended.lastYoung hfull hbefore
  · have hfull := hcoherent.outsideFull hstage
    have hsome : w.candidates.isSome = true := by
      rcases hnear with hmixed | hbefore
      · exact (htended.mixed hfull (hyoung hmixed)).1
      · obtain ⟨candidates, hcandidates, _⟩ := htended.lastYoung hfull hbefore
        rw [show w.candidates = some candidates from hcandidates]
        rfl
    cases World.failure_of_call hcall rfl with
    | chooseOld hnone =>
      rw [show w.candidates = none from hnone] at hsome
      cases hsome

/-- In the middle of a mixed phase. -/
theorem candidates_kept_in_mixed_phase :
    ∃ w₀ w : World Rat, w₀.Fresh ∧ Reaches tended w₀ w ∧
      (w.stage = .mutators ∧ w.policy.phases.mixed = true) ∧
      ∃ candidates, w.candidates = some candidates ∧ 0 < candidates.size := by
  obtain ⟨w₀, w, hfresh, hrun, hmixed⟩ :=
    exists_run tended plainSettings plainHeap 1
      (plainCycle 10 20 ++ plainPause plainHeap 20 [] ++
        plainPause plainHeap 30 [.chooseOld plainHeap 100, .takeCandidates 3])
      (P := fun _ w => w.stage = .mutators ∧ w.policy.phases.mixed = true)
      (by decide +kernel)
  have hmixed := of_decide_eq_true hmixed
  have hbetween := (candidates_kept_while_needed hfresh hrun).1
  refine ⟨w₀, w, hfresh, hrun, hmixed, (hbetween ?_ ?_).2 (.inl hmixed.2)⟩
  · rw [hmixed.1]
    rfl
  · rw [hmixed.1]
    nofun

end PauseGoal.Collector
