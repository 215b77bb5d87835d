import PauseGoal.Proofs.Calm

/-!
# What most operations leave alone

The marking cycle is governed by few parts of the policy: its settings, the phases, the marking
flag and the measurement of the marking length. Together they are the `Control` of the policy. Most
operations size, predict or account and keep the control as it is, whether or not they end in a
fault before they are done.
-/

namespace PauseGoal

open Checked (calm_pure)

/-- The parts of the policy that govern the marking cycle. -/
structure Control (α : Type) where
  settings : Settings α
  phases : Marking.Phases
  request : Marking.Request
  markingLength : Marking.Length α

theorem Settings.mixedCollections_ne_zero {α : Type} [Scalar α] {s : Settings α}
    (h : s.validate = .ok ()) : s.mixedCollections ≠ 0 := by
  have bind_ok {β γ : Type} {x : Except (SettingsError α) β} {f : β → Except (SettingsError α) γ}
      {c : γ} (h : x >>= f = .ok c) : ∃ b, f b = .ok c := by
    cases x with
    | error error => cases h
    | ok b => exact ⟨b, h⟩
  unfold validate at h
  -- the check of the mixed collections is the tenth
  iterate 9 obtain ⟨_, h⟩ := bind_ok h
  intro hzero
  rw [require, if_neg (not_not_intro hzero)] at h
  cases h

namespace Policy

variable {α : Type}

/-- The control of a policy. -/
def control (p : Policy α) : Control α := ⟨p.settings, p.phases, p.request, p.markingLength⟩

@[simp] theorem control_phases (p : Policy α) : p.control.phases = p.phases := rfl

/-! ## The mutator phase -/

theorem keeps_newEdenRegion (p : Policy α) : p.newEdenRegion.2.control = p.control := rfl

theorem keeps_setGroup (p : Policy α) (g : SurvivalGroup α) (population : Population) :
    (p.setGroup g population).control = p.control := by
  cases population <;> rfl

theorem keeps_addOldAllocation (p : Policy α) (bytes : Nat) :
    Checked.Gives (p.addOldAllocation bytes) fun q => q.control = p.control :=
  (Word.calm_add _ _).bind_gives fun _ => Checked.gives_pure rfl

theorem keeps_recordAges (p : Policy α) (ages : SurvivorAges) :
    Checked.Gives (p.recordAges ages) fun q => q.control = p.control :=
  (p.ages.calm_merge ages).bind_gives fun _ => Checked.gives_pure rfl

variable [Scalar α]

theorem keeps_transferSurvivors (p : Policy α) (count : Nat) (learn : Bool) :
    (p.transferSurvivors count learn).2.control = p.control := rfl

theorem keeps_recordSurvivors (p : Policy α) (tag : SurvivalTag) (bytes : Nat) :
    Checked.Gives (p.recordSurvivors tag bytes) fun q => q.control = p.control := by
  refine (SurvivalGroup.calm_ageOf _ _).bind_gives fun age => ?_
  refine (SurvivalGroup.calm_record _ _ _ _).bind_gives fun g => Checked.gives_pure ?_
  rw [keeps_setGroup, keeps_setGroup]

omit [Scalar α] in
theorem keeps_exhaustSurvivorSpace (p : Policy α) :
    p.exhaustSurvivorSpace.Gives fun q => q.control = p.control :=
  (Act.gives_write _ _ _).bind fun _ _ => Act.gives_pure rfl

/-! ## The length of the young generation -/

theorem keeps_resize (p : Policy α) (regions : Nat) :
    Checked.Gives (p.resize regions) fun q => q.control = p.control :=
  (Young.Sizer.calm_resize _ _).bind_gives fun _ => (Word.calm_mul _ _).bind_gives fun _ =>
    Checked.gives_pure rfl

theorem calm_regionsUntilPause (p : Policy α) (now : α) :
    Checked.Calm (p.regionsUntilPause now) := by
  unfold regionsUntilPause
  split
  · exact Checked.Calm.bind (Utilization.Tracker.calm_delay _ _ _) fun _ => calm_pure _
  · exact Checked.calm_ok _

theorem calm_youngBounds (p : Policy α) (heap : Heap α) (now : α) :
    Checked.Calm (p.youngBounds heap now) := by
  have least : Checked.Calm (p.desiredLeast now heap.survivors.length) :=
    (p.calm_regionsUntilPause now).bind fun _ => (Word.calm_add _ _).bind fun _ => calm_pure _
  exact least.bind fun _ => (Word.calm_add _ _).bind fun _ => calm_pure _

theorem calm_regionTime (p : Policy α) (young : Bool) (r : YoungRegion) :
    Checked.Calm (p.regionTime young (.young r)) := by
  have bytes : Checked.Calm (p.bytesToCopy (.young r)) :=
    Checked.Calm.bind (SurvivalGroup.calm_ageOf _ _) fun _ => calm_pure _
  exact bytes.bind fun _ => calm_pure _

theorem calm_survivorTime (p : Policy α) (heap : Heap α) : Checked.Calm (p.survivorTime heap) :=
  (Checked.calm_mapM fun _ => p.calm_regionTime _ _).bind fun _ => calm_pure _

theorem calm_youngTargetFor (p : Policy α) (heap : Heap α) (now : α) (entries : Nat) :
    (p.youngTargetFor heap now entries).Gives fun _ => True := by
  refine (Act.gives_ofChecked (p.calm_youngBounds heap now)).bind fun bounds _ => ?_
  refine (Act.gives_ofChecked (p.calm_survivorTime heap)).bind fun survivorTime _ => ?_
  refine (Act.gives_ofChecked (Young.Bounds.calm_target (fun _ => Young.Forecast.calm_fits _ _)
    bounds _ _)).bind fun target _ => ?_
  exact (Act.gives_write _ _ _).bind fun _ _ => Act.gives_pure trivial

theorem keeps_chooseYoungLengthFor (p : Policy α) (heap : Heap α) (now : α) (entries : Nat) :
    (p.chooseYoungLengthFor heap now entries).Gives fun r => r.2.control = p.control := by
  refine (p.calm_youngTargetFor heap now entries).bind fun target _ => ?_
  refine (Act.gives_ofChecked (Word.calm_add _ _)).bind fun maximum _ => ?_
  exact (Act.gives_report rfl).bind fun _ _ => Act.gives_pure rfl

theorem keeps_chooseYoungLength (p : Policy α) (heap : Heap α) (now : α) :
    (p.chooseYoungLength heap now).Gives fun r => r.2.control = p.control :=
  (Act.gives_ofChecked p.costs.calm_entryCount).bind fun entries _ =>
    p.keeps_chooseYoungLengthFor heap now entries

omit [Scalar α] in
theorem keeps_expectEntries (p : Policy α) (entries : Nat) :
    (p.expectEntries entries).control = p.control := by
  unfold expectEntries
  split <;> rfl

theorem keeps_expectPredictedEntries (p : Policy α) :
    Checked.Gives p.expectPredictedEntries fun q => q.control = p.control :=
  p.costs.calm_entryCount.bind_gives fun entries =>
    Checked.gives_pure (p.keeps_expectEntries entries)

theorem keeps_revise (p : Policy α) (heap : Heap α) (now : α) (entries : Nat) :
    (p.revise heap now entries).Gives fun q => q.control = p.control := by
  refine (Act.gives_ofChecked (Checked.gives_demand rfl)).bind fun _ _ => ?_
  split
  · refine (Act.gives_ofChecked (Word.calm_mul _ _)).bind fun scaled _ => ?_
    refine (keeps_chooseYoungLengthFor _ _ _ _).bind fun r hr => Act.gives_pure ?_
    exact hr.trans (p.keeps_expectEntries _)
  · exact Act.gives_pure rfl

/-! ## The start of the policy -/

theorem gives_initial (settings : Settings α) (heap : Heap α) (now : α) (fullCauses : List Cause)
    (sizer : Young.Sizer) :
    Checked.Gives (initial settings heap now fullCauses sizer) fun p =>
      p.control = ⟨settings, {}, {}, .unknown⟩ := by
  unfold initial
  extract_lets predictor
  refine (Utilization.Tracker.calm_create _ _).bind_gives fun utilization => ?_
  have threshold : Checked.Calm (initialThreshold settings predictor heap) :=
    Marking.Threshold.calm_create _ _
  exact threshold.bind_gives fun threshold => Checked.gives_pure rfl

/-- A policy that starts has accepted settings. Young collections come first, nothing is requested
and nothing is measured. -/
theorem gives_start (settings : Settings α) (heap : Heap α) (now : α) (fullCauses : List Cause) :
    (start settings heap now fullCauses).Gives fun r => ∀ p, r = .ok p →
      settings.validate = .ok () ∧ p.control = ⟨settings, {}, {}, .unknown⟩ := by
  unfold start
  cases hvalid : settings.validate with
  | error error =>
    refine Act.gives_pure fun p hp => ?_
    cases hp
  | ok _ =>
    refine (Act.gives_ofLogged (Young.Sizer.calm_ofSettings settings)).bind fun sizer _ => ?_
    cases sizer with
    | error error =>
      refine Act.gives_pure fun p hp => ?_
      cases hp
    | ok sizer =>
      refine (Act.gives_ofChecked (gives_initial _ _ _ _ _)).bind fun p hp => ?_
      refine (Act.gives_ofChecked (p.keeps_resize _)).bind fun q hq => ?_
      refine (q.keeps_chooseYoungLength _ _).bind fun r hr => Act.gives_pure ?_
      rintro _ ⟨⟩
      exact ⟨rfl, hr.trans (hq.trans hp)⟩

/-! ## The start of a pause -/

omit [Scalar α] in
theorem calm_desiredSurvivorBytes (p : Policy α) (regions : Nat) :
    Checked.Calm (p.desiredSurvivorBytes regions) :=
  (Word.calm_mul _ _).bind fun _ => (Word.calm_mul _ _).bind fun _ =>
    (Word.calm_mul _ _).bind fun _ => Word.calm_add _ _

theorem keeps_chooseTenuring (p : Policy α) (heap : Heap α) :
    (p.chooseTenuring heap).Gives fun q => q.control = p.control := by
  refine (Act.gives_ofChecked (p.calm_desiredSurvivorBytes _)).bind fun desired _ => ?_
  refine (Act.gives_ofChecked (p.ages.calm_threshold _ _)).bind fun threshold _ => ?_
  refine (Act.gives_ofLogged (p.ages.calm_log _ _ _)).bind fun _ _ => ?_
  refine (Act.gives_ofChecked (Word.calm_add _ _)).bind fun available _ => ?_
  exact (Act.gives_report rfl).bind fun _ _ => Act.gives_pure rfl

theorem keeps_readRefinement (p : Policy α) (heap : Heap α) (full : Bool) :
    (p.readRefinement heap full).Gives fun q => q.control = p.control := by
  unfold readRefinement
  extract_lets pending now time concurrentCards mutatorCards costs write phase
  have written (costs : CostModel α) : (write costs).Gives fun q => q.control = p.control :=
    (Act.gives_write _ _ _).bind fun _ _ => Act.gives_pure rfl
  split
  · exact written costs
  · refine (Act.gives_ofChecked (Word.calm_add _ _)).bind fun refined _ => ?_
    refine (Act.gives_ofChecked (Word.calm_add _ _)).bind fun cards _ => ?_
    split
    · exact written _
    · exact written costs

theorem keeps_startPause (p : Policy α) (heap : Heap α) (start : α) :
    (p.startPause heap start).Gives fun q => q.control = p.control := by
  refine (keeps_chooseTenuring _ heap).bind fun q hq => ?_
  refine (keeps_readRefinement _ heap false).bind fun r hr => Act.gives_pure ?_
  exact hr.trans hq

/-! ## The end of a pause -/

theorem calm_learnCosts (p : Policy α) (pause : α) (youngOnly : Bool) :
    Checked.Calm (p.learnCosts pause youngOnly) := by
  unfold learnCosts
  extract_lets
  refine Checked.Calm.bind (Word.calm_add _ _) fun youngRegions => ?_
  extract_lets
  exact Checked.calm_ite (calm_pure _) (calm_pure _)

theorem calm_costsAfter (p : Policy α) (pause : α) (youngOnly learn : Bool) :
    Checked.Calm (p.costsAfter pause youngOnly learn) :=
  Checked.calm_ite (p.calm_learnCosts pause youngOnly) (Checked.calm_ok _)

theorem keeps_grantRefinementTime (p : Policy α) (heap : Heap α) (hotCards : α) :
    (p.grantRefinementTime heap hotCards).Gives fun q => q.control = p.control := by
  unfold grantRefinementTime
  extract_lets granted loggedCards write
  have written (goal : α) : (write goal).Gives fun q => q.control = p.control :=
    (Act.gives_write _ _ _).bind fun _ _ => (Act.gives_report rfl).bind fun _ _ =>
      Act.gives_pure rfl
  split
  · exact (Act.gives_write _ _ _).bind fun _ _ => written _
  · exact written _

theorem calm_logPauseEnd (p : Policy α) (heap : Heap α) (kind : Pause.Kind) (pause : α) :
    (p.logPauseEnd heap kind pause).Gives fun _ => True :=
  (Act.gives_ofLogged (p.breakdown.calm_log pause)).bind fun _ _ => Act.gives_write _ _ _

end Policy

end PauseGoal
