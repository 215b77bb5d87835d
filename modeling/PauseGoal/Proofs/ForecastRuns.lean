import PauseGoal.Proofs.RegionSamples
import PauseGoal.Proofs.SurvivalForecast
import PauseGoal.Proofs.YoungEnvelope

/-!
# The forecast when the young generation is sized

The start of a pause adds ages to the statistics of eden if more regions joined than there are ages.
The end of an evacuation pause makes the table of expected survivors again, whether the evacuation
failed or not. The end of a full collection does not, although a full collection may take the place
of a pause that was started, and although it sizes the next young generation as well. So the table
is steady unless eden has `outgrown` it. Once it has, lengths are chosen with a table that expects
less from more regions, up to the next end of an evacuation pause (`forecast_steady_iff`).
-/

namespace PauseGoal

open Scalar.Exact (toReal)

variable {α : Type}

/-! ## The forecast that a length is chosen with -/

namespace Policy

open Act (returns_pure returns_bind returns_ofChecked)

variable [Scalar α]

/-- The target of the policy was chosen with a forecast from its eden. -/
def Foreseen (q : Policy α) : Prop :=
  ∃ (p : Policy α) (heap : Heap α) (now : α) (entries : Nat) (target : Young.Target)
    (before after : Journal α),
    (p.youngTargetFor heap now entries).outcome before = (.ok target, after) ∧
      p.eden = q.eden ∧ target.bounded = q.youngTarget

theorem Foreseen.congr {p q : Policy α} (h : p.Foreseen) (heden : q.eden = p.eden)
    (htarget : q.youngTarget = p.youngTarget) : q.Foreseen := by
  obtain ⟨r, heap, now, entries, target, before, after, hout, hr, hbounded⟩ := h
  exact ⟨r, heap, now, entries, target, before, after, hout, hr.trans heden.symm,
    hbounded.trans htarget.symm⟩

theorem foreseen_chooseYoungLengthFor (p : Policy α) (heap : Heap α) (now : α) (entries : Nat) :
    (p.chooseYoungLengthFor heap now entries).Returns fun r => r.2.Foreseen := by
  intro before r after h
  obtain ⟨target, middle, htarget, h⟩ := Act.exists_of_outcome_bind h
  have hforeseen (maximum : Nat) :
      Foreseen { p with youngTarget := target.bounded, youngMaximum := maximum } :=
    ⟨p, heap, now, entries, target, before, middle, htarget, rfl, rfl⟩
  obtain ⟨maximum, _, _, h⟩ := Act.exists_of_outcome_bind h
  obtain ⟨_, _, _, h⟩ := Act.exists_of_outcome_bind h
  cases h
  exact hforeseen maximum

theorem foreseen_chooseYoungLength (p : Policy α) (heap : Heap α) (now : α) :
    (p.chooseYoungLength heap now).Returns fun r => r.2.Foreseen :=
  returns_bind fun entries => p.foreseen_chooseYoungLengthFor heap now entries

theorem foreseen_revise (p : Policy α) (heap : Heap α) (now : α) {entries : Nat}
    (hmore : p.expectedEntries < entries) :
    (p.revise heap now entries).Returns Foreseen := by
  refine returns_bind fun _ => ?_
  rw [if_pos hmore]
  refine returns_bind fun scaled => ?_
  exact (foreseen_chooseYoungLengthFor _ _ _ _).bind fun _ hr => returns_pure hr

theorem foreseen_prepareNext (p : Policy α) (heap : Heap α) (now mutatorTime hotCards : α)
    (youngOnly initialMark : Bool) :
    (p.prepareNext heap now mutatorTime hotCards youngOnly initialMark).Returns Foreseen := by
  refine (p.foreseen_chooseYoungLength heap now).bind fun r hr => ?_
  refine (returns_ofChecked fun q hq =>
    r.2.expectPredictedEntries_meets.of_eq_ok hq).bind fun q hq => ?_
  refine ((q.learnThresholdUnlessPeriodic_meets heap _ _ _ _).returns
    fun _ _ h => h.2).bind fun s hs => ?_
  refine (s.grantRefinementTime_meets heap hotCards).returns ?_
  rintro _ _ ⟨_, _, _, rfl⟩
  obtain ⟨_, rfl⟩ := hq
  obtain ⟨_, _, _, rfl⟩ := hs
  exact hr.congr rfl rfl

theorem foreseen_endPause (p : Policy α) (heap : Heap α) (now pause : α) :
    (p.endPause heap now pause).Returns fun r => r.1.Foreseen := by
  unfold endPause
  simp only
  refine returns_bind fun kind => returns_bind fun counted => returns_bind fun settled =>
    returns_bind fun advanced => returns_bind fun costs => returns_bind fun _ => ?_
  refine (foreseen_prepareNext _ _ _ _ _ _ _).bind fun q hq => ?_
  exact returns_bind fun _ => returns_pure hq

theorem foreseen_endFull (p : Policy α) (heap : Heap α) (now : α) :
    (p.endFull heap now).Returns Foreseen := by
  unfold endFull
  simp only
  refine returns_bind fun needed => ?_
  refine (foreseen_chooseYoungLength _ heap now).bind fun r hr => ?_
  refine (returns_ofChecked fun q hq =>
    r.2.expectPredictedEntries_meets.of_eq_ok hq).bind fun q hq => ?_
  refine ((recordPause_meets _ _ _ _).returns fun _ _ h => h.2).bind fun s hs => ?_
  refine returns_bind fun _ => returns_pure ?_
  obtain ⟨_, rfl⟩ := hq
  obtain ⟨_, _, _, _, rfl⟩ := hs
  exact hr.congr rfl rfl

theorem foreseen_start (settings : Settings α) (heap : Heap α) (now : α)
    (fullCauses : List Cause) :
    (start settings heap now fullCauses).Returns fun r => ∀ p, r = .ok p → p.Foreseen := by
  exact returns_start fun _ _ q _ _ => q.foreseen_chooseYoungLength heap now

end Policy

namespace Collector

variable [Scalar α]

theorem World.foreseen_of_act {β : Type} {w w' : World α} {x : Act α β} {next : β → World α}
    (h : w.act x next = .ok w') (hx : x.Returns fun b => (next b).policy.Foreseen) :
    w'.policy.Foreseen := by
  obtain ⟨b, journal, hout, rfl⟩ := exists_of_act_eq_ok h
  exact hx _ _ _ hout

/-- A call that chooses a length does so with the eden that it leaves. -/
theorem World.foreseen_of_call {w w' : World α} {c : Call α} (h : w.call c = .ok w')
    (hchooses : (w.chooses c).isSome = true) : w'.policy.Foreseen := by
  obtain ⟨w₁, hperform, hpolicy, _⟩ := exists_perform_of_call h
  rw [hpolicy]
  cases c with
  | endPause heap now pause => exact foreseen_of_act hperform (Policy.foreseen_endPause _ _ _ _)
  | endFull heap now => exact foreseen_of_act hperform (Policy.foreseen_endFull _ _ _)
  | chore chore =>
    cases chore with
    | chooseYoungLength heap now =>
      exact foreseen_of_act hperform (Policy.foreseen_chooseYoungLength _ _ _)
    | revise heap now entries =>
      have hmore : w.policy.expectedEntries < entries := by
        by_contra hfewer
        rw [chooses, if_neg hfewer] at hchooses
        cases hchooses
      exact foreseen_of_act hperform (Policy.foreseen_revise _ _ _ hmore)
    | _ => cases hchooses
  | _ => cases hchooses

/-! ## Eden and its table -/

omit [Scalar α] in
def Call.endsPause : Call α → Bool
  | .endPause _ _ _ => true
  | _ => false

omit [Scalar α] in
/-- A pause is started in which more eden regions are collected than the statistics have ages. -/
def Moment.outgrows (m : Moment α) : Bool :=
  m.call.startsPause && decide (m.world.policy.eden.ages.size < m.world.policy.eden.regions)

omit [Scalar α] in
/-- Eden got ages since the last end of an evacuation pause. -/
def outgrown (t : List (Moment α)) : Bool :=
  (sinceLast (fun m => m.call.endsPause) t).any Moment.outgrows

omit [Scalar α] in
theorem outgrown_concat (t : List (Moment α)) (m : Moment α) :
    outgrown (t ++ [m]) = (!m.call.endsPause && (outgrown t || m.outgrows)) := by
  unfold outgrown
  rw [sinceLast_concat]
  cases m.call.endsPause <;> simp

variable [Scalar.Exact α]

/-- What is known of the table of eden after a run. -/
structure Forecasting (t : List (Moment α)) (g : SurvivalGroup α) : Prop where
  sampled : g.Sampled
  steady : outgrown t = false → g.Steady
  drops : outgrown t = true → g.Drops

/-- A call that starts and ends no pause leaves the table as it is. -/
theorem Forecasting.keep {t : List (Moment α)} {w : World α} {c : Call α} {g g' : SurvivalGroup α}
    (h : Forecasting t g) (hends : c.endsPause = false) (hstarts : c.startsPause = false)
    (hsampled : g'.Sampled) (hsize : g'.ages.size = g.ages.size)
    (hexpected : g'.expected = g.expected) : Forecasting (t ++ [⟨w, c⟩]) g' := by
  have houtgrown : outgrown (t ++ [⟨w, c⟩]) = outgrown t := by
    simp [outgrown_concat, Moment.outgrows, hends, hstarts]
  refine ⟨hsampled, fun ht => ?_, fun ht => ?_⟩
  · rw [houtgrown] at ht
    unfold SurvivalGroup.Steady
    rw [hexpected]
    exact h.steady ht
  · rw [houtgrown] at ht
    unfold SurvivalGroup.Drops
    rw [hexpected, hsize]
    exact h.drops ht

theorem GroupStep.forecasting {t : List (Moment α)} {w : World α} {c : Call α}
    {g : SurvivalGroup α} (h : GroupStep w .eden c g) (hw : Forecasting t w.policy.eden)
    (hsigma : 0 ≤ toReal w.policy.predictor.sigma) : Forecasting (t ++ [⟨w, c⟩]) g := by
  have hsampled := hw.sampled
  cases h with
  | left hleaves =>
    have hends : c.endsPause = false := by
      cases c <;> first | rfl | cases hleaves
    have hstarts : c.startsPause = false := by
      cases c <;> first | rfl | cases hleaves
    exact hw.keep hends hstarts hsampled rfl rfl
  | record _ _ hrecord =>
    have hcollected :=
      (SurvivalGroup.Collected.refl w.policy.settings.regionSize _).record hrecord
    exact hw.keep rfl rfl (hsampled.record hrecord) hcollected.size_eq
      (SurvivalGroup.expected_record hrecord)
  | join => exact hw.keep rfl rfl (hsampled.of_expected rfl hsampled.rates rfl) rfl rfl
  | abandon => exact hw.keep rfl rfl (hsampled.of_expected rfl hsampled.rates rfl) rfl rfl
  | @close heap start =>
    have houtgrown : outgrown (t ++ [⟨w, .startPause heap start⟩]) =
        (outgrown t || decide (w.policy.eden.ages.size < w.policy.eden.regions)) :=
      outgrown_concat t _
    refine ⟨hsampled.stopAdding, fun ht => ?_, fun ht => ?_⟩
    · rw [houtgrown, Bool.or_eq_false_iff, decide_eq_false_iff_not] at ht
      rw [SurvivalGroup.stopAdding_of_le (Nat.le_of_not_lt ht.2)]
      exact hw.steady ht.1
    · cases hbefore : outgrown t with
      | true => exact (hw.drops hbefore).stopAdding
      | false =>
        rw [houtgrown, hbefore, Bool.false_or, decide_eq_true_iff] at ht
        exact hsampled.drops_stopAdding (hw.steady hbefore) ht
  | @finish heap now pause =>
    obtain ⟨hfinished, hsteady⟩ := hsampled.finish hsigma (!heap.evacuationFailed)
    refine ⟨hfinished.of_expected rfl hfinished.rates rfl, fun _ => hsteady, fun ht => ?_⟩
    rw [outgrown_concat] at ht
    cases ht

theorem Traces.forecasting {allowed : List (Moment α) → Call α → Bool} {w₀ w : World α}
    {t : List (Moment α)} (hrun : Traces allowed w₀ t w) (hfresh : w₀.Fresh) :
    Forecasting t w.policy.eden := by
  induction hrun with
  | start =>
    have heden : w₀.policy.eden = .create .eden := congrArg Register.eden hfresh.register_eq
    rw [heden]
    exact ⟨SurvivalGroup.sampled_create _, fun _ => SurvivalGroup.steady_create _, nofun⟩
  | @call t w w' c hrun _ hcall ih =>
    have hpredictor : w.policy.predictor = ⟨w₀.policy.settings.sigma⟩ :=
      hrun.constants.2.trans (congrArg Register.predictor hfresh.register_eq)
    have hsigma : 0 ≤ toReal w.policy.predictor.sigma := by
      rw [hpredictor]
      show 0 ≤ toReal (num w₀.policy.settings.confidencePercent / num 100)
      simp only [Scalar.Exact.toReal_div, Scalar.Exact.toReal_num]
      positivity
    have hstep : GroupStep w .eden c w'.policy.eden := World.grouped_of_call hcall .eden
    exact hstep.forecasting ih hsigma

/-- In exact arithmetic, and in runs of calls in any order: when the policy chooses a length, it does
so with a table of eden that is steady at all ages, known or not, exactly if eden has not outgrown
it. At the start and at the end of an evacuation pause it never has. -/
theorem forecast_steady_iff {settings : Settings α} {heap : Heap α} {now : α}
    {fullCauses : List Cause} {policy : Policy α} {before after : Journal α}
    (hstart : (Policy.start settings heap now fullCauses).outcome before =
      (.ok (.ok policy), after)) :
    (policy.Foreseen ∧ policy.eden.Steady) ∧
    ∀ t w, Traces anyCall (.opened policy after) t w →
      ∀ c present moment w', w.chooses c = some (present, moment) → w.call c = .ok w' →
        w'.policy.Foreseen ∧
          (w'.policy.eden.Steady ↔ c.endsPause = true ∨ outgrown t = false) := by
  have hfresh : (World.opened policy after).Fresh := .intro hstart
  refine ⟨⟨Policy.foreseen_start _ _ _ _ _ _ _ hstart policy rfl, ?_⟩, ?_⟩
  · have heden : policy.eden = .create .eden := congrArg Register.eden hfresh.register_eq
    rw [heden]
    exact SurvivalGroup.steady_create _
  · intro t w hrun c present moment w' hchooses hcall
    have hstarts : c.startsPause = false := by
      cases c <;> first | rfl | cases hchooses
    have houtgrown : outgrown (t ++ [⟨w, c⟩]) = (!c.endsPause && outgrown t) := by
      simp [outgrown_concat, Moment.outgrows, hstarts]
    have hforecasting := (hrun.call rfl hcall).forecasting hfresh
    refine ⟨World.foreseen_of_call hcall (by rw [hchooses]; rfl), ?_⟩
    constructor
    · intro hsteady
      cases hends : c.endsPause with
      | true => exact .inl rfl
      | false =>
        right
        by_contra hdrops
        rw [Bool.not_eq_false] at hdrops
        refine hsteady.not_drops (hforecasting.drops ?_)
        rw [houtgrown, hends, hdrops]
        rfl
    · intro h
      refine hforecasting.steady ?_
      rw [houtgrown]
      rcases h with h | h
      · rw [h]
        rfl
      · rw [h, Bool.and_false]

/-- Two regions are collected in a first pause. A full collection takes the place of the second one,
of two regions too, and chooses a length with a steady table. -/
theorem forecast_steady_after_replaced_pause :
    let eden : Call Rat := .chore .newEden
    let calls := [eden, eden] ++ plainPause plainHeap 10 [] ++ [eden, eden] ++
      [.beginPause, .decide plainHeap, .startPause plainHeap 20, .startFull plainHeap 21]
    ∃ policy after t w w',
      (Policy.start predictedSettings plainHeap 1 []).outcome {} = (.ok (.ok policy), after) ∧
        Traces anyCall (.opened policy after) t w ∧ t.map Moment.call = calls ∧
        w.call (.endFull plainHeap 22) = .ok w' ∧ w'.policy.Foreseen ∧
        w'.policy.eden.ages.size = 2 ∧ w'.policy.eden.Steady := by
  intro eden calls
  obtain ⟨policy, after, t, w, hstart, hrun, hcalls, hends⟩ :=
    exists_trace anyCall predictedSettings plainHeap 1 calls
      (P := fun t w => !outgrown t &&
        match w.call (.endFull plainHeap 22) with
        | .ok w' => decide (w'.policy.eden.ages.size = 2)
        | .error _ => false)
      (by decide +kernel)
  obtain ⟨hkept, hends⟩ := Bool.and_eq_true_iff.mp hends
  rw [Bool.not_eq_true'] at hkept
  split at hends
  · next w' hcall =>
    obtain ⟨_, hchoices⟩ := forecast_steady_iff hstart
    obtain ⟨hforeseen, hsteady⟩ := hchoices t w hrun _ plainHeap 22 w' rfl hcall
    exact ⟨policy, after, t, w, w', hstart, hrun, hcalls, hcall, hforeseen,
      of_decide_eq_true hends, hsteady.mpr (.inr hkept)⟩
  · cases hends

/-- A full collection takes the place of the first pause, of two regions. The table then expects two
fifths of a region from the youngest one and nothing from both. -/
theorem forecast_falls_after_replaced_pause :
    let eden : Call Rat := .chore .newEden
    let calls := [eden, eden, .beginPause, .decide plainHeap, .startPause plainHeap 10,
      .startFull plainHeap 11]
    ∃ policy after t w w',
      (Policy.start predictedSettings plainHeap 1 []).outcome {} = (.ok (.ok policy), after) ∧
        Traces anyCall (.opened policy after) t w ∧ t.map Moment.call = calls ∧
        recordingsOf .eden t = [] ∧ w.call (.endFull plainHeap 12) = .ok w' ∧
        w'.policy.Foreseen ∧ w'.policy.eden.expected 0 = 2 / 5 ∧ w'.policy.eden.expected 1 = 0 ∧
        ¬ w'.policy.eden.Steady := by
  intro eden calls
  obtain ⟨policy, after, t, w, hstart, hrun, hcalls, hends⟩ :=
    exists_trace anyCall predictedSettings plainHeap 1 calls
      (P := fun t w => decide (recordingsOf .eden t = []) &&
        match w.call (.endFull plainHeap 12) with
        | .ok w' =>
          decide (w'.policy.eden.expected 0 = 2 / 5) && decide (w'.policy.eden.expected 1 = 0)
        | .error _ => false)
      (by decide +kernel)
  obtain ⟨hnone, hends⟩ := Bool.and_eq_true_iff.mp hends
  split at hends
  · next w' hcall =>
    simp only [Bool.and_eq_true, decide_eq_true_eq] at hends
    obtain ⟨hyoungest, hboth⟩ := hends
    refine ⟨policy, after, t, w, w', hstart, hrun, hcalls, of_decide_eq_true hnone, hcall,
      World.foreseen_of_call hcall rfl, hyoungest, hboth, fun hsteady => ?_⟩
    have hfalls := (hsteady 0).2.1
    rw [hyoungest, hboth] at hfalls
    exact absurd hfalls (by decide +kernel)
  · cases hends

end Collector

end PauseGoal
