import PauseGoal.Proofs.Alike
import PauseGoal.Proofs.StartedOver

/-!
# A policy with other measurements

Two policies are twins if they agree but for the measurements of the current pause and the time
granted for logged cards. Operations between pauses read of the measurements at most when the pause
started, and nothing reads the time granted. So twins whose pauses started at the same time stay
twins, say the same and end in the same faults, whichever operation both of them carry out
(`Policy.Twin`).

What the end of a pause does is split in two. Up to the cards nothing of what was measured matters
if the evacuation failed (`concluded`); what follows reads the measured times of the cards.
-/

namespace PauseGoal

variable {α : Type}

/-! ## Computations that log -/

section

open Logged (appends_pure appends_write appends_ofChecked)

variable [Scalar α]

theorem Utilization.Tracker.appends_add (t : Tracker α) (start finish : α) :
    (t.add start finish).Appends := by
  unfold add
  dsimp only
  split
  · exact (appends_write _ _ _).bind fun _ => appends_pure _
  · exact appends_pure _

omit [Scalar α] in
theorem SurvivorAges.appends_logSizes (sizes : List Nat) (age sum : Nat) :
    (logSizes sizes age sum : Logged α Unit).Appends := by
  induction sizes generalizing age sum with
  | nil => exact appends_pure _
  | cons size older ih =>
    unfold logSizes
    split
    · exact ih _ _
    · exact (appends_ofChecked _).bind fun _ => (appends_write _ _ _).bind fun _ => ih _ _

omit [Scalar α] in
theorem SurvivorAges.appends_log (ages : SurvivorAges) (desired threshold maximum : Nat) :
    (ages.log desired threshold maximum : Logged α Unit).Appends := by
  refine (appends_write _ _ _).bind fun _ => (Logged.appends_keeps _).bind fun kept => ?_
  cases kept with
  | true => exact appends_logSizes _ _ _
  | false => exact appends_pure _

theorem Marking.Report.appends_log (r : Report α) : r.log.Appends := by
  refine (appends_write _ _ _).bind fun _ => ?_
  split
  · exact appends_write _ _ _
  · exact appends_pure _

theorem Pause.Breakdown.appends_log (b : Breakdown α) (pause : α) : (b.log pause).Appends :=
  (appends_write _ _ _).bind fun _ => (appends_write _ _ _).bind fun _ =>
    (appends_write _ _ _).bind fun _ => appends_write _ _ _

namespace OldRegions

omit [Scalar α] in
theorem Stop.appends_log (limits : Limits α) (stop : Stop α) : (stop.log limits).Appends := by
  cases stop with
  | exhausted => exact appends_pure _
  | atMost | atLeast | waste | time => exact appends_write _ _ _

theorem appends_takeOptional (regions : List OldRegion) (most : Nat) (available : α)
    (cost : OldRegion → α) : (takeOptional regions most available cost).Appends := by
  unfold takeOptional
  split
  · exact appends_pure _
  · exact (appends_write _ _ _).bind fun _ => appends_pure _

theorem appends_choose (candidates : Candidates) (timeLeft : α) (limits : Limits α)
    (cost : OldRegion → α) : (choose candidates timeLeft limits cost).Appends := by
  refine (appends_write _ _ _).bind fun _ => (appends_ofChecked _).bind fun initial => ?_
  refine (initial.2.appends_log _).bind fun _ => (appends_ofChecked _).bind fun mostOptional => ?_
  dsimp only
  split
  · exact (appends_takeOptional _ _ _ _).bind fun _ => (appends_write _ _ _).bind fun _ =>
      appends_pure _
  · exact (appends_pure _).bind fun _ => (appends_write _ _ _).bind fun _ => appends_pure _

theorem appends_chooseOptional (candidates : Candidates) (most : Nat) (timeLeft : α)
    (cost : OldRegion → α) : (chooseOptional candidates most timeLeft cost).Appends :=
  (appends_takeOptional _ _ _ _).bind fun _ => (appends_write _ _ _).bind fun _ => appends_pure _

end OldRegions

end

namespace Policy

open Act (alike_pure alike_bind alike_bind_of_eq alike_ofChecked alike_ofLogged alike_write
  alike_report alike_ite tells_pure tells_write tells_report)
open Pause (Breakdown)

/-- What only the cards of a pause look at: the measurements of the current pause, and the time that
was granted for logged cards. -/
structure Reading (α : Type) where
  breakdown : Breakdown α
  goal : α

/-- The reading of a policy. -/
def reading (p : Policy α) : Reading α := ⟨p.breakdown, p.refinementGoal⟩

/-- The reading of `p` is `r`, and `q` is the same policy but for its reading `r'`. -/
structure Twin (r r' : Reading α) (p q : Policy α) : Prop where
  reading_eq : p.reading = r
  eq : q = { p with breakdown := r'.breakdown, refinementGoal := r'.goal }

/-- Beside twins there is the same value on both sides. -/
def Twin.Beside {β : Type} (r r' : Reading α) (x x' : β × Policy α) : Prop :=
  x.1 = x'.1 ∧ Twin r r' x.2 x'.2

variable [Scalar α] {p q : Policy α} {r r' : Reading α} {heap : Heap α}

omit [Scalar α] in
theorem alike_reportMarkingDecision (initiated : Bool) (reason : String) :
    (reportMarkingDecision initiated reason : Act α Unit).Alike Eq
      (reportMarkingDecision initiated reason) :=
  (alike_write _ _ _).bind_eq fun _ => alike_report _

namespace Twin

omit [Scalar α] in
theorem settings_eq (h : Twin r r' p q) : q.settings = p.settings := h.eq ▸ rfl

omit [Scalar α] in
theorem costs_eq (h : Twin r r' p q) : q.costs = p.costs := h.eq ▸ rfl

omit [Scalar α] in
theorem phases_eq (h : Twin r r' p q) : q.phases = p.phases := h.eq ▸ rfl

omit [Scalar α] in
/-- Twins stay twins when the same is done to what they share. -/
theorem map (h : Twin r r' p q) (f : Policy α → Policy α)
    (hf : ∀ p : Policy α, (f p).reading = p.reading ∧
      f { p with breakdown := r'.breakdown, refinementGoal := r'.goal } =
        { f p with breakdown := r'.breakdown, refinementGoal := r'.goal }) :
    Twin r r' (f p) (f q) := by
  obtain ⟨rfl, rfl⟩ := h
  exact ⟨(hf p).1, (hf p).2⟩

omit [Scalar α] in
theorem measure (h : Twin r r' p q) (b b' : Breakdown α) :
    Twin { r with breakdown := b } { r' with breakdown := b' } { p with breakdown := b }
      { q with breakdown := b' } := by
  obtain ⟨rfl, rfl⟩ := h
  exact ⟨rfl, rfl⟩

omit [Scalar α] in
theorem ite {condition : Prop} [Decidable condition] {p' q' : Policy α}
    (h : Twin r r' p q) (h' : Twin r r' p' q') :
    Twin r r' (if condition then p else p') (if condition then q else q') := by
  split
  · exact h
  · exact h'

/-! ## Answers -/

theorem needsMarking (h : Twin r r' p q) (heap : Heap α) (source : String) (bytes : Nat) :
    (p.needsMarking heap source bytes).Alike Eq (q.needsMarking heap source bytes) := by
  obtain ⟨-, rfl⟩ := h
  refine alike_ite (alike_pure rfl) ?_
  refine alike_bind _ fun threshold => alike_bind _ fun occupied => ?_
  refine alike_ite (alike_pure rfl) ?_
  exact (alike_write _ _ _).bind_eq fun _ => alike_pure rfl

theorem mixedIsWorthwhile (h : Twin r r' p q) (heap : Heap α) (yes no : String) :
    (p.mixedIsWorthwhile heap yes no).Alike Eq (q.mixedIsWorthwhile heap yes no) := by
  obtain ⟨-, rfl⟩ := h
  unfold Policy.mixedIsWorthwhile
  cases heap.remainingCandidates with
  | none => exact (alike_write _ _ _).bind_eq fun _ => alike_pure rfl
  | some candidates => exact (alike_write _ _ _).bind_eq fun _ => alike_pure rfl

theorem chooseOldRegions (h : Twin r r' p q) (heap : Heap α) (timeLeft : α) :
    (p.chooseOldRegions heap timeLeft).Alike Eq (q.chooseOldRegions heap timeLeft) := by
  obtain ⟨-, rfl⟩ := h
  unfold Policy.chooseOldRegions
  cases heap.candidates with
  | none => exact alike_ofChecked rfl
  | some candidates =>
    refine alike_bind _ fun limits => ?_
    refine (alike_ofLogged (OldRegions.appends_choose _ _ _ _)).bind_eq fun budget => ?_
    exact (alike_report _).bind_eq fun _ => alike_pure rfl

theorem chooseOptionalRegions (h : Twin r r' p q) (heap : Heap α) (most : Nat)
    (timeLeft : α) :
    (p.chooseOptionalRegions heap most timeLeft).Alike Eq
      (q.chooseOptionalRegions heap most timeLeft) := by
  obtain ⟨-, rfl⟩ := h
  unfold Policy.chooseOptionalRegions
  refine alike_bind _ fun _ => ?_
  cases heap.candidates with
  | none => exact alike_ofChecked rfl
  | some candidates => exact alike_ofLogged (OldRegions.appends_chooseOptional _ _ _ _)

theorem youngTargetFor (h : Twin r r' p q) (heap : Heap α) (now : α) (entries : Nat) :
    (p.youngTargetFor heap now entries).Alike Eq (q.youngTargetFor heap now entries) := by
  obtain ⟨-, rfl⟩ := h
  refine alike_bind _ fun bounds => alike_bind _ fun survivorTime => alike_bind _ fun target => ?_
  exact (alike_write _ _ _).bind_eq fun _ => alike_pure rfl

/-! ## The mutator phase -/

omit [Scalar α] in
theorem addOldAllocation (h : Twin r r' p q) (bytes : Nat) :
    Checked.Alike (Twin r r') (p.addOldAllocation bytes) (q.addOldAllocation bytes) := by
  obtain ⟨rfl, rfl⟩ := h
  exact Checked.alike_bind _ fun _ => ⟨rfl, rfl⟩

omit [Scalar α] in
theorem recordAges (h : Twin r r' p q) (ages : SurvivorAges) :
    Checked.Alike (Twin r r') (p.recordAges ages) (q.recordAges ages) := by
  obtain ⟨rfl, rfl⟩ := h
  exact Checked.alike_bind _ fun _ => ⟨rfl, rfl⟩

theorem recordSurvivors (h : Twin r r' p q) (tag : SurvivalTag) (bytes : Nat) :
    Checked.Alike (Twin r r') (p.recordSurvivors tag bytes)
      (q.recordSurvivors tag bytes) := by
  obtain ⟨rfl, rfl⟩ := h
  unfold Policy.recordSurvivors
  cases tag.population with
  | eden => exact Checked.alike_bind _ fun _ => Checked.alike_bind _ fun _ => ⟨rfl, rfl⟩
  | survivor => exact Checked.alike_bind _ fun _ => Checked.alike_bind _ fun _ => ⟨rfl, rfl⟩

omit [Scalar α] in
theorem newEdenRegion (h : Twin r r' p q) :
    Twin r r' p.newEdenRegion.2 q.newEdenRegion.2 := by
  obtain ⟨rfl, rfl⟩ := h
  exact ⟨rfl, rfl⟩

theorem transferSurvivors (h : Twin r r' p q) (count : Nat) (learn : Bool) :
    Twin r r' (p.transferSurvivors count learn).2 (q.transferSurvivors count learn).2 := by
  obtain ⟨rfl, rfl⟩ := h
  exact ⟨rfl, rfl⟩

omit [Scalar α] in
theorem exhaustSurvivorSpace (h : Twin r r' p q) :
    p.exhaustSurvivorSpace.Alike (Twin r r') q.exhaustSurvivorSpace := by
  obtain ⟨rfl, rfl⟩ := h
  exact (alike_write _ _ _).bind_eq fun _ => alike_pure ⟨rfl, rfl⟩

/-! ## The length of the young generation -/

theorem resize (h : Twin r r' p q) (regions : Nat) :
    Checked.Alike (Twin r r') (p.resize regions) (q.resize regions) := by
  obtain ⟨rfl, rfl⟩ := h
  exact Checked.alike_bind _ fun _ => Checked.alike_bind _ fun _ => ⟨rfl, rfl⟩

theorem chooseYoungLengthFor (h : Twin r r' p q) (heap : Heap α) (now : α) (entries : Nat) :
    (p.chooseYoungLengthFor heap now entries).Alike (Beside r r')
      (q.chooseYoungLengthFor heap now entries) := by
  refine (h.youngTargetFor heap now entries).bind_eq fun target => ?_
  obtain ⟨rfl, rfl⟩ := h
  refine alike_bind _ fun maximum => (alike_report _).bind_eq fun _ => ?_
  exact alike_pure ⟨rfl, rfl, rfl⟩

theorem chooseYoungLength (h : Twin r r' p q) (heap : Heap α) (now : α) :
    (p.chooseYoungLength heap now).Alike (Beside r r') (q.chooseYoungLength heap now) := by
  unfold Policy.chooseYoungLength
  rw [h.costs_eq]
  exact alike_bind _ fun entries => h.chooseYoungLengthFor heap now entries

omit [Scalar α] in
theorem expectEntries (h : Twin r r' p q) (entries : Nat) :
    Twin r r' (p.expectEntries entries) (q.expectEntries entries) := by
  obtain ⟨rfl, rfl⟩ := h
  exact Twin.ite ⟨rfl, rfl⟩ ⟨rfl, rfl⟩

theorem expectPredictedEntries (h : Twin r r' p q) :
    Checked.Alike (Twin r r') p.expectPredictedEntries q.expectPredictedEntries := by
  unfold Policy.expectPredictedEntries
  rw [h.costs_eq]
  exact Checked.alike_bind _ fun entries => h.expectEntries entries

theorem revise (h : Twin r r' p q) (heap : Heap α) (now : α) (entries : Nat) :
    (p.revise heap now entries).Alike (Twin r r') (q.revise heap now entries) := by
  have hadaptive : q.isAdaptive = p.isAdaptive := h.eq ▸ rfl
  have hexpected : q.expectedEntries = p.expectedEntries := h.eq ▸ rfl
  unfold Policy.revise
  rw [hadaptive, hexpected]
  refine alike_bind _ fun _ => alike_ite ?_ (alike_pure h)
  refine alike_bind _ fun scaled => ?_
  refine ((h.expectEntries _).chooseYoungLengthFor heap now _).bind ?_
  rintro ⟨_, p'⟩ ⟨_, q'⟩ ⟨_, htwin⟩
  exact alike_pure htwin

/-! ## Refinement and the start of a pause -/

/-- The reading before a pause asks when the pause started. -/
theorem readRefinement (h : Twin r r' p q) (hstart : r'.breakdown.start = r.breakdown.start)
    (heap : Heap α) (full : Bool) :
    (p.readRefinement heap full).Alike (Twin r r') (q.readRefinement heap full) := by
  obtain ⟨rfl, rfl⟩ := h
  unfold Policy.readRefinement
  dsimp only
  rw [hstart]
  refine alike_ite ?_ (alike_bind _ fun refined => alike_bind _ fun cards => alike_ite ?_ ?_)
  all_goals
    refine (alike_pure rfl).bind_eq fun costs => (alike_write _ _ _).bind_eq fun _ => ?_
    exact alike_pure ⟨rfl, rfl⟩

theorem chooseTenuring (h : Twin r r' p q) (heap : Heap α) :
    (p.chooseTenuring heap).Alike (Twin r r') (q.chooseTenuring heap) := by
  obtain ⟨rfl, rfl⟩ := h
  refine alike_bind _ fun desired => alike_bind _ fun threshold => ?_
  refine (alike_ofLogged (SurvivorAges.appends_log _ _ _ _)).bind_eq fun _ => ?_
  refine alike_bind _ fun available => (alike_report _).bind_eq fun _ => ?_
  exact alike_pure ⟨rfl, rfl⟩

theorem startPause (h : Twin r r' p q) (heap : Heap α) (start : α) :
    (p.startPause heap start).Alike
      (Twin { r with breakdown.start := start } { r' with breakdown.start := start })
      (q.startPause heap start) := by
  have hcause := h.map (fun p => { p with cause := heap.cause }) fun _ => ⟨rfl, rfl⟩
  refine (hcause.chooseTenuring heap).bind ?_
  rintro p' q' ⟨rfl, rfl⟩
  have hstarted : Twin { p'.reading with breakdown.start := start }
      { r' with breakdown.start := start } { p' with breakdown.start := start }
      { p' with
        breakdown := { r'.breakdown with start := start }
        refinementGoal := r'.goal } := ⟨rfl, rfl⟩
  refine (hstarted.readRefinement rfl heap false).bind ?_
  rintro p'' q'' ⟨hreading, rfl⟩
  exact alike_pure ⟨hreading, rfl⟩

/-! ## Marking -/

omit [Scalar α] in
theorem seesInitialMark (h : Twin r r' p q) :
    Beside r r' p.seesInitialMark q.seesInitialMark := by
  obtain ⟨rfl, rfl⟩ := h
  exact ⟨rfl, rfl, rfl⟩

omit [Scalar α] in
theorem scheduleMarking (h : Twin r r' p q) :
    Checked.Alike (Twin r r') p.scheduleMarking q.scheduleMarking := by
  obtain ⟨rfl, rfl⟩ := h
  exact Checked.alike_bind _ fun _ => ⟨rfl, rfl⟩

theorem askForMarkingIfNeeded (h : Twin r r' p q) (heap : Heap α) :
    (p.askForMarkingIfNeeded heap).Alike (Twin r r') (q.askForMarkingIfNeeded heap) := by
  refine (h.needsMarking heap _ _).bind_eq fun needed => ?_
  obtain ⟨rfl, rfl⟩ := h
  exact alike_ite (alike_pure ⟨rfl, rfl⟩) (alike_pure ⟨rfl, rfl⟩)

omit [Scalar α] in
theorem forceMarking (h : Twin r r' p q) (heap : Heap α) (cause : Cause) :
    (p.forceMarking heap cause).Alike (Beside r r') (q.forceMarking heap cause) := by
  obtain ⟨rfl, rfl⟩ := h
  refine alike_ite ?_ ?_
  all_goals exact (alike_write _ _ _).bind_eq fun _ => alike_pure ⟨rfl, rfl, rfl⟩

omit [Scalar α] in
theorem finishInitialMark (h : Twin r r' p q) :
    p.finishInitialMark.Alike (Twin r r') q.finishInitialMark := by
  obtain ⟨rfl, rfl⟩ := h
  refine alike_ite ?_ (alike_pure ⟨rfl, rfl⟩)
  exact (alike_write _ _ _).bind_eq fun _ => alike_pure ⟨rfl, rfl⟩

theorem settleMarking (h : Twin r r' p q) (heap : Heap α) (initialMark : Bool) :
    (p.settleMarking heap initialMark).Alike (Twin r r')
      (q.settleMarking heap initialMark) :=
  alike_ite h.finishInitialMark (h.askForMarkingIfNeeded heap)

theorem decideMarking (h : Twin r r' p q) (heap : Heap α) :
    (p.decideMarking heap).Alike
      (fun x x' => x.1 = x'.1 ∧ x.2.2 = x'.2.2 ∧ Twin r r' x.2.1 x'.2.1)
      (q.decideMarking heap) := by
  obtain ⟨rfl, rfl⟩ := h
  refine alike_bind _ fun _ => ?_
  refine alike_ite (alike_pure ⟨rfl, rfl, rfl, rfl⟩) (alike_ite ?_ (alike_ite ?_ ?_))
  · refine (alike_ofChecked (scheduleMarking ⟨rfl, rfl⟩)).bind fun p' q' htwin => ?_
    exact (alike_reportMarkingDecision _ _).bind_eq fun _ => alike_pure ⟨rfl, rfl, htwin⟩
  · refine (alike_ofChecked (scheduleMarking ⟨rfl, rfl⟩)).bind fun p' q' htwin => ?_
    exact (alike_reportMarkingDecision _ _).bind_eq fun _ => alike_pure ⟨rfl, rfl, htwin⟩
  · exact (alike_reportMarkingDecision _ _).bind_eq fun _ => alike_pure ⟨rfl, rfl, rfl, rfl⟩

/-! ## The accounts of pauses -/

theorem recordPause (h : Twin r r' p q) (kind : Pause.Kind) {start start' : α}
    (hstart : start' = start) (finish : α) :
    (p.recordPause kind start finish).Alike (Twin r r')
      (q.recordPause kind start' finish) := by
  obtain ⟨rfl, rfl⟩ := h
  subst hstart
  unfold Policy.recordPause
  dsimp only
  refine alike_ite ((alike_pure rfl).bind_eq fun _ => ?_)
    ((alike_ofLogged (Utilization.Tracker.appends_add _ _ _)).bind_eq fun _ => ?_)
  all_goals
    refine alike_bind _ fun _ => alike_bind _ fun _ => (alike_report _).bind_eq fun _ => ?_
    exact alike_pure ⟨rfl, rfl⟩

theorem endRemark (h : Twin r r' p q) (now : α) :
    (p.endRemark now).Alike (Twin r r') (q.endRemark now) := by
  have hlearned := h.map (fun p => { p with
    costs := (p.costs.addRemark ((now - p.remarkStart) * num 1000)).postponePauseEnd
      ((now - p.remarkStart) * num 1000) }) fun _ => ⟨rfl, rfl⟩
  exact hlearned.recordPause .remark (h.eq ▸ rfl) now

theorem endCleanup (h : Twin r r' p q) (heap : Heap α) (now : α) :
    (p.endCleanup heap now).Alike
      (fun x x' => Twin r r' x.1 x'.1 ∧ x.2 = x'.2) (q.endCleanup heap now) := by
  refine (h.mixedIsWorthwhile heap _ _).bind_eq fun worthwhile => ?_
  have hlearned := h.map (fun p =>
    let p := if worthwhile then p else p.forgetMarkingLength
    { p with
      phases := { p.phases with beforeMixed := worthwhile, marking := false }
      costs := (p.costs.addCleanup ((now - p.cleanupStart) * num 1000)).postponePauseEnd
        ((now - p.cleanupStart) * num 1000) }) fun _ => by cases worthwhile <;> exact ⟨rfl, rfl⟩
  refine (hlearned.recordPause .cleanup (hlearned.eq ▸ rfl) now).bind fun p' q' htwin => ?_
  exact alike_pure ⟨htwin, rfl⟩

theorem startFull (h : Twin r r' p q) (hstart : r'.breakdown.start = r.breakdown.start)
    (heap : Heap α) (now : α) :
    (p.startFull heap now).Alike
      (fun x x' => Twin r r' x.1 x'.1 ∧ x.2 = x'.2) (q.startFull heap now) := by
  have hstarted := h.map (fun p => { p with
    fullStart := now
    phases := { p.phases with youngOnly := false, full := true } }) fun _ => ⟨rfl, rfl⟩
  refine (hstarted.readRefinement hstart _ true).bind fun p' q' htwin => ?_
  exact alike_pure ⟨htwin, rfl⟩

theorem endFull (h : Twin r r' p q) (heap : Heap α) (now : α) :
    (p.endFull heap now).Alike (Twin r r') (q.endFull heap now) := by
  have hstart : q.fullStart = p.fullStart := h.eq ▸ rfl
  have hcompacted := h.map (fun p => p.compacted now) fun _ => ⟨rfl, rfl⟩
  rw [endFull_eq, endFull_eq, hstart]
  refine (hcompacted.needsMarking heap _ _).bind_eq fun needed => ?_
  have hrestarted := h.map (fun p => p.restarted heap now needed) fun _ => ⟨rfl, rfl⟩
  refine (hrestarted.chooseYoungLength heap now).bind ?_
  rintro ⟨_, p₁⟩ ⟨_, q₁⟩ ⟨_, hchosen⟩
  refine (alike_ofChecked hchosen.expectPredictedEntries).bind fun p₂ q₂ hexpecting => ?_
  have hfresh := hexpecting.map (fun p =>
    { p with pendingAtEnd := heap.pendingCards, oldAllocation := 0 }) fun _ => ⟨rfl, rfl⟩
  refine (hfresh.recordPause .full (hexpecting.eq ▸ rfl) now).bind ?_
  rintro p₃ q₃ ⟨hreading, rfl⟩
  exact (alike_write _ _ _).bind_eq fun _ => alike_pure ⟨hreading, rfl⟩

/-! ## The end of an evacuation pause -/

theorem learnThreshold (h : Twin r r' p q) (heap : Heap α) (mutatorTime : α) (youngSize : Nat)
    (youngOnly initialMark : Bool) :
    (p.learnThreshold heap mutatorTime youngSize youngOnly initialMark).Alike (Twin r r')
      (q.learnThreshold heap mutatorTime youngSize youngOnly initialMark) := by
  have hsample : q.markingSample youngOnly = p.markingSample youngOnly := h.eq ▸ rfl
  obtain ⟨rfl, rfl⟩ := h
  unfold Policy.learnThreshold
  rw [hsample]
  -- whichever of the two lessons there are, what is reported of them is the same
  rcases p.markingSample youngOnly with _ | length
  all_goals
    refine alike_bind _ fun _ => alike_ite (alike_bind _ fun _ => ?_) (alike_bind _ fun _ => ?_)
    all_goals
      refine alike_ite (alike_bind _ fun report => ?_) (alike_pure ⟨rfl, rfl⟩)
      refine (alike_ofLogged report.appends_log).bind_eq fun _ => ?_
      exact (alike_report _).bind_eq fun _ => alike_pure ⟨rfl, rfl⟩

theorem learnThresholdUnlessPeriodic (h : Twin r r' p q) (heap : Heap α) (mutatorTime : α)
    (unbounded : Nat) (youngOnly initialMark : Bool) :
    (p.learnThresholdUnlessPeriodic heap mutatorTime unbounded youngOnly initialMark).Alike
      (Twin r r')
      (q.learnThresholdUnlessPeriodic heap mutatorTime unbounded youngOnly initialMark) := by
  have hforgotten := h.map forgetMarkingLength fun _ => ⟨rfl, rfl⟩
  unfold Policy.learnThresholdUnlessPeriodic
  rw [h.settings_eq]
  refine alike_ite (alike_pure hforgotten) (alike_bind _ fun youngSize => ?_)
  refine (h.learnThreshold heap _ _ _ _).bind fun p' q' htwin => alike_pure ?_
  exact htwin.map (fun p => { p with oldAllocation := 0 }) fun _ => ⟨rfl, rfl⟩

theorem advancePhases (h : Twin r r' p q) (heap : Heap α) (youngOnly initialMark : Bool) :
    (p.advancePhases heap youngOnly initialMark).Alike
      (fun x x' => Twin r r' x.1 x'.1 ∧ x.2 = x'.2)
      (q.advancePhases heap youngOnly initialMark) := by
  have hmixed := h.map (fun p =>
    { p with phases.youngOnly := false, phases.beforeMixed := false }) fun _ => ⟨rfl, rfl⟩
  have hyoung := h.map (fun p => { p with phases.youngOnly := true }) fun _ => ⟨rfl, rfl⟩
  have hworthwhile := h.mixedIsWorthwhile heap "continue mixed GCs" "do not continue mixed GCs"
  obtain ⟨rfl, rfl⟩ := h
  refine alike_ite (alike_bind _ fun _ => alike_pure ⟨hmixed, rfl⟩) ?_
  refine alike_ite (alike_pure ⟨⟨rfl, rfl⟩, rfl⟩) (hworthwhile.bind_eq fun worthwhile => ?_)
  refine alike_ite (alike_pure ⟨⟨rfl, rfl⟩, rfl⟩) ?_
  exact (hyoung.askForMarkingIfNeeded _).bind fun p' q' htwin => alike_pure ⟨htwin, rfl⟩

/-- The mutator phase is measured from when the pause started. -/
theorem mutatorTime_eq (h : Twin r r' p q) (hstart : r'.breakdown.start = r.breakdown.start) :
    q.mutatorTime = p.mutatorTime := by
  obtain ⟨rfl, rfl⟩ := h
  unfold Policy.mutatorTime
  rw [hstart]
  rfl

/-- Measurements of a pause that is not learned from are not looked at. -/
theorem frequencyAfter_eq (h : Twin r r' p q) {learn : Bool}
    (hlearn : learn = false ∨ r'.breakdown = r.breakdown) (mutatorTime finish pause : α) :
    q.frequencyAfter mutatorTime finish pause learn =
      p.frequencyAfter mutatorTime finish pause learn := by
  obtain ⟨rfl, rfl⟩ := h
  rcases hlearn with rfl | hsame
  · rfl
  · rw [hsame]
    rfl

theorem costsAfter_eq (h : Twin r r' p q) {learn : Bool}
    (hlearn : learn = false ∨ r'.breakdown = r.breakdown) (pause : α) (youngOnly : Bool) :
    q.costsAfter pause youngOnly learn = p.costsAfter pause youngOnly learn := by
  obtain ⟨rfl, rfl⟩ := h
  rcases hlearn with rfl | hsame
  · rfl
  · rw [hsame]
    rfl

end Twin

/-! ## The end of an evacuation pause -/

/-- What the end of a pause makes of the policy before it grants time for logged cards, with the
kind of the pause and the time that hot cards took. -/
def concluded (p : Policy α) (heap : Heap α) (now pause : α) :
    Act α (Policy α × Heap α × Pause.Kind × α) := do
  let youngOnly := p.phases.youngOnly
  let learn := !heap.evacuationFailed
  let (initialMark, p) := p.seesInitialMark
  let kind ← Act.ofChecked (p.phases.evacuationKind initialMark)
  let p ← p.recordPause kind (now - pause / num 1000) now
  let (initialMark, p) := p.seesInitialMark
  let p ← p.settleMarking heap initialMark
  let mutatorTime := p.mutatorTime
  let p := { p with costs := p.frequencyAfter mutatorTime now pause learn }
  let (p, heap) ← p.advancePhases heap youngOnly initialMark
  let p := { p with eden := (p.eden.finish p.predictor learn).startAdding }
  let hotCards := p.breakdown.mergeHotCards
  let costs ← Act.ofChecked (p.costsAfter pause youngOnly learn)
  Act.ofChecked (demand (¬ (initialMark = true ∧ p.phases.marking = true)) .initialMarkWhileMarking)
  let p :=
    { p with
      costs := costs
      phases.marking := p.phases.marking || initialMark
      freeRegions := heap.free }
  let (unbounded, p) ← p.chooseYoungLength heap now
  let p ← Act.ofChecked p.expectPredictedEntries
  let p ← p.learnThresholdUnlessPeriodic heap mutatorTime unbounded youngOnly initialMark
  return (p, heap, kind, hotCards)

/-- The rest of the end of a pause: the cards, and the measurements in the log. -/
def settleCards (p : Policy α) (heap : Heap α) (kind : Pause.Kind) (hotCards pause : α) :
    Act α (Policy α × Heap α) := do
  let p ← p.grantRefinementTime heap hotCards
  p.logPauseEnd heap kind pause
  return (p, heap)

theorem endPause_eq (p : Policy α) (heap : Heap α) (now pause : α) :
    p.endPause heap now pause = (do
      let (q, heap, kind, hotCards) ← p.concluded heap now pause
      q.settleCards heap kind hotCards pause) := by
  unfold endPause concluded prepareNext settleCards
  simp only [bind_assoc, pure_bind]

/-- Twins that look back on the same pause, each at its own hot cards. -/
structure Twin.Concluded (r r' : Reading α) (x x' : Policy α × Heap α × Pause.Kind × α) :
    Prop where
  twin : Twin r r' x.1 x'.1
  heap_eq : x.2.1 = x'.2.1
  kind_eq : x.2.2.1 = x'.2.2.1
  hotCards_eq : x.2.2.2 = r.breakdown.mergeHotCards
  hotCards_eq' : x'.2.2.2 = r'.breakdown.mergeHotCards

/-- If the evacuation failed, nothing that was measured matters before the cards. -/
theorem Twin.concluded (h : Twin r r' p q) (hstart : r'.breakdown.start = r.breakdown.start)
    (hlearn : heap.evacuationFailed = true ∨ r'.breakdown = r.breakdown) (now pause : α) :
    (p.concluded heap now pause).Alike (Concluded r r') (q.concluded heap now pause) := by
  have hlearn : (!heap.evacuationFailed) = false ∨ r'.breakdown = r.breakdown :=
    hlearn.imp_left fun hfailed => by rw [hfailed]; rfl
  obtain ⟨hseen, hsees⟩ := h.seesInitialMark
  have hkind : q.seesInitialMark.2.phases.evacuationKind q.seesInitialMark.1 =
      (p.seesInitialMark.2.phases.evacuationKind p.seesInitialMark.1 : Checked α _) := by
    rw [hsees.eq, hseen]
  unfold Policy.concluded
  refine alike_bind_of_eq hkind fun kind => ?_
  refine (hsees.recordPause kind rfl now).bind fun p₁ q₁ hrecorded => ?_
  obtain ⟨hseen', hsees'⟩ := hrecorded.seesInitialMark
  dsimp only
  rw [← hseen', h.phases_eq]
  refine (hsees'.settleMarking heap _).bind fun p₂ q₂ hsettled => ?_
  rw [hsettled.mutatorTime_eq hstart, hsettled.frequencyAfter_eq hlearn]
  have hcounted := hsettled.map (fun p =>
    { p with costs := p₂.frequencyAfter p₂.mutatorTime now pause !heap.evacuationFailed })
    fun _ => ⟨rfl, rfl⟩
  refine (hcounted.advancePhases heap _ _).bind ?_
  rintro ⟨p₃, heap'⟩ ⟨q₃, _⟩ ⟨hadvanced, rfl⟩
  have hfinished := hadvanced.map (fun p =>
    { p with eden := (p.eden.finish p.predictor !heap.evacuationFailed).startAdding })
    fun _ => ⟨rfl, rfl⟩
  dsimp only
  refine alike_bind_of_eq (hfinished.costsAfter_eq hlearn _ _) fun costs => ?_
  refine alike_bind_of_eq (by rw [hadvanced.phases_eq]) fun _ => ?_
  have hmodelled := hfinished.map (fun p => { p with
    costs := costs
    phases.marking := p.phases.marking || p₁.seesInitialMark.1
    freeRegions := heap'.free }) fun _ => ⟨rfl, rfl⟩
  refine (hmodelled.chooseYoungLength heap' now).bind ?_
  rintro ⟨unbounded, p₄⟩ ⟨_, q₄⟩ ⟨rfl, hchosen⟩
  refine (alike_ofChecked hchosen.expectPredictedEntries).bind fun p₅ q₅ hexpecting => ?_
  refine (hexpecting.learnThresholdUnlessPeriodic heap' _ _ _ _).bind fun p₆ q₆ htwin => ?_
  exact alike_pure ⟨htwin, rfl, rfl,
    congrArg (fun r => r.breakdown.mergeHotCards) hadvanced.reading_eq,
    congrArg (fun p => p.breakdown.mergeHotCards) hadvanced.eq⟩

/-- What is written about the measurements of a pause is about cards and phases. -/
def Cards (topic : Topic) : Prop := topic = .refinement ∨ topic = .phases

theorem grantRefinementTime_tells (p : Policy α) (heap : Heap α) (hotCards : α) :
    ∃ goal, (p.grantRefinementTime heap hotCards).Tells
      { p with refinementGoal := goal, pendingAtEnd := heap.pendingCards } Cards
      [.refinementGoal goal p.breakdown.loggedCardTime hotCards] := by
  unfold grantRefinementTime
  dsimp only
  split
  · exact ⟨_, (tells_write _ (.inl rfl) _).bind <| (tells_pure _).bind <|
      (tells_write _ (.inl rfl) _).bind <| (tells_report _).bind <| tells_pure _⟩
  · exact ⟨_, (tells_pure _).bind <| (tells_write _ (.inl rfl) _).bind <|
      (tells_report _).bind <| tells_pure _⟩

theorem logPauseEnd_tells (p : Policy α) (heap : Heap α) (kind : Pause.Kind) (pause : α) :
    (p.logPauseEnd heap kind pause).Tells () Cards [] := by
  have logged : (Act.ofLogged (p.breakdown.log pause)).Tells () Cards [] := by
    unfold Breakdown.log
    simp only [Act.ofLogged_bind]
    exact (tells_write _ (.inr rfl) _).bind <| (tells_write _ (.inr rfl) _).bind <|
      (tells_write _ (.inr rfl) _).bind <| tells_write _ (.inr rfl) _
  exact logged.bind (tells_write _ (.inr rfl) _)

/-- The cards decide on the goal for the next pause and on what is said about this one. -/
theorem settleCards_tells (p : Policy α) (heap : Heap α) (kind : Pause.Kind) (hotCards pause : α) :
    ∃ goal, (p.settleCards heap kind hotCards pause).Tells
      ({ p with refinementGoal := goal, pendingAtEnd := heap.pendingCards }, heap) Cards
      [.refinementGoal goal p.breakdown.loggedCardTime hotCards] := by
  obtain ⟨goal, hgranted⟩ := p.grantRefinementTime_tells heap hotCards
  exact ⟨goal, hgranted.bind <| (logPauseEnd_tells _ heap kind pause).bind <| tells_pure _⟩

theorem Twin.grantRefinementTime (h : Twin r r' p q) (hsame : r'.breakdown = r.breakdown)
    (heap : Heap α) (hotCards : α) :
    (p.grantRefinementTime heap hotCards).Alike Eq (q.grantRefinementTime heap hotCards) := by
  obtain ⟨rfl, rfl⟩ := h
  rw [hsame]
  refine alike_ite ((alike_write _ _ _).bind_eq fun _ => ?_) ?_
  all_goals
    refine (alike_pure rfl).bind_eq fun goal => (alike_write _ _ _).bind_eq fun _ => ?_
    exact (alike_report _).bind_eq fun _ => alike_pure rfl

/-- The same measurements give the same goal, whatever the goal was before. -/
theorem Twin.settleCards (h : Twin r r' p q) (hsame : r'.breakdown = r.breakdown) (heap : Heap α)
    (kind : Pause.Kind) (hotCards pause : α) :
    (p.settleCards heap kind hotCards pause).Alike Eq
      (q.settleCards heap kind hotCards pause) := by
  refine (h.grantRefinementTime hsame heap hotCards).bind_eq fun p' => ?_
  have logged : (p'.logPauseEnd heap kind pause).Alike Eq (p'.logPauseEnd heap kind pause) :=
    (alike_ofLogged (p'.breakdown.appends_log pause)).bind_eq fun _ => alike_write _ _ _
  exact logged.bind_eq fun _ => alike_pure rfl

/-- Twins with the same measurements are one policy after the pause. -/
theorem Twin.endPause (h : Twin r r' p q) (hsame : r'.breakdown = r.breakdown) (heap : Heap α)
    (now pause : α) : (p.endPause heap now pause).Alike Eq (q.endPause heap now pause) := by
  rw [endPause_eq, endPause_eq]
  refine (h.concluded (congrArg Breakdown.start hsame) (.inr hsame) now pause).bind ?_
  rintro ⟨p', heap', kind, hotCards⟩ ⟨q', _, _, hotCards'⟩ ⟨htwin, rfl, rfl, hhot, hhot'⟩
  obtain rfl : hotCards = r.breakdown.mergeHotCards := hhot
  obtain rfl : hotCards' = r'.breakdown.mergeHotCards := hhot'
  rw [hsame]
  exact htwin.settleCards hsame _ _ _ _

end Policy

end PauseGoal
