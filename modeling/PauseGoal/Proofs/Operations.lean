import PauseGoal.Proofs.SizerRules
import PauseGoal.Proofs.YoungLength

/-!
# What each operation changes

One contract for each part of a pause: which fields it sets, all others being as before, and which
events it reports. Whatever is asked about some fields or some events of a longer operation is read
off these contracts. None of the faults here is about the search for a young length; a contract that
leaves its faults open says so with `True`.
-/

namespace PauseGoal

open Checked (Meets meets_pure meets_value)
open Fault (OutsideSearch)
open Marking (Length Phases Report Threshold)
open Pause (Kind Record)

variable {α : Type}

/-! ## Parts that write nothing -/

theorem Fault.OutsideSearch.of_eq {fault : Fault α} (h : fault.aboutSearch = false) :
    fault.OutsideSearch := h

theorem demand_meets {condition : Prop} [Decidable condition] {fault : Fault α}
    (h : fault.aboutSearch = false) :
    Meets (demand condition fault) (fun _ => True) OutsideSearch :=
  (Checked.meets_demand fun _ => h).mono (fun _ _ => trivial) fun _ h => h

theorem Word.sum_meets (a b : Nat) :
    Meets (Word.add a b : Checked α Nat) (fun _ => True) OutsideSearch :=
  (Word.meets_add fun _ => OutsideSearch.of_eq rfl).mono (fun _ _ => trivial) fun _ h => h

theorem Marking.Phases.evacuationKind_meets (phases : Phases) (initialMark : Bool) :
    Meets (phases.evacuationKind initialMark : Checked α Kind) (fun _ => True) OutsideSearch := by
  refine (demand_meets rfl).bind fun _ _ => ?_
  split
  · exact (demand_meets rfl).bind fun _ _ => meets_pure trivial
  · split
    · exact meets_pure trivial
    · split <;> exact meets_pure trivial

theorem Pause.Breakdown.youngRegions_meets (b : Pause.Breakdown α) :
    Meets b.youngRegions (fun _ => True) OutsideSearch :=
  Word.sum_meets _ _

theorem Word.product_meets (a b : Nat) :
    Meets (Word.mul a b : Checked α Nat) (fun _ => True) OutsideSearch :=
  (Word.meets_mul fun _ => OutsideSearch.of_eq rfl).mono (fun _ _ => trivial) fun _ h => h

variable [Scalar α]

theorem Pause.Record.create_meets (kind : Kind) (start finish : α) :
    Meets (Record.create kind start finish) (fun record => record = ⟨kind, start, finish⟩)
      OutsideSearch :=
  (demand_meets rfl).bind fun _ _ => rfl

theorem Pause.Breakdown.log_meets (b : Pause.Breakdown α) (pause : α) (log : Log α) :
    Meets ((b.log pause).run.run log).1 (fun _ => True) OutsideSearch :=
  trivial

theorem CostModel.entryCount_meets (m : CostModel α) :
    Meets m.entryCount (fun _ => True) OutsideSearch :=
  Word.sum_meets _ _

theorem Utilization.Tracker.add_meets (t : Utilization.Tracker α) (start finish : α)
    (log : Log α) : Meets ((t.add start finish).run.run log).1 (fun _ => True) OutsideSearch := by
  unfold add
  extract_lets recent
  split
  · exact trivial
  · exact trivial

theorem Marking.Report.log_meets (r : Report α) (log : Log α) :
    Meets (r.log.run.run log).1 (fun _ => True) OutsideSearch := by
  unfold Report.log
  split
  · exact trivial
  · exact trivial

namespace Marking.Threshold

theorem bytes_meets (t : Threshold α) : Meets t.bytes (fun _ => True) OutsideSearch := by
  unfold bytes
  split
  · exact (demand_meets rfl).bind fun _ _ => meets_pure trivial
  · next f _ =>
    have safe : Meets (f.safeOccupancy t.target) (fun _ => True) OutsideSearch :=
      (demand_meets rfl).bind fun _ _ =>
        (Word.sum_meets _ _).bind fun _ _ => meets_pure trivial
    exact (Word.sum_meets _ _).bind fun _ _ => safe.bind fun _ _ => meets_pure trivial

theorem addMarking_meets (t : Threshold α) (length : α) :
    Meets (t.addMarking length) (fun _ => True) OutsideSearch := by
  unfold addMarking
  split
  · exact (demand_meets rfl).bind fun _ _ => meets_pure trivial
  · exact (demand_meets rfl).bind fun _ _ => meets_pure trivial

theorem addAllocation_meets (t : Threshold α) (time : α) (bytes youngSize : Nat) :
    Meets (t.addAllocation time bytes youngSize) (fun _ => True) OutsideSearch :=
  (demand_meets rfl).bind fun _ _ => meets_pure trivial

theorem report_meets (t : Threshold α) (current : Nat) :
    Meets (t.report current) (fun _ => True) OutsideSearch :=
  t.bytes_meets.bind fun _ _ => meets_pure trivial

end Marking.Threshold

namespace Policy

open Act (meets_ofChecked meets_ofLogged meets_write meets_report)

/-! ## Accounting -/

theorem trackMarkingLength_meets (p : Policy α) (kind : Kind) (start finish : α) :
    Meets (p.trackMarkingLength kind start finish) (fun _ => True) OutsideSearch := by
  have started : Meets (p.markingLength.startAt finish) (fun _ => True) OutsideSearch :=
    (demand_meets rfl).bind fun _ _ => meets_pure trivial
  cases kind with
  | initialMark =>
    simp only [trackMarkingLength]
    split
    · exact trivial
    · exact started
  | _ => exact trivial

/-- A full collection does not count for the utilization. -/
theorem recordPause_meets (p : Policy α) (kind : Kind) (start finish : α) :
    (p.recordPause kind start finish).Meets
      (fun q events => events = [.pause kind start finish] ∧
        ∃ utilization length, p.trackMarkingLength kind start finish = .ok length ∧
          (kind = .full → utilization = p.utilization) ∧
          q = { p with
            utilization := utilization
            markingLength := length
            costs := p.costs.countPause ⟨kind, start, finish⟩ })
      OutsideSearch := by
  have rest (utilization : Utilization.Tracker α)
      (hfull : kind = .full → utilization = p.utilization) :
      (do
        let markingLength ← Act.ofChecked (p.trackMarkingLength kind start finish)
        let record ← Act.ofChecked (Record.create kind start finish)
        Act.report (.pause kind start finish)
        return { p with
          utilization := utilization
          markingLength := markingLength
          costs := p.costs.countPause record } : Act α (Policy α)).Meets
        (fun q events => events = [.pause kind start finish] ∧
          ∃ utilization length, p.trackMarkingLength kind start finish = .ok length ∧
            (kind = .full → utilization = p.utilization) ∧
            q = { p with
              utilization := utilization
              markingLength := length
              costs := p.costs.countPause ⟨kind, start, finish⟩ })
        OutsideSearch := by
    refine (meets_ofChecked (p.trackMarkingLength_meets kind start finish).and_eq_ok).bind_silent ?_
    rintro length ⟨hlength, _⟩
    refine (meets_ofChecked (Record.create_meets kind start finish)).bind_silent ?_
    rintro _ rfl
    refine (meets_report _).bind ?_
    rintro _ _ rfl
    exact Act.meets_pure ⟨rfl, utilization, length, hlength, hfull, rfl⟩
  unfold recordPause
  split
  · exact rest _ fun _ => rfl
  · next hother =>
    refine (meets_ofLogged (p.utilization.add_meets start finish)).bind_silent ?_
    exact fun utilization _ => rest utilization fun hfull => absurd hfull hother

/-! ## The marking flag and the phases -/

theorem needsMarking_meets (p : Policy α) (heap : Heap α) (source : String) (bytes : Nat) :
    (p.needsMarking heap source bytes).Meets (fun _ events => events = []) OutsideSearch := by
  unfold needsMarking
  split
  · exact Act.meets_pure rfl
  · refine (meets_ofChecked p.threshold.bytes_meets).bind_silent fun threshold _ => ?_
    refine (meets_ofChecked (Word.sum_meets _ _)).bind_silent fun occupied _ => ?_
    split
    · exact Act.meets_pure rfl
    · exact (meets_write _ _ _).bind_silent fun _ _ => Act.meets_pure rfl

theorem askForMarkingIfNeeded_meets (p : Policy α) (heap : Heap α) :
    (p.askForMarkingIfNeeded heap).Meets
      (fun q events => events = [] ∧ ∃ request, q = { p with request := request })
      OutsideSearch := by
  refine (p.needsMarking_meets heap "end of GC" 0).bind ?_
  rintro needed _ rfl
  cases needed with
  | true => exact Act.meets_pure ⟨rfl, _, rfl⟩
  | false => exact Act.meets_pure ⟨rfl, _, rfl⟩

omit [Scalar α] in
theorem finishInitialMark_meets (p : Policy α) :
    p.finishInitialMark.Meets
      (fun q events => events = [] ∧ ∃ request, q = { p with request := request })
      OutsideSearch := by
  unfold finishInitialMark
  simp only
  split
  · exact (meets_write _ _ _).bind_silent fun _ _ => Act.meets_pure ⟨rfl, _, rfl⟩
  · exact Act.meets_pure ⟨rfl, _, rfl⟩

theorem settleMarking_meets (p : Policy α) (heap : Heap α) (initialMark : Bool) :
    (p.settleMarking heap initialMark).Meets
      (fun q events => events = [] ∧ ∃ request, q = { p with request := request })
      OutsideSearch := by
  unfold settleMarking
  split
  · exact p.finishInitialMark_meets
  · exact p.askForMarkingIfNeeded_meets heap

theorem mixedIsWorthwhile_meets (p : Policy α) (heap : Heap α) (yes no : String) :
    (p.mixedIsWorthwhile heap yes no).Meets (fun _ events => events = []) OutsideSearch := by
  unfold mixedIsWorthwhile
  cases heap.remainingCandidates with
  | none => exact (meets_write _ _ _).bind_silent fun _ _ => Act.meets_pure rfl
  | some candidates => exact (meets_write _ _ _).bind_silent fun _ _ => Act.meets_pure rfl

/-- Only candidates change in the heap. -/
theorem advancePhases_meets (p : Policy α) (heap : Heap α) (youngOnly initialMark : Bool) :
    (p.advancePhases heap youngOnly initialMark).Meets
      (fun r events => events = [] ∧
        (∃ phases request, r.1 = { p with phases := phases, request := request }) ∧
        ∃ candidates, r.2 = heap.withCandidates candidates)
      OutsideSearch := by
  unfold advancePhases
  split
  · refine (meets_ofChecked (demand_meets rfl)).bind_silent fun _ _ => ?_
    exact Act.meets_pure ⟨rfl, ⟨_, _, rfl⟩, heap.candidates, rfl⟩
  · split
    · exact Act.meets_pure ⟨rfl, ⟨_, _, rfl⟩, heap.candidates, rfl⟩
    · refine (p.mixedIsWorthwhile_meets heap _ _).bind ?_
      rintro worthwhile _ rfl
      cases worthwhile with
      | true => exact Act.meets_pure ⟨rfl, ⟨_, _, rfl⟩, heap.candidates, rfl⟩
      | false =>
        refine (askForMarkingIfNeeded_meets _ _).bind_silent ?_
        rintro _ ⟨request, rfl⟩
        exact Act.meets_pure ⟨rfl, ⟨_, request, rfl⟩, none, rfl⟩

/-! ## The end of a pause -/

theorem costsAfter_meets (p : Policy α) (pause : α) (youngOnly learn : Bool) :
    Meets (p.costsAfter pause youngOnly learn) (fun _ => True) OutsideSearch := by
  unfold costsAfter
  split
  · unfold learnCosts
    extract_lets
    refine (Pause.Breakdown.youngRegions_meets _).bind fun _ _ => ?_
    extract_lets
    split
    · exact meets_pure trivial
    · exact meets_pure trivial
  · exact trivial

omit [Scalar α] in
theorem expectEntries_eq (p : Policy α) (entries : Nat) :
    ∃ expected, p.expectEntries entries = { p with expectedEntries := expected } := by
  unfold expectEntries
  split
  · exact ⟨entries, rfl⟩
  · exact ⟨p.expectedEntries, rfl⟩

/-- The faults are those of the prediction. -/
theorem expectPredictedEntries_meets_of {p : Policy α} {fail : Fault α → Prop}
    (h : ∀ fault, p.costs.entryCount = .error fault → fail fault) :
    Meets p.expectPredictedEntries (fun q => ∃ entries, q = { p with expectedEntries := entries })
      fail := by
  refine ((Checked.meets_self _).mono (fun _ _ => trivial) h).bind ?_
  exact fun entries (_ : True) => meets_pure (p.expectEntries_eq entries)

theorem expectPredictedEntries_meets (p : Policy α) :
    Meets p.expectPredictedEntries (fun q => ∃ entries, q = { p with expectedEntries := entries })
      OutsideSearch :=
  expectPredictedEntries_meets_of fun _ h => p.costs.entryCount_meets.of_eq_error h

/-- At most a report, and a new threshold, measurement and count of bytes. -/
def Learned (p q : Policy α) (events : List (Event α)) : Prop :=
  (∃ report : Option (Report α), events = (report.map .threshold).toList) ∧
    ∃ threshold length bytes,
      q = { p with threshold := threshold, markingLength := length, oldAllocation := bytes }

theorem learnThreshold_meets (p : Policy α) (heap : Heap α) (time : α) (youngSize : Nat)
    (youngOnly initialMark : Bool) :
    (p.learnThreshold heap time youngSize youngOnly initialMark).Meets p.Learned OutsideSearch := by
  unfold learnThreshold
  extract_lets marking markingLength allocation finish learn
  have finished (threshold : Threshold α) : (finish threshold).Meets p.Learned OutsideSearch := by
    unfold finish
    split
    · refine (meets_ofChecked (threshold.report_meets _)).bind_silent fun report _ => ?_
      refine (meets_ofLogged report.log_meets).bind_silent fun _ _ => ?_
      refine (meets_report _).bind ?_
      rintro _ _ rfl
      exact Act.meets_pure ⟨⟨some report, rfl⟩, _, _, _, rfl⟩
    · exact Act.meets_pure ⟨⟨none, rfl⟩, _, _, _, rfl⟩
  have learned (threshold : Threshold α) : (learn threshold).Meets p.Learned OutsideSearch := by
    unfold learn
    split
    · refine (meets_ofChecked (threshold.addAllocation_meets _ _ _)).bind_silent fun t _ => ?_
      exact finished t
    · exact finished threshold
  cases marking with
  | some length =>
    refine (meets_ofChecked (p.threshold.addMarking_meets length)).bind_silent fun t _ => ?_
    exact learned t
  | none => exact learned p.threshold

theorem learnThresholdUnlessPeriodic_meets (p : Policy α) (heap : Heap α) (mutatorTime : α)
    (unbounded : Nat) (youngOnly initialMark : Bool) :
    (p.learnThresholdUnlessPeriodic heap mutatorTime unbounded youngOnly initialMark).Meets
      p.Learned OutsideSearch := by
  unfold learnThresholdUnlessPeriodic
  split
  · exact Act.meets_pure ⟨⟨none, rfl⟩, _, _, _, rfl⟩
  · refine (meets_ofChecked (Word.product_meets _ _)).bind_silent fun youngSize _ => ?_
    refine (p.learnThreshold_meets heap _ youngSize youngOnly initialMark).bind ?_
    rintro _ _ ⟨⟨report, rfl⟩, _, _, _, rfl⟩
    exact Act.meets_pure ⟨⟨report, List.append_nil _⟩, _, _, _, rfl⟩

theorem grantRefinementTime_meets (p : Policy α) (heap : Heap α) (hotCards : α) :
    (p.grantRefinementTime heap hotCards).Meets
      (fun q events => (∃ goal loggedCards, events = [.refinementGoal goal loggedCards hotCards]) ∧
        ∃ goal pending, q = { p with refinementGoal := goal, pendingAtEnd := pending })
      OutsideSearch := by
  unfold grantRefinementTime
  extract_lets granted loggedCards grant
  have written (goal : α) :
      (grant goal).Meets
        (fun q events =>
          (∃ goal loggedCards, events = [.refinementGoal goal loggedCards hotCards]) ∧
            ∃ goal pending, q = { p with refinementGoal := goal, pendingAtEnd := pending })
        OutsideSearch := by
    refine (meets_write _ _ _).bind_silent fun _ _ => ?_
    refine (meets_report _).bind ?_
    rintro _ _ rfl
    exact Act.meets_pure ⟨⟨_, _, rfl⟩, _, _, rfl⟩
  split
  · exact (meets_write _ _ _).bind_silent fun _ _ => written _
  · exact written _

theorem logPauseEnd_meets (p : Policy α) (heap : Heap α) (kind : Kind) (pause : α) :
    (p.logPauseEnd heap kind pause).Meets (fun _ events => events = [] ∧ True) OutsideSearch :=
  (meets_ofLogged (p.breakdown.log_meets pause)).bind_silent fun _ _ => meets_write _ _ _

/-! ## The mutator phase -/

omit [Scalar α] in
theorem addOldAllocation_meets (p : Policy α) (bytes : Nat) :
    Meets (p.addOldAllocation bytes)
      (fun q => q = { p with oldAllocation := p.oldAllocation + bytes }) OutsideSearch := by
  refine (Word.meets_add fun _ => .of_eq rfl).bind ?_
  rintro _ ⟨_, rfl⟩
  exact meets_pure rfl

omit [Scalar α] in
theorem setGroup_eq (p : Policy α) (g : SurvivalGroup α) (population : Population) :
    ∃ eden survivors,
      p.setGroup g population = { p with eden := eden, survivors := survivors } := by
  cases population with
  | eden => exact ⟨g, p.survivors, rfl⟩
  | survivor => exact ⟨p.eden, g, rfl⟩

theorem recordSurvivors_meets (p : Policy α) (tag : SurvivalTag) (bytes : Nat) :
    Meets (p.recordSurvivors tag bytes)
      (fun q => ∃ eden survivors, q = { p with eden := eden, survivors := survivors })
      fun _ => True := by
  obtain ⟨_, _, hblank⟩ := p.setGroup_eq (.blank tag.population) tag.population
  refine (meets_value _).bind fun age _ => (meets_value _).bind fun g _ => meets_pure ?_
  rw [hblank]
  obtain ⟨_, _, hset⟩ := setGroup_eq _ g tag.population
  exact ⟨_, _, hset⟩

omit [Scalar α] in
theorem recordAges_meets (p : Policy α) (ages : SurvivorAges) :
    Meets (p.recordAges ages) (fun q => ∃ ages, q = { p with ages := ages }) fun _ => True :=
  (meets_value _).bind fun ages _ => meets_pure ⟨ages, rfl⟩

omit [Scalar α] in
theorem exhaustSurvivorSpace_meets (p : Policy α) :
    p.exhaustSurvivorSpace.Meets (fun q events => events = [] ∧ q = { p with tenuring := 0 })
      OutsideSearch :=
  (meets_write _ _ _).bind_silent fun _ _ => Act.meets_pure ⟨rfl, rfl⟩

/-- The regions that a percentage of the heap is kept as a reserve. -/
def reserveAt (s : Settings α) (regions : Nat) : Nat :=
  Scalar.ceil (num regions * (num s.reservePercent / num 100 : α))

theorem resize_meets (p : Policy α) (regions : Nat) :
    Meets (p.resize regions)
      (fun q => q = { p with
        reserve := reserveAt p.settings regions
        sizer := p.sizer.forHeap regions
        threshold := p.threshold.setTarget (regions * p.settings.regionSize) })
      OutsideSearch := by
  refine (Young.Sizer.resize_meets (fun _ => .of_eq rfl) (fun _ => .of_eq rfl)
    (fun _ => .of_eq rfl) fun _ => .of_eq rfl).bind ?_
  rintro _ rfl
  refine (Word.meets_mul fun _ => OutsideSearch.of_eq rfl).bind ?_
  rintro _ ⟨_, rfl⟩
  exact meets_pure rfl

/-! ## The start of a pause -/

theorem chooseTenuring_meets (p : Policy α) (heap : Heap α) :
    (p.chooseTenuring heap).Meets
      (fun q events => (∃ desired, events = [.tenuring q.tenuring desired q.maxSurvivors]) ∧
        ∃ tenuring most, q = { p with tenuring := tenuring, maxSurvivors := most })
      fun _ => True := by
  refine (meets_ofChecked (meets_value _)).bind_silent fun desired _ => ?_
  refine (meets_ofChecked (meets_value _)).bind_silent fun threshold _ => ?_
  refine (Act.meets_logged _).bind_silent fun _ _ => ?_
  refine (meets_ofChecked (meets_value _)).bind_silent fun available _ => ?_
  refine (meets_report _).bind ?_
  rintro _ _ rfl
  exact Act.meets_pure ⟨⟨desired, rfl⟩, _, _, rfl⟩

theorem readRefinement_meets (p : Policy α) (heap : Heap α) (full : Bool) :
    (p.readRefinement heap full).Meets
      (fun q events => events = [] ∧ ∃ refinementRates loggingRates,
        q = { p with
          pendingAtStart := heap.pendingCards
          refinement := heap.refinement
          costs := { p.costs with
            refinementRates := refinementRates, loggingRates := loggingRates } })
      OutsideSearch := by
  unfold readRefinement
  extract_lets pending now time concurrentCards mutatorCards costs write phase
  have hcosts : ∃ rates, costs = { p.costs with refinementRates := rates } := by
    unfold costs
    split
    · exact ⟨_, rfl⟩
    · exact ⟨p.costs.refinementRates, rfl⟩
  obtain ⟨rates, hcosts⟩ := hcosts
  have written (loggingRates : Sample.Window α) :
      (write { p.costs with refinementRates := rates, loggingRates := loggingRates }).Meets
        (fun q events => events = [] ∧ ∃ refinementRates loggingRates,
          q = { p with
            pendingAtStart := heap.pendingCards
            refinement := heap.refinement
            costs := { p.costs with
              refinementRates := refinementRates, loggingRates := loggingRates } })
        OutsideSearch :=
    (meets_write _ _ _).bind_silent fun _ _ => Act.meets_pure ⟨rfl, _, _, rfl⟩
  rw [hcosts]
  split
  · exact written p.costs.loggingRates
  · refine (meets_ofChecked (Word.sum_meets _ _)).bind_silent fun refined _ => ?_
    refine (meets_ofChecked (Word.sum_meets _ _)).bind_silent fun cards _ => ?_
    split
    · exact written _
    · exact written p.costs.loggingRates

theorem startPause_meets (p : Policy α) (heap : Heap α) (start : α) :
    (p.startPause heap start).Meets
      (fun q events => (∃ desired, events = [.tenuring q.tenuring desired q.maxSurvivors]) ∧
        ∃ tenuring most refinementRates loggingRates,
          q = { p with
            cause := heap.cause
            tenuring := tenuring
            maxSurvivors := most
            breakdown.start := start
            pendingAtStart := heap.pendingCards
            refinement := heap.refinement
            costs := { p.costs with
              refinementRates := refinementRates, loggingRates := loggingRates }
            eden := p.eden.stopAdding
            ages := .empty })
      fun _ => True := by
  refine (chooseTenuring_meets _ heap).bind ?_
  rintro _ _ ⟨⟨desired, rfl⟩, tenuring, most, rfl⟩
  refine ((readRefinement_meets _ heap false).mono (fun _ _ h => h) fun _ _ => trivial).bind ?_
  rintro _ _ ⟨rfl, refinementRates, loggingRates, rfl⟩
  exact Act.meets_pure ⟨⟨desired, rfl⟩, _, _, _, _, rfl⟩

omit [Scalar α] in
theorem forceMarking_meets (p : Policy α) (heap : Heap α) (cause : Cause) :
    (p.forceMarking heap cause).Meets
      (fun r events => events = [] ∧ ∃ request, r.2 = { p with request := request })
      OutsideSearch := by
  unfold forceMarking
  split
  · exact (meets_write _ _ _).bind_silent fun _ _ => Act.meets_pure ⟨rfl, _, rfl⟩
  · exact (meets_write _ _ _).bind_silent fun _ _ => Act.meets_pure ⟨rfl, _, rfl⟩

omit [Scalar α] in
theorem scheduleMarking_meets (p : Policy α) :
    Meets p.scheduleMarking (fun q => ∃ request, q = { p with request := request })
      OutsideSearch :=
  (demand_meets rfl).bind fun _ _ => meets_pure ⟨_, rfl⟩

omit [Scalar α] in
theorem reportMarkingDecision_meets (initiated : Bool) (reason : String) :
    (reportMarkingDecision initiated reason : Act α Unit).Meets
      (fun _ events => events = [.markingDecision initiated reason]) OutsideSearch :=
  (meets_write _ _ _).bind_silent fun _ _ => meets_report _

theorem decideMarking_meets (p : Policy α) (heap : Heap α) :
    (p.decideMarking heap).Meets
      (fun r events =>
        (events = [] ∨ ∃ initiated reason, events = [.markingDecision initiated reason]) ∧
        (∃ phases request length,
          r.2.1 = { p with phases := phases, request := request, markingLength := length }) ∧
        ∃ candidates, r.2.2 = heap.withCandidates candidates)
      OutsideSearch := by
  unfold decideMarking
  simp only
  refine (meets_ofChecked (demand_meets rfl)).bind_silent fun _ _ => ?_
  split
  · exact Act.meets_pure ⟨.inl rfl, ⟨_, _, _, rfl⟩, heap.candidates, rfl⟩
  · split
    · refine (meets_ofChecked (scheduleMarking_meets _)).bind_silent ?_
      rintro _ ⟨request, rfl⟩
      refine (reportMarkingDecision_meets _ _).bind ?_
      rintro _ _ rfl
      exact Act.meets_pure ⟨.inr ⟨_, _, rfl⟩, ⟨_, _, _, rfl⟩, heap.candidates, rfl⟩
    · split
      · refine (meets_ofChecked (scheduleMarking_meets _)).bind_silent ?_
        rintro _ ⟨request, rfl⟩
        refine (reportMarkingDecision_meets _ _).bind ?_
        rintro _ _ rfl
        exact Act.meets_pure ⟨.inr ⟨_, _, rfl⟩, ⟨_, _, _, rfl⟩, none, rfl⟩
      · refine (reportMarkingDecision_meets _ _).bind ?_
        rintro _ _ rfl
        exact Act.meets_pure ⟨.inr ⟨_, _, rfl⟩, ⟨_, _, _, rfl⟩, heap.candidates, rfl⟩

/-! ## Old regions -/

theorem chooseOldRegions_meets (p : Policy α) (heap : Heap α) (timeLeft : α) :
    (p.chooseOldRegions heap timeLeft).Meets
      (fun budget events => events = [.collectionSet heap.eden heap.survivors.length budget])
      fun _ => True := by
  unfold chooseOldRegions
  split
  · exact fun _ => trivial
  · refine (meets_ofChecked (meets_value _)).bind_silent fun limits _ => ?_
    refine (Act.meets_logged _).bind_silent fun budget _ => ?_
    refine (meets_report _).bind ?_
    rintro _ _ rfl
    exact Act.meets_pure rfl

theorem chooseOptionalRegions_meets (p : Policy α) (heap : Heap α) (most : Nat) (timeLeft : α) :
    (p.chooseOptionalRegions heap most timeLeft).Meets (fun _ events => events = [] ∧ True)
      fun _ => True := by
  refine (meets_ofChecked (meets_value _)).bind_silent fun _ _ => ?_
  split
  · exact fun _ => trivial
  · exact Act.meets_logged _

/-! ## The other pauses -/

/-- The start of a full collection reads totals and drops the candidates, which never fails. -/
theorem startFull_meets (p : Policy α) (heap : Heap α) (now : α) :
    (p.startFull heap now).Meets
      (fun r events => events = [] ∧
        r.1 = { p with
          fullStart := now
          phases := { p.phases with youngOnly := false, full := true }
          pendingAtStart := heap.pendingCards
          refinement := heap.refinement } ∧
        r.2 = heap.clearCandidates)
      fun _ => False := by
  unfold startFull readRefinement
  exact (meets_write _ _ _).bind_silent fun _ _ => Act.meets_pure ⟨rfl, rfl, rfl⟩

theorem endRemark_meets (p : Policy α) (now : α) :
    (p.endRemark now).Meets
      (fun q events => events = [.pause .remark p.remarkStart now] ∧
        ∃ utilization length costs,
          q = { p with utilization := utilization, markingLength := length, costs := costs })
      OutsideSearch := by
  unfold endRemark
  extract_lets pause costs
  refine (recordPause_meets _ _ _ _).mono ?_ fun _ h => h
  rintro _ _ ⟨rfl, _, _, _, _, rfl⟩
  exact ⟨rfl, _, _, _, rfl⟩

theorem endCleanup_meets (p : Policy α) (heap : Heap α) (now : α) :
    (p.endCleanup heap now).Meets
      (fun r events => events = [.pause .cleanup p.cleanupStart now] ∧
        (∃ utilization length phases costs,
          r.1 = { p with
            utilization := utilization
            markingLength := length
            phases := phases
            costs := costs }) ∧
        ∃ candidates, r.2 = heap.withCandidates candidates)
      OutsideSearch := by
  refine (p.mixedIsWorthwhile_meets heap _ _).bind ?_
  rintro worthwhile _ rfl
  have hheap : ∃ candidates,
      (if worthwhile then heap else heap.clearCandidates) = heap.withCandidates candidates := by
    cases worthwhile with
    | true => exact ⟨heap.candidates, rfl⟩
    | false => exact ⟨none, rfl⟩
  have hpolicy : ∃ length,
      (if worthwhile then p else p.forgetMarkingLength) = { p with markingLength := length } := by
    cases worthwhile with
    | true => exact ⟨p.markingLength, rfl⟩
    | false => exact ⟨.unknown, rfl⟩
  obtain ⟨length, hpolicy⟩ := hpolicy
  simp only [hpolicy]
  refine (recordPause_meets _ _ _ _).bind ?_
  rintro _ _ ⟨rfl, _, _, _, _, rfl⟩
  exact Act.meets_pure ⟨rfl, ⟨_, _, _, _, rfl⟩, hheap⟩

end Policy

end PauseGoal
