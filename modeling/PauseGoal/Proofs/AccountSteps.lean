import PauseGoal.Proofs.Account

/-!
# What moves the account

The account changes when bytes are counted, when a pause starts or ends, and when a request
overrides the phase that the policy is in. For each of these operations one statement gives the
account after it and the pause that it reports.

At the end of an evacuation pause the marking threshold learns. What it learns is the value of two
functions, `markingLesson` and `allocationLesson`.
-/

namespace PauseGoal

open Marking (Length Threshold)
open Pause (Kind Record)

namespace Policy

variable {α : Type} [Scalar α]

/-! ## The account of a pause -/

/-- What the account of a pause changes, and what it reports. -/
def Accounted (p : Policy α) (kind : Kind) (start finish : α) (q : Policy α) : Prop :=
  q.request = p.request ∧ ∃ length, p.trackMarkingLength kind start finish = .ok length ∧
    q.account = { p.account with markingLength := length }

theorem records_recordPause (p : Policy α) (kind : Kind) (start finish : α) :
    (p.recordPause kind start finish).Records fun q records =>
      records = [⟨kind, start, finish⟩] ∧ p.Accounted kind start finish q := by
  refine Act.Reports.mono (p.recordPause_meets kind start finish).reports ?_
  rintro _ _ ⟨rfl, _, length, htrack, _, rfl⟩
  exact ⟨rfl, rfl, length, htrack, rfl⟩

end Policy

/-! ## What the marking threshold learns -/

/-- The threshold after it learned what there is to learn. -/
def Marking.Threshold.learn {α : Type} [Scalar α] (t : Threshold α) (marking : Option α)
    (allocation : Option (α × Nat × Nat)) : Checked α (Threshold α) := do
  let t ←
    match marking with
    | some length => t.addMarking length
    | none => .ok t
  match allocation with
  | some (time, bytes, youngSize) => t.addAllocation time bytes youngSize
  | none => .ok t

theorem Marking.Threshold.learn_some {α : Type} [Scalar α] {t t' : Threshold α} {length : α}
    (h : t.addMarking length = .ok t') (allocation : Option (α × Nat × Nat)) :
    t.learn (some length) allocation = t'.learn none allocation := by
  unfold learn
  simp only [h]

/-- What a pause teaches about marking, given the measurement at its end. -/
def markingLesson {α : Type} [Scalar α] (cause : Cause) (youngOnly : Bool) (length : Length α) :
    Option α :=
  if cause = .periodic ∨ youngOnly = true then none
  else (length.ends.map length.between).filter fun time => decide (Policy.leastThresholdTime < time)

/-- What a pause teaches about allocation: the length in seconds of the mutator phase before it, the
bytes counted, and the size of an unrestrained young generation. -/
def allocationLesson {α : Type} [Scalar α] (cause : Cause) (youngOnly initialMark : Bool) (time : α)
    (bytes youngSize : Nat) : Option (α × Nat × Nat) :=
  if cause ≠ .periodic ∧ youngOnly = true ∧ initialMark = false ∧
      Policy.leastThresholdTime < time then
    some (time, bytes, youngSize)
  else none

/-- The account after the threshold learned from a pause. A measurement that ended is over then, and
the count of bytes starts again. At a periodic collection the measurement is dropped and the count
of bytes goes on. -/
structure Account.Taught {α : Type} [Scalar α] (a : Account α) (cause : Cause) (time : α)
    (youngSize : Nat) (youngOnly initialMark : Bool) (a' : Account α) : Prop where
  learned :
    a.threshold.learn (markingLesson cause youngOnly a.markingLength)
      (allocationLesson cause youngOnly initialMark time a.oldAllocation youngSize) =
        .ok a'.threshold
  account : a' =
    { a with
      threshold := a'.threshold
      markingLength :=
        if cause = .periodic ∨ (youngOnly = false ∧ a.markingLength.isKnown = true) then .unknown
        else a.markingLength
      oldAllocation := if cause = .periodic then a.oldAllocation else 0 }

namespace Policy

open Act (quiet_pure quiet_check quiet_ofChecked quiet_ofLogged quiet_write quiet_report)

variable {α : Type} [Scalar α]

theorem account_learnThreshold (p : Policy α) (heap : Heap α) (time : α) (youngSize : Nat)
    (youngOnly initialMark : Bool) (hcause : heap.cause ≠ .periodic) :
    (p.learnThreshold heap time youngSize youngOnly initialMark).Quiet fun q =>
      p.account.Taught heap.cause time youngSize youngOnly initialMark
        { q.account with oldAllocation := 0 } := by
  unfold learnThreshold
  extract_lets marking markingLength allocation report learn
  have hmarking : markingLesson heap.cause youngOnly p.markingLength = marking := by
    simp only [markingLesson, hcause, false_or]
    rfl
  have hlength : markingLength =
      if heap.cause = .periodic ∨ (youngOnly = false ∧ p.markingLength.isKnown = true) then .unknown
      else p.markingLength := by
    simp only [hcause, false_or, markingLength, Bool.and_eq_true, Bool.not_eq_true']
  have hallocation :
      allocationLesson heap.cause youngOnly initialMark time p.oldAllocation youngSize =
        if allocation then some (time, p.oldAllocation, youngSize) else none := by
    simp only [allocationLesson, hcause, allocation, ne_eq, not_false_eq_true, true_and,
      Bool.and_eq_true, Bool.not_eq_true', decide_eq_true_eq, and_assoc]
  have reported (threshold : Threshold α) : (report threshold).Quiet fun q =>
      q.account = { p.account with threshold := threshold, markingLength := markingLength } := by
    unfold report
    split
    · refine (quiet_check _).bind fun r _ => ?_
      refine (quiet_ofLogged _).bind fun _ _ => ?_
      exact (quiet_report rfl).bind fun _ _ => quiet_pure rfl
    · exact quiet_pure rfl
  have learned (threshold : Threshold α) : (learn threshold).Quiet fun q =>
      threshold.learn none
          (allocationLesson heap.cause youngOnly initialMark time p.oldAllocation youngSize) =
        .ok q.threshold ∧
        q.account =
          { p.account with threshold := q.threshold, markingLength := markingLength } := by
    unfold learn
    rw [hallocation]
    cases allocation with
    | true =>
      refine (quiet_ofChecked fun _ h => h).bind fun t ht => (reported t).mono fun q hq => ?_
      have hthreshold : q.threshold = t := congrArg Account.threshold hq
      rw [hthreshold]
      exact ⟨ht, hq⟩
    | false =>
      refine (reported threshold).mono fun q hq => ?_
      have hthreshold : q.threshold = threshold := congrArg Account.threshold hq
      rw [hthreshold]
      exact ⟨rfl, hq⟩
  have taught {q : Policy α}
      (hlearn : p.threshold.learn marking
        (allocationLesson heap.cause youngOnly initialMark time p.oldAllocation youngSize) =
          .ok q.threshold)
      (hq : q.account =
        { p.account with threshold := q.threshold, markingLength := markingLength }) :
      p.account.Taught heap.cause time youngSize youngOnly initialMark
        { q.account with oldAllocation := 0 } := by
    refine ⟨hmarking ▸ hlearn, ?_⟩
    rw [hq, hlength, if_neg hcause]
    rfl
  cases hsample : marking with
  | none => exact (learned p.threshold).mono fun q hq => taught (hsample ▸ hq.1) hq.2
  | some length =>
    refine (quiet_ofChecked fun _ h => h).bind fun t ht => (learned t).mono fun q hq => ?_
    rw [← Marking.Threshold.learn_some ht, ← hsample] at hq
    exact taught hq.1 hq.2

theorem account_learnThresholdUnlessPeriodic (p : Policy α) (heap : Heap α) (mutatorTime : α)
    (unbounded : Nat) (youngOnly initialMark : Bool) :
    (p.learnThresholdUnlessPeriodic heap mutatorTime unbounded youngOnly initialMark).Quiet
      fun q => ∃ youngSize,
        p.account.Taught heap.cause (mutatorTime / num 1000) youngSize youngOnly initialMark
          q.account := by
  unfold learnThresholdUnlessPeriodic
  split
  · next hperiodic =>
    refine quiet_pure ⟨0, ?_, ?_⟩
    · rw [markingLesson, if_pos (Or.inl hperiodic), allocationLesson,
        if_neg fun h => h.1 hperiodic]
      rfl
    · rw [if_pos (Or.inl hperiodic), if_pos hperiodic]
      rfl
  · next hcause =>
    refine (quiet_check _).bind fun youngSize _ => ?_
    refine (p.account_learnThreshold heap _ youngSize youngOnly initialMark hcause).bind ?_
    exact fun q hq => quiet_pure ⟨youngSize, hq⟩

theorem account_prepareNext (p : Policy α) (heap : Heap α) (now mutatorTime hotCards : α)
    (youngOnly initialMark : Bool) :
    (p.prepareNext heap now mutatorTime hotCards youngOnly initialMark).Quiet fun q =>
      ∃ youngSize,
        p.account.Taught heap.cause (mutatorTime / num 1000) youngSize youngOnly initialMark
          q.account := by
  refine (p.account_chooseYoungLength heap now).bind fun r hr => ?_
  refine (quiet_ofChecked fun _ h => account_expectPredictedEntries h).bind fun q hq => ?_
  refine (q.account_learnThresholdUnlessPeriodic heap _ _ _ _).bind fun t ht => ?_
  refine (t.account_grantRefinementTime heap hotCards).mono fun u hu => ?_
  rwa [hu, ← hr, ← hq]

/-! ## The start of the policy -/

/-- The account of a policy that started at the given time. -/
def opening (p : Policy α) (now : α) : Account α where
  threshold := p.threshold
  markingLength := .unknown
  oldAllocation := 0
  started := num 0
  lastPauseEnd := now * num 1000
  fullStart := num 0

theorem account_initial {settings : Settings α} {heap : Heap α} {now : α} {fullCauses : List Cause}
    {sizer : Young.Sizer} {p : Policy α} (h : initial settings heap now fullCauses sizer = .ok p) :
    p.account = p.opening now := by
  obtain ⟨utilization, _, h⟩ := Checked.exists_of_bind_eq_ok h
  obtain ⟨threshold, _, hp⟩ := Checked.exists_of_bind_eq_ok h
  cases hp
  rfl

theorem account_start (settings : Settings α) (heap : Heap α) (now : α) (fullCauses : List Cause) :
    (start settings heap now fullCauses).Quiet fun r =>
      ∀ p, r = .ok p → p.account = p.opening now := by
  unfold start
  cases settings.validate with
  | error error =>
    refine quiet_pure fun p hp => ?_
    cases hp
  | ok _ =>
    refine (quiet_ofLogged _).bind fun sizer _ => ?_
    cases sizer with
    | error error =>
      refine quiet_pure fun p hp => ?_
      cases hp
    | ok sizer =>
      refine (quiet_ofChecked fun _ h => account_initial h).bind fun p hp => ?_
      refine (quiet_ofChecked fun _ h => account_resize h).bind fun q hq => ?_
      refine (account_chooseYoungLength q heap now).bind fun r hr => quiet_pure ?_
      rintro _ ⟨⟩
      obtain ⟨target, hq⟩ := hq
      have hthreshold : r.2.threshold = p.threshold.setTarget target :=
        congrArg Account.threshold (hr.trans hq)
      rw [hr, hq, hp]
      unfold opening
      rw [hthreshold]

/-! ## The end of an evacuation pause -/

/-- The account after an evacuation pause. The model learns when the pause ended unless its
evacuation failed; unless it was a periodic collection, the marking threshold learns and the count
of bytes starts again. -/
structure Ended (p : Policy α) (heap : Heap α) (now pause : α) (length : Length α)
    (youngSize : Nat) (a : Account α) : Prop where
  tracked :
    p.trackMarkingLength p.control.pauseKind (now - pause / num 1000) now = .ok length
  learned :
    p.threshold.learn (markingLesson heap.cause p.phases.youngOnly length)
      (allocationLesson heap.cause p.phases.youngOnly p.control.scheduled
        (p.mutatorTime / num 1000) p.oldAllocation youngSize) = .ok a.threshold
  markingLength : a.markingLength =
    if heap.cause = .periodic ∨ (p.phases.youngOnly = false ∧ length.isKnown = true) then .unknown
    else length
  oldAllocation : a.oldAllocation = if heap.cause = .periodic then p.oldAllocation else 0
  lastPauseEnd : a.lastPauseEnd =
    if heap.evacuationFailed then p.costs.lastPauseEnd else now * num 1000

theorem ended_of_taught {p : Policy α} {heap : Heap α} {now pause : α} {length : Length α}
    {youngSize : Nat} {a : Account α}
    (htrack :
      p.trackMarkingLength p.control.pauseKind (now - pause / num 1000) now = .ok length)
    (htaught : Account.Taught
      { p.account with
        markingLength := length
        lastPauseEnd :=
          if heap.evacuationFailed then p.account.lastPauseEnd else now * num 1000 }
      heap.cause (p.mutatorTime / num 1000) youngSize p.phases.youngOnly p.control.scheduled a) :
    p.Ended heap now pause length youngSize a where
  tracked := htrack
  learned := htaught.learned
  markingLength := congrArg Account.markingLength htaught.account
  oldAllocation := congrArg Account.oldAllocation htaught.account
  lastPauseEnd := congrArg Account.lastPauseEnd htaught.account

theorem records_endPause (p : Policy α) (heap : Heap α) (now pause : α) :
    (p.endPause heap now pause).Records fun r records =>
      records = [⟨p.control.pauseKind, now - pause / num 1000, now⟩] ∧
        ∃ length youngSize, p.Ended heap now pause length youngSize r.1.account := by
  have kinds : (Act.ofChecked (p.phases.evacuationKind p.control.scheduled) : Act α Kind).Quiet
      fun kind => kind = p.control.pauseKind := by
    have hkind := (ends_evacuationKind p.control).returns
    refine ((quiet_check _).and_returns hkind).mono ?_
    rintro kind ⟨_, _, _, hkind, _⟩
    exact hkind
  unfold endPause
  simp only
  rw [seesInitialMark_fst]
  refine kinds.bind_records ?_
  rintro _ rfl
  refine (records_recordPause _ _ _ _).bind ?_
  rintro q _ ⟨rfl, hrequest, length, htrack, hq⟩
  have hflag : q.seesInitialMark.1 = p.control.scheduled := by
    rw [seesInitialMark_fst, Control.scheduled, show q.control.request = q.request from rfl,
      hrequest]
    exact p.seesInitialMark_fst
  rw [hflag]
  refine (account_settleMarking _ heap _).bind_records fun r hr => ?_
  have hr : r.account = { p.account with markingLength := length } := hr.trans hq
  have htime : r.mutatorTime = p.mutatorTime := by
    rw [mutatorTime, show r.breakdown.start = r.account.started from rfl,
      show r.costs.lastPauseEnd = r.account.lastPauseEnd from rfl, hr]
    rfl
  rw [htime]
  have hcounted :
      (r.frequencyAfter p.mutatorTime now pause (!heap.evacuationFailed)).lastPauseEnd =
        if heap.evacuationFailed then p.account.lastPauseEnd else now * num 1000 := by
    rw [lastPauseEnd_frequencyAfter,
      show r.costs.lastPauseEnd = r.account.lastPauseEnd from rfl, hr]
    cases heap.evacuationFailed <;> rfl
  generalize r.frequencyAfter p.mutatorTime now pause (!heap.evacuationFailed) = counted
    at hcounted
  refine (account_advancePhases _ heap _ _).bind_records fun s hs => ?_
  refine (quiet_ofChecked fun _ h => lastPauseEnd_costsAfter h).bind_records fun costs hkept => ?_
  refine (quiet_check _).bind_records fun _ _ => ?_
  refine (account_prepareNext _ _ _ _ _ _ _).bind_records fun t ht => ?_
  refine (quiet_logPauseEnd _ _ _ _).bind_records fun _ _ => Act.records_pure ⟨rfl, ?_⟩
  obtain ⟨hs, hcause⟩ := hs
  obtain ⟨youngSize, ht⟩ := ht
  refine ⟨length, youngSize, ended_of_taught htrack ?_⟩
  have hs : s.1.account = { r.account with lastPauseEnd := counted.lastPauseEnd } := hs
  rw [hr, hcounted] at hs
  have ht : Account.Taught { s.1.account with lastPauseEnd := costs.lastPauseEnd } s.2.cause
      (p.mutatorTime / num 1000) youngSize p.phases.youngOnly p.control.scheduled
      t.account := ht
  rw [show costs.lastPauseEnd = s.1.account.lastPauseEnd from hkept, hs, hcause] at ht
  exact ht

/-! ## The other pauses -/

theorem account_startFull (p : Policy α) (heap : Heap α) (now : α) :
    (p.startFull heap now).Quiet fun r => r.1.account = { p.account with fullStart := now } :=
  (account_readRefinement _ _ _).bind fun _ hq => quiet_pure hq

theorem records_endFull (p : Policy α) (heap : Heap α) (now : α) :
    (p.endFull heap now).Records fun q records =>
      records = [⟨.full, p.fullStart, now⟩] ∧
        q.account =
          { p.account with
            markingLength := .unknown
            oldAllocation := 0
            lastPauseEnd := now * num 1000 } := by
  unfold endFull
  simp only
  refine (quiet_needsMarking _ _ _ _).bind_records fun needed _ => ?_
  refine (account_chooseYoungLength _ _ _).bind_records fun r hr => ?_
  refine (quiet_ofChecked fun _ h => account_expectPredictedEntries h).bind_records fun q hq => ?_
  have hq := hq.trans hr
  have hstart : q.fullStart = p.fullStart := congrArg Account.fullStart hq
  refine (records_recordPause _ _ _ _).bind ?_
  rintro s _ ⟨rfl, _, length, htrack, hs⟩
  refine (quiet_write _ _ _).bind_records fun _ _ => Act.records_pure ⟨?_, ?_⟩
  · rw [List.append_nil]
    rw [hstart]
  · cases htrack
    rw [hs]
    show ({ q.account with markingLength := .unknown, oldAllocation := 0 } : Account α) = _
    rw [hq]
    rfl

theorem records_endRemark (p : Policy α) (now : α) :
    (p.endRemark now).Records fun q records =>
      records = [⟨.remark, p.remarkStart, now⟩] ∧
        q.account =
          { p.account with
            markingLength := p.markingLength.addPause (now - p.remarkStart)
            lastPauseEnd := p.account.lastPauseEnd + (now - p.remarkStart) * num 1000 } := by
  unfold endRemark
  extract_lets pause costs
  refine Act.Records.mono (records_recordPause _ _ _ _) ?_
  rintro q _ ⟨hrecords, _, length, htrack, hq⟩
  cases htrack
  exact ⟨hrecords, hq⟩

theorem records_endCleanup (p : Policy α) (heap : Heap α) (now : α) :
    (p.endCleanup heap now).Records fun r records =>
      records = [⟨.cleanup, p.cleanupStart, now⟩] ∧
        r.1.account =
          { p.account with
            markingLength :=
              if p.control.worthwhile heap then p.markingLength.addPause (now - p.cleanupStart)
              else .unknown
            lastPauseEnd := p.account.lastPauseEnd + (now - p.cleanupStart) * num 1000 } := by
  refine (p.quiet_mixedIsWorthwhile heap _ _).bind_records fun worthwhile hworth => ?_
  subst hworth
  cases p.control.worthwhile heap with
  | true =>
    refine (records_recordPause _ _ _ _).bind ?_
    rintro q _ ⟨rfl, _, length, htrack, hq⟩
    cases htrack
    exact Act.records_pure ⟨rfl, hq⟩
  | false =>
    refine (records_recordPause _ _ _ _).bind ?_
    rintro q _ ⟨rfl, _, length, htrack, hq⟩
    cases htrack
    exact Act.records_pure ⟨rfl, hq⟩

end Policy

/-! ## The start of a pause -/

/-- A pending request overrides whatever phase the policy is in. -/
def Control.overridden {α : Type} (c : Control α) (heap : Heap α) : Bool :=
  c.pending && !c.mayStart heap && heap.cause.asksForMarking

theorem Decision.markingLength {α : Type} {c d : Control α} {heap heap' : Heap α}
    {initiated : Bool} [Scalar α] (h : Decision c heap initiated d heap') :
    d.markingLength = if c.overridden heap then .unknown else c.markingLength := by
  unfold Control.overridden
  cases h with
  | waits hwaits hlater =>
    rcases hwaits with hnone | ⟨_, hplain⟩
    · simp [hnone]
    · simp [hplain]
  | starts hpending hfree hflag => simp [hfree]
  | overrides hpending hbusy hasks hflag => simp [hpending, hbusy, hasks]

namespace Policy

variable {α : Type} [Scalar α]

theorem account_decideMarking (p : Policy α) (heap : Heap α) :
    (p.decideMarking heap).Quiet fun r =>
      r.2.1.account =
        { p.account with
          markingLength := if p.control.overridden heap then .unknown else p.markingLength } := by
  have keeps : (p.decideMarking heap).Quiet fun r =>
      r.2.1.account = { p.account with markingLength := r.2.1.markingLength } := by
    refine (p.decideMarking_meets heap).quiet ?_
    rintro ⟨_, _, _⟩ _ ⟨hevents, ⟨_, _, _, rfl⟩, _⟩
    refine ⟨?_, rfl⟩
    rcases hevents with rfl | ⟨_, _, rfl⟩ <;> rfl
  refine (keeps.and_returns (p.ends_decideMarking heap).returns).mono ?_
  rintro r ⟨hr, _, _, hdecision⟩
  have hlength : r.2.1.markingLength =
      if p.control.overridden heap then .unknown else p.markingLength := hdecision.markingLength
  rw [hr, hlength]

theorem quiet_chooseOldRegions (p : Policy α) (heap : Heap α) (timeLeft : α) :
    (p.chooseOldRegions heap timeLeft).Quiet fun _ => True := by
  refine (p.chooseOldRegions_meets heap timeLeft).quiet ?_
  rintro _ _ rfl
  exact ⟨rfl, trivial⟩

theorem quiet_chooseOptionalRegions (p : Policy α) (heap : Heap α) (most : Nat) (timeLeft : α) :
    (p.chooseOptionalRegions heap most timeLeft).Quiet fun _ => True := by
  refine (p.chooseOptionalRegions_meets heap most timeLeft).quiet ?_
  rintro _ _ ⟨rfl, _⟩
  exact ⟨rfl, trivial⟩

end Policy

end PauseGoal
