import PauseGoal.Proofs.Operations

/-!
# What the young generation is sized from

The length of the young generation is chosen from few parts of the policy, its `Plan`. Five
operations choose a length: the start, the ends of evacuation pauses and of full collections, the
choice between pauses, and a revision that finds more remembered set entries than expected. Each of
them reports the lengths once and changes nothing else of the plan but the free regions, which the
ends of collections count again.
-/

namespace PauseGoal

open Checked (Meets meets_pure)
open Fault (OutsideSearch)
open Marking (Report)

variable {α : Type}

/-- The lengths of the young generation that a choice reports. -/
structure Young.Lengths where
  target : Nat
  /-- The length that predictions alone ask for. -/
  unbounded : Nat
  maximum : Nat
deriving DecidableEq, Repr

/-- The lengths that an event reports. -/
def Event.lengths? : Event α → Option Young.Lengths
  | .youngTarget target unbounded maximum => some ⟨target, unbounded, maximum⟩
  | _ => none

/-- The lengths that events report, in order. -/
def lengthsOf (events : List (Event α)) : List Young.Lengths := events.filterMap Event.lengths?

/-- The lengths reported so far, in order. -/
def Journal.lengths (journal : Journal α) : List Young.Lengths := lengthsOf journal.events

theorem lengthsOf_append (events more : List (Event α)) :
    lengthsOf (events ++ more) = lengthsOf events ++ lengthsOf more := List.filterMap_append

/-- What the young generation is sized from, and its lengths. -/
structure Plan (α : Type) where
  settings : Settings α
  sizer : Young.Sizer
  reserve : Nat
  freeRegions : Nat
  youngTarget : Nat
  youngMaximum : Nat

namespace Policy

open Act (meets_ofChecked meets_ofLogged meets_write meets_report)

/-- The plan of a policy. -/
def plan (p : Policy α) : Plan α where
  settings := p.settings
  sizer := p.sizer
  reserve := p.reserve
  freeRegions := p.freeRegions
  youngTarget := p.youngTarget
  youngMaximum := p.youngMaximum

variable [Scalar α]

/-- A policy with another length, which it chose from the heap at a time at which so many regions
were free. Predictions asked for the given length. -/
structure Rechosen (p : Policy α) (free : Nat) (heap : Heap α) (now : α) (unbounded : Nat)
    (q : Policy α) : Prop where
  plan : q.plan =
    { p.plan with
      freeRegions := free, youngTarget := q.youngTarget, youngMaximum := q.youngMaximum }
  sized : ∃ estimate, q.Sized heap now estimate unbounded

/-- The event of a choice. -/
def lengthsEvent (p : Policy α) (unbounded : Nat) : Event α :=
  .youngTarget p.youngTarget unbounded p.youngMaximum

/-! ## Choices between pauses -/

theorem ChoiceFault.outsideSearch {p : Policy α} {heap : Heap α} {now : α} {fault : Fault α}
    (h : p.ChoiceFault heap now fault) : fault.OutsideSearch := by
  rcases h with h | h
  · exact p.costs.entryCount_meets.of_eq_error h
  · exact h.outsideSearch

theorem rechosen_of_chooseYoungLength (p : Policy α) (heap : Heap α) (now : α) :
    (p.chooseYoungLength heap now).Meets
      (fun r events => events = [r.2.lengthsEvent r.1] ∧
        p.Rechosen p.freeRegions heap now r.1 r.2 ∧
        ∃ target maximum, r.2 = { p with youngTarget := target, youngMaximum := maximum })
      (p.ChoiceFault heap now) := by
  refine (p.chooseYoungLength_meets heap now).mono ?_ fun _ h => h
  rintro ⟨unbounded, q⟩ _ ⟨rfl, hq, hsized⟩
  exact ⟨rfl, ⟨by rw [hq]; rfl, hsized⟩, _, _, hq⟩

/-- The faults of a revision. -/
inductive RevisionFault (p : Policy α) (heap : Heap α) (now : α) (entries : Nat) :
    Fault α → Prop
  | fixed (h : p.isAdaptive = false) : RevisionFault p heap now entries .fixedYoungLength
  | scaled (h : wordBound ≤ entries * 1100) :
      RevisionFault p heap now entries .multiplicationOverflow
  | sizing {fault : Fault α} (h : p.SizingFault heap now fault) :
      RevisionFault p heap now entries fault

theorem RevisionFault.outsideSearch {p : Policy α} {heap : Heap α} {now : α} {entries : Nat}
    {fault : Fault α} (h : p.RevisionFault heap now entries fault) : fault.OutsideSearch := by
  cases h with
  | fixed | scaled => rfl
  | sizing h => exact h.outsideSearch

/-- Expected entries are not what a choice is made from. -/
theorem SizingFault.of_expected {p : Policy α} {heap : Heap α} {now : α} {expected : Nat}
    {fault : Fault α}
    (h : SizingFault { p with expectedEntries := expected } heap now fault) :
    p.SizingFault heap now fault := by
  cases h with
  | estimate h => exact .estimate h
  | allocated hestimate h => exact .allocated hestimate h
  | present h => exact .present h
  | unknown hr h => exact .unknown hr h
  | room hadaptive h => exact .room hadaptive h
  | maximum hestimate hasks h => exact .maximum hestimate hasks h

/-- A revision that finds more entries than expected chooses the lengths again and expects a tenth
more than it found; any other one does nothing at all. -/
theorem revised_meets (p : Policy α) (heap : Heap α) (now : α) (entries : Nat) :
    (p.revise heap now entries).Meets
      (fun q events =>
        (¬ p.expectedEntries < entries ∧ events = [] ∧ q = p) ∨
        (p.expectedEntries < entries ∧ ∃ unbounded, events = [q.lengthsEvent unbounded] ∧
          (∃ estimate, q.Sized heap now estimate unbounded) ∧
          q = { p.expectEntries (entries * 1100 / 1000) with
            youngTarget := q.youngTarget, youngMaximum := q.youngMaximum }))
      (p.RevisionFault heap now entries) := by
  have adaptive : Meets (demand (p.isAdaptive = true) Fault.fixedYoungLength)
      (fun _ => p.isAdaptive = true) (p.RevisionFault heap now entries) :=
    Checked.meets_demand fun h => .fixed (Bool.not_eq_true _ ▸ h)
  refine (meets_ofChecked adaptive).bind_silent fun _ _ => ?_
  split
  · next hmore =>
    refine (meets_ofChecked (Word.meets_mul .scaled)).bind_silent ?_
    rintro _ ⟨_, rfl⟩
    obtain ⟨expected, hexpected⟩ := p.expectEntries_eq (entries * 1100 / 1000)
    simp only [hexpected]
    refine ((chooseYoungLengthFor_meets _ heap now _).mono (fun _ _ h => h)
      fun _ h => .sizing h.of_expected).bind ?_
    rintro ⟨unbounded, q⟩ _ ⟨rfl, hq, hsized⟩
    exact Act.meets_pure (.inr ⟨hmore, unbounded, rfl, hsized, hq⟩)
  · next hfewer => exact Act.meets_pure (.inl ⟨hfewer, rfl, rfl⟩)

theorem revise_meets (p : Policy α) (heap : Heap α) (now : α) (entries : Nat) :
    (p.revise heap now entries).Meets
      (fun q events =>
        (¬ p.expectedEntries < entries ∧ events = [] ∧ q = p) ∨
        (p.expectedEntries < entries ∧ ∃ unbounded, events = [q.lengthsEvent unbounded] ∧
          p.Rechosen p.freeRegions heap now unbounded q))
      (p.RevisionFault heap now entries) := by
  refine (p.revised_meets heap now entries).mono ?_ fun _ h => h
  rintro q _ (hkept | ⟨hmore, unbounded, rfl, hsized, hq⟩)
  · exact .inl hkept
  · obtain ⟨expected, hexpected⟩ := p.expectEntries_eq (entries * 1100 / 1000)
    refine .inr ⟨hmore, unbounded, rfl, ?_, hsized⟩
    rw [hq, hexpected]
    rfl

/-! ## Choices at the end of a pause -/

/-- After a choice the time up to the next pause is prepared without a look at the plan. -/
theorem prepareNext_meets (p : Policy α) (heap : Heap α) (now mutatorTime hotCards : α)
    (youngOnly initialMark : Bool) :
    (p.prepareNext heap now mutatorTime hotCards youngOnly initialMark).Meets
      (fun q events => ∃ unbounded, lengthsOf events = lengthsOf [q.lengthsEvent unbounded] ∧
        p.Rechosen p.freeRegions heap now unbounded q)
      OutsideSearch := by
  refine ((p.rechosen_of_chooseYoungLength heap now).mono (fun _ _ h => h)
    fun _ h => h.outsideSearch).bind ?_
  rintro ⟨unbounded, q⟩ _ ⟨rfl, hchosen, target, maximum, rfl⟩
  refine (meets_ofChecked (expectPredictedEntries_meets _)).bind_silent ?_
  rintro _ ⟨entries, rfl⟩
  refine (learnThresholdUnlessPeriodic_meets _ heap _ _ _ _).bind ?_
  rintro _ _ ⟨⟨report, rfl⟩, _, _, _, rfl⟩
  refine (grantRefinementTime_meets _ heap hotCards).mono ?_ fun _ h => h
  rintro _ _ ⟨⟨_, _, rfl⟩, _, _, rfl⟩
  refine ⟨unbounded, ?_, rfl, ?_⟩
  · cases report <;> rfl
  · obtain ⟨estimate, hsized⟩ := hchosen.sized
    exact ⟨estimate, hsized.estimated, hsized.asked, hsized.target, hsized.maximum⟩

theorem endPause_meets (p : Policy α) (heap : Heap α) (now pause : α) :
    (p.endPause heap now pause).Meets
      (fun r events => ∃ unbounded, lengthsOf events = lengthsOf [r.1.lengthsEvent unbounded] ∧
        p.Rechosen heap.free heap now unbounded r.1)
      OutsideSearch := by
  unfold endPause
  simp only
  refine (meets_ofChecked (p.phases.evacuationKind_meets _)).bind_silent fun kind _ => ?_
  refine (recordPause_meets _ _ _ _).bind ?_
  rintro q₁ _ ⟨rfl, hq₁⟩
  have hplan₁ : q₁.plan = p.plan := by
    obtain ⟨_, _, _, _, rfl⟩ := hq₁
    rfl
  clear hq₁
  refine (settleMarking_meets _ _ _).bind_silent fun q₂ hq₂ => ?_
  have hplan₂ : q₂.plan = q₁.plan := by
    obtain ⟨_, rfl⟩ := hq₂
    rfl
  clear hq₂
  refine (advancePhases_meets _ _ _ _).bind_silent ?_
  rintro ⟨q₃, _⟩ ⟨hq₃, candidates, rfl⟩
  have hplan₃ : q₃.plan = q₂.plan := by
    obtain ⟨_, _, rfl⟩ := hq₃
    rfl
  clear hq₃
  refine (meets_ofChecked (costsAfter_meets _ _ _ _)).bind_silent fun costs _ => ?_
  refine (meets_ofChecked (demand_meets rfl)).bind_silent fun _ _ => ?_
  refine (prepareNext_meets _ _ _ _ _ _ _).bind ?_
  rintro q events ⟨unbounded, hevents, hchosen⟩
  have hplan : q.plan =
      { q₃.plan with
        freeRegions := heap.free
        youngTarget := q.youngTarget
        youngMaximum := q.youngMaximum } := hchosen.plan
  have hsized : ∃ estimate, q.Sized (heap.withCandidates candidates) now estimate unbounded :=
    hchosen.sized
  clear hchosen
  refine (logPauseEnd_meets _ _ _ _).bind_silent fun _ _ => Act.meets_pure ?_
  refine ⟨unbounded, ?_, ?_, ?_⟩
  · rw [List.append_nil, lengthsOf_append, hevents]
    rfl
  · rw [hplan, hplan₃, hplan₂, hplan₁]
  · obtain ⟨estimate, hsized⟩ := hsized
    exact ⟨estimate, hsized.estimated, hsized.asked, hsized.target, hsized.maximum⟩

theorem endFull_meets (p : Policy α) (heap : Heap α) (now : α) :
    (p.endFull heap now).Meets
      (fun q events => ∃ unbounded, lengthsOf events = lengthsOf [q.lengthsEvent unbounded] ∧
        p.Rechosen heap.free heap now unbounded q)
      OutsideSearch := by
  unfold endFull
  simp only
  refine (needsMarking_meets _ _ _ _).bind ?_
  rintro needed _ rfl
  refine ((rechosen_of_chooseYoungLength _ heap now).mono (fun _ _ h => h)
    fun _ h => h.outsideSearch).bind ?_
  rintro ⟨unbounded, q⟩ _ ⟨rfl, hchosen, _⟩
  have hplan : q.plan =
      { p.plan with
        freeRegions := heap.free
        youngTarget := q.youngTarget
        youngMaximum := q.youngMaximum } := hchosen.plan
  obtain ⟨estimate, hsized⟩ := hchosen.sized
  clear hchosen
  refine (meets_ofChecked (expectPredictedEntries_meets _)).bind_silent ?_
  rintro _ ⟨entries, rfl⟩
  refine (recordPause_meets _ _ _ _).bind ?_
  rintro _ _ ⟨rfl, _, _, _, hsame, rfl⟩
  -- a full collection is not taken into the utilization, from which the estimate is made
  obtain rfl := hsame rfl
  refine (meets_write _ _ _).bind_silent fun _ _ => Act.meets_pure ?_
  refine ⟨unbounded, rfl, hplan, estimate, ?_⟩
  exact ⟨hsized.estimated, hsized.asked, hsized.target, hsized.maximum⟩

/-! ## The first choice -/

theorem initial_meets_plan (s : Settings α) (heap : Heap α) (now : α) (fullCauses : List Cause)
    (sizer : Young.Sizer) :
    Meets (initial s heap now fullCauses sizer)
      (fun p => p.settings = s ∧ p.sizer = sizer ∧ p.freeRegions = heap.free) OutsideSearch := by
  have tracker :
      Meets (Utilization.Tracker.create s.pauseIntervalSeconds s.pauseGoalSeconds)
        (fun _ => True) OutsideSearch :=
    (demand_meets rfl).bind fun _ _ => meets_pure trivial
  have threshold : Meets (initialThreshold s ⟨s.sigma⟩ heap) (fun _ => True) OutsideSearch :=
    (demand_meets rfl).bind fun _ _ => meets_pure trivial
  exact tracker.bind fun _ _ => threshold.bind fun _ _ => meets_pure ⟨rfl, rfl, rfl⟩

/-- The policy started from the settings, which asked for the given sizer, with a length that it
chose from the heap. -/
structure Opening (s : Settings α) (z : Young.Sizer) (heap : Heap α) (now : α) (unbounded : Nat)
    (p : Policy α) : Prop where
  valid : s.Valid
  chosen : Young.Sizer.Chosen s (.ok z)
  settings : p.settings = s
  sizer : p.sizer = z.forHeap heap.regions
  freeRegions : p.freeRegions = heap.free
  reserve : p.reserve = reserveAt s heap.regions
  sized : ∃ estimate, p.Sized heap now estimate unbounded

theorem start_meets_opening (s : Settings α) (heap : Heap α) (now : α) (fullCauses : List Cause) :
    (start s heap now fullCauses).Meets
      (fun r events => ∀ p, r = .ok p → ∃ z unbounded, events = [p.lengthsEvent unbounded] ∧
        Opening s z heap now unbounded p)
      OutsideSearch := by
  unfold start
  cases hvalid : s.validate with
  | error error =>
    refine Act.meets_pure fun p hp => ?_
    cases hp
  | ok _ =>
    have hall := Settings.validate_eq_ok_iff.mp hvalid
    refine (meets_ofLogged (Young.Sizer.ofSettings_meets hall.regionSize_ne_zero)).bind_silent ?_
    intro sizer hchosen
    cases sizer with
    | error error =>
      refine Act.meets_pure fun p hp => ?_
      cases hp
    | ok z =>
      refine (meets_ofChecked (initial_meets_plan s heap now fullCauses z)).bind_silent ?_
      rintro p ⟨hsettings, hz, hfree⟩
      refine (meets_ofChecked (p.resize_meets heap.regions)).bind_silent fun q hq => ?_
      have hplan : q.sizer = z.forHeap heap.regions ∧ q.settings = s ∧
          q.freeRegions = heap.free ∧ q.reserve = reserveAt s heap.regions := by
        obtain rfl := hq
        exact ⟨congrArg (·.forHeap heap.regions) hz, hsettings, hfree,
          congrArg (reserveAt · heap.regions) hsettings⟩
      clear hq
      obtain ⟨hsizer, hsettings, hfree, hreserve⟩ := hplan
      refine ((q.rechosen_of_chooseYoungLength heap now).mono (fun _ _ h => h)
        fun _ h => h.outsideSearch).bind ?_
      rintro ⟨unbounded, r⟩ _ ⟨rfl, hrechosen, _⟩
      refine Act.meets_pure ?_
      rintro _ ⟨⟩
      have hplan := hrechosen.plan
      refine ⟨z, unbounded, rfl, hall, hchosen, ?_, ?_, ?_, ?_, hrechosen.sized⟩
      · exact (congrArg Plan.settings hplan).trans hsettings
      · exact (congrArg Plan.sizer hplan).trans hsizer
      · exact (congrArg Plan.freeRegions hplan).trans hfree
      · exact (congrArg Plan.reserve hplan).trans hreserve

end Policy

/-! ## Plans and what they are made from -/

variable [Scalar α]

/-- The plan follows from what the policy was told: its settings, a sizer made from them, the free
regions and the size of the heap. It has room for a region. -/
structure Plan.Current (s : Settings α) (z : Young.Sizer) (free regions : Nat) (plan : Plan α) :
    Prop where
  settings : plan.settings = s
  sizer : plan.sizer = z.forHeap regions
  freeRegions : plan.freeRegions = free
  reserve : plan.reserve = Policy.reserveAt s regions
  target_pos : 1 ≤ plan.youngTarget
  target_le : plan.youngTarget ≤ plan.youngMaximum

section

variable {s : Settings α} {z : Young.Sizer} {free regions : Nat} {p q : Policy α} {heap : Heap α}
  {now : α} {unbounded : Nat}

theorem Policy.Opening.current (h : Policy.Opening s z heap now unbounded p) :
    p.plan.Current s z heap.free heap.regions := by
  obtain ⟨estimate, hsized⟩ := h.sized
  exact ⟨h.settings, h.sizer, h.freeRegions, h.reserve, hsized.target_pos,
    hsized.target_le_maximum⟩

theorem Policy.Rechosen.current {free' : Nat} (h : p.Rechosen free' heap now unbounded q)
    (hp : p.plan.Current s z free regions) : q.plan.Current s z free' regions := by
  obtain ⟨estimate, hsized⟩ := h.sized
  rw [h.plan]
  exact ⟨hp.settings, hp.sizer, rfl, hp.reserve, hsized.target_pos, hsized.target_le_maximum⟩

/-- Whatever sizes of the heap there were before, the bounds are those for the last one. -/
theorem Plan.Current.resized {plan : Plan α} (h : plan.Current s z free regions) (size : Nat) :
    Plan.Current s z free size
      { plan with
        sizer := plan.sizer.forHeap size, reserve := Policy.reserveAt plan.settings size } where
  settings := h.settings
  sizer := by rw [h.sizer, Young.Sizer.forHeap_forHeap]
  freeRegions := h.freeRegions
  reserve := by rw [h.settings]
  target_pos := h.target_pos
  target_le := h.target_le

theorem Plan.Current.isAdaptive_eq (h : p.plan.Current s z free regions) :
    p.isAdaptive = z.adaptive := by
  have hsizer : p.sizer = z.forHeap regions := h.sizer
  rw [Policy.isAdaptive, hsizer]
  rfl

end

end PauseGoal
