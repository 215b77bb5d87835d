import PauseGoal.Proofs.YoungBounds

/-!
# Choosing the length of the young generation

The one contract that every choice of a length keeps: which bounds it works with, what it sets and
reports, and each fault that it can end in. A choice depends on the estimate of what mutators will
allocate, on the survivors and on eden; with it the floor is fixed, and the target lies between the
floor and the larger of the floor and what sizer and free regions allow.
-/

namespace PauseGoal

open Checked (Meets meets_pure meets_mapM)
open Young (Bounds Forecast)

variable {α : Type}

/-- Whether a fault is about the search for a length: no room for eden in the minimum, crossed ends,
a difference below zero. -/
def Fault.aboutSearch : Fault α → Bool
  | .noRoomForEden _ _ | .emptyLengthRange _ _ | .subtractionOverflow => true
  | _ => false

/-- The fault is not about the search. -/
def Fault.OutsideSearch (fault : Fault α) : Prop := fault.aboutSearch = false

variable [Scalar α]

/-! ## What a choice asks -/

theorem Utilization.Tracker.releaseMoment_meets (moment : α) (pauses : List (Span α)) (excess : α) :
    Meets (releaseMoment moment pauses excess) (fun _ => True)
      fun fault => ∃ left, fault = .windowExhausted left := by
  induction pauses generalizing excess with
  | nil => exact ⟨excess, rfl⟩
  | cons s rest ih =>
    unfold releaseMoment
    extract_lets left
    split
    · exact trivial
    · exact ih _

theorem Utilization.Tracker.delay_meets (t : Tracker α) (now pause : α) :
    Meets (t.delay now pause) (fun _ => True)
      fun fault => ∃ left, fault = .windowExhausted left := by
  unfold delay
  extract_lets length finish moment excess
  split
  · exact trivial
  · exact (releaseMoment_meets _ _ _).bind fun _ _ => meets_pure trivial

theorem Young.Forecast.fits_meets (f : Forecast α) (length : Nat) :
    Meets (f.fits length) (fun _ => True) fun fault =>
      wordBound ≤ f.freeRegions * f.regionSize ∧ fault = .multiplicationOverflow := by
  unfold fits
  split
  · exact trivial
  · split
    · exact trivial
    · refine (Word.meets_mul fun hroom => ?_).bind fun _ _ => meets_pure trivial
      exact ⟨Nat.le_trans hroom (Nat.mul_le_mul_right _ (Nat.sub_le _ _)), rfl⟩

namespace Policy

theorem regionsUntilPause_meets (p : Policy α) (now : α) :
    Meets (p.regionsUntilPause now) (fun _ => True)
      fun fault => ∃ left, fault = .windowExhausted left := by
  unfold regionsUntilPause
  split
  · exact (p.utilization.delay_meets now _).bind fun _ _ => meets_pure trivial
  · exact trivial

theorem regionsUntilPause_of_fixed {p : Policy α} (h : p.isAdaptive = false) (now : α) :
    p.regionsUntilPause now = .ok 0 := by
  unfold regionsUntilPause
  rw [h]
  rfl

/-- The region was handed out by the population that its tag names. -/
def Knows (p : Policy α) (r : YoungRegion) : Prop :=
  r.tag.index ≤ (p.group r.tag.population).allocated

theorem survivorTime_meets (p : Policy α) (heap : Heap α) :
    Meets (p.survivorTime heap) (fun _ => True) fun fault =>
      ∃ r ∈ heap.survivors, ¬ p.Knows r ∧
        fault = .ageFromFuture r.tag.index (p.group r.tag.population).allocated := by
  refine (meets_mapM fun r hr => ?_).bind fun _ _ => meets_pure trivial
  -- the only question that a region may leave unanswered is how old it is
  have hage : Meets ((p.group r.tag.population).ageOf r.tag.index) (fun _ => True) fun fault =>
      ∃ r ∈ heap.survivors, ¬ p.Knows r ∧
        fault = .ageFromFuture r.tag.index (p.group r.tag.population).allocated := by
    unfold SurvivalGroup.ageOf
    split
    · exact trivial
    · next hunknown => exact ⟨r, hr, hunknown, rfl⟩
  have hbytes : Meets (p.bytesToCopy (.young r)) (fun _ => True) fun fault =>
      ∃ r ∈ heap.survivors, ¬ p.Knows r ∧
        fault = .ageFromFuture r.tag.index (p.group r.tag.population).allocated :=
    hage.bind fun _ _ => meets_pure trivial
  exact hbytes.bind fun _ _ => meets_pure trivial

/-! ## The bounds of a choice -/

/-- The least target length, given how many regions mutators will allocate before the next pause may
start: the minimum of the sizer, the survivors with the estimate on top, and the survivors with the
present eden, or one eden region, on top. -/
def youngFloor (p : Policy α) (heap : Heap α) (estimate : Nat) : Nat :=
  max p.sizer.least <|
    max (heap.survivors.length + estimate) (heap.survivors.length + max heap.eden 1)

/-- The target length in place of a fixed length: at least what survivors and eden, or one eden
region, take. -/
def fixedTarget (length : Nat) (heap : Heap α) : Nat :=
  max length (heap.survivors.length + max heap.eden 1)

/-- The bounds that a choice works with. -/
def sizingBounds (p : Policy α) (heap : Heap α) (estimate : Nat) : Bounds where
  fixed := p.fixedYoungLength
  least := p.youngFloor heap estimate
  largest := p.sizer.largest
  allowed := p.freeRegions - p.reserve

omit [Scalar α] in
theorem survivors_lt_floor (p : Policy α) (heap : Heap α) (estimate : Nat) :
    heap.survivors.length < p.youngFloor heap estimate := by
  unfold youngFloor
  omega

/-- Each fault that a choice can end in, and when it occurs. -/
inductive SizingFault (p : Policy α) (heap : Heap α) (now : α) : Fault α → Prop
  | estimate {fault : Fault α} (h : p.regionsUntilPause now = .error fault) :
      SizingFault p heap now fault
  | allocated {estimate : Nat} (hestimate : p.regionsUntilPause now = .ok estimate)
      (h : wordBound ≤ heap.survivors.length + estimate) :
      SizingFault p heap now .additionOverflow
  | present (h : wordBound ≤ heap.survivors.length + max heap.eden 1) :
      SizingFault p heap now .additionOverflow
  | unknown {r : YoungRegion} (hr : r ∈ heap.survivors) (h : ¬ p.Knows r) :
      SizingFault p heap now (.ageFromFuture r.tag.index (p.group r.tag.population).allocated)
  | room (hadaptive : p.isAdaptive = true)
      (h : wordBound ≤ (p.freeRegions - p.reserve) * p.settings.regionSize) :
      SizingFault p heap now .multiplicationOverflow
  | maximum {estimate unbounded : Nat} (hestimate : p.regionsUntilPause now = .ok estimate)
      (hasks : (p.sizingBounds heap estimate).Asks p.phases.youngOnly unbounded)
      (h : wordBound ≤ (p.sizingBounds heap estimate).clamp unbounded +
        p.youngExpansion ((p.sizingBounds heap estimate).clamp unbounded)) :
      SizingFault p heap now .additionOverflow

/-- A choice never fails in its search. -/
theorem SizingFault.outsideSearch {p : Policy α} {heap : Heap α} {now : α} {fault : Fault α}
    (h : p.SizingFault heap now fault) : fault.OutsideSearch := by
  cases h with
  | estimate h =>
    obtain ⟨left, rfl⟩ := (p.regionsUntilPause_meets now).of_eq_error h
    rfl
  | _ => rfl

/-- Nothing stands in the way of a choice: no count overflows and the survivors were handed out. -/
structure Choosable (p : Policy α) (heap : Heap α) (now : α) (estimate : Nat) : Prop where
  estimated : p.regionsUntilPause now = .ok estimate
  allocated : heap.survivors.length + estimate < wordBound
  present : heap.survivors.length + max heap.eden 1 < wordBound
  known : ∀ r ∈ heap.survivors, p.Knows r
  room : p.isAdaptive = true → (p.freeRegions - p.reserve) * p.settings.regionSize < wordBound
  maximum : ∀ unbounded, (p.sizingBounds heap estimate).Asks p.phases.youngOnly unbounded →
    (p.sizingBounds heap estimate).clamp unbounded +
      p.youngExpansion ((p.sizingBounds heap estimate).clamp unbounded) < wordBound

theorem Choosable.not_sizingFault {p : Policy α} {heap : Heap α} {now : α} {estimate : Nat}
    (h : p.Choosable heap now estimate) (fault : Fault α) : ¬ p.SizingFault heap now fault := by
  have same {estimate' : Nat} (h' : p.regionsUntilPause now = .ok estimate') :
      estimate' = estimate :=
    Except.ok.inj (h'.symm.trans h.estimated)
  intro hfault
  cases hfault with
  | estimate hfails => exact nomatch h.estimated.symm.trans hfails
  | allocated hestimate hover =>
    rw [same hestimate] at hover
    exact absurd h.allocated (Nat.not_lt.mpr hover)
  | present hover => exact absurd h.present (Nat.not_lt.mpr hover)
  | unknown hr hunknown => exact hunknown (h.known _ hr)
  | room hadaptive hover => exact absurd (h.room hadaptive) (Nat.not_lt.mpr hover)
  | maximum hestimate hasks hover =>
    obtain rfl := same hestimate
    exact absurd (h.maximum _ hasks) (Nat.not_lt.mpr hover)

theorem youngBounds_meets (p : Policy α) (heap : Heap α) (now : α) :
    Meets (p.youngBounds heap now)
      (fun bounds => ∃ estimate, p.regionsUntilPause now = .ok estimate ∧
        bounds = p.sizingBounds heap estimate)
      (p.SizingFault heap now) := by
  have desired : Meets (p.desiredLeast now heap.survivors.length)
      (fun least => ∃ estimate, p.regionsUntilPause now = .ok estimate ∧
        least = Nat.max (estimate + heap.survivors.length) p.sizer.least)
      (p.SizingFault heap now) := by
    refine ((Checked.meets_self _).mono (fun _ h => h) fun _ h => .estimate h).bind ?_
    intro estimate hestimate
    refine (Word.meets_add fun h => .allocated hestimate (Nat.add_comm _ _ ▸ h)).bind ?_
    rintro _ ⟨_, rfl⟩
    exact meets_pure ⟨estimate, hestimate, rfl⟩
  refine desired.bind ?_
  rintro _ ⟨estimate, hestimate, rfl⟩
  refine (Word.meets_add .present).bind ?_
  rintro _ ⟨_, rfl⟩
  refine meets_pure ⟨estimate, hestimate, ?_⟩
  have hfloor : p.youngFloor heap estimate =
      max (max (estimate + heap.survivors.length) p.sizer.least)
        (heap.survivors.length + max heap.eden 1) := by
    unfold youngFloor
    omega
  rw [sizingBounds, hfloor]

/-! ## The choice -/

/-- The policy has a target length that it chose from this heap, with the given estimate and with
the given length asked for by predictions alone. -/
structure Sized (p : Policy α) (heap : Heap α) (now : α) (estimate unbounded : Nat) : Prop where
  estimated : p.regionsUntilPause now = .ok estimate
  asked : (p.sizingBounds heap estimate).Asks p.phases.youngOnly unbounded
  target : p.youngTarget = (p.sizingBounds heap estimate).clamp unbounded
  maximum : p.youngMaximum = p.youngTarget + p.youngExpansion p.youngTarget

open Act (meets_ofChecked meets_write meets_report)

theorem youngTargetFor_meets (p : Policy α) (heap : Heap α) (now : α) (entries : Nat) :
    (p.youngTargetFor heap now entries).Meets
      (fun target events => events = [] ∧ ∃ estimate, p.regionsUntilPause now = .ok estimate ∧
        (p.sizingBounds heap estimate).Asks p.phases.youngOnly target.unbounded ∧
        target.bounded = (p.sizingBounds heap estimate).clamp target.unbounded)
      (p.SizingFault heap now) := by
  refine (meets_ofChecked (p.youngBounds_meets heap now)).bind_silent ?_
  rintro _ ⟨estimate, hestimate, rfl⟩
  have htime : Meets (p.survivorTime heap) (fun _ => True) (p.SizingFault heap now) := by
    refine (p.survivorTime_meets heap).mono (fun _ h => h) ?_
    rintro _ ⟨r, hr, hunknown, rfl⟩
    exact .unknown hr hunknown
  refine (meets_ofChecked htime).bind_silent fun survivorTime _ => ?_
  have hroom := p.survivors_lt_floor heap estimate
  refine (meets_ofChecked (Bounds.target_meets _ hroom _ ?_)).bind_silent fun target htarget => ?_
  · intro hfixed _ length
    refine (Forecast.fits_meets _ length).mono (fun _ h => h) ?_
    rintro _ ⟨hroom, rfl⟩
    refine .room ?_ hroom
    cases hadaptive : p.isAdaptive with
    | true => rfl
    | false =>
      simp only [sizingBounds, fixedYoungLength, hadaptive] at hfixed
      cases hfixed
  · refine (meets_write _ _ _).bind_silent fun _ _ => ?_
    exact Act.meets_pure ⟨rfl, estimate, hestimate, htarget.2, htarget.1⟩

/-- A choice sets the target and the maximum, reports both, and changes nothing else. -/
theorem chooseYoungLengthFor_meets (p : Policy α) (heap : Heap α) (now : α) (entries : Nat) :
    (p.chooseYoungLengthFor heap now entries).Meets
      (fun r events =>
        events = [.youngTarget r.2.youngTarget r.1 r.2.youngMaximum] ∧
        r.2 = { p with youngTarget := r.2.youngTarget, youngMaximum := r.2.youngMaximum } ∧
        ∃ estimate, r.2.Sized heap now estimate r.1)
      (p.SizingFault heap now) := by
  refine (p.youngTargetFor_meets heap now entries).bind_silent ?_
  rintro ⟨bounded, unbounded⟩ ⟨estimate, hestimate, hasks, hbounded⟩
  simp only at hasks hbounded
  refine (meets_ofChecked (Word.meets_add fun h => ?_)).bind_silent ?_
  · exact .maximum hestimate hasks (hbounded ▸ h)
  · rintro maximum ⟨_, hmaximum⟩
    refine (meets_report _).bind ?_
    rintro _ _ rfl
    exact Act.meets_pure ⟨rfl, rfl, estimate, hestimate, hasks, hbounded, hmaximum⟩

theorem Choosable.chooseYoungLengthFor_meets {p : Policy α} {heap : Heap α} {now : α}
    {estimate : Nat} {fail : Fault α → Prop} (h : p.Choosable heap now estimate) (entries : Nat) :
    (p.chooseYoungLengthFor heap now entries).Meets (fun _ _ => True) fail :=
  (p.chooseYoungLengthFor_meets heap now entries).mono (fun _ _ _ => trivial)
    fun fault hfault => absurd hfault (h.not_sizingFault fault)

/-- The faults of a choice for the predicted entries. -/
def ChoiceFault (p : Policy α) (heap : Heap α) (now : α) (fault : Fault α) : Prop :=
  p.costs.entryCount = .error fault ∨ p.SizingFault heap now fault

theorem chooseYoungLength_meets (p : Policy α) (heap : Heap α) (now : α) :
    (p.chooseYoungLength heap now).Meets
      (fun r events =>
        events = [.youngTarget r.2.youngTarget r.1 r.2.youngMaximum] ∧
        r.2 = { p with youngTarget := r.2.youngTarget, youngMaximum := r.2.youngMaximum } ∧
        ∃ estimate, r.2.Sized heap now estimate r.1)
      (p.ChoiceFault heap now) := by
  have hentries : Meets p.costs.entryCount (fun _ => True) (p.ChoiceFault heap now) :=
    (Checked.meets_self _).mono (fun _ _ => trivial) fun _ h => .inl h
  refine (meets_ofChecked hentries).bind_silent fun entries _ => ?_
  exact (p.chooseYoungLengthFor_meets heap now entries).mono (fun _ _ h => h) fun _ h => .inr h

/-! ## What a choice comes to -/

section

variable {p : Policy α} {heap : Heap α} {now : α} {estimate unbounded : Nat}

theorem Sized.floor_le (h : p.Sized heap now estimate unbounded) :
    p.youngFloor heap estimate ≤ p.youngTarget := by
  rw [h.target]
  exact (p.sizingBounds heap estimate).least_le_clamp unbounded

theorem Sized.le_max (h : p.Sized heap now estimate unbounded) :
    p.youngTarget ≤ max (p.youngFloor heap estimate)
      (min p.sizer.largest (p.freeRegions - p.reserve)) := by
  rw [h.target]
  exact (p.sizingBounds heap estimate).clamp_le unbounded

theorem Sized.target_pos (h : p.Sized heap now estimate unbounded) : 1 ≤ p.youngTarget := by
  have hroom := p.survivors_lt_floor heap estimate
  have hfloor := h.floor_le
  omega

theorem Sized.target_le_maximum (h : p.Sized heap now estimate unbounded) :
    p.youngTarget ≤ p.youngMaximum := by
  rw [h.maximum]
  exact Nat.le_add_right _ _

/-- Predictions ask for a length between the floor and the maximum of the sizer, and for no more
than the floor once mixed collections run. -/
theorem Sized.unbounded_of_adaptive (h : p.Sized heap now estimate unbounded)
    (hadaptive : p.isAdaptive = true) :
    p.youngFloor heap estimate ≤ unbounded ∧
      unbounded ≤ max (p.youngFloor heap estimate) p.sizer.largest ∧
      (p.phases.youngOnly = false → unbounded = p.youngFloor heap estimate) := by
  have hasks := h.asked
  simp only [Bounds.Asks, sizingBounds, fixedYoungLength, hadaptive, if_true] at hasks
  split at hasks
  · next hphase => exact ⟨hasks.1, hasks.2, fun hmixed => absurd (hphase.symm.trans hmixed) nofun⟩
  · exact ⟨Nat.le_of_eq hasks.symm, hasks ▸ Nat.le_max_left _ _, fun _ => hasks⟩

theorem Sized.target_of_mixed (h : p.Sized heap now estimate unbounded)
    (hadaptive : p.isAdaptive = true) (hmixed : p.phases.youngOnly = false) :
    p.youngTarget = p.youngFloor heap estimate := by
  have hasked := (h.unbounded_of_adaptive hadaptive).2.2 hmixed
  rw [h.target]
  exact Bounds.clamp_of_le _ (Nat.le_of_eq hasked)

/-- The clamp of a fixed length lets nothing but the floor count. -/
theorem clamp_of_fixed (hfixed : p.isAdaptive = false)
    (hestimate : p.regionsUntilPause now = .ok estimate)
    (hasks : (p.sizingBounds heap estimate).Asks p.phases.youngOnly unbounded) :
    unbounded = p.sizer.least ∧
      (p.sizingBounds heap estimate).clamp unbounded = fixedTarget p.sizer.least heap := by
  have hasked : unbounded = p.sizer.least := by
    simp only [Bounds.Asks, sizingBounds, fixedYoungLength, hfixed] at hasks
    exact hasks
  have hzero : estimate = 0 :=
    Except.ok.inj (hestimate.symm.trans (regionsUntilPause_of_fixed hfixed now))
  have hfloor : p.youngFloor heap estimate = fixedTarget p.sizer.least heap := by
    rw [youngFloor, fixedTarget, hzero]
    omega
  refine ⟨hasked, ?_⟩
  rw [← hfloor]
  refine Bounds.clamp_of_le _ ?_
  rw [hasked]
  exact Nat.le_max_left _ _

/-- Without predictions the target is the fixed length, or what survivors and eden take already. -/
theorem Sized.of_fixed (h : p.Sized heap now estimate unbounded)
    (hfixed : p.isAdaptive = false) :
    unbounded = p.sizer.least ∧ p.youngTarget = fixedTarget p.sizer.least heap := by
  rw [h.target]
  exact clamp_of_fixed hfixed h.estimated h.asked

end

end Policy

end PauseGoal
