import PauseGoal.Proofs.Frame
import PauseGoal.Proofs.Request

/-!
# What moves the marking cycle

Five operations change the control: the decision at the start of a pause, the end of a pause, both
ends of a full collection, and the end of cleanup. For each of them one statement says all that it
can do to the control and to the candidates, which pause it reports, and which faults about the
marking cycle it can end in.
-/

namespace PauseGoal

open Marking (Phases Request)
open Marking.Request (Later)
open Pause (Kind)

variable {α : Type}

namespace Marking.Phases

/-- The phases one pause on: mixed collections follow the last young one, and young ones follow
once mixed ones are no longer worthwhile. -/
def advance (s : Phases) (worthwhile : Bool) : Phases :=
  { s with
    youngOnly := !s.beforeMixed && (s.youngOnly || !worthwhile)
    beforeMixed := false }

/-- The phases after an evacuation pause. -/
def afterPause (s : Phases) (initialMark worthwhile : Bool) : Phases :=
  { s.advance worthwhile with marking := s.marking || initialMark }

theorem advance_of_beforeMixed {s : Phases} {worthwhile : Bool} (h : s.beforeMixed = true) :
    s.advance worthwhile = { s with youngOnly := false, beforeMixed := false } := by
  simp [advance, h]

theorem advance_of_youngOnly {s : Phases} {worthwhile : Bool} (hbefore : s.beforeMixed = false)
    (h : s.youngOnly = true) : s.advance worthwhile = s := by
  cases s
  simp_all [advance]

theorem advance_of_worthwhile {s : Phases} (hbefore : s.beforeMixed = false)
    (h : s.youngOnly = false) : s.advance true = s := by
  cases s
  simp_all [advance]

theorem advance_of_not_worthwhile {s : Phases} (hbefore : s.beforeMixed = false) :
    s.advance false = { s with youngOnly := true } := by
  cases s
  simp_all [advance]

theorem mixed_iff {s : Phases} :
    s.mixed = true ↔ s.youngOnly = false ∧ s.beforeMixed = false := by
  simp [mixed]

/-- The phases after cleanup. -/
def afterCleanup (s : Phases) (worthwhile : Bool) : Phases :=
  { s with beforeMixed := worthwhile, marking := false }

/-- The kind of an evacuation pause. -/
def pauseKind (s : Phases) (initialMark : Bool) : Kind :=
  if initialMark then .initialMark
  else if s.beforeMixed then .lastYoung
  else if s.mixed then .mixed
  else .young

theorem pauseKind_eq_initialMark {s : Phases} {initialMark : Bool} :
    s.pauseKind initialMark = .initialMark ↔ initialMark = true := by
  cases initialMark <;> cases h : s.beforeMixed <;> cases h' : s.youngOnly <;>
    simp [pauseKind, mixed, h, h']

theorem pauseKind_eq_lastYoung {s : Phases} {initialMark : Bool} :
    s.pauseKind initialMark = .lastYoung ↔ initialMark = false ∧ s.beforeMixed = true := by
  cases initialMark <;> cases h : s.beforeMixed <;> cases h' : s.youngOnly <;>
    simp [pauseKind, mixed, h, h']

theorem pauseKind_eq_mixed {s : Phases} {initialMark : Bool} :
    s.pauseKind initialMark = .mixed ↔
      initialMark = false ∧ s.beforeMixed = false ∧ s.youngOnly = false := by
  cases initialMark <;> cases h : s.beforeMixed <;> cases h' : s.youngOnly <;>
    simp [pauseKind, mixed, h, h']

end Marking.Phases

namespace Control

/-- Whether the current pause does initial-mark work. -/
def scheduled (c : Control α) : Bool := decide (c.request.flag = .scheduled)

/-- Whether a request is seen at the start of a pause. The flag is loaded twice there. -/
def pending (c : Control α) : Bool := decide (c.request.load.2.load.1 = .requested)

/-- Whether a request may start a cycle right away. -/
def mayStart (c : Control α) (heap : Heap α) : Bool :=
  !(heap.cycleRunning || c.phases.beforeMixed) && c.phases.youngOnly

theorem scheduled_iff {c : Control α} : c.scheduled = true ↔ c.request.flag = .scheduled :=
  decide_eq_true_iff

theorem scheduled_of_later {c : Control α} {r : Request} (h : Later c.request r) :
    decide (r.flag = .scheduled) = c.scheduled := by
  unfold scheduled
  rw [decide_eq_decide]
  exact h.scheduled_iff

/-- Only requests arrived. -/
def Waited (c d : Control α) : Prop :=
  ∃ r, Later c.request r ∧ d = { c with request := r }

theorem waited_of_eq {c d : Control α} (h : d = c) : c.Waited d := by
  subst h
  exact ⟨d.request, .refl _, rfl⟩

/-- Whatever the flag was, no initial mark is scheduled now. -/
def Settled (c d : Control α) : Prop :=
  ∃ r : Request, r.flag ≠ .scheduled ∧ d = { c with request := r }

/-- A pause was recorded: only an initial mark starts a measurement of the marking length, and a
mixed pause or a full collection ends it. -/
def Recorded (c : Control α) (kind : Kind) (d : Control α) : Prop :=
  ∃ l, (l.active = true →
      kind = .initialMark ∨ (c.markingLength.active = true ∧ kind ≠ .mixed ∧ kind ≠ .full)) ∧
    d = { c with markingLength := l }

/-- At most the measurement of the marking length was dropped. -/
def Forgot (c d : Control α) : Prop :=
  ∃ l, (l.active = true → c.markingLength.active = true) ∧ d = { c with markingLength := l }

variable [Scalar α]

/-- Whether the candidates hold enough reclaimable space for a mixed collection. -/
def worthwhile (c : Control α) (heap : Heap α) : Bool :=
  match heap.remainingCandidates with
  | none => false
  | some candidates =>
    decide (num c.settings.wastePercent <
      (Policy.reclaimablePercent heap candidates.reclaimable : α))

end Control

/-! ## Small steps -/

namespace Policy

variable [Scalar α]

theorem gives_mixedIsWorthwhile (p : Policy α) (heap : Heap α) (yes no : String) :
    (p.mixedIsWorthwhile heap yes no).Gives fun b => b = p.control.worthwhile heap := by
  unfold mixedIsWorthwhile Control.worthwhile
  cases heap.remainingCandidates with
  | none => exact (Act.gives_write _ _ _).bind fun _ _ => Act.gives_pure rfl
  | some candidates => exact (Act.gives_write _ _ _).bind fun _ _ => Act.gives_pure rfl

theorem gives_needsMarking (p : Policy α) (heap : Heap α) (source : String) (bytes : Nat) :
    (p.needsMarking heap source bytes).Gives fun _ => True := by
  unfold needsMarking
  split
  · exact Act.gives_pure trivial
  · refine (Act.gives_ofChecked p.threshold.calm_bytes).bind fun threshold _ => ?_
    refine (Act.gives_ofChecked (Word.calm_add _ _)).bind fun occupied _ => ?_
    split
    · exact Act.gives_pure trivial
    · exact (Act.gives_write _ _ _).bind fun _ _ => Act.gives_pure trivial

omit [Scalar α] in
theorem seesInitialMark_fst (p : Policy α) : p.seesInitialMark.1 = p.control.scheduled :=
  Control.scheduled_of_later (Request.later_load p.request)

theorem gives_askForMarkingIfNeeded (p : Policy α) (heap : Heap α) :
    (p.askForMarkingIfNeeded heap).Gives fun q => p.control.Waited q.control := by
  refine (p.gives_needsMarking heap _ _).bind fun needed _ => ?_
  cases needed with
  | true => exact Act.gives_pure ⟨_, Request.later_ask _, rfl⟩
  | false => exact Act.gives_pure ⟨_, .refl _, rfl⟩

omit [Scalar α] in
theorem gives_forceMarking (p : Policy α) (heap : Heap α) (cause : Cause) :
    (p.forceMarking heap cause).Gives fun r => p.control.Waited r.2.control := by
  unfold forceMarking
  split
  · exact (Act.gives_write _ _ _).bind fun _ _ => Act.gives_pure ⟨_, .refl _, rfl⟩
  · exact (Act.gives_write _ _ _).bind fun _ _ =>
      Act.gives_pure ⟨_, Request.later_ask _, rfl⟩

omit [Scalar α] in
/-- After initial-mark work none is scheduled. -/
theorem gives_finishInitialMark (p : Policy α) :
    p.finishInitialMark.Gives fun q => p.control.Settled q.control := by
  have done : (pure { p with request := p.request.complete.2 } : Act α (Policy α)).Gives fun q =>
      p.control.Settled q.control :=
    Act.gives_pure ⟨_, Request.complete_flag_ne _, rfl⟩
  unfold finishInitialMark
  simp only
  split
  · exact (Act.gives_write _ _ _).bind fun _ _ => done
  · exact done

theorem gives_settleMarking (p : Policy α) (heap : Heap α) :
    (p.settleMarking heap p.control.scheduled).Gives fun q => p.control.Settled q.control := by
  unfold settleMarking
  split
  · exact p.gives_finishInitialMark
  · next h =>
    refine (p.gives_askForMarkingIfNeeded heap).mono ?_
    rintro q ⟨r, hlater, hq⟩
    rw [Control.scheduled_iff] at h
    exact ⟨r, mt hlater.scheduled_iff.mp h, hq⟩

/-! ## The measurement of the marking length -/

/-- A repeated initial mark is the one fault about the cycle in the account of a pause. -/
def RepeatsMark (p : Policy α) (kind : Kind) (fault : Fault α) : Prop :=
  fault = .initialMarkRepeated ∧ kind = .initialMark ∧ p.markingLength.active = true

theorem addPause_active (l : Marking.Length α) (seconds : α) :
    (l.addPause seconds).active = l.active := by
  unfold Marking.Length.addPause
  split <;> rfl

omit [Scalar α] in
theorem stopAt_active (l : Marking.Length α) (mixedStart : α) :
    (l.stopAt mixedStart).active = false := by
  unfold Marking.Length.stopAt
  split
  · rfl
  · next h => exact Bool.not_eq_true _ ▸ h

theorem trackMarkingLength_cases (p : Policy α) (kind : Kind) (start finish : α) :
    match p.trackMarkingLength kind start finish with
    | .ok l => p.control.Recorded kind { p.control with markingLength := l }
    | .error fault => p.RepeatsMark kind fault := by
  have other (hmixed : kind ≠ .mixed) (hfull : kind ≠ .full) :
      p.control.Recorded kind
        { p.control with markingLength := p.markingLength.addPause (finish - start) } := by
    refine ⟨_, fun h => ?_, rfl⟩
    rw [addPause_active] at h
    exact .inr ⟨h, hmixed, hfull⟩
  cases kind with
  | full => exact ⟨.unknown, nofun, rfl⟩
  | cleanup => exact other nofun nofun
  | remark => exact other nofun nofun
  | young => exact other nofun nofun
  | lastYoung => exact other nofun nofun
  | mixed =>
    refine ⟨_, fun h => ?_, rfl⟩
    rw [stopAt_active] at h
    cases h
  | initialMark =>
    simp only [trackMarkingLength]
    by_cases hcause : p.cause = .periodic
    · rw [if_pos hcause]
      exact ⟨_, fun _ => .inl rfl, rfl⟩
    · rw [if_neg hcause]
      cases hactive : p.markingLength.active with
      | true =>
        simp only [Marking.Length.startAt, hactive]
        exact ⟨rfl, rfl, hactive⟩
      | false =>
        simp only [Marking.Length.startAt, hactive]
        exact ⟨_, fun _ => .inl rfl, rfl⟩

theorem ends_recordPause (p : Policy α) (kind : Kind) (start finish : α) :
    (p.recordPause kind start finish).Ends
      (fun q kinds => kinds = [kind] ∧ p.control.Recorded kind q.control)
      (p.RepeatsMark kind) := by
  have rest (utilization : Utilization.Tracker α) :
      (do
        let markingLength ← Act.ofChecked (p.trackMarkingLength kind start finish)
        let record ← Act.ofChecked (Pause.Record.create kind start finish)
        Act.report (.pause kind start finish)
        return { p with
          utilization := utilization
          markingLength := markingLength
          costs := p.costs.countPause record } : Act α (Policy α)).Ends
        (fun q kinds => kinds = [kind] ∧ p.control.Recorded kind q.control)
        (p.RepeatsMark kind) := by
    have htrack := p.trackMarkingLength_cases kind start finish
    have tracked : (Act.ofChecked (p.trackMarkingLength kind start finish)).Ends
        (fun l kinds => kinds = [] ∧ p.control.Recorded kind { p.control with markingLength := l })
        (p.RepeatsMark kind) := by
      refine Act.ends_ofChecked (fun l hl => ?_) fun fault hfault _ => ?_
      · rw [hl] at htrack
        exact ⟨rfl, htrack⟩
      · rw [hfault] at htrack
        exact htrack
    refine tracked.bind ?_
    rintro l _ ⟨rfl, hl⟩
    refine (Act.gives_ofChecked (Pause.Record.calm_create _ _ _)).bind_ends fun record _ => ?_
    have reported : (Act.report (.pause kind start finish)).Ends
        (fun _ kinds => kinds = [kind]) (p.RepeatsMark kind) := Act.ends_report rfl
    refine reported.bind ?_
    rintro _ _ rfl
    exact Act.ends_pure ⟨rfl, hl⟩
  unfold recordPause
  split
  · exact rest _
  · exact (Act.gives_ofLogged (Utilization.Tracker.calm_add _ _ _)).bind_ends fun utilization _ =>
      rest utilization

/-! ## The start of a pause -/

end Policy

variable [Scalar α]

/-- What the start of a pause makes of a pending request. Nothing else is decided there. -/
inductive Decision (c : Control α) (heap : Heap α) : Bool → Control α → Heap α → Prop
  /-- No request is seen, or the one that is waits for the next pause. -/
  | waits {r : Request}
      (hwaits : c.pending = false ∨
        (c.mayStart heap = false ∧ heap.cause.asksForMarking = false))
      (hlater : Later c.request r) :
      Decision c heap false { c with request := r } heap
  /-- The pause does initial-mark work. -/
  | starts {r : Request} (hpending : c.pending = true) (hfree : c.mayStart heap = true)
      (hflag : r.flag = .scheduled) :
      Decision c heap true { c with request := r } heap
  /-- The pause does initial-mark work whatever phase it is in: somebody asked for the cycle. -/
  | overrides {r : Request} (hpending : c.pending = true) (hbusy : c.mayStart heap = false)
      (hasks : heap.cause.asksForMarking = true) (hflag : r.flag = .scheduled) :
      Decision c heap true
        { c with
          phases := { c.phases with youngOnly := true, beforeMixed := false }
          request := r
          markingLength := .unknown }
        heap.clearCandidates

namespace Policy

omit [Scalar α] in
/-- A request that is there can be scheduled. -/
theorem gives_scheduleMarking {p : Policy α} (h : p.request.flag = .requested) :
    Checked.Gives p.scheduleMarking fun q =>
      ∃ r : Request, r.flag = .scheduled ∧ q.control = { p.control with request := r } := by
  obtain ⟨hdone, hflag⟩ := Request.schedule_of_requested h
  unfold scheduleMarking
  simp only [hdone]
  exact Checked.gives_pure ⟨_, hflag, rfl⟩

omit [Scalar α] in
theorem calm_reportMarkingDecision (initiated : Bool) (reason : String) :
    (reportMarkingDecision initiated reason : Act α Unit).Gives fun _ => True :=
  (Act.gives_write _ _ _).bind fun _ _ => Act.gives_report rfl

theorem ends_decideMarking (p : Policy α) (heap : Heap α) :
    (p.decideMarking heap).Ends
      (fun r kinds => kinds = [] ∧ Decision p.control heap r.1 r.2.1.control r.2.2)
      (fun fault => fault = .initialMarkLeftScheduled ∧ p.control.scheduled = true) := by
  unfold decideMarking
  simp only
  rw [seesInitialMark_fst]
  refine (Act.ends_demand fun h => ⟨rfl, Bool.not_eq_false _ ▸ h⟩).bind ?_
  rintro _ _ ⟨rfl, _⟩
  refine Act.Gives.ends ?_
  have hseen : Later p.request p.seesInitialMark.2.request.load.2 :=
    (Request.later_load _).trans (Request.later_load _)
  by_cases hreq : p.seesInitialMark.2.request.load.1 = .requested
  · have hpending : p.control.pending = true := decide_eq_true hreq
    rw [if_neg (not_not_intro hreq)]
    split
    · next hmay =>
      refine (Act.gives_ofChecked (gives_scheduleMarking hreq)).bind ?_
      rintro q ⟨r, hflag, hq⟩
      refine (calm_reportMarkingDecision _ _).bind fun _ _ => Act.gives_pure ?_
      rw [hq]
      exact .starts hpending hmay hflag
    · next hbusy =>
      have hmay : p.control.mayStart heap = false := Bool.not_eq_true _ ▸ hbusy
      cases hasks : heap.cause.asksForMarking with
      | true =>
        refine (Act.gives_ofChecked (gives_scheduleMarking hreq)).bind ?_
        rintro q ⟨r, hflag, hq⟩
        refine (calm_reportMarkingDecision _ _).bind fun _ _ => Act.gives_pure ?_
        rw [hq]
        exact .overrides hpending hmay hasks hflag
      | false =>
        refine (calm_reportMarkingDecision _ _).bind fun _ _ => Act.gives_pure ?_
        exact .waits (.inr ⟨hmay, hasks⟩) hseen
  · rw [if_pos hreq]
    exact Act.gives_pure (.waits (.inl (decide_eq_false hreq)) hseen)

omit [Scalar α] in
theorem succeeds_scheduleMarking {p : Policy α} (h : p.request.flag = .requested) :
    (Act.ofChecked p.scheduleMarking).Succeeds := by
  obtain ⟨hdone, _⟩ := Request.schedule_of_requested h
  refine Act.succeeds_ofChecked (b := { p with request := p.request.schedule.2 }) ?_
  unfold scheduleMarking
  simp only [hdone]
  rfl

omit [Scalar α] in
theorem succeeds_reportMarkingDecision (initiated : Bool) (reason : String) :
    (reportMarkingDecision initiated reason : Act α Unit).Succeeds :=
  (Act.succeeds_write _ _ _).bind fun _ => Act.succeeds_report _

/-- Unless an initial mark was left over, there is a decision. -/
theorem succeeds_decideMarking {p : Policy α} (h : p.control.scheduled = false) (heap : Heap α) :
    (p.decideMarking heap).Succeeds := by
  unfold decideMarking
  simp only
  rw [seesInitialMark_fst, h]
  refine (Act.succeeds_ofChecked rfl).bind fun _ => ?_
  by_cases hreq : p.seesInitialMark.2.request.load.1 = .requested
  · rw [if_neg (not_not_intro hreq)]
    split
    · refine (succeeds_scheduleMarking hreq).bind fun _ => ?_
      exact (succeeds_reportMarkingDecision _ _).bind fun _ => Act.succeeds_pure _
    · split
      · refine (succeeds_scheduleMarking hreq).bind fun _ => ?_
        exact (succeeds_reportMarkingDecision _ _).bind fun _ => Act.succeeds_pure _
      · exact (succeeds_reportMarkingDecision _ _).bind fun _ => Act.succeeds_pure _
  · rw [if_pos hreq]
    exact Act.succeeds_pure _

end Policy

end PauseGoal
