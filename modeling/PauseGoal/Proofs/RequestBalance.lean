import PauseGoal.Proofs.CollectorSteps
import PauseGoal.Proofs.Exact
import PauseGoal.Proofs.Exchanges
import PauseGoal.Proofs.Returns

/-!
# Requests over a run

Requests of other threads fall between any two steps of the policy, also in the middle of a call.
Whatever calls a run consists of, in whatever order:

* at every moment the tally of the marking flag is balanced;
* only the end of a full collection drops a request, and only if it finds that marking is not
  needed;
* the start of a pause schedules an initial mark exactly if it says so, reports one decision exactly
  if it saw a request, and leaves a request that it postpones where it is;
* a request that was seen does not vanish before it is taken up.
-/

namespace PauseGoal

open Marking (Exchange Request)
open Marking.Request (Moved byOthers)

variable {α : Type}

/-! ## Who may attempt what -/

namespace Marking.Request

/-- The start of a pause takes up requests. -/
def byDecision : Exchange → Bool
  | .raise | .schedule => true
  | _ => false

/-- The end of a pause completes initial marks. -/
def byPauseEnd : Exchange → Bool
  | .raise | .complete => true
  | _ => false

/-- The end of a full collection completes initial marks, and it withdraws a request if marking is
not needed. -/
def byFullEnd (needed : Bool) : Exchange → Bool
  | .raise | .complete => true
  | .withdraw => !needed
  | .schedule => false

end Marking.Request

namespace Policy

open Marking.Request

variable [Scalar α]

/-! ## The need for marking -/

/-- Whether marking is needed after an allocation: what `needsMarking` finds, without its entry in
the log. -/
def markingNeeded (p : Policy α) (heap : Heap α) (bytes : Nat) : Checked α Bool := do
  if p.mixedIsNear heap then return false
  else
    let threshold ← p.threshold.bytes
    let occupied ← Word.add heap.oldBytes bytes
    return decide (threshold < occupied) && p.phases.youngOnly && !p.phases.beforeMixed

theorem outcome_needsMarking (p : Policy α) (heap : Heap α) (source : String) (bytes : Nat)
    (journal : Journal α) :
    ((p.needsMarking heap source bytes).outcome journal).1 = p.markingNeeded heap bytes := by
  unfold needsMarking markingNeeded
  split
  · rfl
  · rw [Act.outcome_bind]
    cases p.threshold.bytes with
    | error fault => rfl
    | ok threshold =>
      show ((_ >>= _ : Act α Bool).outcome journal).1 = _
      rw [Act.outcome_bind]
      cases Word.add (α := α) heap.oldBytes bytes with
      | error fault => rfl
      | ok occupied =>
        show ((ite (occupied ≤ threshold) _ _ : Act α Bool).outcome journal).1 =
          .ok (decide (threshold < occupied) && _ && _)
        by_cases hunder : occupied ≤ threshold
        · rw [if_pos hunder, decide_eq_false (Nat.not_lt.mpr hunder)]
          rfl
        · rw [if_neg hunder, decide_eq_true (Nat.lt_of_not_le hunder), Bool.true_and]
          rfl

theorem returns_needsMarking (p : Policy α) (heap : Heap α) (source : String) (bytes : Nat) :
    (p.needsMarking heap source bytes).Returns fun needed =>
      p.markingNeeded heap bytes = .ok needed := by
  intro journal needed journal' hout
  rw [← p.outcome_needsMarking heap source bytes journal, hout]

/-! ## What operations do to the flag -/

omit [Scalar α] in
theorem moved_seesInitialMark (p : Policy α) :
    Moved byOthers p.request p.seesInitialMark.2.request := moved_load _

theorem moves_askForMarkingIfNeeded (p : Policy α) (heap : Heap α) :
    (p.askForMarkingIfNeeded heap).Returns fun q => Moved byOthers p.request q.request := by
  refine Act.returns_bind fun needed => ?_
  cases needed with
  | true => exact Act.returns_pure (moved_ask _)
  | false => exact Act.returns_pure (.refl _)

omit [Scalar α] in
theorem moves_forceMarking (p : Policy α) (heap : Heap α) (cause : Cause) :
    (p.forceMarking heap cause).Returns fun r => Moved byOthers p.request r.2.request := by
  unfold forceMarking
  split
  · exact Act.returns_bind fun _ => Act.returns_pure (.refl _)
  · exact Act.returns_bind fun _ => Act.returns_pure (moved_ask _)

omit [Scalar α] in
theorem moves_finishInitialMark (p : Policy α) :
    p.finishInitialMark.Returns fun q => Moved byPauseEnd p.request q.request := by
  unfold finishInitialMark
  simp only
  split
  · exact Act.returns_bind fun _ => Act.returns_pure (moved_complete _ rfl rfl)
  · exact Act.returns_pure (moved_complete _ rfl rfl)

theorem moves_settleMarking (p : Policy α) (heap : Heap α) (initialMark : Bool) :
    (p.settleMarking heap initialMark).Returns fun q => Moved byPauseEnd p.request q.request := by
  unfold settleMarking
  split
  · exact p.moves_finishInitialMark
  · exact (p.moves_askForMarkingIfNeeded heap).mono fun _ h => h.of_others rfl

theorem moves_advancePhases (p : Policy α) (heap : Heap α) (youngOnly initialMark : Bool) :
    (p.advancePhases heap youngOnly initialMark).Returns fun r =>
      Moved byOthers p.request r.1.request := by
  unfold advancePhases
  split
  · exact Act.returns_bind fun _ => Act.returns_pure (.refl _)
  · split
    · exact Act.returns_pure (.refl _)
    · refine Act.returns_bind fun worthwhile => ?_
      cases worthwhile with
      | true => exact Act.returns_pure (.refl _)
      | false =>
        refine (moves_askForMarkingIfNeeded _ _).bind fun q hq => ?_
        exact Act.returns_pure hq

theorem request_recordPause (p : Policy α) (kind : Pause.Kind) (start finish : α) :
    (p.recordPause kind start finish).Returns fun q => q.request = p.request := by
  refine (p.ends_recordPause kind start finish).returns.mono ?_
  rintro q ⟨_, _, l, _, hq⟩
  exact congrArg Control.request hq

theorem moves_endPause (p : Policy α) (heap : Heap α) (now pause : α) :
    (p.endPause heap now pause).Returns fun r => Moved byPauseEnd p.request r.1.request := by
  unfold endPause
  simp only
  refine Act.returns_bind fun kind => ?_
  refine (request_recordPause _ kind _ _).bind fun q hq => ?_
  refine (moves_settleMarking _ heap _).bind fun r hr => ?_
  refine (moves_advancePhases _ heap _ _).bind fun s hs => ?_
  refine Act.returns_bind fun costs => Act.returns_bind fun _ => ?_
  refine (gives_prepareNext _ _ _ _ _ _ _).returns.bind fun t ht => ?_
  refine Act.returns_bind fun _ => Act.returns_pure ?_
  obtain ⟨_, _, ht⟩ := ht
  have hlast : t.request = s.1.request := congrArg Control.request ht
  have hfirst : Moved byOthers p.request q.seesInitialMark.2.request :=
    (p.moved_seesInitialMark.trans (hq ▸ .refl _)).trans q.moved_seesInitialMark
  rw [hlast]
  exact ((hfirst.of_others rfl).trans hr).trans (hs.of_others rfl)

omit [Scalar α] in
theorem moved_settleRequest (p : Policy α) (needed : Bool) :
    Moved (byFullEnd needed) p.request (p.settleRequest needed).request := by
  have hcomplete : Moved (byFullEnd needed) p.request p.request.complete.2 :=
    moved_complete _ rfl rfl
  cases needed with
  | true => exact hcomplete.trans ((moved_ask _).of_others rfl)
  | false => exact hcomplete.trans (moved_withdraw _ rfl rfl)

/-- Where a full collection that ended leaves the policy: young collections start over. -/
def startOver (p : Policy α) : Policy α :=
  { p with phases := { p.phases with full := false, youngOnly := true, beforeMixed := false } }

theorem moves_endFull (p : Policy α) (heap : Heap α) (now : α) :
    (p.endFull heap now).Returns fun q => ∃ needed,
      p.startOver.markingNeeded heap 0 = .ok needed ∧
        Moved (byFullEnd needed) p.request q.request := by
  unfold endFull
  simp only
  refine (returns_needsMarking _ _ _ _).bind fun needed hneeded => ?_
  refine (keeps_chooseYoungLength _ _ _).returns.bind fun r hr => ?_
  refine (Act.gives_ofChecked r.2.keeps_expectPredictedEntries).returns.bind fun q hq => ?_
  refine (request_recordPause _ _ _ _).bind fun s hs => ?_
  refine Act.returns_bind fun _ => Act.returns_pure ⟨needed, hneeded, ?_⟩
  have hrequest : q.request = _ := congrArg Control.request (hq.trans hr)
  rw [show s.request = q.request from hs, hrequest]
  exact moved_settleRequest _ needed

/-! ## The decision at the start of a pause -/

omit [Scalar α] in
theorem request_scheduleMarking {p q : Policy α} (h : p.scheduleMarking = .ok q) :
    Moved byDecision p.request q.request ∧
      q.request.tally.scheduled = p.request.tally.scheduled + 1 := by
  obtain ⟨_, hdemand, hq⟩ := Checked.exists_of_bind_eq_ok h
  cases hq
  exact ⟨moved_schedule _ rfl rfl, scheduled_schedule (of_demand_eq_ok hdemand)⟩

end Policy

/-- What the decision at the start of a pause did with requests, and what it reported. -/
structure Answered (c : Control α) (initiated : Bool) (r : Request) (events : List (Event α)) :
    Prop where
  moved : Moved Request.byDecision c.request r
  /-- An initial mark is scheduled exactly if the decision says so. -/
  scheduled : r.tally.scheduled = c.request.tally.scheduled + if initiated then 1 else 0
  /-- One decision is reported exactly if a request was seen. -/
  reported : ∃ reason, events = if c.pending then [.markingDecision initiated reason] else []
  /-- A request that was seen and not taken up stays. -/
  postponed : c.pending = true → initiated = false → r.flag = .requested

namespace Policy

variable [Scalar α]

omit [Scalar α] in
theorem reports_reportMarkingDecision (initiated : Bool) (reason : String) :
    (reportMarkingDecision initiated reason : Act α Unit).Reports fun _ events =>
      events = [.markingDecision initiated reason] := by
  refine (Act.reports_write _ _ _).bind ?_
  rintro _ _ rfl
  exact Act.reports_report _

theorem reports_decideMarking (p : Policy α) (heap : Heap α) :
    (p.decideMarking heap).Reports fun r events =>
      Answered p.control r.1 r.2.1.request events := by
  have hloads : Moved byOthers p.request p.seesInitialMark.2.request.load.2 :=
    p.moved_seesInitialMark.trans (Request.moved_load _)
  have hunscheduled :
      p.seesInitialMark.2.request.load.2.tally.scheduled = p.request.tally.scheduled :=
    hloads.count_eq (e := .schedule) rfl
  unfold decideMarking
  simp only
  refine (Act.reports_ofChecked fun _ _ => ⟨rfl, trivial⟩).bind_silent fun _ _ => ?_
  by_cases hreq : p.seesInitialMark.2.request.load.1 = .requested
  · have hpending : p.control.pending = true := decide_eq_true hreq
    rw [if_neg (not_not_intro hreq)]
    -- an initial mark is scheduled for whatever reason
    have starts {q : Policy α} (hq : q.request = p.seesInitialMark.2.request.load.2)
        (reason : String) (done : Policy α → Bool × Policy α × Heap α)
        (hdone : ∀ s, (done s).1 = true ∧ (done s).2.1.request = s.request) :
        (do
          let s ← Act.ofChecked q.scheduleMarking
          reportMarkingDecision true reason
          return done s : Act α (Bool × Policy α × Heap α)).Reports fun r events =>
            Answered p.control r.1 r.2.1.request events := by
      have scheduled : (Act.ofChecked q.scheduleMarking).Reports fun s events => events = [] ∧
          Moved Request.byDecision q.request s.request ∧
            s.request.tally.scheduled = q.request.tally.scheduled + 1 :=
        Act.reports_ofChecked fun s hs => ⟨rfl, request_scheduleMarking hs⟩
      refine scheduled.bind_silent fun s hs => ?_
      refine (reports_reportMarkingDecision true reason).bind ?_
      rintro _ _ rfl
      obtain ⟨hmoved, hcount⟩ := hs
      obtain ⟨htrue, hrequest⟩ := hdone s
      rw [hq] at hmoved hcount
      refine Act.reports_pure ?_
      rw [htrue, hrequest]
      refine ⟨(hloads.of_others rfl).trans hmoved, ?_, ⟨reason, ?_⟩, fun _ hfalse => ?_⟩
      · rw [hcount, hunscheduled]
        rfl
      · rw [hpending]
        rfl
      · cases hfalse
    split
    · exact starts rfl _ (fun s => (true, s, heap)) fun _ => ⟨rfl, rfl⟩
    · split
      · exact starts rfl _ (fun s => (true, s, heap.clearCandidates)) fun _ => ⟨rfl, rfl⟩
      · refine (reports_reportMarkingDecision false _).bind ?_
        rintro _ _ rfl
        refine Act.reports_pure ⟨hloads.of_others rfl, hunscheduled,
          ⟨"concurrent cycle already in progress", ?_⟩, fun _ _ => hreq⟩
        rw [hpending]
        rfl
  · have hpending : p.control.pending = false := decide_eq_false hreq
    rw [if_pos hreq]
    refine Act.reports_pure ⟨hloads.of_others rfl, hunscheduled, ⟨"", ?_⟩, fun h => ?_⟩
    · rw [hpending]
      rfl
    · exact absurd (hpending.symm.trans h) Bool.false_ne_true

end Policy

/-! ## Runs -/

namespace Collector

variable [Scalar α]

namespace World

/-- The exchanges that a call may attempt. -/
def permits (w : World α) : Call α → Exchange → Bool
  | .decide _ => Request.byDecision
  | .endPause _ _ _ | .finishInitialMark => Request.byPauseEnd
  | .endFull heap _ =>
    match w.policy.startOver.markingNeeded (w.view heap) 0 with
    | .ok needed => Request.byFullEnd needed
    | .error _ => byOthers
  | _ => byOthers

theorem permits_endFull {w : World α} {heap : Heap α} {now : α} {needed : Bool}
    (h : w.policy.startOver.markingNeeded (w.view heap) 0 = .ok needed) :
    w.permits (.endFull heap now) = Request.byFullEnd needed := by
  simp only [permits, h]

theorem permits_raise (w : World α) (c : Call α) : w.permits c .raise = true := by
  cases c with
  | endFull heap now =>
    simp only [permits]
    cases w.policy.startOver.markingNeeded (w.view heap) 0 <;> rfl
  | _ => rfl

/-- Only the start of a pause takes up requests. -/
theorem exists_of_permits_schedule {w : World α} {c : Call α} (h : w.permits c .schedule = true) :
    ∃ heap, c = .decide heap := by
  cases c with
  | decide heap => exact ⟨heap, rfl⟩
  | endFull heap now =>
    simp only [permits] at h
    cases hneeded : w.policy.startOver.markingNeeded (w.view heap) 0 <;> rw [hneeded] at h <;>
      cases h
  | _ => cases h

/-- Only the end of a full collection drops requests, and only if marking is not needed. -/
theorem exists_of_permits_withdraw {w : World α} {c : Call α} (h : w.permits c .withdraw = true) :
    ∃ heap now, c = .endFull heap now ∧
      w.policy.startOver.markingNeeded (w.view heap) 0 = .ok false := by
  cases c with
  | endFull heap now =>
    refine ⟨heap, now, rfl, ?_⟩
    cases hneeded : w.policy.startOver.markingNeeded (w.view heap) 0 with
    | error fault =>
      simp only [permits, hneeded] at h
      cases h
    | ok needed =>
      rw [permits_endFull hneeded] at h
      cases needed with
      | true => cases h
      | false => rfl
  | _ => cases h

omit [Scalar α] in
theorem moved_of_act {β : Type} {w w' : World α} {x : Act α β} {next : β → World α}
    {permitted : Exchange → Bool} (h : w.act x next = .ok w')
    (hx : x.Returns fun b => Moved permitted w.policy.request (next b).policy.request) :
    Moved permitted w.policy.request w'.policy.request := by
  obtain ⟨b, journal, hout, rfl⟩ := exists_of_act_eq_ok h
  exact hx _ _ _ hout

/-- The flag moves by permitted exchanges only. -/
theorem moved_of_perform {w w' : World α} {c : Call α} (h : w.perform c = .ok w') :
    Moved (w.permits c) w.policy.request w'.policy.request := by
  have keeps {p : Policy α} (hp : p.control = w.policy.control) :
      Moved (w.permits c) w.policy.request p.request := by
    rw [show p.request = w.policy.request from congrArg Control.request hp]
    exact .refl _
  have others {r : Request} (hr : Moved byOthers w.policy.request r) :
      Moved (w.permits c) w.policy.request r := hr.of_others (w.permits_raise c)
  cases c with
  | beginPause =>
    cases h
    exact keeps rfl
  | decide heap =>
    refine moved_of_act h fun journal r journal' hout => ?_
    obtain ⟨_, _, hanswered⟩ := w.policy.reports_decideMarking (w.view heap) _ _ _ hout
    exact hanswered.moved
  | startPause heap start =>
    exact moved_of_act h ((w.policy.keeps_startPause _ start).returns.mono fun _ => keeps)
  | transfer count learn =>
    cases h
    exact keeps (w.policy.keeps_transferSurvivors count learn)
  | endPause heap now pause => exact moved_of_act h (w.policy.moves_endPause _ now pause)
  | startFull heap now =>
    simp only [perform] at h
    refine moved_of_act h ((w.policy.gives_startFull _ now).returns.mono fun r hr => ?_)
    rw [show r.1.request = w.policy.request from congrArg Control.request hr.1]
    exact .refl _
  | endFull heap now =>
    refine moved_of_act h ((w.policy.moves_endFull _ now).mono ?_)
    rintro q ⟨needed, hneeded, hq⟩
    rw [permits_endFull hneeded]
    exact hq
  | startRemark now =>
    cases h
    exact keeps rfl
  | endRemark now =>
    refine moved_of_act h ((w.policy.ends_endRemark now).returns.mono ?_)
    rintro q ⟨_, _, l, _, hq⟩
    rw [show q.request = w.policy.request from congrArg Control.request hq]
    exact .refl _
  | startCleanup now =>
    cases h
    exact keeps rfl
  | endCleanup heap now =>
    refine moved_of_act h ((w.policy.ends_endCleanup _ now).returns.mono ?_)
    rintro r ⟨_, _, hend⟩
    rw [show r.1.request = w.policy.request from hend.request]
    exact .refl _
  | request =>
    cases h
    exact others (Request.moved_raise _)
  | arrive arrivals =>
    cases h
    exact others (Request.moved_arrivals _ arrivals)
  | forceMarking heap cause =>
    exact moved_of_act h ((w.policy.moves_forceMarking _ cause).mono fun _ => others)
  | finishInitialMark => exact moved_of_act h w.policy.moves_finishInitialMark
  | setCandidates candidates =>
    cases h
    exact keeps rfl
  | takeCandidates count =>
    simp only [perform] at h
    split at h
    · cases h
      exact keeps rfl
    · obtain ⟨rest, _, hrest⟩ := Checked.exists_of_bind_eq_ok h
      cases hrest
      exact keeps rfl
  | chooseOld heap timeLeft =>
    exact moved_of_act h ((Act.returns_any _).mono fun _ _ => keeps rfl)
  | chooseOptional heap most timeLeft =>
    exact moved_of_act h ((Act.returns_any _).mono fun _ _ => keeps rfl)
  | chore chore =>
    have hkept := w.doChore_keeps chore
    rw [show w.doChore chore = .ok w' from h] at hkept
    obtain ⟨p, journal, rfl, _, hp⟩ := hkept
    exact keeps hp

theorem moved_of_call {w w' : World α} {c : Call α} (h : w.call c = .ok w') :
    Moved (w.permits c) w.policy.request w'.policy.request := by
  obtain ⟨w₁, hperform, hpolicy, _⟩ := exists_perform_of_call h
  rw [hpolicy]
  exact moved_of_perform hperform

end World

theorem Reaches.balanced {allowed : Standing α → Call α → Bool} {w₀ w : World α}
    (hfresh : w₀.Fresh) (hrun : Reaches allowed w₀ w) : w.policy.request.Balanced := by
  induction hrun with
  | start =>
    obtain ⟨settings, _, hstanding⟩ := hfresh.standing_eq
    have hrequest : w₀.policy.request = {} := congrArg (fun s => s.control.request) hstanding
    rw [hrequest]
    exact Request.balanced_initial
  | step _ _ hcall ih => exact (World.moved_of_call hcall).balanced ih

/-- What a call that ends leaves of a pending request. -/
theorem pending_of_call {w w' : World α} {c : Call α} (hbalanced : w.policy.request.Balanced)
    (hcall : w.call c = .ok w') (hpending : w.policy.request.flag = .requested) :
    w'.policy.request.flag = .requested ∨
      w.policy.request.tally.scheduled < w'.policy.request.tally.scheduled ∨
        w.policy.request.tally.withdrawn < w'.policy.request.tally.withdrawn := by
  have hmoved := World.moved_of_call hcall
  have hraised : w.policy.request.tally.raised ≤ w'.policy.request.tally.raised :=
    hmoved.count_le .raise
  have hbefore := hbalanced.raised
  have hafter := (hmoved.balanced hbalanced).raised
  rw [if_pos hpending] at hbefore
  by_cases hflag : w'.policy.request.flag = .requested
  · exact .inl hflag
  · rw [if_neg hflag] at hafter
    omega

/-- An exchange that a call may not attempt does not take place in it. -/
theorem permits_of_count_ne {w w' : World α} {c : Call α} (hcall : w.call c = .ok w')
    {e : Exchange} (h : w'.policy.request.tally.count e ≠ w.policy.request.tally.count e) :
    w.permits c e = true := by
  cases hpermits : w.permits c e with
  | true => rfl
  | false => exact absurd ((World.moved_of_call hcall).count_eq hpermits) h

/-- Over every run, whatever calls it consists of and however many requests arrive between their
steps, requests are neither lost nor taken up twice. -/
theorem requests_balance {allowed : Standing α → Call α → Bool} {w₀ w : World α}
    (hfresh : w₀.Fresh) (hrun : Reaches allowed w₀ w) :
    w.policy.request.Balanced ∧
      -- every call is a sequence of atomic attempts, with the balance after each of them
      (∀ c w', w.call c = .ok w' →
        ∃ es later, w'.policy.request = { w.policy.request.attempts es with arrivals := later } ∧
          ∀ moment, moment <+: es → (w.policy.request.attempts moment).Balanced) ∧
      -- what may become of a request that is pending
      (∀ c w', w.call c = .ok w' → w.policy.request.flag = .requested →
        w'.policy.request.flag = .requested ∨
          w.policy.request.tally.scheduled < w'.policy.request.tally.scheduled ∨
            w.policy.request.tally.withdrawn < w'.policy.request.tally.withdrawn) ∧
      (∀ c w', w.call c = .ok w' →
        w'.policy.request.tally.scheduled ≠ w.policy.request.tally.scheduled →
          ∃ heap, c = .decide heap) ∧
      (∀ c w', w.call c = .ok w' →
        w'.policy.request.tally.withdrawn ≠ w.policy.request.tally.withdrawn →
          ∃ heap now, c = .endFull heap now ∧ ∀ source journal,
            ((w.policy.startOver.needsMarking (w.view heap) source 0).outcome journal).1 =
              .ok false) ∧
      -- what the start of a pause makes of one
      (∀ heap journal r journal',
        (w.policy.decideMarking (w.view heap)).outcome journal = (.ok r, journal') →
          ∃ events, journal'.events = journal.events ++ events ∧
            Answered w.policy.control r.1 r.2.1.request events) ∧
      ∀ c, w.call c ≠ .error .requestVanished := by
  have hbalanced := hrun.balanced hfresh
  refine ⟨hbalanced, fun c w' hcall => ?_, fun c w' hcall => pending_of_call hbalanced hcall,
    fun c w' hcall hcount => ?_, fun c w' hcall hcount => ?_, fun heap => ?_, fun c hcall => ?_⟩
  · obtain ⟨es, later, _, hmoved⟩ := World.moved_of_call hcall
    exact ⟨es, later, hmoved, fun moment _ => hbalanced.attempts moment⟩
  · exact World.exists_of_permits_schedule (permits_of_count_ne hcall (e := .schedule) hcount)
  · obtain ⟨heap, now, rfl, hneeded⟩ :=
      World.exists_of_permits_withdraw (permits_of_count_ne hcall (e := .withdraw) hcount)
    refine ⟨heap, now, rfl, fun source journal => ?_⟩
    rw [Policy.outcome_needsMarking, hneeded]
  · exact w.policy.reports_decideMarking (w.view heap)
  · cases World.failure_of_call hcall rfl with
    | endPause hfault => cases hfault

/-- Requests of all sorts of fates: one becomes an initial mark that is completed, one is withdrawn
by a full collection, and of the last four one is pending and the others are absorbed. -/
theorem requests_balance_of_contested_cycle :
    ∃ w₀ w : World Rat, w₀.Fresh ∧ Reaches inOrder w₀ w ∧
      w.policy.request.tally = { raised := 3, scheduled := 1, completed := 1, withdrawn := 1 } ∧
      w.policy.request.flag = .requested ∧ w.policy.request.Balanced := by
  obtain ⟨w₀, w, hfresh, hrun, hend⟩ :=
    exists_run inOrder plainSettings plainHeap 1
      ([.arrive [0, 2, 1], .forceMarking plainHeap .allocation] ++ plainPause plainHeap 10 [] ++
        [.request, .startFull plainHeap 20, .endFull plainHeap 21, .arrive [3],
          .forceMarking plainHeap .allocation])
      (P := fun _ w => w.policy.request.tally =
        { raised := 3, scheduled := 1, completed := 1, withdrawn := 1 } ∧
        w.policy.request.flag = .requested)
      (by decide +kernel)
  obtain ⟨htally, hflag⟩ := of_decide_eq_true hend
  exact ⟨w₀, w, hfresh, hrun, htally, hflag, (requests_balance hfresh hrun).1⟩

end Collector

end PauseGoal
