import PauseGoal.Proofs.Collector

/-!
# What a call can do

One inversion for all calls: a call that ends without a fault is one of the steps below, and a fault
about the marking cycle is one of the failures below. Every invariant of runs is proved from these
two, without a look at the policy.
-/

namespace PauseGoal.Collector

open Marking (Phases Request)
open Marking.Request (Later)
open OldRegions (Candidates evenShare)
open Pause (Kind)

variable {α : Type}

/-- The call leaves phases, measurement and candidates alone; at most requests arrive. -/
def Call.isQuiet : Call α → Bool
  | .startPause _ _ | .transfer _ _ | .startRemark _ | .startCleanup _ | .request | .arrive _
  | .forceMarking _ _ | .chooseOptional _ _ _ | .chore _ => true
  | _ => false

/-- The answers of the heap at a call. -/
def Standing.view (s : Standing α) (heap : Heap α) : Heap α := heap.withCandidates s.candidates

variable [Scalar α]

/-- What a call does to where the run stands. -/
inductive Step (s : Standing α) : Call α → Standing α → Prop
  | quiet {c : Call α} {d : Control α} (hquiet : c.isQuiet = true) (hwaited : s.control.Waited d) :
      Step s c { s with control := d, stage := c.stageAfter s.stage }
  | beginPause : Step s .beginPause { s with stage := .begun, owed := none }
  | decide {heap : Heap α} {b : Bool} {d : Control α} {heap' : Heap α}
      (hdecision : Decision s.control (s.view heap) b d heap') :
      Step s (.decide heap)
        { s with control := d, candidates := heap'.candidates, stage := .decided }
  | endPause {heap : Heap α} {now pause : α} {d : Control α} {heap' : Heap α}
      (hend : PauseEnd s.control (s.view heap) d heap') :
      Step s (.endPause heap now pause)
        { control := d
          candidates := heap'.candidates
          stage := .mutators
          owed := none
          history := s.history ++ [.pause s.control.pauseKind] }
  | startFull {heap : Heap α} {now : α} :
      Step s (.startFull heap now)
        { s with
          control :=
            { s.control with phases := { s.control.phases with youngOnly := false, full := true } }
          candidates := none
          stage := .full }
  | endFull {heap : Heap α} {now : α} {d : Control α} (hend : FullEnd s.control d) :
      Step s (.endFull heap now)
        { s with control := d, stage := .mutators, history := s.history ++ [.pause .full] }
  | endRemark {now : α} {d : Control α} (hforgot : s.control.Forgot d) :
      Step s (.endRemark now) { s with control := d, stage := .mutators }
  | endCleanup {heap : Heap α} {now : α} {d : Control α} {heap' : Heap α}
      (hend : CleanupEnd s.control (s.view heap) d heap') :
      Step s (.endCleanup heap now)
        { s with
          control := d
          candidates := heap'.candidates
          stage := .mutators
          history := s.history ++ [.cleanup (s.control.worthwhile (s.view heap))] }
  | finishInitialMark {d : Control α} (hsettled : s.control.Settled d) :
      Step s .finishInitialMark { s with control := d }
  | setCandidates {candidates : Option Candidates} :
      Step s (.setCandidates candidates) { s with candidates := candidates }
  | takeNone {count : Nat} (hnone : s.candidates = none) : Step s (.takeCandidates count) s
  | take {count : Nat} {candidates rest : Candidates} (hsome : s.candidates = some candidates)
      (hregions : rest.regions = candidates.regions) (hsize : rest.size = candidates.size - count) :
      Step s (.takeCandidates count)
        { s with candidates := some rest, owed := s.owed.map (· - count) }
  | chooseOld {heap : Heap α} {timeLeft : α} {candidates : Candidates} {initial : Nat}
      (hsome : s.candidates = some candidates)
      (hinitial :
        min (evenShare candidates.regions.length s.control.settings.mixedCollections)
          candidates.size ≤ initial) :
      Step s (.chooseOld heap timeLeft) { s with owed := some initial }

/-- The faults about the cycle that a call can end in, and what it finds them in. -/
inductive Failure (s : Standing α) : Call α → Fault α → Prop
  | decide {heap : Heap α} (hscheduled : s.control.scheduled = true) :
      Failure s (.decide heap) .initialMarkLeftScheduled
  | endPause {heap : Heap α} {now pause : α} {fault : Fault α}
      (hfault : PauseFault s.control fault) :
      Failure s (.endPause heap now pause) fault
  | chooseOld {heap : Heap α} {timeLeft : α} (hnone : s.candidates = none) :
      Failure s (.chooseOld heap timeLeft) .noCandidates
  | optionalOutside {heap : Heap α} {most : Nat} {timeLeft : α}
      (hmixed : s.control.phases.mixed = false) :
      Failure s (.chooseOptional heap most timeLeft) .optionalOutsideMixed
  | optionalNone {heap : Heap α} {most : Nat} {timeLeft : α} (hnone : s.candidates = none) :
      Failure s (.chooseOptional heap most timeLeft) .noOptionalCandidates

/-! ## From the policy to the steps -/

omit [Scalar α] in
theorem collections_pauseKind (c : Control α) :
    collections [c.pauseKind] = [Mark.pause c.pauseKind] := by
  unfold Control.pauseKind Phases.pauseKind
  split
  · rfl
  · split
    · rfl
    · split <;> rfl

namespace World

theorem pausesIn_findings (w : World α) (c : Call α) : pausesIn (w.findings c) = [] := by
  cases c <;> rfl

/-- The call reported the pauses of the given kinds and was one of the steps. -/
def Stepped (w : World α) (c : Call α) (w' : World α) : Prop :=
  ∃ kinds, w'.journal.pauses = w.journal.pauses ++ kinds ∧
    Step w.standing c
      { w'.standing with
        stage := c.stageAfter w.stage
        history := w.history ++ (w.findings c ++ collections kinds) }

/-- A call that reports no pause leaves the history alone. -/
theorem stepped_of_silent {w w' : World α} {c : Call α}
    (hjournal : w'.journal.pauses = w.journal.pauses) (hfindings : w.findings c = [])
    (hstep : Step w.standing c
      { w'.standing with stage := c.stageAfter w.stage, history := w.history }) :
    w.Stepped c w' := by
  refine ⟨[], by rw [hjournal, List.append_nil], ?_⟩
  rw [hfindings, show collections [] = [] from rfl, List.append_nil, List.append_nil]
  exact hstep

omit [Scalar α] in
theorem act_ends {β : Type} {w : World α} {x : Act α β} {next : β → World α}
    {post : β → List Kind → Prop} {fail fail' : Fault α → Prop} {done : World α → Prop}
    (hx : x.Ends post fail)
    (hnext : ∀ b kinds journal, journal.pauses = w.journal.pauses ++ kinds → post b kinds →
      done { next b with journal := journal })
    (hfail : ∀ fault, fail fault → fail' fault) : (w.act x next).Ends done fail' := by
  have hj := hx w.journal
  unfold act
  revert hj
  cases x.outcome w.journal with
  | mk result journal =>
    cases result with
    | error fault => exact fun h hcycle => hfail fault (h hcycle)
    | ok b =>
      rintro ⟨kinds, happend, hpost⟩
      exact hnext b kinds journal happend hpost

omit [Scalar α] in
theorem act_gives {β : Type} {w : World α} {x : Act α β} {next : β → World α}
    {post : β → Prop} {fail : Fault α → Prop} {done : World α → Prop} (hx : x.Gives post)
    (hnext : ∀ b journal, journal.pauses = w.journal.pauses → post b →
      done { next b with journal := journal }) : (w.act x next).Ends done fail := by
  refine act_ends hx ?_ fun _ h => h.elim
  rintro b _ journal happend ⟨rfl, hpost⟩
  exact hnext b journal (happend.trans (List.append_nil _)) hpost

/-- A call is a quiet step if at most requests arrived. -/
theorem stepped_of_waited {w w' : World α} {c : Call α} (hquiet : c.isQuiet = true)
    (hjournal : w'.journal.pauses = w.journal.pauses)
    (hwaited : w.policy.control.Waited w'.policy.control)
    (hcandidates : w'.candidates = w.candidates) (howed : w'.owed = w.owed) : w.Stepped c w' := by
  have hfindings : w.findings c = [] := by
    cases c with
    | endCleanup heap now => cases hquiet
    | _ => rfl
  have hrest : { w'.standing with stage := c.stageAfter w.stage, history := w.history } =
      { w.standing with control := w'.policy.control, stage := c.stageAfter w.stage } := by
    simp only [standing, hcandidates, howed]
  refine stepped_of_silent hjournal hfindings ?_
  rw [hrest]
  exact .quiet hquiet hwaited

/-- At most the policy and the journal changed, and neither the control of the policy nor the pauses
of the journal. -/
def Kept (w w' : World α) : Prop :=
  ∃ p journal, w' = { w with policy := p, journal := journal } ∧
    journal.pauses = w.journal.pauses ∧ p.control = w.policy.control

theorem doChore_keeps (w : World α) (chore : Chore α) :
    (w.doChore chore).Ends w.Kept fun _ => False := by
  have keeps (p : Policy α) (h : p.control = w.policy.control) : w.Kept { w with policy := p } :=
    ⟨p, w.journal, rfl, rfl, h⟩
  have acts {β : Type} {x : Act α β} {policy : β → Policy α}
      (hx : x.Gives fun b => (policy b).control = w.policy.control) :
      (w.act x fun b => { w with policy := policy b }).Ends w.Kept fun _ => False :=
    act_gives hx fun b journal hjournal hb => ⟨policy b, journal, rfl, hjournal, hb⟩
  have checks {x : Checked α (Policy α)} (hx : x.Gives fun p => p.control = w.policy.control) :
      Checked.Ends (do return { w with policy := ← x }) w.Kept fun _ => False :=
    (hx.bind fun p hp => Checked.gives_pure (keeps p hp)).ends
  cases chore with
  | newEden => exact keeps _ w.policy.keeps_newEdenRegion
  | addOldAllocation bytes => exact checks (w.policy.keeps_addOldAllocation bytes)
  | recordSurvivors tag bytes => exact checks (w.policy.keeps_recordSurvivors tag bytes)
  | recordAges ages => exact checks (w.policy.keeps_recordAges ages)
  | exhaustSurvivorSpace => exact acts w.policy.keeps_exhaustSurvivorSpace
  | measure breakdown => exact keeps _ rfl
  | resize regions => exact checks (w.policy.keeps_resize regions)
  | chooseYoungLength heap now => exact acts (w.policy.keeps_chooseYoungLength _ now)
  | revise heap now entries => exact acts (w.policy.keeps_revise _ now entries)
  | readRefinement heap full => exact acts (w.policy.keeps_readRefinement _ full)
  | needsMarking heap source bytes =>
    exact act_gives (w.policy.gives_needsMarking _ source bytes) fun _ journal hjournal _ =>
      ⟨w.policy, journal, rfl, hjournal, rfl⟩

/-- A chore leaves the control and the candidates alone. -/
theorem doChore_ends (w : World α) (chore : Chore α) :
    (w.doChore chore).Ends (w.Stepped (.chore chore)) fun _ => False := by
  refine (w.doChore_keeps chore).mono ?_ fun _ h => h
  rintro w' ⟨p, journal, rfl, hjournal, hp⟩
  exact stepped_of_waited rfl hjournal (Control.waited_of_eq hp) rfl rfl

theorem perform_ends (w : World α) (c : Call α) :
    (w.perform c).Ends (w.Stepped c) (Failure w.standing c) := by
  cases c with
  | beginPause => exact stepped_of_silent rfl rfl .beginPause
  | decide heap =>
    refine act_ends (w.policy.ends_decideMarking _) ?_ ?_
    · rintro ⟨b, p, heap'⟩ _ journal hjournal ⟨rfl, h⟩
      rw [List.append_nil] at hjournal
      exact stepped_of_silent hjournal rfl (.decide h)
    · rintro _ ⟨rfl, hscheduled⟩
      exact .decide hscheduled
  | startPause heap start =>
    refine act_gives (w.policy.keeps_startPause _ start) fun p journal hjournal hp => ?_
    exact stepped_of_waited rfl hjournal (Control.waited_of_eq hp) rfl rfl
  | transfer count learn =>
    have hkeeps := w.policy.keeps_transferSurvivors count learn
    exact stepped_of_waited rfl rfl (Control.waited_of_eq hkeeps) rfl rfl
  | endPause heap now pause =>
    refine act_ends (w.policy.ends_endPause _ now pause) ?_ fun _ h => .endPause h
    rintro ⟨p, heap'⟩ _ journal hjournal ⟨rfl, h⟩
    refine ⟨_, hjournal, ?_⟩
    rw [collections_pauseKind]
    exact .endPause h
  | startFull heap now =>
    simp only [perform]
    refine act_gives (w.policy.gives_startFull _ now) ?_
    rintro ⟨p, heap'⟩ journal hjournal ⟨hp, hheap⟩
    refine stepped_of_silent hjournal rfl ?_
    simp only at hp hheap
    simp only [standing, hp, hheap]
    exact .startFull
  | endFull heap now =>
    refine act_ends (w.policy.ends_endFull _ now) ?_ fun _ h => h.elim
    rintro p _ journal hjournal ⟨rfl, h⟩
    exact ⟨_, hjournal, .endFull h⟩
  | startRemark now => exact stepped_of_waited rfl rfl (Control.waited_of_eq rfl) rfl rfl
  | endRemark now =>
    refine act_ends (w.policy.ends_endRemark now) ?_ fun _ h => h.elim
    rintro p _ journal hjournal ⟨rfl, h⟩
    refine ⟨_, hjournal, ?_⟩
    rw [show collections [.remark] = [] from rfl, show w.findings _ ++ [] = [] from rfl,
      List.append_nil]
    exact .endRemark h
  | startCleanup now => exact stepped_of_waited rfl rfl (Control.waited_of_eq rfl) rfl rfl
  | endCleanup heap now =>
    refine act_ends (w.policy.ends_endCleanup _ now) ?_ fun _ h => h.elim
    rintro ⟨p, heap'⟩ _ journal hjournal ⟨rfl, h⟩
    exact ⟨_, hjournal, .endCleanup h⟩
  | request => exact stepped_of_waited rfl rfl ⟨_, Request.later_raise _, rfl⟩ rfl rfl
  | arrive arrivals =>
    exact stepped_of_waited rfl rfl ⟨{ w.policy.request with arrivals := arrivals }, .inl rfl, rfl⟩
      rfl rfl
  | forceMarking heap cause =>
    refine act_gives (w.policy.gives_forceMarking _ cause) fun r journal hjournal hr => ?_
    exact stepped_of_waited rfl hjournal hr rfl rfl
  | finishInitialMark =>
    refine act_gives w.policy.gives_finishInitialMark fun p journal hjournal hp => ?_
    exact stepped_of_silent hjournal rfl (.finishInitialMark hp)
  | setCandidates candidates => exact stepped_of_silent rfl rfl .setCandidates
  | takeCandidates count =>
    simp only [perform]
    split
    · next hnone => exact stepped_of_silent rfl rfl (.takeNone hnone)
    · next candidates hsome =>
      refine Checked.Gives.ends ((candidates.gives_take count).bind ?_)
      rintro rest ⟨hregions, hsize⟩
      exact Checked.gives_pure (stepped_of_silent rfl rfl (.take hsome hregions hsize))
  | chooseOld heap timeLeft =>
    refine act_ends (w.policy.ends_chooseOldRegions _ timeLeft) ?_ ?_
    · rintro budget _ journal hjournal ⟨rfl, candidates, hsome, hinitial⟩
      rw [List.append_nil] at hjournal
      exact stepped_of_silent hjournal rfl (.chooseOld hsome hinitial)
    · rintro _ ⟨rfl, hnone⟩
      exact .chooseOld hnone
  | chooseOptional heap most timeLeft =>
    refine act_ends (w.policy.ends_chooseOptionalRegions _ most timeLeft) ?_ ?_
    · rintro _ _ journal hjournal rfl
      rw [List.append_nil] at hjournal
      exact stepped_of_waited rfl hjournal (Control.waited_of_eq rfl) rfl rfl
    · rintro _ (⟨rfl, hmixed⟩ | ⟨rfl, hnone⟩)
      · exact .optionalOutside hmixed
      · exact .optionalNone hnone
  | chore chore => exact (w.doChore_ends chore).mono (fun _ h => h) fun _ h => h.elim

theorem call_ends (w : World α) (c : Call α) :
    (w.call c).Ends
      (fun w' => Step w.standing c w'.standing ∧
        ∃ kinds, w'.journal.pauses = w.journal.pauses ++ kinds ∧
          pausesIn w'.history = pausesIn w.history ++ kinds.filter Kind.collects)
      (Failure w.standing c) := by
  have hperform := w.perform_ends c
  unfold call
  revert hperform
  cases w.perform c with
  | error fault => exact fun h => h
  | ok w' =>
    rintro ⟨kinds, hjournal, hstep⟩
    -- what the journal gained is what the call reported
    have hreported : w'.journal.pauses.drop w.journal.pauses.length = kinds := by
      rw [hjournal, List.drop_left]
    have hhistory : pausesIn (w.history ++ (w.findings c ++ collections kinds)) =
        pausesIn w.history ++ kinds.filter Kind.collects := by
      rw [pausesIn_append, pausesIn_append, pausesIn_findings, pausesIn_collections,
        List.nil_append]
    rw [← hreported] at hstep hhistory hjournal
    exact ⟨hstep, _, hjournal, hhistory⟩

theorem step_of_call {w w' : World α} {c : Call α} (h : w.call c = .ok w') :
    Step w.standing c w'.standing := by
  have hends := w.call_ends c
  rw [h] at hends
  exact hends.1

theorem stage_of_call {w w' : World α} {c : Call α} (h : w.call c = .ok w') :
    w'.stage = c.stageAfter w.stage := by
  unfold call at h
  cases hperform : w.perform c with
  | error fault =>
    rw [hperform] at h
    cases h
  | ok w₁ =>
    rw [hperform] at h
    cases h
    rfl

theorem failure_of_call {w : World α} {c : Call α} {fault : Fault α}
    (h : w.call c = .error fault) (hcycle : fault.aboutCycle = true) :
    Failure w.standing c fault := by
  have hends := w.call_ends c
  rw [h] at hends
  exact hends hcycle

omit [Scalar α] in
theorem exists_act {β : Type} {w : World α} {x : Act α β} {next : β → World α}
    (hx : x.Succeeds) : ∃ w', w.act x next = .ok w' := by
  obtain ⟨b, journal, hb⟩ := hx w.journal
  exact ⟨_, by rw [act, hb]⟩

/-- The start of a pause is decided on unless an initial mark was left over. -/
theorem exists_call_decide {w : World α} (h : w.policy.control.scheduled = false)
    (heap : Heap α) : ∃ w', w.call (.decide heap) = .ok w' := by
  have hperform : ∃ w', w.perform (.decide heap) = .ok w' :=
    exists_act (Policy.succeeds_decideMarking h (w.view heap))
  obtain ⟨w', hw'⟩ := hperform
  unfold call
  rw [hw']
  exact ⟨_, rfl⟩

/-- Where a run starts. -/
theorem Fresh.standing_eq {w : World α} (h : w.Fresh) :
    ∃ settings : Settings α, settings.validate = .ok () ∧ w.standing =
      { control := ⟨settings, {}, {}, .unknown⟩
        candidates := none
        stage := .mutators
        owed := none
        history := [] } := by
  obtain @⟨settings, heap, now, fullCauses, policy, before, after, hstart⟩ := h
  have hgives := Policy.gives_start settings heap now fullCauses before
  rw [hstart] at hgives
  obtain ⟨_, _, _, hpolicy⟩ := hgives
  obtain ⟨hvalid, hcontrol⟩ := hpolicy policy rfl
  exact ⟨settings, hvalid, by rw [standing, hcontrol]⟩

end World

/-- What holds at the start and survives every allowed step holds at the end of every run. -/
theorem Reaches.invariant {allowed : Standing α → Call α → Bool} {w₀ w : World α}
    {I : Standing α → Prop} (hrun : Reaches allowed w₀ w) (hstart : I w₀.standing)
    (hstep : ∀ s c s', I s → allowed s c = true → Step s c s' → I s') : I w.standing := by
  -- faults end a run, so every call of a run is a step
  induction hrun with
  | start => exact hstart
  | step _ hallowed hcall ih => exact hstep _ _ _ ih hallowed (World.step_of_call hcall)

/-- The history of a run has the pauses that the journal reports, but for those that only interrupt
marking. -/
theorem Reaches.recorded {allowed : Standing α → Call α → Bool} {w₀ w : World α}
    (hfresh : w₀.Fresh) (hrun : Reaches allowed w₀ w) :
    ∃ kinds, w.journal.pauses = w₀.journal.pauses ++ kinds ∧
      pausesIn w.history = kinds.filter Kind.collects := by
  induction hrun with
  | start =>
    obtain ⟨_, _, hstanding⟩ := hfresh.standing_eq
    refine ⟨[], (List.append_nil _).symm, ?_⟩
    rw [show w₀.history = [] from congrArg Standing.history hstanding]
    rfl
  | @step w w' c _ _ hcall ih =>
    obtain ⟨kinds, hjournal, hhistory⟩ := ih
    have hends := w.call_ends c
    rw [hcall] at hends
    obtain ⟨_, more, hjournal', hhistory'⟩ := hends
    refine ⟨kinds ++ more, ?_, ?_⟩
    · rw [hjournal', hjournal, List.append_assoc]
    · rw [hhistory', hhistory, List.filter_append]

end PauseGoal.Collector
