import PauseGoal.Proofs.CollectorSteps
import PauseGoal.Proofs.Exact

/-!
# The order of pauses

The phases, the marking flag and the stage of the collector are tied together by one invariant,
`Coherent`, that every call in order keeps: whatever the heap answers, whoever asks for marking, and
whether or not a full collection cuts a pause short. The order of the kinds of pauses follows from
it:

* a mixed pause follows the last young one or another mixed one;
* the last young pause follows a cleanup that found enough to collect;
* after it comes a mixed pause, one that starts the next cycle, or a full collection;
* after a pause that starts a cycle no mixed phase begins before cleanup.
-/

namespace PauseGoal.Collector

open Marking (Phases Request)
open Pause (Kind)

variable {α : Type} [Scalar α]

/-! ## Phases, flag and stage -/

/-- How the phases, the flag and the stage go together. What is said of the phases holds outside
full collections. -/
structure Coherent (s : Standing α) : Prop where
  full : s.stage = .full ↔ s.control.phases.full = true
  /-- An initial mark is scheduled only for the pause that is on. -/
  scheduled : s.control.scheduled = true → s.stage.isDecided = true ∨ s.stage = .full
  interrupts : s.stage.interrupts = true → s.control.phases.marking = true
  initialMark : s.control.phases.full = false → s.control.scheduled = true →
    s.control.phases.youngOnly = true ∧ s.control.phases.beforeMixed = false
  lastYoung : s.control.phases.full = false → s.control.phases.beforeMixed = true →
    s.control.phases.youngOnly = true
  marking : s.control.phases.full = false → s.control.phases.marking = true →
    s.control.phases.youngOnly = true ∧ s.control.phases.beforeMixed = false

omit [Scalar α] in
/-- A quiet call neither begins nor ends a pause that evacuates or compacts, and it interrupts
marking only while marking is on. -/
theorem stageAfter_of_quiet {s : Standing α} {c : Call α} (hquiet : c.isQuiet = true)
    (horder : inOrder s c = true) :
    (c.stageAfter s.stage = .full ↔ s.stage = .full) ∧
      (c.stageAfter s.stage).isDecided = s.stage.isDecided ∧
      (c.stageAfter s.stage).evacuates = s.stage.evacuates ∧
      ((c.stageAfter s.stage).interrupts = true →
        s.stage.interrupts = true ∨ s.control.phases.marking = true) := by
  cases c with
  | startPause heap start =>
    have hstage : s.stage = .decided := eq_of_beq horder
    rw [hstage]
    exact ⟨⟨nofun, nofun⟩, rfl, rfl, nofun⟩
  | transfer count learn =>
    have hstage : s.stage = .started := eq_of_beq horder
    rw [hstage]
    exact ⟨⟨nofun, nofun⟩, rfl, rfl, nofun⟩
  | startRemark now =>
    obtain ⟨hstage, hmarking⟩ := Bool.and_eq_true_iff.mp horder
    rw [eq_of_beq hstage]
    exact ⟨⟨nofun, nofun⟩, rfl, rfl, fun _ => .inr hmarking⟩
  | startCleanup now =>
    obtain ⟨hstage, hmarking⟩ := Bool.and_eq_true_iff.mp horder
    rw [eq_of_beq hstage]
    exact ⟨⟨nofun, nofun⟩, rfl, rfl, fun _ => .inr hmarking⟩
  | request => exact ⟨Iff.rfl, rfl, rfl, .inl⟩
  | arrive arrivals => exact ⟨Iff.rfl, rfl, rfl, .inl⟩
  | forceMarking heap cause => exact ⟨Iff.rfl, rfl, rfl, .inl⟩
  | chooseOptional heap most timeLeft => exact ⟨Iff.rfl, rfl, rfl, .inl⟩
  | chore chore => exact ⟨Iff.rfl, rfl, rfl, .inl⟩
  | _ => cases hquiet

theorem coherent_start {w : World α} (h : w.Fresh) : Coherent w.standing := by
  obtain ⟨settings, _, hstanding⟩ := h.standing_eq
  rw [hstanding]
  exact ⟨⟨nofun, nofun⟩, nofun, nofun, nofun, nofun, nofun⟩

namespace Coherent

variable {s s' : Standing α} {c : Call α}

omit [Scalar α] in
theorem outsideFull (h : Coherent s) (hstage : s.stage ≠ .full) :
    s.control.phases.full = false := by
  cases hfull : s.control.phases.full with
  | false => rfl
  | true => exact absurd (h.full.mpr hfull) hstage

omit [Scalar α] in
theorem notScheduled (h : Coherent s) (hdecided : s.stage.isDecided = false)
    (hstage : s.stage ≠ .full) : s.control.scheduled = false := by
  cases hscheduled : s.control.scheduled with
  | false => rfl
  | true =>
    rcases h.scheduled hscheduled with hs | hs
    · rw [hs] at hdecided
      cases hdecided
    · exact absurd hs hstage

omit [Scalar α] in
/-- Where cleanup finds the phases. -/
theorem atCleanup (h : Coherent s) (hstage : s.stage = .cleanup) :
    s.control.phases.full = false ∧ s.control.scheduled = false ∧
      s.control.phases.youngOnly = true := by
  have hfull : s.control.phases.full = false := h.outsideFull (by rw [hstage]; nofun)
  have hmarking : s.control.phases.marking = true := h.interrupts (by rw [hstage]; rfl)
  exact ⟨hfull, h.notScheduled (by rw [hstage]; rfl) (by rw [hstage]; nofun),
    (h.marking hfull hmarking).1⟩

theorem endPause (h : Coherent s) {heap heap' : Heap α} {d : Control α}
    (hend : PauseEnd s.control (s.view heap) d heap') (candidates : Option OldRegions.Candidates)
    (owed : Option Nat) (history : List Mark) :
    Coherent ⟨d, candidates, .mutators, owed, history⟩ := by
  have hnone : d.scheduled = true → False := fun hs => hend.flag (Control.scheduled_iff.mp hs)
  refine ⟨⟨nofun, fun hfull => ?_⟩, fun hs => (hnone hs).elim, nofun, fun _ hs => (hnone hs).elim,
    fun _ hbefore => ?_, fun _ hmarking => ?_⟩
  · exact absurd (hend.full.symm.trans hfull) nofun
  · exact absurd (hend.beforeMixed.symm.trans hbefore) nofun
  · -- marking runs through young pauses, and it begins at one
    have hyoung : s.control.phases.youngOnly = true ∧ s.control.phases.beforeMixed = false := by
      rcases Bool.or_eq_true_iff.mp (hend.marking.symm.trans hmarking) with hm | hs
      · exact h.marking hend.outsideFull hm
      · exact h.initialMark hend.outsideFull hs
    refine ⟨?_, hend.beforeMixed⟩
    rw [hend.youngOnly, hyoung.1, hyoung.2]
    rfl

theorem decide (h : Coherent s) (hstage : s.stage = .begun) {heap heap' : Heap α} {b : Bool}
    {d : Control α} (hdecision : Decision s.control heap b d heap')
    (candidates : Option OldRegions.Candidates) (owed : Option Nat) (history : List Mark) :
    Coherent ⟨d, candidates, .decided, owed, history⟩ := by
  have hfull : s.control.phases.full = false := h.outsideFull (by rw [hstage]; nofun)
  have hnone : s.control.scheduled = false :=
    h.notScheduled (by rw [hstage]; rfl) (by rw [hstage]; nofun)
  have hstill {d : Control α} (hd : d.phases.full = s.control.phases.full) :
      Stage.decided = .full ↔ d.phases.full = true :=
    ⟨nofun, fun hf => absurd (hfull.symm.trans (hd.symm.trans hf)) nofun⟩
  cases hdecision with
  | waits hwaits hlater =>
    have hscheduled := Control.scheduled_of_later hlater
    refine ⟨hstill rfl, fun _ => .inl rfl, nofun, fun _ hs => ?_, h.lastYoung, h.marking⟩
    exact absurd (hnone.symm.trans (hscheduled.symm.trans hs)) nofun
  | starts hpending hfree hflag =>
    -- the request is taken up in the young-only phase, before no mixed one
    obtain ⟨hnear, hyoung⟩ := Bool.and_eq_true_iff.mp hfree
    obtain ⟨_, hbefore⟩ := Bool.or_eq_false_iff.mp (Bool.not_eq_true' _ ▸ hnear)
    exact ⟨hstill rfl, fun _ => .inl rfl, nofun, fun _ _ => ⟨hyoung, hbefore⟩, h.lastYoung,
      h.marking⟩
  | overrides hpending hbusy hasks hflag =>
    exact ⟨hstill rfl, fun _ => .inl rfl, nofun, fun _ _ => ⟨rfl, rfl⟩, nofun,
      fun _ _ => ⟨rfl, rfl⟩⟩

theorem endCleanup (h : Coherent s) (hstage : s.stage = .cleanup) {heap heap' : Heap α}
    {d : Control α} (hend : CleanupEnd s.control heap d heap')
    (candidates : Option OldRegions.Candidates) (owed : Option Nat) (history : List Mark) :
    Coherent ⟨d, candidates, .mutators, owed, history⟩ := by
  obtain ⟨hfull, hnone, hyoung⟩ := h.atCleanup hstage
  have hyoung' : d.phases.youngOnly = true := by
    rw [hend.phases]
    exact hyoung
  have hscheduled : d.scheduled = false := by
    rw [Control.scheduled, hend.request]
    exact hnone
  refine ⟨⟨fun hf => ?_, fun hf => ?_⟩, fun hs => ?_, fun hi => ?_, fun _ hs => ?_,
    fun _ _ => hyoung', fun _ hm => ?_⟩
  · cases hf
  · have hf' : s.control.phases.full = true := by rwa [hend.phases] at hf
    exact absurd (hfull.symm.trans hf') Bool.false_ne_true
  · exact absurd (hscheduled.symm.trans hs) Bool.false_ne_true
  · cases hi
  · exact absurd (hscheduled.symm.trans hs) Bool.false_ne_true
  · rw [hend.phases] at hm
    cases hm

theorem step (h : Coherent s) (horder : inOrder s c = true) (hstep : Step s c s') :
    Coherent s' := by
  cases hstep with
  | quiet hquiet hwaited =>
    obtain ⟨r, hlater, rfl⟩ := hwaited
    obtain ⟨hfull, hdecided, _, hinterrupts⟩ := stageAfter_of_quiet hquiet horder
    have hscheduled := Control.scheduled_of_later hlater
    refine ⟨hfull.trans h.full, fun hs => ?_, fun hi => ?_, fun hf hs => ?_, h.lastYoung, h.marking⟩
    · rcases h.scheduled (hscheduled ▸ hs) with hs | hs
      · exact .inl (hdecided.trans hs)
      · exact .inr (hfull.mpr hs)
    · rcases hinterrupts hi with hi | hi
      · exact h.interrupts hi
      · exact hi
    · exact h.initialMark hf (hscheduled ▸ hs)
  | beginPause =>
    have hstage : s.stage = .mutators := eq_of_beq horder
    have hfull := h.outsideFull (by rw [hstage]; nofun)
    have hnone := h.notScheduled (by rw [hstage]; rfl) (by rw [hstage]; nofun)
    refine ⟨⟨nofun, fun hf => ?_⟩, fun hs => ?_, nofun, h.initialMark, h.lastYoung, h.marking⟩
    · exact absurd (hfull.symm.trans hf) nofun
    · exact absurd (hnone.symm.trans hs) nofun
  | decide hdecision => exact h.decide (eq_of_beq horder) hdecision _ _ _
  | endPause hend => exact h.endPause hend _ _ _
  | startFull =>
    exact ⟨⟨fun _ => rfl, fun _ => rfl⟩, fun _ => .inr rfl, nofun, nofun, nofun, nofun⟩
  | endFull hend =>
    have hphases := hend.phases
    have hnone {P : Prop} (hs : Control.scheduled _ = true) : P :=
      (hend.flag (Control.scheduled_iff.mp hs)).elim
    refine ⟨⟨nofun, fun hf => ?_⟩, hnone, nofun, fun _ => hnone, fun _ hbefore => ?_,
      fun _ hmarking => ?_⟩
    · rw [hphases] at hf
      cases hf
    · rw [hphases] at hbefore
      cases hbefore
    · rw [hphases] at hmarking
      cases hmarking
  | endRemark hforgot =>
    have hstage : s.stage = .remark := eq_of_beq horder
    have hfull := h.outsideFull (by rw [hstage]; nofun)
    have hnone := h.notScheduled (by rw [hstage]; rfl) (by rw [hstage]; nofun)
    obtain ⟨l, _, rfl⟩ := hforgot
    refine ⟨⟨nofun, fun hf => ?_⟩, fun hs => ?_, nofun, h.initialMark, h.lastYoung, h.marking⟩
    · exact absurd (hfull.symm.trans hf) nofun
    · exact absurd (hnone.symm.trans hs) nofun
  | endCleanup hend => exact h.endCleanup (eq_of_beq horder) hend _ _ _
  | finishInitialMark hsettled =>
    obtain ⟨r, hflag, rfl⟩ := hsettled
    have hnone {P : Prop} (hs : Control.scheduled { s.control with request := r } = true) : P :=
      (hflag (Control.scheduled_iff.mp hs)).elim
    exact ⟨h.full, hnone, h.interrupts, fun _ => hnone, h.lastYoung, h.marking⟩
  | setCandidates =>
    exact ⟨h.full, h.scheduled, h.interrupts, h.initialMark, h.lastYoung, h.marking⟩
  | takeNone hnone => exact h
  | take hsome hregions hsize =>
    exact ⟨h.full, h.scheduled, h.interrupts, h.initialMark, h.lastYoung, h.marking⟩
  | chooseOld hsome hinitial =>
    exact ⟨h.full, h.scheduled, h.interrupts, h.initialMark, h.lastYoung, h.marking⟩

end Coherent

/-- Runs in order stay coherent, and what survives every step from coherent phases survives every
run. -/
theorem Reaches.coherent {allowed : Standing α → Call α → Bool} {w₀ w : World α}
    {I : Standing α → Prop} (hfresh : w₀.Fresh) (hrun : Reaches allowed w₀ w)
    (horder : ∀ s c, allowed s c = true → inOrder s c = true) (hstart : I w₀.standing)
    (hstep : ∀ s c s', I s → Coherent s → allowed s c = true → Step s c s' → I s') :
    Coherent w.standing ∧ I w.standing :=
  hrun.invariant (I := fun s => Coherent s ∧ I s) ⟨coherent_start hfresh, hstart⟩
    fun s c s' h hallowed hnext =>
      ⟨h.1.step (horder s c hallowed) hnext, hstep s c s' h.2 h.1 hallowed hnext⟩

/-! ## The order of the history -/

/-- The kind of the last pause. -/
def lastPause (marks : List Mark) : Option Kind := (pausesIn marks).getLast?

/-- Whether a cleanup found enough to collect since the last pause. -/
def foundSincePause (marks : List Mark) : Prop :=
  ∃ earlier later, marks = earlier ++ .cleanup true :: later ∧ pausesIn later = []

/-- Every cycle that a pause started has come to a cleanup. -/
def Concluded (marks : List Mark) : Prop :=
  ∀ earlier later, marks = earlier ++ .pause .initialMark :: later →
    ∃ found, .cleanup found ∈ later

/-- A pause of the given kind may follow the given history. -/
structure MayFollow (marks : List Mark) (kind : Kind) : Prop where
  mixed : kind = .mixed → lastPause marks = some .lastYoung ∨ lastPause marks = some .mixed
  lastYoung : kind = .lastYoung → foundSincePause marks
  afterLastYoung : lastPause marks = some .lastYoung →
    kind = .mixed ∨ kind = .initialMark ∨ kind = .full
  afterInitialMark : kind = .lastYoung ∨ kind = .mixed → Concluded marks

/-- Every pause follows the history before it. -/
def Orderly (marks : List Mark) : Prop :=
  ∀ earlier kind later, marks = earlier ++ .pause kind :: later → MayFollow earlier kind

theorem lastPause_pause (marks : List Mark) (kind : Kind) :
    lastPause (marks ++ [.pause kind]) = some kind := by
  simp [lastPause, pausesIn, Mark.kind?]

theorem lastPause_cleanup (marks : List Mark) (found : Bool) :
    lastPause (marks ++ [.cleanup found]) = lastPause marks := by
  simp [lastPause, pausesIn, Mark.kind?]

/-- A split of a longer history is at its last mark or a split of the history before. -/
theorem append_mark_eq {marks earlier later : List Mark} {m m' : Mark}
    (h : marks ++ [m] = earlier ++ m' :: later) :
    (marks = earlier ∧ m = m') ∨
      ∃ rest, later = rest ++ [m] ∧ marks = earlier ++ m' :: rest := by
  rcases List.append_eq_append_iff.mp h with ⟨middle, hearlier, hlast⟩ | ⟨middle, hmarks, hlater⟩
  · cases middle with
    | nil =>
      rw [List.append_nil] at hearlier
      exact .inl ⟨hearlier.symm, (List.cons.inj hlast).1⟩
    | cons m'' rest => simp at hlast
  · cases middle with
    | nil =>
      rw [List.append_nil] at hmarks
      exact .inl ⟨hmarks, (List.cons.inj hlater).1.symm⟩
    | cons m'' rest =>
      obtain ⟨rfl, hrest⟩ := List.cons.inj hlater
      exact .inr ⟨rest, hrest, hmarks⟩

theorem Orderly.pause {marks : List Mark} {kind : Kind} (h : Orderly marks)
    (hkind : MayFollow marks kind) : Orderly (marks ++ [.pause kind]) := by
  intro earlier kind' later heq
  rcases append_mark_eq heq with ⟨rfl, hm⟩ | ⟨rest, _, hmarks⟩
  · cases hm
    exact hkind
  · exact h earlier kind' rest hmarks

theorem Orderly.cleanup {marks : List Mark} (h : Orderly marks) (found : Bool) :
    Orderly (marks ++ [.cleanup found]) := by
  intro earlier kind' later heq
  rcases append_mark_eq heq with ⟨_, hm⟩ | ⟨rest, _, hmarks⟩
  · cases hm
  · exact h earlier kind' rest hmarks

theorem concluded_cleanup (marks : List Mark) (found : Bool) :
    Concluded (marks ++ [.cleanup found]) := by
  intro earlier later heq
  rcases append_mark_eq heq with ⟨_, hm⟩ | ⟨rest, rfl, _⟩
  · cases hm
  · exact ⟨found, List.mem_append_right _ (List.mem_singleton_self _)⟩

theorem Concluded.pause {marks : List Mark} {kind : Kind} (h : Concluded marks)
    (hkind : kind ≠ .initialMark) : Concluded (marks ++ [.pause kind]) := by
  intro earlier later heq
  rcases append_mark_eq heq with ⟨_, hm⟩ | ⟨rest, rfl, hmarks⟩
  · cases hm
    exact absurd rfl hkind
  · obtain ⟨found, hfound⟩ := h earlier rest hmarks
    exact ⟨found, List.mem_append_left _ hfound⟩

/-- How the history goes together with the phases, outside full collections. -/
structure Recounted (s : Standing α) : Prop where
  orderly : Orderly s.history
  lastYoung : s.control.phases.full = false → s.control.phases.beforeMixed = true →
    foundSincePause s.history ∧ Concluded s.history
  mixed : s.control.phases.full = false → s.control.phases.youngOnly = false →
    (lastPause s.history = some .lastYoung ∨ lastPause s.history = some .mixed) ∧
      Concluded s.history
  afterLastYoung : s.control.phases.full = false → lastPause s.history = some .lastYoung →
    s.control.phases.youngOnly = false ∨ s.control.scheduled = true

theorem recounted_start {w : World α} (h : w.Fresh) : Recounted w.standing := by
  obtain ⟨settings, _, hstanding⟩ := h.standing_eq
  rw [hstanding]
  refine ⟨fun earlier kind later heq => ?_, nofun, nofun, nofun⟩
  simp at heq

namespace Recounted

variable {s s' : Standing α} {c : Call α}

omit [Scalar α] in
theorem mayFollow_pauseKind (h : Recounted s) (hcoherent : Coherent s)
    (hfull : s.control.phases.full = false) : MayFollow s.history s.control.pauseKind := by
  have hafter := h.afterLastYoung hfull
  -- the kind looks at the flag first and at the phases after that
  cases hscheduled : s.control.scheduled with
  | true =>
    have hkind : s.control.pauseKind = .initialMark :=
      Phases.pauseKind_eq_initialMark.mpr hscheduled
    rw [hkind]
    exact ⟨nofun, nofun, fun _ => .inr (.inl rfl), by simp⟩
  | false =>
    rw [hscheduled] at hafter
    cases hbefore : s.control.phases.beforeMixed with
    | true =>
      have hyoung := hcoherent.lastYoung hfull hbefore
      have hkind : s.control.pauseKind = .lastYoung :=
        Phases.pauseKind_eq_lastYoung.mpr ⟨hscheduled, hbefore⟩
      obtain ⟨hfound, hconcluded⟩ := h.lastYoung hfull hbefore
      rw [hkind]
      refine ⟨nofun, fun _ => hfound, fun hlast => ?_, fun _ => hconcluded⟩
      simp [hyoung] at hafter
      exact absurd hlast hafter
    | false =>
      cases hyoung : s.control.phases.youngOnly with
      | true =>
        have hkind : s.control.pauseKind = .young := by
          simp [Control.pauseKind, Phases.pauseKind, Phases.mixed, hscheduled, hbefore, hyoung]
        rw [hkind]
        refine ⟨by simp, by simp, fun hlast => ?_, by simp⟩
        simp [hyoung] at hafter
        exact absurd hlast hafter
      | false =>
        have hkind : s.control.pauseKind = .mixed :=
          Phases.pauseKind_eq_mixed.mpr ⟨hscheduled, hbefore, hyoung⟩
        obtain ⟨hlast, hconcluded⟩ := h.mixed hfull hyoung
        rw [hkind]
        exact ⟨fun _ => hlast, by simp, fun _ => .inl rfl, fun _ => hconcluded⟩

omit [Scalar α] in
/-- Nothing changes while phases and history stay and no initial mark gets lost. -/
theorem of_phases (h : Recounted s) (hphases : s'.control.phases = s.control.phases)
    (hhistory : s'.history = s.history)
    (hscheduled : s.control.scheduled = true → s'.control.scheduled = true) : Recounted s' := by
  refine ⟨?_, ?_, ?_, ?_⟩
  · rw [hhistory]
    exact h.orderly
  · rw [hphases, hhistory]
    exact h.lastYoung
  · rw [hphases, hhistory]
    exact h.mixed
  · rw [hphases, hhistory]
    intro hfull hlast
    exact (h.afterLastYoung hfull hlast).imp id hscheduled

theorem endPause (h : Recounted s) (hcoherent : Coherent s) {heap heap' : Heap α} {d : Control α}
    (hend : PauseEnd s.control heap d heap') (candidates : Option OldRegions.Candidates)
    (stage : Stage) (owed : Option Nat) :
    Recounted ⟨d, candidates, stage, owed, s.history ++ [.pause s.control.pauseKind]⟩ := by
  have hfull := hend.outsideFull
  refine ⟨h.orderly.pause (h.mayFollow_pauseKind hcoherent hfull), fun _ hbefore => ?_,
    fun _ hmixed => ?_, fun _ hlast => .inl ?_⟩
  · exact absurd (hend.beforeMixed.symm.trans hbefore) nofun
  · rw [lastPause_pause]
    -- the mixed phase begins at the last young pause and goes on at mixed ones
    cases hscheduled : s.control.scheduled with
    | true =>
      -- initial-mark work is done in the young-only phase, which goes on
      obtain ⟨hyoung, hbefore⟩ := hcoherent.initialMark hfull hscheduled
      simp [hend.youngOnly, hyoung, hbefore] at hmixed
    | false =>
      cases hbefore : s.control.phases.beforeMixed with
      | true =>
        have hkind : s.control.pauseKind = .lastYoung :=
          Phases.pauseKind_eq_lastYoung.mpr ⟨hscheduled, hbefore⟩
        rw [hkind]
        exact ⟨.inl rfl, (h.lastYoung hfull hbefore).2.pause nofun⟩
      | false =>
        have hyoung : s.control.phases.youngOnly = false := by
          simp [hend.youngOnly, hbefore] at hmixed
          exact hmixed.1
        have hkind : s.control.pauseKind = .mixed :=
          Phases.pauseKind_eq_mixed.mpr ⟨hscheduled, hbefore, hyoung⟩
        rw [hkind]
        exact ⟨.inr rfl, (h.mixed hfull hyoung).2.pause nofun⟩
  · rw [lastPause_pause] at hlast
    obtain ⟨_, hbefore⟩ := Phases.pauseKind_eq_lastYoung.mp (Option.some.inj hlast)
    simp [hend.youngOnly, hbefore]

theorem step (h : Recounted s) (hcoherent : Coherent s) (horder : inOrder s c = true)
    (hstep : Step s c s') : Recounted s' := by
  cases hstep with
  | quiet hquiet hwaited =>
    obtain ⟨r, hlater, rfl⟩ := hwaited
    exact h.of_phases rfl rfl (Control.scheduled_of_later hlater).trans
  | beginPause => exact h.of_phases rfl rfl id
  | decide hdecision =>
    cases hdecision with
    | waits hwaits hlater => exact h.of_phases rfl rfl (Control.scheduled_of_later hlater).trans
    | starts hpending hfree hflag =>
      exact h.of_phases rfl rfl fun _ => Control.scheduled_iff.mpr hflag
    | overrides hpending hbusy hasks hflag =>
      exact ⟨h.orderly, nofun, nofun, fun _ _ => .inr (Control.scheduled_iff.mpr hflag)⟩
  | endPause hend => exact h.endPause hcoherent hend _ _ _
  | startFull => exact ⟨h.orderly, nofun, nofun, nofun⟩
  | endFull hend =>
    have hphases := hend.phases
    have hfollow : MayFollow s.history .full :=
      ⟨nofun, nofun, fun _ => .inr (.inr rfl), by simp⟩
    refine ⟨h.orderly.pause hfollow, fun _ hbefore => ?_, fun _ hmixed => ?_, fun _ hlast => ?_⟩
    · rw [hphases] at hbefore
      cases hbefore
    · rw [hphases] at hmixed
      cases hmixed
    · rw [lastPause_pause] at hlast
      cases hlast
  | endRemark hforgot =>
    obtain ⟨l, _, rfl⟩ := hforgot
    exact h.of_phases rfl rfl id
  | @endCleanup heap now d heap' hend =>
    obtain ⟨hfull, _, hyoung⟩ := hcoherent.atCleanup (eq_of_beq horder)
    have hphases := hend.phases
    refine ⟨h.orderly.cleanup _, fun _ hbefore => ?_, fun _ hmixed => ?_, fun _ hlast => ?_⟩
    · have hfound : s.control.worthwhile (s.view heap) = true := by rwa [hphases] at hbefore
      rw [hfound]
      exact ⟨⟨s.history, [], rfl, rfl⟩, concluded_cleanup _ _⟩
    · rw [hphases] at hmixed
      exact absurd (hyoung.symm.trans hmixed) nofun
    · rw [lastPause_cleanup] at hlast
      rcases h.afterLastYoung hfull hlast with hmixed | hscheduled
      · exact absurd (hyoung.symm.trans hmixed) nofun
      · rw [Control.scheduled, hend.request]
        exact .inr hscheduled
  | finishInitialMark hsettled =>
    have hstage : s.stage = .mutators := eq_of_beq horder
    have hnone := hcoherent.notScheduled (by rw [hstage]; rfl) (by rw [hstage]; decide)
    obtain ⟨r, _, rfl⟩ := hsettled
    refine h.of_phases rfl rfl fun hscheduled => ?_
    exact absurd (hnone.symm.trans hscheduled) Bool.false_ne_true
  | setCandidates => exact h.of_phases rfl rfl id
  | takeNone hnone => exact h
  | take hsome hregions hsize => exact h.of_phases rfl rfl id
  | chooseOld hsome hinitial => exact h.of_phases rfl rfl id

end Recounted

/-- Over every run the pauses that the journal reports come in order, and outside full collections
the phases exclude one another: before the last young pause the young-only phase goes on, and while
marking runs it does so too and no last young pause is due. -/
theorem pauses_in_order {w₀ w : World α} (hfresh : w₀.Fresh) (hrun : Reaches inOrder w₀ w) :
    (∃ kinds, w.journal.pauses = w₀.journal.pauses ++ kinds ∧
      pausesIn w.history = kinds.filter Kind.collects) ∧
      Orderly w.history ∧
      (w.stage ≠ .full →
        (w.policy.phases.beforeMixed = true → w.policy.phases.youngOnly = true) ∧
        (w.policy.phases.marking = true →
          w.policy.phases.youngOnly = true ∧ w.policy.phases.beforeMixed = false)) := by
  obtain ⟨hcoherent, hrecounted⟩ : Coherent w.standing ∧ Recounted w.standing :=
    hrun.coherent hfresh (fun _ _ h => h) (recounted_start hfresh) fun _ _ _ h => h.step
  refine ⟨hrun.recorded hfresh, hrecounted.orderly, fun hstage => ?_⟩
  have hfull := hcoherent.outsideFull hstage
  exact ⟨hcoherent.lastYoung hfull, hcoherent.marking hfull⟩

/-- A cycle into the mixed phase, which a request of the user cuts short. -/
theorem pauses_in_order_of_interrupted_phase :
    ∃ w₀ w : World Rat, w₀.Fresh ∧ Reaches inOrder w₀ w ∧
      w.history = [.pause .initialMark, .cleanup true, .pause .lastYoung, .pause .mixed,
        .pause .initialMark] ∧
      Orderly w.history := by
  obtain ⟨w₀, w, hfresh, hrun, hhistory⟩ :=
    exists_run inOrder plainSettings plainHeap 1
      (plainCycle 10 20 ++ plainPause plainHeap 20 [] ++ plainPause plainHeap 30 [] ++
        [.request] ++ plainPause { plainHeap with cause := .userConcurrent } 40 [])
      (P := fun _ w => w.history = [.pause .initialMark, .cleanup true, .pause .lastYoung,
        .pause .mixed, .pause .initialMark])
      (by decide +kernel)
  exact ⟨w₀, w, hfresh, hrun, of_decide_eq_true hhistory, (pauses_in_order hfresh hrun).2.1⟩

end PauseGoal.Collector
