import PauseGoal.Proofs.Cycle

/-!
# How pauses end

The end of an evacuation pause settles the marking flag, reports the pause and moves the phases on,
all from the phases and the flag that it found. The same is said of the pauses that do not evacuate:
full collections, remark and cleanup.
-/

namespace PauseGoal

open Marking (Phases Request)
open Marking.Request (Later)
open Pause (Kind)

variable {α : Type}

/-! ## Evacuation pauses -/

/-- The kind of the evacuation pause that ends now. -/
def Control.pauseKind (c : Control α) : Kind := c.phases.pauseKind c.scheduled

variable [Scalar α]

/-- What a pause that ended did to the control and to the candidates. -/
structure PauseEnd (c : Control α) (heap : Heap α) (d : Control α) (heap' : Heap α) : Prop where
  outsideFull : c.phases.full = false
  settings : d.settings = c.settings
  phases : d.phases = c.phases.afterPause c.scheduled (c.worthwhile heap)
  /-- The initial-mark work is done. -/
  flag : d.request.flag ≠ .scheduled
  /-- A measurement runs only if it ran before or the pause did initial-mark work. -/
  measures : d.markingLength.active = true →
    c.scheduled = true ∨
      (c.markingLength.active = true ∧ c.pauseKind ≠ .mixed)
  /-- The last young collection before mixed ones does no initial-mark work. -/
  notBeforeMixed : c.scheduled = true → c.phases.beforeMixed = false
  /-- A pause while marking runs does no initial-mark work. -/
  notMarking : c.scheduled = true → c.phases.marking = false
  /-- The candidates are dropped when the mixed phase ends. -/
  heap : heap' =
    if c.phases.mixed && !c.worthwhile heap then heap.clearCandidates else heap

namespace PauseEnd

variable {c d : Control α} {heap heap' : Heap α}

theorem full (h : PauseEnd c heap d heap') : d.phases.full = false := by
  rw [h.phases]
  exact h.outsideFull

theorem youngOnly (h : PauseEnd c heap d heap') :
    d.phases.youngOnly =
      (!c.phases.beforeMixed && (c.phases.youngOnly || !c.worthwhile heap)) := by
  rw [h.phases]
  rfl

theorem beforeMixed (h : PauseEnd c heap d heap') : d.phases.beforeMixed = false := by
  rw [h.phases]
  rfl

theorem marking (h : PauseEnd c heap d heap') :
    d.phases.marking = (c.phases.marking || c.scheduled) := by
  rw [h.phases]
  rfl

/-- The candidates stay unless the mixed phase ends. -/
theorem candidates_eq (h : PauseEnd c heap d heap')
    (hstay : c.phases.mixed = false ∨ c.worthwhile heap = true) :
    heap'.candidates = heap.candidates := by
  rw [h.heap, if_neg]
  rcases hstay with hs | hs
  · simp [hs]
  · simp [hs]

theorem candidates_eq_none (h : PauseEnd c heap d heap') (hmixed : c.phases.mixed = true)
    (hworth : c.worthwhile heap = false) : heap'.candidates = none := by
  rw [h.heap, if_pos (by simp [hmixed, hworth])]
  rfl

end PauseEnd

/-- The faults about the cycle that the end of a pause finds, and what it finds them in. -/
inductive PauseFault (c : Control α) : Fault α → Prop
  | full (h : c.phases.full = true) : PauseFault c .fullCollectionAsEvacuation
  | beforeMixed (hscheduled : c.scheduled = true) (h : c.phases.beforeMixed = true) :
      PauseFault c .initialMarkBeforeMixed
  | repeated (hscheduled : c.scheduled = true) (h : c.markingLength.active = true) :
      PauseFault c .initialMarkRepeated
  | marking (hscheduled : c.scheduled = true) (h : c.phases.marking = true) :
      PauseFault c .initialMarkWhileMarking

namespace Policy

omit [Scalar α] in
/-- The kind of a pause is found unless a full collection runs or the phases rule out the
initial-mark work. -/
theorem ends_evacuationKind (c : Control α) :
    (Act.ofChecked (c.phases.evacuationKind c.scheduled)).Ends
      (fun kind kinds => kinds = [] ∧ kind = c.pauseKind ∧
        c.phases.full = false ∧ (c.scheduled = true → c.phases.beforeMixed = false))
      (PauseFault c) := by
  unfold Phases.evacuationKind Control.pauseKind Phases.pauseKind demand
  cases hfull : c.phases.full with
  | true => exact Act.ends_ofChecked nofun fun _ h _ => by cases h; exact .full hfull
  | false =>
    cases hscheduled : c.scheduled with
    | true =>
      cases hbefore : c.phases.beforeMixed with
      | true =>
        refine Act.ends_ofChecked nofun fun _ h _ => ?_
        cases h
        exact .beforeMixed hscheduled hbefore
      | false => exact Act.ends_pure ⟨rfl, rfl, rfl, fun _ => rfl⟩
    | false =>
      cases hbefore : c.phases.beforeMixed with
      | true => exact Act.ends_pure ⟨rfl, rfl, rfl, nofun⟩
      | false =>
        cases hmixed : c.phases.mixed with
        | true => exact Act.ends_pure ⟨rfl, rfl, rfl, nofun⟩
        | false => exact Act.ends_pure ⟨rfl, rfl, rfl, nofun⟩

/-- The phases moved on, and candidates that are no longer worth collecting were dropped. -/
structure Advanced (c : Control α) (heap : Heap α) (d : Control α) (heap' : Heap α) : Prop where
  control : c.Waited { d with phases := c.phases }
  phases : d.phases = c.phases.advance (c.worthwhile heap)
  heap : heap' = if c.phases.mixed && !c.worthwhile heap then heap.clearCandidates else heap

theorem gives_advancePhases {p : Policy α} {c : Control α} (hp : p.control = c) (heap : Heap α)
    {initialMark : Bool} (h : initialMark = true → c.phases.beforeMixed = false) :
    (p.advancePhases heap c.phases.youngOnly initialMark).Gives fun r =>
      Advanced c heap r.1.control r.2 := by
  subst hp
  simp only [control_phases] at h ⊢
  unfold advancePhases
  cases hbefore : p.phases.beforeMixed with
  | true =>
    have hplain : initialMark = false := by
      cases initialMark with
      | false => rfl
      | true => rw [h rfl] at hbefore; cases hbefore
    refine (Act.gives_ofChecked (Checked.calm_demand hplain)).bind fun _ _ => Act.gives_pure ?_
    exact ⟨⟨_, .refl _, rfl⟩, (Phases.advance_of_beforeMixed hbefore).symm,
      by simp [Phases.mixed, hbefore]⟩
  | false =>
    cases hyoung : p.phases.youngOnly with
    | true =>
      exact Act.gives_pure ⟨⟨_, .refl _, rfl⟩, (Phases.advance_of_youngOnly hbefore hyoung).symm,
        by simp [Phases.mixed, hyoung]⟩
    | false =>
      have hmixed : p.phases.mixed = true := by simp [Phases.mixed, hbefore, hyoung]
      refine (p.gives_mixedIsWorthwhile heap _ _).bind fun worthwhile hworth => ?_
      cases worthwhile with
      | true =>
        refine Act.gives_pure ⟨⟨_, .refl _, rfl⟩, ?_, by simp [← hworth]⟩
        rw [← hworth]
        exact (Phases.advance_of_worthwhile hbefore hyoung).symm
      | false =>
        refine (gives_askForMarkingIfNeeded _ _).bind ?_
        rintro q ⟨r, hlater, hq⟩
        refine Act.gives_pure ⟨⟨r, hlater, ?_⟩, ?_, by simp [hmixed, ← hworth]⟩
        · rw [hq]
          rfl
        · rw [← hworth, show q.control.phases = _ from congrArg Control.phases hq]
          exact (Phases.advance_of_not_worthwhile hbefore).symm

theorem gives_learnThreshold (p : Policy α) (heap : Heap α) (mutatorTime : α) (youngSize : Nat)
    (youngOnly initialMark : Bool) :
    (p.learnThreshold heap mutatorTime youngSize youngOnly initialMark).Gives fun q =>
      p.control.Forgot q.control := by
  unfold learnThreshold
  extract_lets marking markingLength allocation report learn
  have hlength : markingLength.active = true → p.markingLength.active = true := by
    unfold markingLength
    split
    · exact nofun
    · exact id
  have reported (threshold : Marking.Threshold α) :
      (report threshold).Gives fun q => p.control.Forgot q.control := by
    unfold report
    split
    · refine (Act.gives_ofChecked (threshold.calm_report _)).bind fun r _ => ?_
      refine (Act.gives_ofLogged r.calm_log).bind fun _ _ => ?_
      exact (Act.gives_report rfl).bind fun _ _ => Act.gives_pure ⟨_, hlength, rfl⟩
    · exact Act.gives_pure ⟨_, hlength, rfl⟩
  have learned (threshold : Marking.Threshold α) :
      (learn threshold).Gives fun q => p.control.Forgot q.control := by
    unfold learn
    split
    · exact (Act.gives_ofChecked (threshold.calm_addAllocation _ _ _)).bind fun _ _ => reported _
    · exact reported threshold
  cases marking with
  | some length =>
    exact (Act.gives_ofChecked (p.threshold.calm_addMarking _)).bind fun _ _ => learned _
  | none => exact learned p.threshold

theorem gives_learnThresholdUnlessPeriodic (p : Policy α) (heap : Heap α) (mutatorTime : α)
    (unbounded : Nat) (youngOnly initialMark : Bool) :
    (p.learnThresholdUnlessPeriodic heap mutatorTime unbounded youngOnly initialMark).Gives
      fun q => p.control.Forgot q.control := by
  unfold learnThresholdUnlessPeriodic
  split
  · exact Act.gives_pure ⟨.unknown, nofun, rfl⟩
  · refine (Act.gives_ofChecked (Word.calm_mul _ _)).bind fun youngSize _ => ?_
    exact (p.gives_learnThreshold _ _ _ _ _).bind fun q hq => Act.gives_pure hq

theorem gives_prepareNext (p : Policy α) (heap : Heap α) (now mutatorTime hotCards : α)
    (youngOnly initialMark : Bool) :
    (p.prepareNext heap now mutatorTime hotCards youngOnly initialMark).Gives fun q =>
      p.control.Forgot q.control := by
  refine (p.keeps_chooseYoungLength heap now).bind fun r hr => ?_
  refine (Act.gives_ofChecked r.2.keeps_expectPredictedEntries).bind fun q hq => ?_
  refine (q.gives_learnThresholdUnlessPeriodic _ _ _ _ _).bind fun t ht => ?_
  refine (t.keeps_grantRefinementTime heap hotCards).mono fun u hu => ?_
  rwa [hu, ← hr, ← hq]

theorem ends_endPause (p : Policy α) (heap : Heap α) (now pause : α) :
    (p.endPause heap now pause).Ends
      (fun r kinds => kinds = [p.control.pauseKind] ∧ PauseEnd p.control heap r.1.control r.2)
      (PauseFault p.control) := by
  unfold endPause
  simp only
  -- the flag is loaded twice; requests that arrive before do not hide or fake an initial mark
  rw [seesInitialMark_fst]
  refine (ends_evacuationKind p.control).bind ?_
  rintro _ _ ⟨rfl, rfl, hfull, hbefore⟩
  refine ((ends_recordPause _ _ _ _).mono (fun _ _ h => h) ?_).bind ?_
  · rintro _ ⟨rfl, hkind, hactive⟩
    exact .repeated (Phases.pauseKind_eq_initialMark.mp hkind) hactive
  rintro q _ ⟨rfl, l, hl, hq⟩
  have hflag : q.seesInitialMark.1 = p.control.scheduled := by
    rw [seesInitialMark_fst, Control.scheduled, hq]
    exact p.seesInitialMark_fst
  rw [hflag]
  have hscheduled : q.seesInitialMark.2.control.scheduled = p.control.scheduled := hflag
  rw [← hscheduled]
  refine (gives_settleMarking _ _).bind_ends ?_
  rintro r ⟨request, hrequest, hr⟩
  rw [hscheduled]
  have hr' : r.control = { p.control with request := request, markingLength := l } := by
    rw [hr, show q.seesInitialMark.2.control = { q.control with request := q.request.load.2 } from
      rfl, hq]
    rfl
  refine (gives_advancePhases (c := { p.control with request := request, markingLength := l })
    ?_ heap hbefore).bind_ends ?_
  · exact hr'
  rintro ⟨s, heap'⟩ ⟨⟨request', hlater, hs⟩, hphases, hheap⟩
  refine (Act.gives_ofChecked (calm_costsAfter _ _ _ _)).bind_ends fun costs _ => ?_
  have hmarking : s.phases.marking = p.phases.marking := by
    rw [show s.phases = _ from hphases]
    rfl
  refine (Act.ends_demand fun h => ?_).bind ?_
  · obtain ⟨hscheduled, h⟩ := Decidable.of_not_not h
    exact .marking hscheduled (hmarking ▸ h)
  rintro _ _ ⟨rfl, hdemand⟩
  refine (gives_prepareNext _ _ _ _ _ _ _).bind_ends ?_
  rintro t ⟨l', hl', ht⟩
  refine (calm_logPauseEnd _ _ _ _).bind_ends fun _ _ => Act.ends_pure ⟨rfl, ?_⟩
  simp only
  rw [ht]
  have hsettings : s.settings = p.settings := congrArg Control.settings hs
  have hrequest' : s.request = request' := congrArg Control.request hs
  have hlength : s.markingLength = l := congrArg Control.markingLength hs
  exact {
    outsideFull := hfull
    settings := hsettings
    phases := by
      show { s.phases with marking := s.phases.marking || p.control.scheduled } = _
      rw [show s.phases = _ from hphases]
      rfl
    flag := by
      show s.request.flag ≠ .scheduled
      rw [hrequest']
      exact mt hlater.scheduled_iff.mp hrequest
    measures := fun h => by
      have hactive : s.markingLength.active = true := hl' h
      rw [hlength] at hactive
      rcases hl hactive with hkind | ⟨hactive, hmixed, _⟩
      · exact .inl (Phases.pauseKind_eq_initialMark.mp hkind)
      · exact .inr ⟨hactive, hmixed⟩
    notBeforeMixed := hbefore
    notMarking := fun h => by
      cases hmark : p.phases.marking with
      | false => exact hmark
      | true => exact absurd ⟨h, hmarking.trans hmark⟩ hdemand
    heap := hheap }

end Policy

/-! ## Full collections, remark and cleanup -/

/-- What a full collection that ended did to the control: young collections start over. -/
structure FullEnd (c d : Control α) : Prop where
  settings : d.settings = c.settings
  phases : d.phases = {}
  flag : d.request.flag ≠ .scheduled
  measures : d.markingLength.active = false

/-- What a cleanup that ended did to the control and to the candidates. -/
structure CleanupEnd (c : Control α) (heap : Heap α) (d : Control α) (heap' : Heap α) : Prop where
  settings : d.settings = c.settings
  phases : d.phases = c.phases.afterCleanup (c.worthwhile heap)
  request : d.request = c.request
  measures : d.markingLength.active = true →
    c.markingLength.active = true ∧ c.worthwhile heap = true
  heap : heap' = if c.worthwhile heap then heap else heap.clearCandidates

namespace Policy

/-- Only an initial mark can be repeated. -/
theorem ends_recordPause_of_ne (p : Policy α) {kind : Kind} (h : kind ≠ .initialMark)
    (start finish : α) :
    (p.recordPause kind start finish).Ends
      (fun q kinds => kinds = [kind] ∧ p.control.Recorded kind q.control) fun _ => False :=
  (p.ends_recordPause kind start finish).mono (fun _ _ hq => hq) fun _ hfault => h hfault.2.1

theorem gives_startFull (p : Policy α) (heap : Heap α) (now : α) :
    (p.startFull heap now).Gives fun r =>
      r.1.control = { p.control with
        phases := { p.phases with youngOnly := false, full := true } } ∧
      r.2 = heap.clearCandidates :=
  (keeps_readRefinement _ _ _).bind fun _ hq => Act.gives_pure ⟨hq, rfl⟩

omit [Scalar α] in
/-- The end of a full collection asks for marking if it is needed and takes requests back if not,
whatever the flag was. -/
theorem settleRequest_flag_eq (p : Policy α) (needed : Bool) :
    (p.settleRequest needed).request.flag = if needed then .requested else .idle := by
  have hcompleted : p.request.complete.2.flag ≠ .scheduled := Request.complete_flag_ne _
  cases needed with
  | true => exact Request.ask_flag hcompleted
  | false => exact Request.withdraw_flag hcompleted

omit [Scalar α] in
/-- After a full collection a request stands or none does; no initial mark is scheduled. -/
theorem settleRequest_flag (p : Policy α) (needed : Bool) :
    (p.settleRequest needed).request.flag ≠ .scheduled := by
  rw [settleRequest_flag_eq]
  cases needed <;> nofun

theorem ends_endFull (p : Policy α) (heap : Heap α) (now : α) :
    (p.endFull heap now).Ends
      (fun q kinds => kinds = [.full] ∧ FullEnd p.control q.control) fun _ => False := by
  unfold endFull
  simp only
  refine (gives_needsMarking _ _ _ _).bind_ends fun needed _ => ?_
  refine (keeps_chooseYoungLength _ _ _).bind_ends fun r hr => ?_
  refine (Act.gives_ofChecked r.2.keeps_expectPredictedEntries).bind_ends fun q hq => ?_
  refine (ends_recordPause_of_ne _ (show Kind.full ≠ .initialMark by decide) _ _).bind ?_
  rintro s _ ⟨rfl, l, hl, hs⟩
  refine (Act.gives_write _ _ _).bind_ends fun _ _ => Act.ends_pure ⟨rfl, ?_⟩
  have hcontrol := hq.trans hr
  have hsettings : q.settings = p.settings := congrArg Control.settings hcontrol
  have hphases : q.phases = {} := congrArg Control.phases hcontrol
  have hflag : q.request.flag ≠ .scheduled := by
    rw [show q.request = _ from congrArg Control.request hcontrol]
    exact settleRequest_flag _ needed
  rw [hs]
  refine ⟨hsettings, hphases, hflag, ?_⟩
  cases hactive : l.active with
  | false => rfl
  | true =>
    rcases hl hactive with hkind | ⟨_, _, hfull⟩
    · cases hkind
    · exact absurd rfl hfull

theorem ends_endRemark (p : Policy α) (now : α) :
    (p.endRemark now).Ends
      (fun q kinds => kinds = [.remark] ∧ p.control.Forgot q.control) fun _ => False := by
  have hkind : Kind.remark ≠ .initialMark := by decide
  refine (ends_recordPause_of_ne _ hkind _ _).mono ?_ fun _ h => h
  rintro q _ ⟨rfl, l, hl, hq⟩
  refine ⟨rfl, l, fun h => ?_, hq⟩
  rcases hl h with hkind | ⟨hactive, _⟩
  · cases hkind
  · exact hactive

theorem ends_endCleanup (p : Policy α) (heap : Heap α) (now : α) :
    (p.endCleanup heap now).Ends
      (fun r kinds => kinds = [.cleanup] ∧ CleanupEnd p.control heap r.1.control r.2)
      fun _ => False := by
  refine (p.gives_mixedIsWorthwhile heap _ _).bind_ends fun worthwhile hworth => ?_
  cases worthwhile with
  | true =>
    refine (ends_recordPause_of_ne _ (show Kind.cleanup ≠ .initialMark by decide) _ _).bind ?_
    rintro q _ ⟨rfl, l, hl, hq⟩
    refine Act.ends_pure ⟨rfl, ?_⟩
    simp only [if_true]
    rw [hq]
    refine ⟨rfl, ?_, rfl, fun h => ?_, by rw [← hworth]; rfl⟩
    · rw [← hworth]
      rfl
    · rcases hl h with hkind | ⟨hactive, _⟩
      · cases hkind
      · exact ⟨hactive, hworth.symm⟩
  | false =>
    refine (ends_recordPause_of_ne _ (show Kind.cleanup ≠ .initialMark by decide) _ _).bind ?_
    rintro q _ ⟨rfl, l, hl, hq⟩
    refine Act.ends_pure ⟨rfl, ?_⟩
    simp only [Bool.false_eq_true, if_false]
    rw [hq]
    refine ⟨rfl, ?_, rfl, fun h => ?_, by rw [← hworth]; rfl⟩
    · rw [← hworth]
      rfl
    · -- the measurement was dropped before the pause was recorded
      rcases hl h with hkind | ⟨hactive, _⟩
      · cases hkind
      · cases hactive

end Policy

end PauseGoal
