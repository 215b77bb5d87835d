import Mathlib.Data.List.Induction
import PauseGoal.Proofs.CandidateLifecycle

/-!
# The end of the mixed phase

Every mixed pause takes at least the initial part that was chosen for it, and that part is never
less than the even share of the whole list, or all that is left. So the list is used up after as
many mixed pauses as the settings say, whatever the costs and the times are; a pause that leaves
nothing worthwhile ends the phase.
-/

namespace PauseGoal.Collector

open OldRegions (Candidates evenShare)
open Marking (Phases)
open Pause (Kind)

variable {α : Type} [Scalar α]

/-! ## Mixed pauses in a row -/

/-- A pause goes on with the row or breaks it; cleanup is no pause. -/
def countMixed (row : Nat) : Mark → Nat
  | .pause kind => if kind = .mixed then row + 1 else 0
  | .cleanup _ => row

/-- How many mixed pauses there were since the last pause of another kind. -/
def mixedInRow (marks : List Mark) : Nat := marks.foldl countMixed 0

theorem mixedInRow_append (marks : List Mark) (m : Mark) :
    mixedInRow (marks ++ [m]) = countMixed (mixedInRow marks) m := by
  rw [mixedInRow, List.foldl_append]
  rfl

/-- Mixed pauses at the end of the history are in the row. -/
theorem length_le_mixedInRow {marks : List Mark} {block : List Kind}
    (hblock : block <:+ pausesIn marks) (hmixed : ∀ kind ∈ block, kind = .mixed) :
    block.length ≤ mixedInRow marks := by
  -- from the end of the history, where the row grows
  induction marks using List.reverseRecOn generalizing block with
  | nil => exact Nat.le_of_eq (congrArg List.length (List.suffix_nil.mp hblock))
  | append_singleton marks m ih =>
    rw [mixedInRow_append]
    cases m with
    | cleanup found =>
      rw [pausesIn_append, show pausesIn [.cleanup found] = [] from rfl, List.append_nil] at hblock
      exact ih hblock hmixed
    | pause kind =>
      rw [pausesIn_append] at hblock
      rcases List.suffix_concat_iff.mp hblock with rfl | ⟨block', rfl, hsuffix⟩
      · exact Nat.zero_le _
      · have hkind : kind = .mixed := hmixed kind (by simp)
        have hle := ih hsuffix fun k hk => hmixed k (List.mem_append_left _ hk)
        rw [List.length_append, countMixed, if_pos hkind]
        exact Nat.succ_le_succ hle

/-- No more than the given number of mixed pauses follow one another. -/
def RowsWithin (most : Nat) (marks : List Mark) : Prop :=
  ∀ block, block <:+: pausesIn marks → (∀ kind ∈ block, kind = .mixed) →
    block.length ≤ most

theorem RowsWithin.pause {most : Nat} {marks : List Mark} {kind : Kind} (h : RowsWithin most marks)
    (hrow : mixedInRow (marks ++ [.pause kind]) ≤ most) :
    RowsWithin most (marks ++ [.pause kind]) := by
  intro block hblock hmixed
  rw [pausesIn_append] at hblock
  rcases List.infix_concat_iff.mp hblock with hsuffix | hinfix
  · refine Nat.le_trans (length_le_mixedInRow ?_ hmixed) hrow
    rw [pausesIn_append]
    exact hsuffix
  · exact h block hinfix hmixed

theorem RowsWithin.cleanup {most : Nat} {marks : List Mark} (h : RowsWithin most marks)
    (found : Bool) : RowsWithin most (marks ++ [.cleanup found]) := by
  intro block hblock hmixed
  rw [pausesIn_append, show pausesIn [.cleanup found] = [] from rfl, List.append_nil] at hblock
  exact h block hblock hmixed

/-! ## What is left of the list -/

omit [Scalar α] in
/-- A mixed pause ends only when its initial part was chosen and taken. -/
def takesInitialPart (s : Standing α) : Call α → Bool
  | .endPause _ _ _ => !s.control.phases.mixed || s.owed == some 0
  | _ => true

omit [Scalar α] in
/-- The candidates are tended to and every mixed pause takes its initial part. -/
def drained (s : Standing α) (c : Call α) : Bool := tended s c && takesInitialPart s c

omit [Scalar α] in
/-- The regions that have to be left after the given number of mixed pauses. -/
def Standing.mayRemain (s : Standing α) (candidates : Candidates) (pauses : Nat) : Nat :=
  candidates.regions.length -
    pauses * evenShare candidates.regions.length s.control.settings.mixedCollections

/-- How far the mixed phase has come. -/
structure Draining (collections : Nat) (s : Standing α) : Prop where
  settings : s.control.settings.mixedCollections = collections
  rows : RowsWithin collections s.history
  /-- One more mixed pause is within the number of collections. -/
  row : s.control.phases.full = false → s.control.phases.youngOnly = false →
    mixedInRow s.history < collections
  left : s.control.phases.full = false → s.control.phases.youngOnly = false →
    ∀ candidates, s.candidates = some candidates →
      candidates.size ≤ s.mayRemain candidates (mixedInRow s.history)
  /-- What the current pause still has to take is all that is in excess after it. -/
  owed : s.control.phases.full = false → s.control.phases.youngOnly = false →
    ∀ candidates count, s.candidates = some candidates → s.owed = some count →
      candidates.size ≤ s.mayRemain candidates (mixedInRow s.history + 1) + count

theorem draining_start {w : World α} (h : w.Fresh) :
    Draining w.policy.settings.mixedCollections w.standing ∧
      w.policy.settings.mixedCollections ≠ 0 := by
  obtain ⟨settings, hvalid, hstanding⟩ := h.standing_eq
  have hsettings : w.policy.settings = settings :=
    congrArg (fun s => s.control.settings) hstanding
  rw [hsettings, hstanding]
  refine ⟨⟨rfl, fun block hblock _ => ?_, nofun, nofun, nofun⟩,
    Settings.mixedCollections_ne_zero hvalid⟩
  rw [List.eq_nil_of_infix_nil hblock]
  exact Nat.zero_le _

namespace Draining

variable {s s' : Standing α} {c : Call α} {collections : Nat}

omit [Scalar α] in
/-- Nothing changes while settings, phases, history and candidates stay and no initial part is
chosen. -/
theorem of_phases (h : Draining collections s)
    (hsettings : s'.control.settings = s.control.settings)
    (hphases : s'.control.phases = s.control.phases) (hcandidates : s'.candidates = s.candidates)
    (howed : s'.owed = none ∨ s'.owed = s.owed) (hhistory : s'.history = s.history) :
    Draining collections s' := by
  have hremain (candidates : Candidates) (pauses : Nat) :
      s'.mayRemain candidates pauses = s.mayRemain candidates pauses := by
    rw [Standing.mayRemain, Standing.mayRemain, hsettings]
  refine ⟨?_, ?_, ?_, ?_, ?_⟩
  · rw [hsettings]
    exact h.settings
  · rw [hhistory]
    exact h.rows
  · rw [hphases, hhistory]
    exact h.row
  · rw [hphases, hcandidates, hhistory]
    simp only [hremain]
    exact h.left
  · rw [hphases, hcandidates, hhistory]
    simp only [hremain]
    intro hfull hyoung candidates count hsome hcount
    rcases howed with hnone | hsame
    · rw [hnone] at hcount
      cases hcount
    · exact h.owed hfull hyoung candidates count hsome (hsame ▸ hcount)

omit [Scalar α] in
/-- Outside the mixed phase only the history matters. -/
theorem of_young (hsettings : s.control.settings.mixedCollections = collections)
    (hrows : RowsWithin collections s.history)
    (hyoung : s.control.phases.full = true ∨ s.control.phases.youngOnly = true) :
    Draining collections s := by
  have never {P : Prop} (hfull : s.control.phases.full = false)
      (hmixed : s.control.phases.youngOnly = false) : P := by
    simp [hfull, hmixed] at hyoung
  exact ⟨hsettings, hrows, never, never, never⟩

omit [Scalar α] in
/-- While candidates are left, fewer mixed pauses ended than the settings ask for. -/
theorem lt_of_remain {candidates : Candidates} {pauses : Nat} (hpositive : collections ≠ 0)
    (hsettings : s.control.settings.mixedCollections = collections) (hleft : 0 < candidates.size)
    (h : candidates.size ≤ s.mayRemain candidates pauses) : pauses < collections := by
  rw [Standing.mayRemain, hsettings] at h
  have hshare : candidates.regions.length ≤
      collections * evenShare candidates.regions.length collections :=
    OldRegions.le_mul_evenShare hpositive
  have hlt : pauses * evenShare candidates.regions.length collections <
      collections * evenShare candidates.regions.length collections := by omega
  exact Nat.lt_of_mul_lt_mul_right hlt

/-- A row begins with the pause after one that is not mixed. -/
theorem endOther (h : Draining collections s) (hpositive : collections ≠ 0)
    {heap heap' : Heap α} {d : Control α} (hend : PauseEnd s.control heap d heap')
    (hmixed : s.control.phases.mixed = false) (candidates : Option Candidates) :
    Draining collections ⟨d, candidates, .mutators, none,
      s.history ++ [.pause s.control.pauseKind]⟩ := by
  have hother : s.control.pauseKind ≠ .mixed := by
    intro hkind
    obtain ⟨_, hbefore, hyoung⟩ := Phases.pauseKind_eq_mixed.mp hkind
    exact absurd (hmixed.symm.trans (Phases.mixed_iff.mpr ⟨hyoung, hbefore⟩)) nofun
  have hrow : mixedInRow (s.history ++ [.pause s.control.pauseKind]) = 0 := by
    rw [mixedInRow_append, countMixed, if_neg hother]
  refine ⟨?_, h.rows.pause (by omega), fun _ _ => ?_, fun _ _ candidates _ => ?_,
    fun _ _ _ _ _ hnone => by cases hnone⟩
  · show d.settings.mixedCollections = collections
    rw [hend.settings]
    exact h.settings
  · show mixedInRow _ < collections
    rw [hrow]
    exact Nat.pos_of_ne_zero hpositive
  · show candidates.size ≤ Standing.mayRemain _ candidates (mixedInRow _)
    rw [hrow, Standing.mayRemain, Nat.zero_mul, Candidates.size_eq]
    omega

/-- All that was owed is taken, so the list is one even share shorter than before the pause. -/
theorem endMixed (h : Draining collections s) (hpositive : collections ≠ 0)
    (hcoherent : Coherent s) {heap heap' : Heap α} {d : Control α}
    (hend : PauseEnd s.control (s.view heap) d heap')
    (hmixed : s.control.phases.mixed = true) (htakes : s.owed = some 0) :
    Draining collections ⟨d, heap'.candidates, .mutators, none,
      s.history ++ [.pause s.control.pauseKind]⟩ := by
  have hfull := hend.outsideFull
  obtain ⟨hyoung, hbefore⟩ := Phases.mixed_iff.mp hmixed
  have hscheduled : s.control.scheduled = false := by
    cases hs : s.control.scheduled with
    | false => rfl
    | true => exact absurd (hyoung.symm.trans (hcoherent.initialMark hfull hs).1) nofun
  have hkind : s.control.pauseKind = .mixed :=
    Phases.pauseKind_eq_mixed.mpr ⟨hscheduled, hbefore, hyoung⟩
  have hrow : mixedInRow (s.history ++ [.pause s.control.pauseKind]) =
      mixedInRow s.history + 1 := by
    rw [mixedInRow_append, countMixed, if_pos hkind]
  have hsettings : d.settings.mixedCollections = collections := by
    rw [hend.settings]
    exact h.settings
  have hrows : RowsWithin collections (s.history ++ [.pause s.control.pauseKind]) := by
    refine h.rows.pause ?_
    rw [hrow]
    exact h.row hfull hyoung
  have hgoes (hstays : d.phases.youngOnly = false) :
      s.control.worthwhile (s.view heap) = true ∧ heap'.candidates = s.candidates := by
    have hworth : s.control.worthwhile (s.view heap) = true := by
      simpa [hbefore, hyoung] using hend.youngOnly.symm.trans hstays
    exact ⟨hworth, hend.candidates_eq (.inr hworth)⟩
  have hleft (candidates : Candidates) (hsome : s.candidates = some candidates) :
      candidates.size ≤ Standing.mayRemain ⟨d, heap'.candidates, .mutators, none,
        s.history ++ [.pause s.control.pauseKind]⟩ candidates (mixedInRow s.history + 1) := by
    have hle := h.owed hfull hyoung candidates 0 hsome htakes
    rwa [Nat.add_zero, Standing.mayRemain, ← hend.settings] at hle
  refine ⟨hsettings, hrows, fun _ hstays => ?_, fun _ hstays candidates hsome => ?_,
    fun _ _ _ _ _ hnone => by cases hnone⟩
  · obtain ⟨candidates, hsome, hpos⟩ := hasCandidates_of_worthwhile (hgoes hstays).1
    show mixedInRow _ < collections
    rw [hrow]
    exact lt_of_remain hpositive hsettings hpos (hleft candidates hsome)
  · show candidates.size ≤ Standing.mayRemain _ candidates (mixedInRow _)
    rw [hrow]
    exact hleft candidates ((hgoes hstays).2.symm.trans hsome)

theorem step (hpositive : collections ≠ 0) (h : Draining collections s) (hcoherent : Coherent s)
    (hallowed : drained s c = true) (hstep : Step s c s') : Draining collections s' := by
  obtain ⟨htended, htakes⟩ := Bool.and_eq_true_iff.mp hallowed
  obtain ⟨horder, htends⟩ := Bool.and_eq_true_iff.mp htended
  cases hstep with
  | quiet hquiet hwaited =>
    obtain ⟨r, _, rfl⟩ := hwaited
    exact h.of_phases rfl rfl rfl (.inr rfl) rfl
  | beginPause => exact h.of_phases rfl rfl rfl (.inl rfl) rfl
  | decide hdecision =>
    cases hdecision with
    | waits hwaits hlater => exact h.of_phases rfl rfl rfl (.inr rfl) rfl
    | starts hpending hfree hflag => exact h.of_phases rfl rfl rfl (.inr rfl) rfl
    | overrides hpending hbusy hasks hflag => exact of_young h.settings h.rows (.inr rfl)
  | endPause hend =>
    cases hmixed : s.control.phases.mixed with
    | false => exact h.endOther hpositive hend hmixed _
    | true =>
      have howed : s.owed = some 0 := by
        simpa [takesInitialPart, hmixed] using htakes
      exact h.endMixed hpositive hcoherent hend hmixed howed
  | startFull => exact of_young h.settings h.rows (.inl rfl)
  | endFull hend =>
    refine of_young ?_ (h.rows.pause ?_) (.inr ?_)
    · rw [hend.settings]
      exact h.settings
    · rw [mixedInRow_append]
      exact Nat.zero_le _
    · rw [hend.phases]
  | endRemark hforgot =>
    obtain ⟨l, _, rfl⟩ := hforgot
    exact h.of_phases rfl rfl rfl (.inr rfl) rfl
  | endCleanup hend =>
    obtain ⟨_, _, hyoung⟩ := hcoherent.atCleanup (eq_of_beq horder)
    refine of_young ?_ (h.rows.cleanup _) (.inr ?_)
    · rw [hend.settings]
      exact h.settings
    · rw [hend.phases]
      exact hyoung
  | finishInitialMark hsettled =>
    obtain ⟨r, _, rfl⟩ := hsettled
    exact h.of_phases rfl rfl rfl (.inr rfl) rfl
  | setCandidates =>
    -- marking runs, and the mixed phase of the list comes after it
    obtain ⟨hmarks, hpause⟩ := Bool.and_eq_true_iff.mp htends
    obtain ⟨_, hmarking⟩ := Bool.and_eq_true_iff.mp hmarks
    have hstage : s.stage ≠ .full := by
      intro hstage
      rw [hstage] at hpause
      cases hpause
    have hyoung := (hcoherent.marking (hcoherent.outsideFull hstage) hmarking).1
    exact of_young h.settings h.rows (.inr hyoung)
  | takeNone hnone => exact h
  | @take count candidates rest hsome hregions hsize =>
    refine ⟨h.settings, h.rows, h.row, fun hfull hyoung _ hrest => ?_,
      fun hfull hyoung _ owed hrest howed => ?_⟩
    · cases hrest
      have hle := h.left hfull hyoung candidates hsome
      rw [hsize, Standing.mayRemain, hregions]
      rw [Standing.mayRemain] at hle
      simp only
      omega
    · cases hrest
      obtain ⟨before, hbefore, rfl⟩ := Option.map_eq_some_iff.mp howed
      have hle := h.owed hfull hyoung candidates before hsome hbefore
      rw [hsize, Standing.mayRemain, hregions]
      rw [Standing.mayRemain] at hle
      simp only
      omega
  | @chooseOld heap timeLeft candidates initial hsome hinitial =>
    refine ⟨h.settings, h.rows, h.row, h.left, fun hfull hyoung chosen owed hchosen howed => ?_⟩
    -- the chosen part is the even share, unless less than that is left
    cases hsome.symm.trans hchosen
    cases howed
    have hle := h.left hfull hyoung candidates hsome
    rw [Standing.mayRemain] at hle ⊢
    simp only
    rw [Nat.add_mul, Nat.one_mul]
    omega

end Draining

/-- Nothing is worthwhile if no candidates are left or too little can be reclaimed from them. -/
theorem worthwhile_eq_false {s : Standing α} {heap : Heap α}
    (h : ∀ candidates, s.candidates = some candidates → candidates.size = 0 ∨
      ¬ num s.control.settings.wastePercent <
        (Policy.reclaimablePercent heap candidates.reclaimable : α)) :
    s.control.worthwhile (s.view heap) = false := by
  cases hworth : s.control.worthwhile (s.view heap) with
  | false => rfl
  | true =>
    obtain ⟨candidates, hsome, hpos⟩ := hasCandidates_of_worthwhile hworth
    rcases h candidates hsome with hzero | hlow
    · exact absurd hzero (Nat.ne_of_gt hpos)
    · have hview : (s.view heap).candidates = some candidates := hsome
      have hleft : (s.view heap).remainingCandidates = some candidates := by
        rw [Heap.remainingCandidates, hview, Option.filter_some_pos]
        simpa [Candidates.isEmpty, List.isEmpty_iff] using List.length_pos_iff.mp hpos
      rw [Control.worthwhile, hleft] at hworth
      exact absurd (of_decide_eq_true hworth) hlow

/-- A mixed pause after which nothing is worthwhile ends the phase. -/
theorem step_endPause_of_not_worthwhile {s s' : Standing α} {heap : Heap α} {now pause : α}
    (hstep : Step s (.endPause heap now pause) s') (hmixed : s.control.phases.mixed = true)
    (hworth : s.control.worthwhile (s.view heap) = false) :
    s'.control.phases.youngOnly = true ∧ s'.candidates = none := by
  obtain ⟨_, hbefore⟩ := Phases.mixed_iff.mp hmixed
  cases hstep with
  | quiet hquiet hwaited => cases hquiet
  | endPause hend =>
    refine ⟨?_, hend.candidates_eq_none hmixed hworth⟩
    rw [hend.youngOnly, hbefore, hworth]
    simp

/-- Over every run in which mixed pauses take their initial parts: every one of them leaves at least
an even share less of the list; no more of them follow one another than the settings say; and one
that ends with no candidates left, or with too little to reclaim from them, returns to young
collections and drops the list. -/
theorem mixed_phase_ends {w₀ w : World α} (hfresh : w₀.Fresh) (hrun : Reaches drained w₀ w) :
    (w.stage ≠ .full → w.policy.phases.mixed = true →
      ∀ candidates, w.candidates = some candidates →
        candidates.size ≤ candidates.regions.length -
          mixedInRow w.history *
            ((candidates.regions.length + w₀.policy.settings.mixedCollections - 1) /
              w₀.policy.settings.mixedCollections)) ∧
    (∀ block, block <:+: pausesIn w.history → (∀ kind ∈ block, kind = .mixed) →
      block.length ≤ w₀.policy.settings.mixedCollections) ∧
    (w.policy.phases.mixed = true →
      ∀ heap now pause w', w.call (.endPause heap now pause) = .ok w' →
        (∀ candidates, w.candidates = some candidates → candidates.size = 0 ∨
          ¬ num w.policy.settings.wastePercent <
            (Policy.reclaimablePercent heap candidates.reclaimable : α)) →
        w'.policy.phases.youngOnly = true ∧ w'.candidates = none) := by
  obtain ⟨hstart, hpositive⟩ := draining_start hfresh
  have horder (s : Standing α) (c : Call α) (h : drained s c = true) : inOrder s c = true := by
    obtain ⟨htended, _⟩ := Bool.and_eq_true_iff.mp h
    exact (Bool.and_eq_true_iff.mp htended).1
  obtain ⟨hcoherent, hdraining⟩ :=
    hrun.coherent hfresh horder hstart fun _ _ _ h => h.step hpositive
  refine ⟨fun hstage hmixed candidates hsome => ?_, hdraining.rows,
    fun hmixed heap now pause w' hcall hdone => ?_⟩
  · obtain ⟨hyoung, _⟩ := Phases.mixed_iff.mp hmixed
    have hle := hdraining.left (hcoherent.outsideFull hstage) hyoung candidates hsome
    rw [Standing.mayRemain, hdraining.settings, OldRegions.evenShare_eq hpositive] at hle
    exact hle
  · exact step_endPause_of_not_worthwhile (World.step_of_call hcall) hmixed
      (worthwhile_eq_false hdone)

/-- Two of the mixed pauses that eight collections of twenty candidates allow. -/
theorem mixed_phase_ends_in_shares :
    ∃ (w₀ w : World Rat) (candidates : Candidates), w₀.Fresh ∧ Reaches drained w₀ w ∧
      w.candidates = some candidates ∧ candidates.regions.length = 20 ∧
      mixedInRow w.history = 2 ∧ candidates.size ≤ 20 - 2 * ((20 + 8 - 1) / 8) := by
  obtain ⟨w₀, w, hfresh, hrun, hknown⟩ :=
    exists_run drained plainSettings plainHeap 1
      (plainCycle 10 20 ++ plainPause plainHeap 20 [] ++
        plainPause plainHeap 30 [.chooseOld plainHeap 0, .takeCandidates 3] ++
        plainPause plainHeap 40 [.chooseOld plainHeap 0, .takeCandidates 3])
      (P := fun w₀ w => w.stage = .mutators ∧ w.policy.phases.mixed = true ∧
        w.candidates = some (garbage 20 6 (by decide)) ∧ mixedInRow w.history = 2 ∧
        w₀.policy.settings.mixedCollections = 8)
      (by decide +kernel)
  obtain ⟨hstage, hmixed, hleft, hrow, hcollections⟩ := of_decide_eq_true hknown
  have hsize := (mixed_phase_ends hfresh hrun).1 (by rw [hstage]; nofun) hmixed _ hleft
  rw [hrow, hcollections, show (garbage 20 6 _).regions.length = 20 from rfl] at hsize
  exact ⟨w₀, w, _, hfresh, hrun, hleft, rfl, hrow, hsize⟩

end PauseGoal.Collector
