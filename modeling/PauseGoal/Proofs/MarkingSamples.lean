import PauseGoal.Proofs.Chronicle

/-!
# Samples of the marking length

The measurement of the marking length is driven from five places: the accounts of pauses, the start
of a pause that overrides the phase, the end of cleanup, the end of a mixed pause, and the end of a
periodic collection. Over every run, if each pause keeps its cause and times are after the origin:

* the marking threshold learns a marking length only at the end of a mixed pause, and at most one
  for each initial mark;
* the sample is the time from the end of the last initial mark to the start of the mixed pause, less
  the young pauses, remark and cleanup in between;
* nothing is learned if in between there was a full collection, a periodic collection, a cleanup
  that found too little, or a request that overrode the phase.

The measurement at any moment is the value of a function of the chronicle, `lengthAfter`.
-/

namespace PauseGoal.Collector

open Marking (Length)
open Pause (Kind)

variable {α : Type} [Scalar α]

/-! ## The measurement in the chronicle -/

namespace Episode

omit [Scalar α]

/-- The episode begins a measurement of the marking length or ends one: an initial mark, a mixed
pause, a periodic or full collection, a cleanup that found too little, a request that overrode the
phase. The others are young pauses, remark and cleanup that found enough, and what is no pause. -/
def decidesLength : Episode α → Bool
  | .evacuated kind _ _ periodic _ => periodic || !(kind == .young || kind == .lastYoung)
  | .compacted _ _ | .overridden => true
  | .cleaned _ _ found => !found
  | _ => false

/-- The end of an initial mark that begins a measurement. -/
def markEnd? : Episode α → Option α
  | .evacuated .initialMark _ finish false _ => some finish
  | _ => none

theorem decidesLength_of_markEnd? {e : Episode α} {finish : α} (h : e.markEnd? = some finish) :
    e.decidesLength = true := by
  unfold markEnd? at h
  split at h
  · rfl
  · cases h

theorem markEnd?_eq_some_iff {e : Episode α} {finish : α} :
    e.markEnd? = some finish ↔
      ∃ start failed, e = .evacuated .initialMark start finish false failed := by
  constructor
  · intro h
    unfold markEnd? at h
    split at h
    · next start finish' failed =>
      cases h
      exact ⟨start, failed, rfl⟩
    · cases h
  · rintro ⟨start, failed, rfl⟩
    rfl

end Episode

/-- How long the pause of an episode took. -/
def Episode.pauseTime? : Episode α → Option α
  | .evacuated _ start finish _ _ | .remarked start finish | .cleaned start finish _ =>
    some (finish - start)
  | _ => none

/-- The pauses of some episodes, added up. -/
def pauseTime (es : List (Episode α)) : α := Scalar.sum (es.filterMap Episode.pauseTime?)

/-- The measurement after an initial mark that ended at the given time and some episodes since. -/
def running (finish : α) (between : List (Episode α)) : Length α where
  active := true
  markEnd := some finish
  mixedStart := none
  paused := pauseTime between

/-- The measurement after all episodes of a chronicle. -/
def lengthAfter (es : List (Episode α)) : Length α :=
  match since Episode.decidesLength es with
  | none => .unknown
  | some (e, between) => e.markEnd?.elim .unknown (running · between)

variable {es : List (Episode α)} {e : Episode α}

theorem lengthAfter_of_decides (h : e.decidesLength = true) :
    lengthAfter (es ++ [e]) = e.markEnd?.elim .unknown (running · []) := by
  rw [lengthAfter, since_concat_of_true h]

/-- A pause in between is taken out of the measurement. -/
theorem lengthAfter_pause {d : α} (h : e.decidesLength = false) (htime : e.pauseTime? = some d) :
    lengthAfter (es ++ [e]) = (lengthAfter es).addPause d := by
  rw [lengthAfter, lengthAfter, since_concat_of_false h]
  cases since Episode.decidesLength es with
  | none => rfl
  | some r =>
    obtain ⟨e', between⟩ := r
    show e'.markEnd?.elim _ _ = (e'.markEnd?.elim Length.unknown (running · between)).addPause d
    cases e'.markEnd? with
    | none => rfl
    | some finish =>
      have hpaused : pauseTime (between ++ [e]) = pauseTime between + d := by
        rw [pauseTime, List.filterMap_append, List.filterMap_cons_some htime]
        exact Scalar.sum_append_singleton _ _
      show running finish (between ++ [e]) = (running finish between).addPause d
      unfold running
      rw [hpaused]
      rfl

/-- What is no pause leaves it alone. -/
theorem lengthAfter_other (h : e.decidesLength = false) (htime : e.pauseTime? = none) :
    lengthAfter (es ++ [e]) = lengthAfter es := by
  rw [lengthAfter, lengthAfter, since_concat_of_false h]
  cases since Episode.decidesLength es with
  | none => rfl
  | some r =>
    obtain ⟨e', between⟩ := r
    have hpaused : pauseTime (between ++ [e]) = pauseTime between := by
      rw [pauseTime, List.filterMap_append, List.filterMap_cons_none htime]
      exact congrArg Scalar.sum (List.append_nil _)
    show e'.markEnd?.elim _ (running · (between ++ [e])) = e'.markEnd?.elim _ (running · between)
    unfold running
    rw [hpaused]

/-- Marking began at the end of the initial mark that comes right after `before`, and up to a mixed
pause that starts at the given time it took `length`. -/
def MarkingTook (before es : List (Episode α)) (start length : α) : Prop :=
  ∃ mark finish failed between,
    es = before ++ .evacuated .initialMark mark finish false failed :: between ∧
      (∀ e ∈ between, e.decidesLength = false) ∧
      length = (start - finish) - pauseTime between

/-- The marking time in a chronicle, if a measurement is running. -/
def markingTime (es : List (Episode α)) (start : α) : Option α :=
  match since Episode.decidesLength es with
  | none => none
  | some (e, between) => e.markEnd?.map fun finish => (start - finish) - pauseTime between

theorem markingTime_eq_some_iff {start length : α} :
    markingTime es start = some length ↔ ∃ before, MarkingTook before es start length := by
  constructor
  · intro h
    unfold markingTime at h
    split at h
    · cases h
    · next e between hsince =>
      obtain ⟨finish, hfinish, rfl⟩ := Option.map_eq_some_iff.mp h
      obtain ⟨mark, failed, rfl⟩ := Episode.markEnd?_eq_some_iff.mp hfinish
      obtain ⟨_, hbetween, before, hes⟩ := since_eq_some_iff.mp hsince
      exact ⟨before, mark, finish, failed, between, hes, hbetween, rfl⟩
  · rintro ⟨before, mark, finish, failed, between, hes, hbetween, rfl⟩
    have hsince := since_eq_some_iff.mpr ⟨rfl, hbetween, before, hes⟩
    rw [markingTime, hsince]
    rfl

/-- Once an episode has decided on a measurement, only a later initial mark begins another. -/
theorem MarkingTook.after {before earlier later : List (Episode α)} {start length : α}
    (h : MarkingTook before (earlier ++ e :: later) start length) (he : e.decidesLength = true)
    (hmark : e.markEnd? = none) : earlier.length < before.length := by
  obtain ⟨mark, finish, failed, between, hes, hbetween, _⟩ := h
  rcases List.append_eq_append_iff.mp hes with ⟨more, hbefore, htail⟩ | ⟨more, _, htail⟩
  · cases more with
    | nil =>
      cases htail
      cases hmark
    | cons x more =>
      rw [hbefore, List.length_append]
      exact Nat.lt_add_of_pos_right (Nat.succ_pos _)
  · -- otherwise it would be one of the episodes in between
    cases more with
    | nil =>
      cases htail
      cases hmark
    | cons x more =>
      cases htail
      exact absurd ((hbetween e (by simp)).symm.trans he) nofun

/-! ## The measurement of the policy -/

/-- The calls come in order, each pause keeps its cause, and it lies after the origin of time. -/
def steady (w : World α) (c : Call α) : Bool :=
  inOrder w.standing c &&
    match c with
    | .endPause heap now pause =>
      decide (heap.cause = w.policy.cause) &&
        (decide (num 0 < now - pause / num 1000) && decide (num 0 < now))
    | _ => true

/-- What the chronicle says about the measurement, and when initial marks ended. -/
structure Timed (es : List (Episode α)) (a : Account α) : Prop where
  length : a.markingLength = lengthAfter es
  later : ∀ e ∈ es, ∀ finish, e.markEnd? = some finish → num 0 < finish

/-- The measurement at a mixed pause, from the chronicle. -/
theorem stopAt_lengthAfter {start : α} (hstart : num 0 < start)
    (hlater : ∀ e ∈ es, ∀ finish, e.markEnd? = some finish → num 0 < finish) :
    ((lengthAfter es).stopAt start).ends.map ((lengthAfter es).stopAt start).between =
        markingTime es start ∧
      (if ((lengthAfter es).stopAt start).isKnown = true then Length.unknown
        else (lengthAfter es).stopAt start) = .unknown := by
  unfold lengthAfter markingTime
  cases hsince : since Episode.decidesLength es with
  | none => exact ⟨rfl, rfl⟩
  | some r =>
    obtain ⟨e, between⟩ := r
    simp only
    cases hmark : e.markEnd? with
    | none => exact ⟨rfl, rfl⟩
    | some finish =>
      obtain ⟨_, _, before, hes⟩ := since_eq_some_iff.mp hsince
      have hfinish : num 0 < finish := hlater e (by rw [hes]; simp) finish hmark
      have hends : ((running finish between).stopAt start).ends = some (finish, start) := by
        show (if num 0 < start ∧ num 0 < finish then _ else none) = _
        rw [if_pos ⟨hstart, hfinish⟩]
      constructor
      · show ((running finish between).stopAt start).ends.map _ = _
        rw [hends]
        rfl
      · show (if ((running finish between).stopAt start).ends.isSome = true then _ else _) = _
        rw [hends]
        rfl

theorem lengthAfter_eq_unknown (h : (lengthAfter es).active = false) :
    lengthAfter es = .unknown := by
  unfold lengthAfter at h ⊢
  cases hsince : since Episode.decidesLength es with
  | none => rfl
  | some r =>
    rw [hsince] at h
    cases hmark : r.1.markEnd? with
    | none => simp only [hmark, Option.elim_none]
    | some finish =>
      simp only [hmark, Option.elim_some] at h
      cases h

/-- The account of a pause that is not mixed, and not for a periodic collection. -/
theorem lengthAfter_tracked {p : Policy α} {kind : Kind} {start finish : α} {length : Length α}
    {f : Bool} (hkind : kind = .young ∨ kind = .lastYoung ∨ kind = .initialMark)
    (hlength : p.markingLength = lengthAfter es) (hcause : p.cause ≠ .periodic)
    (htrack : p.trackMarkingLength kind start finish = .ok length) :
    lengthAfter (es ++ [.evacuated kind start finish false f]) = length := by
  rcases hkind with rfl | rfl | rfl
  · cases htrack
    rw [hlength]
    exact lengthAfter_pause rfl rfl
  · cases htrack
    rw [hlength]
    exact lengthAfter_pause rfl rfl
  · -- a measurement must not be running when another one begins
    simp only [Policy.trackMarkingLength, if_neg hcause] at htrack
    obtain ⟨_, hdemand, hstarted⟩ := Checked.exists_of_bind_eq_ok htrack
    have hinactive := of_demand_eq_ok hdemand
    rw [hlength] at hinactive hstarted
    rw [lengthAfter_eq_unknown hinactive] at hstarted
    cases hstarted
    exact lengthAfter_of_decides rfl

/-- After a periodic collection there is no measurement, whatever the kind of the pause. -/
theorem lengthAfter_periodic {kind : Kind} {start finish : α} {f : Bool} :
    lengthAfter (es ++ [.evacuated kind start finish true f]) = .unknown := by
  rw [lengthAfter_of_decides rfl]
  cases kind <;> rfl

/-- What a pause teaches about marking, and the measurement after it. -/
theorem Timed.learned {w : World α} {heap : Heap α} {now pause : α} {length : Length α}
    {youngSize : Nat} {a : Account α} (h : Timed es w.policy.account)
    (hcoherent : Coherent w.standing) (hfull : w.policy.phases.full = false)
    (hcause : heap.cause = w.policy.cause) (hstart : num 0 < now - pause / num 1000)
    (hended : w.policy.Ended (w.view heap) now pause length youngSize a) :
    a.markingLength = lengthAfter (es ++ w.tells (.endPause heap now pause)) ∧
      ∀ time, markingLesson heap.cause w.policy.phases.youngOnly length = some time ↔
        w.policy.control.pauseKind = .mixed ∧ heap.cause ≠ .periodic ∧ ratio 1 1000000 < time ∧
          ∃ before, MarkingTook before es (now - pause / num 1000) time := by
  have hmixed : w.policy.control.pauseKind = .mixed ↔ w.policy.phases.youngOnly = false :=
    hcoherent.pauseKind_eq_mixed_iff hfull
  have htrack := hended.tracked
  have hover := hended.markingLength
  rw [show (w.view heap).cause = heap.cause from rfl] at hover
  show _ = lengthAfter (es ++ [.evacuated w.policy.control.pauseKind
    (now - pause / num 1000) now (decide (heap.cause = .periodic)) heap.evacuationFailed]) ∧ _
  unfold markingLesson
  by_cases hperiodic : heap.cause = .periodic
  · -- nothing is learned from a periodic collection, and the measurement is dropped
    rw [hover, if_pos (Or.inl hperiodic), decide_eq_true hperiodic, lengthAfter_periodic]
    simp [hperiodic]
  rw [decide_eq_false hperiodic]
  simp only [hperiodic, false_or] at hover ⊢
  by_cases hkind : w.policy.control.pauseKind = .mixed
  · have hyoung := hmixed.mp hkind
    rw [hkind] at htrack ⊢
    cases htrack
    obtain ⟨htime, hstopped⟩ := stopAt_lengthAfter hstart h.later
    rw [← h.length] at htime hstopped
    constructor
    · rw [hover, hyoung, lengthAfter_of_decides rfl]
      simp only [true_and]
      exact hstopped
    · intro time
      rw [← markingTime_eq_some_iff, ← htime, hyoung, if_neg Bool.false_ne_true,
        Option.filter_eq_some_iff, decide_eq_true_eq]
      simp only [ne_eq, hperiodic, not_false_eq_true, true_and]
      exact and_comm
  · have hyoung : w.policy.phases.youngOnly = true := by
      rw [← Bool.not_eq_false, ← hmixed]
      exact hkind
    have hkinds := pauseKind_cases w.policy.control
    simp only [hkind, or_false] at hkinds
    constructor
    · rw [lengthAfter_tracked hkinds h.length (hcause ▸ hperiodic) htrack, hover]
      simp [hyoung]
    · simp [hkind, hyoung]

theorem inOrder_of_steady {w : World α} {c : Call α} (h : steady w c = true) :
    inOrder w.standing c = true :=
  (Bool.and_eq_true_iff.mp h).1

theorem steady_endPause {w : World α} {heap : Heap α} {now pause : α}
    (h : steady w (.endPause heap now pause) = true) :
    w.stage = .transferred ∧ heap.cause = w.policy.cause ∧ num 0 < now - pause / num 1000 ∧
      num 0 < now := by
  simp only [steady, inOrder, Bool.and_eq_true, decide_eq_true_eq, beq_iff_eq] at h
  exact h

namespace Timed

variable {a a' : Account α}

theorem keep {more : List (Episode α)} (h : Timed es a) (hmore : more = [])
    (hlength : a'.markingLength = a.markingLength) : Timed (es ++ more) a' := by
  rw [hmore, List.append_nil]
  exact ⟨hlength.trans h.length, h.later⟩

theorem concat (h : Timed es a) (hmark : ∀ finish, e.markEnd? = some finish → num 0 < finish)
    (hlength : a'.markingLength = lengthAfter (es ++ [e])) : Timed (es ++ [e]) a' := by
  refine ⟨hlength, fun x hx finish hfinish => ?_⟩
  rcases List.mem_append.mp hx with hx | hx
  · exact h.later x hx finish hfinish
  · rw [List.mem_singleton.mp hx] at hfinish
    exact hmark finish hfinish

/-- An episode that ends a measurement, or ends up without one. -/
theorem stop (h : Timed es a) (hdecides : e.decidesLength = true) (hmark : e.markEnd? = none)
    (hlength : a'.markingLength = .unknown) : Timed (es ++ [e]) a' := by
  refine h.concat (by rw [hmark]; exact nofun) ?_
  rw [hlength, lengthAfter_of_decides hdecides, hmark]
  rfl

theorem pause {d : α} (h : Timed es a) (hgoes : e.decidesLength = false)
    (htime : e.pauseTime? = some d) (hlength : a'.markingLength = a.markingLength.addPause d) :
    Timed (es ++ [e]) a' := by
  refine h.concat (fun finish hfinish => ?_) ?_
  · exact absurd (hgoes.symm.trans (Episode.decidesLength_of_markEnd? hfinish)) nofun
  · rw [hlength, h.length, lengthAfter_pause hgoes htime]

theorem other (h : Timed es a) (hgoes : e.decidesLength = false) (htime : e.pauseTime? = none)
    (hlength : a'.markingLength = a.markingLength) : Timed (es ++ [e]) a' := by
  refine h.concat (fun finish hfinish => ?_) ?_
  · exact absurd (hgoes.symm.trans (Episode.decidesLength_of_markEnd? hfinish)) nofun
  · rw [hlength, h.length, lengthAfter_other hgoes htime]

theorem step {w : World α} {c : Call α} (h : Timed es w.policy.account)
    (hcoherent : Coherent w.standing) (hsteady : steady w c = true)
    (hstep : AccountStep w c a) : Timed (es ++ w.tells c) a := by
  cases hstep with
  | plain hplain => exact h.keep (w.tells_of_isPlain hplain) rfl
  | resize | measure | beginPause | startFull => exact h.keep rfl rfl
  | allocate | startPause => exact h.other rfl rfl rfl
  | @decide heap =>
    show Timed (es ++ if w.policy.control.overridden (w.view heap) then [.overridden] else []) _
    cases w.policy.control.overridden (w.view heap) with
    | true => exact h.stop rfl rfl rfl
    | false => exact h.keep rfl rfl
  | @endPause heap now pause length youngSize a hended =>
    obtain ⟨hstage, hcause, hstart, hnow⟩ := steady_endPause hsteady
    have hfull := hcoherent.full_of_transferred hstage
    refine h.concat (fun finish hfinish => ?_) (h.learned hcoherent hfull hcause hstart hended).1
    obtain ⟨start, failed, hevacuated⟩ := Episode.markEnd?_eq_some_iff.mp hfinish
    obtain ⟨_, _, rfl, _⟩ := Episode.evacuated.inj hevacuated
    exact hnow
  | endFull => exact h.stop rfl rfl rfl
  | endRemark => exact h.pause rfl rfl rfl
  | @endCleanup heap now =>
    show Timed (es ++ [.cleaned _ now (w.policy.control.worthwhile (w.view heap))]) _
    cases w.policy.control.worthwhile (w.view heap) with
    | true => exact h.pause rfl rfl rfl
    | false => exact h.stop rfl rfl rfl

end Timed

/-- The chronicle of a run says what the measurement is. -/
theorem Chronicles.timed {w : World α} (hrun : Chronicles steady es w) :
    Timed es w.policy.account := by
  induction hrun with
  | opened hstart =>
    refine ⟨?_, fun e he finish hfinish => ?_⟩
    · exact congrArg Account.markingLength (account_of_start hstart)
    · rw [List.mem_singleton.mp he] at hfinish
      cases hfinish
  | call hrun hsteady hcall ih =>
    exact ih.step (hrun.coherent fun _ _ => inOrder_of_steady) hsteady (World.told_of_call hcall).1

/-- Over every run in which pauses keep their causes and lie after the origin of time:

* the pauses of the chronicle are those that the journal reports;
* the marking threshold learns a marking length at the end of a pause only, and what it learns is
  the time that marking took, if that is more than a microsecond, the pause is mixed and it is no
  periodic collection;
* the initial mark of which it learns came after all mixed pauses so far, so that it learns from
  each initial mark at most once. -/
theorem marking_samples {w : World α} (hrun : Chronicles steady es w) :
    (∃ w₀ : World α, w₀.Fresh ∧ Reaches inOrder w₀ w ∧
      w.journal.records = w₀.journal.records ++ es.filterMap Episode.record?) ∧
      (∀ heap now pause w', steady w (.endPause heap now pause) = true →
        w.call (.endPause heap now pause) = .ok w' →
          ∃ marking allocation,
            w.policy.threshold.learn marking allocation = .ok w'.policy.threshold ∧
              ∀ length, marking = some length ↔
                w.policy.control.pauseKind = .mixed ∧ heap.cause ≠ .periodic ∧
                  ratio 1 1000000 < length ∧
                  ∃ before, MarkingTook before es (now - pause / num 1000) length) ∧
      (∀ c w', (∀ heap now pause, c ≠ .endPause heap now pause) → w.call c = .ok w' →
        w'.policy.threshold = w.policy.threshold ∨
          ∃ target, w'.policy.threshold = w.policy.threshold.setTarget target) ∧
      ∀ before earlier later start finish start' length periodic failed,
        es = earlier ++ .evacuated .mixed start finish periodic failed :: later →
          MarkingTook before es start' length → earlier.length < before.length := by
  have hcoherent := hrun.coherent fun _ _ => inOrder_of_steady
  refine ⟨hrun.exists_reaches fun _ _ => inOrder_of_steady, ?_, fun c w' hother hcall => ?_, ?_⟩
  · intro heap now pause w' hsteady hcall
    obtain ⟨hstage, hcause, hstart, _⟩ := steady_endPause hsteady
    have hfull := hcoherent.full_of_transferred hstage
    obtain ⟨length, youngSize, hended⟩ := (World.told_of_call hcall).1.ended
    refine ⟨_, _, hended.learned, fun length => ?_⟩
    exact (hrun.timed.learned hcoherent hfull hcause hstart hended).2 length
  · exact (World.told_of_call hcall).1.threshold_eq hother
  · rintro before earlier later start finish start' length periodic failed rfl htook
    refine htook.after ?_ rfl
    cases periodic <;> rfl

/-- What comes between an initial mark and a mixed pause; remark, cleanup and the last young pause
take a second each. -/
def plainInterval : List (Episode Rat) :=
  [.remarked 12 13, .cleaned 14 15 true, .started 20, .evacuated .lastYoung 20 21 false false,
    .started 30]

/-- From the end of the initial mark to the mixed pause it is nineteen seconds. -/
theorem marking_samples_of_plain_cycle :
    ∃ w w' : World Rat,
      Chronicles steady
        ([.opened 1, .started 10] ++ .evacuated .initialMark 10 11 false false :: plainInterval)
        w ∧
        w.call (.endPause plainHeap 31 1000) = .ok w' ∧
        ∃ allocation, w.policy.threshold.learn (some 16) allocation = .ok w'.policy.threshold := by
  obtain ⟨w, hrun, hends⟩ :=
    exists_chronicle steady { plainSettings with adaptiveMarking := true } plainHeap 1
      (plainCycle 10 20 ++ plainPause plainHeap 20 [] ++
        [.beginPause, .decide plainHeap, .startPause plainHeap 30, .transfer 0 false])
      ([.opened 1, .started 10] ++ .evacuated .initialMark 10 11 false false :: plainInterval)
      (P := fun w =>
        steady w (.endPause plainHeap 31 1000) && (w.call (.endPause plainHeap 31 1000)).toBool &&
          decide (w.policy.control.pauseKind = .mixed))
      (by decide +kernel)
  simp only [Bool.and_eq_true, decide_eq_true_eq] at hends
  obtain ⟨⟨hsteady, hcalled⟩, hmixed⟩ := hends
  obtain ⟨w', hcall⟩ := Checked.exists_of_toBool hcalled
  obtain ⟨marking, allocation, hlearn, hmarking⟩ :=
    (marking_samples hrun).2.1 plainHeap 31 1000 w' hsteady hcall
  obtain rfl : marking = some 16 := by
    refine (hmarking 16).mpr ⟨hmixed, by decide, by decide +kernel, [.opened 1, .started 10], ?_⟩
    exact ⟨10, 11, false, plainInterval, rfl, by decide, by decide +kernel⟩
  exact ⟨w, w', hrun, hcall, allocation, hlearn⟩

end PauseGoal.Collector
