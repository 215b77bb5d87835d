import PauseGoal.Proofs.Chronicle
import Mathlib.Tactic.Ring

/-!
# Samples of the allocation rate

At the end of a young pause the marking threshold learns how many bytes were allocated into the old
generation in the mutator phase before it, and how long that phase was. The two are measured apart.
Bytes are counted from the end of the last collection that was not periodic; time runs from the end
of the last one whose evacuation did not fail. So a sample describes the phase before the pause if
the collection before it was neither periodic nor failed. After a periodic collection the bytes, and
after a failed evacuation the time, are those of earlier phases too.

Times are exact here. They are rational numbers of seconds.
-/

namespace PauseGoal.Collector

open Pause (Kind)

/-! ## Mutator phases in the chronicle -/

namespace Episode

variable {α : Type}

/-- A mutator phase begins with the policy and at the end of each collection. -/
def beginsPhase : Episode α → Bool
  | .opened _ | .evacuated _ _ _ _ _ | .compacted _ _ => true
  | _ => false

/-- The count of bytes starts again. -/
def restartsCount : Episode α → Bool
  | .evacuated _ _ _ periodic _ => !periodic
  | e => e.beginsPhase

/-- The time of a phase starts again. -/
def restartsClock : Episode α → Bool
  | .evacuated _ _ _ _ failed => !failed
  | e => e.beginsPhase

theorem beginsPhase_of_restartsCount {e : Episode α} (h : e.restartsCount = true) :
    e.beginsPhase = true := by
  cases e with
  | evacuated => rfl
  | _ => exact h

theorem beginsPhase_of_restartsClock {e : Episode α} (h : e.restartsClock = true) :
    e.beginsPhase = true := by
  cases e with
  | evacuated => rfl
  | _ => exact h

/-- When a mutator phase began. -/
def finish? : Episode α → Option α
  | .opened now => some now
  | .evacuated _ _ finish _ _ | .compacted _ finish => some finish
  | _ => none

/-- When an evacuation pause started. -/
def start? : Episode α → Option α
  | .started start => some start
  | _ => none

/-- The bytes that were allocated into the old generation. -/
def bytes : Episode α → Nat
  | .allocated bytes => bytes
  | _ => 0

/-- How long a pause interrupted the mutator phase. -/
def interruption : Episode Rat → Rat
  | .remarked start finish | .cleaned start finish _ => finish - start
  | _ => 0

end Episode

/-- When the last evacuation pause started. -/
def lastStart {α : Type} (es : List (Episode α)) : Option α :=
  (es.filterMap Episode.start?).getLast?

section

variable (begins : Episode Rat → Bool) (es : List (Episode Rat))

/-- The moment at which the last phase would have begun, had nothing interrupted it. -/
def phaseBegin : Option Rat :=
  (since begins es).bind fun r =>
    r.1.finish?.map fun finish => finish + (r.2.map Episode.interruption).sum

/-- The length in seconds of the mutator phase before a pause that starts at the given time. A phase
too short to measure counts as a millisecond. -/
def phaseTime (start : Rat) : Option Rat :=
  (phaseBegin begins es).map fun begun =>
    if (start - begun) * 1000 < 1 / 10000000 then 1 / 1000 else start - begun

/-- The bytes allocated into the old generation in the last phase. -/
def phaseBytes : Option Nat :=
  (since begins es).map fun r => (r.2.map Episode.bytes).sum

end

variable {begins : Episode Rat → Bool} {es : List (Episode Rat)} {e : Episode Rat}

theorem phaseBegin_of_begins (h : begins e = true) :
    phaseBegin begins (es ++ [e]) = e.finish? := by
  rw [phaseBegin, since_concat_of_true h]
  cases hfinish : e.finish? <;> simp [hfinish]

theorem phaseBegin_of_goes (h : begins e = false) :
    phaseBegin begins (es ++ [e]) = (phaseBegin begins es).map (· + e.interruption) := by
  rw [phaseBegin, phaseBegin, since_concat_of_false h]
  cases since begins es with
  | none => rfl
  | some r =>
    cases hfinish : r.1.finish? <;> simp [hfinish, add_assoc]

theorem phaseBytes_of_begins (h : begins e = true) :
    phaseBytes begins (es ++ [e]) = some 0 := by
  rw [phaseBytes, since_concat_of_true h]
  rfl

theorem phaseBytes_of_goes (h : begins e = false) :
    phaseBytes begins (es ++ [e]) = (phaseBytes begins es).map (· + e.bytes) := by
  rw [phaseBytes, phaseBytes, since_concat_of_false h]
  cases since begins es <;> simp

theorem lastStart_concat_of_none {α : Type} {es : List (Episode α)} {e : Episode α}
    (h : e.start? = none) : lastStart (es ++ [e]) = lastStart es := by
  rw [lastStart, lastStart, List.filterMap_append, List.filterMap_cons_none h]
  exact congrArg List.getLast? (List.append_nil _)

theorem lastStart_concat_of_some {α : Type} {es : List (Episode α)} {e : Episode α} {start : α}
    (h : e.start? = some start) : lastStart (es ++ [e]) = some start := by
  rw [lastStart, List.filterMap_append, List.filterMap_cons_some h]
  exact List.getLast?_concat

/-! ## The measurements of the policy -/

/-- The calls come in order, and the measurements of a pause keep its start as it was passed. -/
def measured (w : World Rat) (c : Call Rat) : Bool :=
  inOrder w.standing c &&
    match c with
    | .chore (.measure breakdown) => decide (breakdown.start = w.policy.breakdown.start)
    | _ => true

theorem inOrder_of_measured {w : World Rat} {c : Call Rat} (h : measured w c = true) :
    inOrder w.standing c = true :=
  (Bool.and_eq_true_iff.mp h).1

/-- An evacuation pause is on and has started. -/
def Stage.isStarted : Stage → Bool
  | .started | .transferred => true
  | _ => false

theorem isStarted_of_stageAfter {s : Standing Rat} {c : Call Rat} (hplain : c.isPlain = true)
    (horder : inOrder s c = true) (hstarted : (c.stageAfter s.stage).isStarted = true) :
    s.stage.isStarted = true := by
  cases c with
  | transfer count learn =>
    rw [show s.stage = .started from eq_of_beq horder]
    rfl
  | startRemark now => cases hstarted
  | startCleanup now => cases hstarted
  | _ => first | exact hstarted | cases hplain

/-- What the chronicle says about the account. -/
structure Phased (es : List (Episode Rat)) (stage : Stage) (a : Account Rat) : Prop where
  started : stage.isStarted = true → lastStart es = some a.started
  clock : ∃ begun, phaseBegin Episode.restartsClock es = some begun ∧ a.lastPauseEnd = begun * 1000
  count : phaseBytes Episode.restartsCount es = some a.oldAllocation

namespace Phased

variable {stage stage' : Stage} {a a' : Account Rat}

theorem keep {more : List (Episode Rat)} (h : Phased es stage a) (hmore : more = [])
    (hstage : stage'.isStarted = true → stage.isStarted = true ∧ a'.started = a.started)
    (hclock : a'.lastPauseEnd = a.lastPauseEnd) (hcount : a'.oldAllocation = a.oldAllocation) :
    Phased (es ++ more) stage' a' := by
  rw [hmore, List.append_nil]
  refine ⟨fun hstarted => ?_, ?_, ?_⟩
  · obtain ⟨hbefore, hstart⟩ := hstage hstarted
    rw [hstart]
    exact h.started hbefore
  · rw [hclock]
    exact h.clock
  · rw [hcount]
    exact h.count

/-- An episode within a mutator phase or a pause. -/
theorem concat (h : Phased es stage a) (hbegins : e.beginsPhase = false)
    (hstarted : stage'.isStarted = true → lastStart (es ++ [e]) = some a'.started)
    (hclock : a'.lastPauseEnd = a.lastPauseEnd + e.interruption * 1000)
    (hcount : a'.oldAllocation = a.oldAllocation + e.bytes) : Phased (es ++ [e]) stage' a' := by
  refine ⟨hstarted, ?_, ?_⟩
  · obtain ⟨begun, hbegun, hlast⟩ := h.clock
    have hgoes : e.restartsClock = false := by
      rw [← Bool.not_eq_true] at hbegins ⊢
      exact mt Episode.beginsPhase_of_restartsClock hbegins
    refine ⟨begun + e.interruption, ?_, ?_⟩
    · rw [phaseBegin_of_goes hgoes, hbegun]
      rfl
    · rw [hclock, hlast]
      ring
  · have hgoes : e.restartsCount = false := by
      rw [← Bool.not_eq_true] at hbegins ⊢
      exact mt Episode.beginsPhase_of_restartsCount hbegins
    rw [phaseBytes_of_goes hgoes, h.count, hcount]
    rfl

/-- One that takes no time out of the phase. -/
theorem concat_of_steady (h : Phased es stage a) (hbegins : e.beginsPhase = false)
    (hsteady : e.interruption = 0)
    (hstarted : stage'.isStarted = true → lastStart (es ++ [e]) = some a'.started)
    (hclock : a'.lastPauseEnd = a.lastPauseEnd)
    (hcount : a'.oldAllocation = a.oldAllocation + e.bytes) : Phased (es ++ [e]) stage' a' := by
  refine h.concat hbegins hstarted ?_ hcount
  rw [hsteady, zero_mul, add_zero, hclock]

/-- The end of an evacuation pause. -/
theorem evacuate {kind : Kind} {start finish : Rat} {periodic failing : Bool}
    (h : Phased es stage a)
    (hclock : a'.lastPauseEnd = if failing then a.lastPauseEnd else finish * 1000)
    (hcount : a'.oldAllocation = if periodic then a.oldAllocation else 0) :
    Phased (es ++ [.evacuated kind start finish periodic failing]) .mutators a' := by
  refine ⟨nofun, ?_, ?_⟩
  · cases failing with
    | true =>
      obtain ⟨begun, hbegun, hlast⟩ := h.clock
      refine ⟨begun, ?_, hclock.trans hlast⟩
      rw [phaseBegin_of_goes rfl, hbegun]
      exact congrArg some (add_zero begun)
    | false => exact ⟨finish, phaseBegin_of_begins rfl, hclock⟩
  · cases periodic with
    | true =>
      rw [phaseBytes_of_goes rfl, h.count, hcount]
      rfl
    | false =>
      rw [phaseBytes_of_begins rfl, hcount]
      rfl

theorem step {w : World Rat} {c : Call Rat} (h : Phased es w.stage w.policy.account)
    (hmeasured : measured w c = true) (hstep : AccountStep w c a) :
    Phased (es ++ w.tells c) (c.stageAfter w.stage) a := by
  have horder := inOrder_of_measured hmeasured
  cases hstep with
  | plain hplain =>
    refine h.keep (w.tells_of_isPlain hplain) (fun hstarted => ⟨?_, rfl⟩) rfl rfl
    exact isStarted_of_stageAfter hplain horder hstarted
  | resize => exact h.keep rfl (fun hstarted => ⟨hstarted, rfl⟩) rfl rfl
  | measure =>
    have hstart := of_decide_eq_true (Bool.and_eq_true_iff.mp hmeasured).2
    exact h.keep rfl (fun hstarted => ⟨hstarted, hstart⟩) rfl rfl
  | beginPause | startFull => exact h.keep rfl nofun rfl rfl
  | allocate =>
    refine h.concat_of_steady rfl rfl (fun hstarted => ?_) rfl rfl
    rw [lastStart_concat_of_none rfl]
    exact h.started hstarted
  | startPause =>
    exact h.concat_of_steady rfl rfl (fun _ => lastStart_concat_of_some rfl) rfl rfl
  | @decide heap =>
    show Phased (es ++ if w.policy.control.overridden (w.view heap) then [.overridden] else []) _ _
    cases w.policy.control.overridden (w.view heap) with
    | true => exact h.concat_of_steady rfl rfl nofun rfl rfl
    | false => exact h.keep rfl nofun rfl rfl
  | endPause hended =>
    refine h.evacuate hended.lastPauseEnd ?_
    simp only [decide_eq_true_eq]
    exact hended.oldAllocation
  | endFull => exact ⟨nofun, ⟨_, phaseBegin_of_begins rfl, rfl⟩, phaseBytes_of_begins rfl⟩
  | endRemark => exact h.concat rfl nofun rfl rfl
  | endCleanup => exact h.concat rfl nofun rfl rfl

end Phased

/-- The chronicle of a run says what the account is. -/
theorem Chronicles.phased {w : World Rat} (hrun : Chronicles measured es w) :
    Phased es w.stage w.policy.account := by
  induction hrun with
  | @opened settings heap now fullCauses policy before after hstart =>
    refine ⟨nofun, ⟨now, ?_, ?_⟩, ?_⟩
    · exact congrArg some (add_zero now)
    · exact congrArg Account.lastPauseEnd (account_of_start hstart)
    · rw [show (World.opened policy after).policy.account = _ from account_of_start hstart]
      rfl
  | call hrun hmeasured hcall ih =>
    rw [World.stage_of_call hcall]
    exact ih.step hmeasured (World.told_of_call hcall).1

/-- The length of the mutator phase in seconds, as the policy measures it. -/
theorem mutatorTime_eq {p : Policy Rat} {begun : Rat} (h : p.costs.lastPauseEnd = begun * 1000) :
    p.mutatorTime / num 1000 =
      if (p.breakdown.start - begun) * 1000 < 1 / 10000000 then 1 / 1000
      else p.breakdown.start - begun := by
  have htime : p.breakdown.start * num 1000 - p.costs.lastPauseEnd =
      (p.breakdown.start - begun) * 1000 := by
    rw [h, show (num 1000 : Rat) = 1000 from rfl]
    ring
  unfold Policy.mutatorTime
  simp only [htime]
  rw [show (Policy.clockGranularity : Rat) = 1 / 10000000 from rfl,
    show (num 1000 : Rat) = 1000 from rfl, show (num 1 : Rat) = 1 from rfl]
  split
  · rfl
  · ring

theorem allocationLesson_eq_some_iff {cause : Cause} {youngOnly initialMark : Bool}
    {time time' : Rat} {bytes bytes' youngSize : Nat} :
    (∃ size, allocationLesson cause youngOnly initialMark time bytes youngSize =
        some (time', bytes', size)) ↔
      cause ≠ .periodic ∧ (youngOnly = true ∧ initialMark = false) ∧ 1 / 1000000 < time' ∧
        time = time' ∧ bytes = bytes' := by
  unfold allocationLesson
  split
  · next h =>
    obtain ⟨hcause, hyoung, hscheduled, htime⟩ := h
    constructor
    · rintro ⟨size, hsample⟩
      cases hsample
      exact ⟨hcause, ⟨hyoung, hscheduled⟩, htime, rfl, rfl⟩
    · rintro ⟨_, _, _, rfl, rfl⟩
      exact ⟨youngSize, rfl⟩
  · next h =>
    constructor
    · rintro ⟨size, hsample⟩
      cases hsample
    · rintro ⟨hcause, ⟨hyoung, hscheduled⟩, htime, rfl, _⟩
      exact absurd ⟨hcause, hyoung, hscheduled, htime⟩ h

/-- Over every run in which the measurements of a pause keep its start:

* the pauses of the chronicle are those that the journal reports;
* the marking threshold learns about allocation at the end of young pauses that do no initial-mark
  work and are no periodic collections; it learns the time since the clock of mutator phases started
  again and the bytes since the count did;
* if the last collection started both again, they are those of the last mutator phase. -/
theorem allocation_samples {w : World Rat} (hrun : Chronicles measured es w) :
    (∃ w₀ : World Rat, w₀.Fresh ∧ Reaches inOrder w₀ w ∧
      w.journal.records = w₀.journal.records ++ es.filterMap Episode.record?) ∧
      (∀ heap now pause w', measured w (.endPause heap now pause) = true →
        w.call (.endPause heap now pause) = .ok w' →
          ∃ marking allocation,
            w.policy.threshold.learn marking allocation = .ok w'.policy.threshold ∧
              ∀ time bytes, (∃ youngSize, allocation = some (time, bytes, youngSize)) ↔
                (w.policy.control.pauseKind = .young ∨ w.policy.control.pauseKind = .lastYoung) ∧
                  heap.cause ≠ .periodic ∧ 1 / 1000000 < time ∧
                  (∃ start, lastStart es = some start ∧
                    phaseTime Episode.restartsClock es start = some time) ∧
                  phaseBytes Episode.restartsCount es = some bytes) ∧
      (∀ c w', (∀ heap now pause, c ≠ .endPause heap now pause) → w.call c = .ok w' →
        w'.policy.threshold = w.policy.threshold ∨
          ∃ target, w'.policy.threshold = w.policy.threshold.setTarget target) ∧
      ∀ e after, since Episode.beginsPhase es = some (e, after) → e.restartsClock = true →
        e.restartsCount = true →
          (∀ start, phaseTime Episode.restartsClock es start =
            phaseTime Episode.beginsPhase es start) ∧
          phaseBytes Episode.restartsCount es = phaseBytes Episode.beginsPhase es := by
  have hcoherent := hrun.coherent fun _ _ => inOrder_of_measured
  refine ⟨hrun.exists_reaches fun _ _ => inOrder_of_measured, ?_, fun c w' hother hcall => ?_, ?_⟩
  · intro heap now pause w' hmeasured hcall
    have hstage : w.stage = .transferred := eq_of_beq (inOrder_of_measured hmeasured)
    have hfull := hcoherent.full_of_transferred hstage
    obtain ⟨hstarted, ⟨begun, hbegun, hlast⟩, hcount⟩ := hrun.phased
    have hstart := hstarted (by rw [hstage]; rfl)
    obtain ⟨length, youngSize, hended⟩ := (World.told_of_call hcall).1.ended
    refine ⟨_, _, hended.learned, fun time bytes => ?_⟩
    have hkinds : w.policy.control.pauseKind = .young ∨ w.policy.control.pauseKind = .lastYoung ↔
        w.policy.phases.youngOnly = true ∧ w.policy.control.scheduled = false :=
      hcoherent.pauseKind_young_iff hfull
    have htime : phaseTime Episode.restartsClock es w.policy.account.started = some time ↔
        w.policy.mutatorTime / num 1000 = time := by
      rw [phaseTime, hbegun, mutatorTime_eq hlast]
      exact Option.some_inj
    rw [allocationLesson_eq_some_iff, hkinds, hcount, hstart, Option.some_inj, ← htime]
    constructor
    · rintro ⟨hcause, hyoung, hlong, hmeasured, hbytes⟩
      exact ⟨hyoung, hcause, hlong, ⟨_, rfl, hmeasured⟩, hbytes⟩
    · rintro ⟨hyoung, hcause, hlong, ⟨start, hsome, hmeasured⟩, hbytes⟩
      cases hsome
      exact ⟨hcause, hyoung, hlong, hmeasured, hbytes⟩
  · exact (World.told_of_call hcall).1.threshold_eq hother
  · intro e after hsince hclock hcount
    have hclock := since_of_imp hsince (fun _ => Episode.beginsPhase_of_restartsClock) hclock
    have hcount := since_of_imp hsince (fun _ => Episode.beginsPhase_of_restartsCount) hcount
    refine ⟨fun start => ?_, ?_⟩
    · rw [phaseTime, phaseTime, phaseBegin, phaseBegin, hclock, hsince]
    · rw [phaseBytes, phaseBytes, hcount, hsince]

/-- Two young pauses ten seconds apart, of which the first one may be a periodic collection and its
evacuation may fail. -/
def pausesTwice (periodic failing : Bool) : List (Call Rat) :=
  let first :=
    { plainHeap with
      cause := if periodic then .periodic else .allocation
      evacuationFailed := failing }
  [.chore (.addOldAllocation 1000)] ++ plainPause first 10 [] ++
    [.chore (.addOldAllocation 500)] ++ plainPause plainHeap 20 []

/-- The chronicle of them, up to the start of the second one. -/
def toldTwice (periodic failing : Bool) : List (Episode Rat) :=
  [.opened 1, .allocated 1000, .started 10, .evacuated .young 10 11 periodic failing,
    .allocated 500, .started 20]

/-- After a periodic collection the bytes of two phases are learned. -/
theorem allocation_samples_after_periodic_collection :
    ∃ w w' : World Rat, Chronicles measured (toldTwice true false) w ∧
      w.call (.endPause plainHeap 21 1000) = .ok w' ∧
      ∃ marking youngSize,
        w.policy.threshold.learn marking (some (9, 1500, youngSize)) =
          .ok w'.policy.threshold := by
  obtain ⟨w, hrun, hends⟩ :=
    exists_chronicle measured { plainSettings with adaptiveMarking := true } plainHeap 1
      (pausesTwice true false).dropLast (toldTwice true false)
      (P := fun w =>
        measured w (.endPause plainHeap 21 1000) && (w.call (.endPause plainHeap 21 1000)).toBool &&
          decide (w.policy.control.pauseKind = .young))
      (by decide +kernel)
  simp only [Bool.and_eq_true, decide_eq_true_eq] at hends
  obtain ⟨⟨hmeasured, hcalled⟩, hkind⟩ := hends
  obtain ⟨w', hcall⟩ := Checked.exists_of_toBool hcalled
  obtain ⟨marking, allocation, hlearn, hsample⟩ :=
    (allocation_samples hrun).2.1 plainHeap 21 1000 w' hmeasured hcall
  obtain ⟨youngSize, rfl⟩ := (hsample 9 1500).mpr
    ⟨.inl hkind, by decide, by decide +kernel, ⟨20, rfl, by decide +kernel⟩, by decide +kernel⟩
  exact ⟨w, w', hrun, hcall, marking, youngSize, hlearn⟩

/-- After a periodic collection the bytes of a sample are not those of the last phase, which are
500, and after a failed evacuation its time is not the length of that phase, nine seconds. -/
theorem samples_span_phases :
    (∀ periodic failing, phaseTime Episode.beginsPhase (toldTwice periodic failing) 20 = some 9 ∧
      phaseBytes Episode.beginsPhase (toldTwice periodic failing) = some 500) ∧
      (∃ w : World Rat,
        Chronicles measured (toldTwice true false ++ [.evacuated .young 20 21 false false]) w ∧
          w.policy.threshold.allocationTime = 9 ∧ w.policy.threshold.allocatedBytes = 1500) ∧
      ∃ w : World Rat,
        Chronicles measured (toldTwice false true ++ [.evacuated .young 20 21 false false]) w ∧
          w.policy.threshold.allocationTime = 19 ∧ w.policy.threshold.allocatedBytes = 500 := by
  refine ⟨by decide +kernel, ?_, ?_⟩
  · obtain ⟨w, hrun, hsample⟩ :=
      exists_chronicle measured plainSettings plainHeap 1 (pausesTwice true false)
        (toldTwice true false ++ [.evacuated .young 20 21 false false])
        (P := fun w => decide (w.policy.threshold.allocationTime = 9 ∧
          w.policy.threshold.allocatedBytes = 1500))
        (by decide +kernel)
    exact ⟨w, hrun, of_decide_eq_true hsample⟩
  · obtain ⟨w, hrun, hsample⟩ :=
      exists_chronicle measured plainSettings plainHeap 1 (pausesTwice false true)
        (toldTwice false true ++ [.evacuated .young 20 21 false false])
        (P := fun w => decide (w.policy.threshold.allocationTime = 19 ∧
          w.policy.threshold.allocatedBytes = 500))
        (by decide +kernel)
    exact ⟨w, hrun, of_decide_eq_true hsample⟩

end PauseGoal.Collector
