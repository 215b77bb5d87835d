import PauseGoal.Proofs.AccountSteps
import PauseGoal.Proofs.CycleOrder
import Mathlib.Data.List.Induction

/-!
# The chronicle of a run

What the marking threshold learns at a pause was measured over many calls before it. A statement
about such a measurement needs to look back, so a run is told as a chronicle: the bytes counted, the
starts of pauses, the pauses with their times and what else may end a measurement, in order.
`Chronicles` are the runs with their chronicles. The pauses in a chronicle are those that the
journal reports.

Measurements look back to the last episode of some sort; `since` finds it and what came after.
-/

namespace PauseGoal.Collector

open Marking (Length Phases Threshold)
open Pause (Kind Record)

/-! ## Looking back -/

section since

variable {β : Type} {p q : β → Bool} {xs rest : List β} {x : β}

/-- The last element with a property, and the elements after it. -/
def since (p : β → Bool) (xs : List β) : Option (β × List β) :=
  xs.foldl (fun found x => if p x then some (x, []) else found.map fun r => (r.1, r.2 ++ [x])) none

theorem since_concat (p : β → Bool) (xs : List β) (x : β) :
    since p (xs ++ [x]) =
      if p x then some (x, []) else (since p xs).map fun r => (r.1, r.2 ++ [x]) := by
  rw [since, List.foldl_append]
  rfl

theorem since_concat_of_true (h : p x = true) : since p (xs ++ [x]) = some (x, []) := by
  rw [since_concat, if_pos h]

theorem since_concat_of_false (h : p x = false) :
    since p (xs ++ [x]) = (since p xs).map fun r => (r.1, r.2 ++ [x]) := by
  rw [since_concat, h]
  rfl

theorem since_append_of_false (h : ∀ y ∈ rest, p y = false) :
    since p (xs ++ rest) = (since p xs).map fun r => (r.1, r.2 ++ rest) := by
  induction rest generalizing xs with
  | nil => cases hfound : since p xs <;> simp [hfound]
  | cons y rest ih =>
    rw [← List.singleton_append, ← List.append_assoc,
      ih fun z hz => h z (List.mem_cons_of_mem _ hz),
      since_concat_of_false (h y List.mem_cons_self)]
    cases since p xs <;> simp

/-- What `since` finds is the last element with the property. -/
theorem since_eq_some_iff :
    since p xs = some (x, rest) ↔
      p x = true ∧ (∀ y ∈ rest, p y = false) ∧ ∃ before, xs = before ++ x :: rest := by
  constructor
  · intro h
    induction xs using List.reverseRecOn generalizing x rest with
    | nil => cases h
    | append_singleton xs y ih =>
      cases hy : p y with
      | true =>
        rw [since_concat_of_true hy] at h
        cases h
        exact ⟨hy, nofun, xs, rfl⟩
      | false =>
        rw [since_concat_of_false hy] at h
        obtain ⟨⟨x', rest'⟩, hfound, heq⟩ := Option.map_eq_some_iff.mp h
        cases heq
        obtain ⟨hx, hrest, before, rfl⟩ := ih hfound
        refine ⟨hx, fun z hz => ?_, before, by simp⟩
        rcases List.mem_append.mp hz with hz | hz
        · exact hrest z hz
        · rw [List.mem_singleton.mp hz]
          exact hy
  · rintro ⟨hx, hrest, before, rfl⟩
    rw [← List.singleton_append, ← List.append_assoc, since_append_of_false hrest,
      since_concat_of_true hx]
    rfl

/-- If the last element of a larger sort is one of a smaller sort, it is the last one of that. -/
theorem since_of_imp (h : since p xs = some (x, rest)) (himp : ∀ y, q y = true → p y = true)
    (hx : q x = true) : since q xs = some (x, rest) := by
  obtain ⟨_, hrest, hxs⟩ := since_eq_some_iff.mp h
  refine since_eq_some_iff.mpr ⟨hx, fun y hy => ?_, hxs⟩
  cases hq : q y with
  | false => rfl
  | true => exact absurd ((hrest y hy).symm.trans (himp y hq)) nofun

end since

/-! ## Episodes -/

/-- What a chronicle tells. Times are in seconds. -/
inductive Episode (α : Type) where
  /-- The policy started. -/
  | opened (now : α)
  /-- Mutators allocated bytes into the old generation. -/
  | allocated (bytes : Nat)
  /-- An evacuation pause started. -/
  | started (start : α)
  /-- An evacuation pause was reported; it was for a periodic collection or not, and its evacuation
  failed or not. -/
  | evacuated (kind : Kind) (start finish : α) (periodic failed : Bool)
  /-- A full collection was reported. -/
  | compacted (start finish : α)
  | remarked (start finish : α)
  /-- Cleanup was reported; it found enough reclaimable space for mixed collections or not. -/
  | cleaned (start finish : α) (found : Bool)
  /-- A request overrode the phase that the policy was in. -/
  | overridden
deriving DecidableEq, Repr

variable {α : Type}

/-- The pause that an episode tells of. -/
def Episode.record? : Episode α → Option (Record α)
  | .evacuated kind start finish _ _ => some ⟨kind, start, finish⟩
  | .compacted start finish => some ⟨.full, start, finish⟩
  | .remarked start finish => some ⟨.remark, start, finish⟩
  | .cleaned start finish _ => some ⟨.cleanup, start, finish⟩
  | _ => none

variable [Scalar α]

namespace World

/-- What a call adds to the chronicle. -/
def tells (w : World α) : Call α → List (Episode α)
  | .chore (.addOldAllocation bytes) => [.allocated bytes]
  | .decide heap => if w.policy.control.overridden (w.view heap) then [.overridden] else []
  | .startPause _ start => [.started start]
  | .endPause heap now pause =>
    [.evacuated w.policy.control.pauseKind (now - pause / num 1000) now
      (decide (heap.cause = .periodic)) heap.evacuationFailed]
  | .endFull _ now => [.compacted w.policy.fullStart now]
  | .endRemark now => [.remarked w.policy.remarkStart now]
  | .endCleanup heap now =>
    [.cleaned w.policy.cleanupStart now (w.policy.control.worthwhile (w.view heap))]
  | _ => []

/-- A policy that has just started, before any call. -/
def opened (policy : Policy α) (journal : Journal α) : World α :=
  ⟨policy, none, .mutators, none, [], journal⟩

end World

/-- The worlds that runs of allowed calls reach, none of which ends in a fault, with the chronicles
of these runs. -/
inductive Chronicles (allowed : World α → Call α → Bool) : List (Episode α) → World α → Prop
  | opened {settings : Settings α} {heap : Heap α} {now : α} {fullCauses : List Cause}
      {policy : Policy α} {before after : Journal α}
      (hstart : (Policy.start settings heap now fullCauses).outcome before =
        (.ok (.ok policy), after)) :
      Chronicles allowed [.opened now] (.opened policy after)
  | call {es : List (Episode α)} {w w' : World α} {c : Call α} (hrun : Chronicles allowed es w)
      (hallowed : allowed w c = true) (hcall : w.call c = .ok w') :
      Chronicles allowed (es ++ w.tells c) w'

/-- The end of a run that goes on with a list of calls and its chronicle, unless one of them is not
allowed or ends in a fault. -/
def tell (allowed : World α → Call α → Bool) (es : List (Episode α)) (w : World α) :
    List (Call α) → Option (List (Episode α) × World α)
  | [] => some (es, w)
  | c :: rest =>
    if allowed w c then
      match w.call c with
      | .ok w' => tell allowed (es ++ w.tells c) w' rest
      | .error _ => none
    else none

theorem chronicles_of_tell {allowed : World α → Call α → Bool} {es es' : List (Episode α)}
    {w w' : World α} {calls : List (Call α)} (hrun : Chronicles allowed es w)
    (h : tell allowed es w calls = some (es', w')) : Chronicles allowed es' w' := by
  -- on the calls; chronicle and world change with each of them
  induction calls generalizing es w with
  | nil =>
    cases h
    exact hrun
  | cons c rest ih =>
    unfold tell at h
    split at h
    · next hallowed =>
      split at h
      · next w₁ hcall => exact ih (hrun.call hallowed hcall) h
      · cases h
    · cases h

/-- The chronicle and the end of a run that makes the given calls, if there is one. -/
def chronicleOf (allowed : World α → Call α → Bool) (settings : Settings α) (heap : Heap α)
    (now : α) (calls : List (Call α)) : Option (List (Episode α) × World α) :=
  match (Policy.start settings heap now []).outcome {} with
  | (.ok (.ok policy), journal) => tell allowed [.opened now] (.opened policy journal) calls
  | _ => none

/-- A run that can be computed is one, and so is its chronicle. -/
theorem exists_chronicle [DecidableEq α] (allowed : World α → Call α → Bool)
    (settings : Settings α) (heap : Heap α) (now : α) (calls : List (Call α))
    (es : List (Episode α)) {P : World α → Bool}
    (h : (chronicleOf allowed settings heap now calls).any
      (fun r => decide (r.1 = es) && P r.2) = true) :
    ∃ w, Chronicles allowed es w ∧ P w = true := by
  unfold chronicleOf at h
  split at h
  · next policy journal hstart =>
    obtain ⟨⟨told, w⟩, htell, hends⟩ := (Option.any_eq_true _ _).mp h
    obtain ⟨hes, hP⟩ := Bool.and_eq_true_iff.mp hends
    obtain rfl := of_decide_eq_true hes
    exact ⟨w, chronicles_of_tell (.opened hstart) htell, hP⟩
  · cases h

/-! ## What a call does to the account -/

/-- The call leaves the account alone. -/
def Call.isPlain : Call α → Bool
  | .transfer _ _ | .startRemark _ | .startCleanup _ | .request | .arrive _ | .forceMarking _ _
  | .finishInitialMark | .setCandidates _ | .takeCandidates _ | .chooseOld _ _
  | .chooseOptional _ _ _ => true
  | .chore (.addOldAllocation _) | .chore (.resize _) | .chore (.measure _) => false
  | .chore _ => true
  | _ => false

/-- The account after a call. -/
inductive AccountStep (w : World α) : Call α → Account α → Prop
  | plain {c : Call α} (hplain : c.isPlain = true) : AccountStep w c w.policy.account
  | allocate {bytes : Nat} :
      AccountStep w (.chore (.addOldAllocation bytes))
        { w.policy.account with oldAllocation := w.policy.oldAllocation + bytes }
  | resize {regions target : Nat} :
      AccountStep w (.chore (.resize regions))
        { w.policy.account with threshold := w.policy.threshold.setTarget target }
  | measure {breakdown : Pause.Breakdown α} :
      AccountStep w (.chore (.measure breakdown))
        { w.policy.account with started := breakdown.start }
  | beginPause : AccountStep w .beginPause { w.policy.account with started := num 0 }
  | decide {heap : Heap α} :
      AccountStep w (.decide heap)
        { w.policy.account with
          markingLength :=
            if w.policy.control.overridden (w.view heap) then .unknown
            else w.policy.markingLength }
  | startPause {heap : Heap α} {start : α} :
      AccountStep w (.startPause heap start)
        { w.policy.account with started := start }
  | endPause {heap : Heap α} {now pause : α} {length : Length α} {youngSize : Nat} {a : Account α}
      (hended : w.policy.Ended (w.view heap) now pause length youngSize a) :
      AccountStep w (.endPause heap now pause) a
  | startFull {heap : Heap α} {now : α} :
      AccountStep w (.startFull heap now) { w.policy.account with fullStart := now }
  | endFull {heap : Heap α} {now : α} :
      AccountStep w (.endFull heap now)
        { w.policy.account with
          markingLength := .unknown
          oldAllocation := 0
          lastPauseEnd := now * num 1000 }
  | endRemark {now : α} :
      AccountStep w (.endRemark now)
        { w.policy.account with
          markingLength := w.policy.markingLength.addPause (now - w.policy.remarkStart)
          lastPauseEnd :=
            w.policy.account.lastPauseEnd + (now - w.policy.remarkStart) * num 1000 }
  | endCleanup {heap : Heap α} {now : α} :
      AccountStep w (.endCleanup heap now)
        { w.policy.account with
          markingLength :=
            if w.policy.control.worthwhile (w.view heap) then
              w.policy.markingLength.addPause (now - w.policy.cleanupStart)
            else .unknown
          lastPauseEnd :=
            w.policy.account.lastPauseEnd + (now - w.policy.cleanupStart) * num 1000 }

theorem AccountStep.ended {w : World α} {heap : Heap α} {now pause : α} {a : Account α}
    (h : AccountStep w (.endPause heap now pause) a) :
    ∃ length youngSize, w.policy.Ended (w.view heap) now pause length youngSize a := by
  cases h with
  | plain hplain => cases hplain
  | endPause hended => exact ⟨_, _, hended⟩

/-- Only at the end of an evacuation pause does the threshold learn; a heap of another size sets its
target. -/
theorem AccountStep.threshold_eq {w : World α} {c : Call α} {a : Account α} (h : AccountStep w c a)
    (hother : ∀ heap now pause, c ≠ .endPause heap now pause) :
    a.threshold = w.policy.threshold ∨
      ∃ target, a.threshold = w.policy.threshold.setTarget target := by
  cases h with
  | resize => exact .inr ⟨_, rfl⟩
  | endPause => exact absurd rfl (hother _ _ _)
  | _ => exact .inl rfl

theorem account_of_start {settings : Settings α} {heap : Heap α} {now : α}
    {fullCauses : List Cause} {policy : Policy α} {before after : Journal α}
    (h : (Policy.start settings heap now fullCauses).outcome before =
      (.ok (.ok policy), after)) : policy.account = policy.opening now := by
  obtain ⟨_, _, _, haccount⟩ := Policy.account_start settings heap now fullCauses _ _ _ h
  exact haccount policy rfl

namespace World

theorem tells_of_isPlain (w : World α) {c : Call α} (h : c.isPlain = true) : w.tells c = [] := by
  cases c with
  | chore chore => cases chore <;> first | rfl | cases h
  | _ => first | rfl | cases h

/-- The call was one of the steps and reported the pauses that it tells of. -/
def Told (w : World α) (c : Call α) (w' : World α) : Prop :=
  AccountStep w c w'.policy.account ∧
    w'.journal.records = w.journal.records ++ (w.tells c).filterMap Episode.record?

theorem told_of_act {β : Type} {w w' : World α} {c : Call α} {x : Act α β} {next : β → World α}
    (h : w.act x next = .ok w')
    (hx : x.Records fun b records => AccountStep w c (next b).policy.account ∧
      records = (w.tells c).filterMap Episode.record?) : w.Told c w' := by
  obtain ⟨b, journal, hout, rfl⟩ := exists_of_act_eq_ok h
  obtain ⟨events, happend, hstep, hrecords⟩ := hx _ _ _ hout
  refine ⟨hstep, ?_⟩
  rw [← hrecords, Journal.records, Journal.records, ← recordsOf_append, ← happend]

theorem told_of_quiet {β : Type} {w w' : World α} {c : Call α} {x : Act α β} {next : β → World α}
    (h : w.act x next = .ok w') (htells : (w.tells c).filterMap Episode.record? = [])
    (hx : x.Quiet fun b => AccountStep w c (next b).policy.account) : w.Told c w' :=
  told_of_act h (Act.Records.mono hx fun _ _ hb => ⟨hb.2, hb.1.trans htells.symm⟩)

theorem told_of_plain {w w' : World α} {c : Call α} (hplain : c.isPlain = true)
    (hjournal : w'.journal.records = w.journal.records)
    (haccount : w'.policy.account = w.policy.account) : w.Told c w' := by
  refine ⟨haccount ▸ .plain hplain, ?_⟩
  rw [w.tells_of_isPlain hplain, hjournal]
  exact (List.append_nil _).symm

theorem told_of_plain_act {β : Type} {w w' : World α} {c : Call α} {x : Act α β}
    {next : β → World α} (h : w.act x next = .ok w') (hplain : c.isPlain = true)
    (hx : x.Quiet fun b => (next b).policy.account = w.policy.account) : w.Told c w' := by
  refine told_of_quiet h (by rw [w.tells_of_isPlain hplain]; rfl) (hx.mono fun b hb => ?_)
  rw [hb]
  exact .plain hplain

theorem told_of_doChore {w w' : World α} {chore : Chore α} (h : w.doChore chore = .ok w') :
    w.Told (.chore chore) w' := by
  cases chore with
  | newEden =>
    cases h
    exact told_of_plain rfl rfl rfl
  | addOldAllocation bytes =>
    obtain ⟨p, hp, hw'⟩ := Checked.exists_of_bind_eq_ok h
    cases hw'
    refine ⟨?_, (List.append_nil _).symm⟩
    show AccountStep w _ p.account
    rw [Policy.account_addOldAllocation hp]
    exact .allocate
  | recordSurvivors tag bytes =>
    obtain ⟨p, hp, hw'⟩ := Checked.exists_of_bind_eq_ok h
    cases hw'
    exact told_of_plain rfl rfl (Policy.account_recordSurvivors hp)
  | recordAges ages =>
    obtain ⟨p, hp, hw'⟩ := Checked.exists_of_bind_eq_ok h
    cases hw'
    exact told_of_plain rfl rfl (Policy.account_recordAges hp)
  | exhaustSurvivorSpace =>
    simp only [doChore] at h
    exact told_of_plain_act h rfl w.policy.account_exhaustSurvivorSpace
  | measure breakdown =>
    cases h
    exact ⟨.measure, (List.append_nil _).symm⟩
  | resize regions =>
    obtain ⟨p, hp, hw'⟩ := Checked.exists_of_bind_eq_ok h
    cases hw'
    obtain ⟨target, haccount⟩ := Policy.account_resize hp
    refine ⟨?_, (List.append_nil _).symm⟩
    show AccountStep w _ p.account
    rw [haccount]
    exact .resize
  | chooseYoungLength heap now =>
    exact told_of_plain_act h rfl (w.policy.account_chooseYoungLength (w.view heap) now)
  | revise heap now entries =>
    exact told_of_plain_act h rfl (w.policy.account_revise (w.view heap) now entries)
  | readRefinement heap full =>
    exact told_of_plain_act h rfl (w.policy.account_readRefinement (w.view heap) full)
  | needsMarking heap source bytes =>
    exact told_of_plain_act h rfl
      ((w.policy.quiet_needsMarking (w.view heap) source bytes).mono fun _ _ => rfl)

theorem told_of_perform {w w' : World α} {c : Call α} (h : w.perform c = .ok w') :
    w.Told c w' := by
  cases c with
  | beginPause =>
    cases h
    exact ⟨.beginPause, (List.append_nil _).symm⟩
  | decide heap =>
    refine told_of_quiet h ?_ ((w.policy.account_decideMarking (w.view heap)).mono fun r hr => ?_)
    · simp only [tells]
      split <;> rfl
    · show AccountStep w _ r.2.1.account
      rw [hr]
      exact .decide
  | startPause heap start =>
    have hquiet := w.policy.account_startPause (w.view heap) start
    refine told_of_quiet h rfl (hquiet.mono fun p hp => ?_)
    show AccountStep w _ p.account
    rw [hp]
    exact .startPause
  | transfer count learn =>
    cases h
    exact told_of_plain rfl rfl rfl
  | endPause heap now pause =>
    have hrecords := w.policy.records_endPause (w.view heap) now pause
    refine told_of_act h (Act.Records.mono hrecords fun r records hr => ?_)
    obtain ⟨hrecords, length, youngSize, hended⟩ := hr
    exact ⟨.endPause hended, hrecords⟩
  | startFull heap now =>
    simp only [perform] at h
    have hquiet := w.policy.account_startFull (w.view heap) now
    refine told_of_quiet h rfl (hquiet.mono fun r hr => ?_)
    show AccountStep w _ r.1.account
    rw [hr]
    exact .startFull
  | endFull heap now =>
    have hrecords := w.policy.records_endFull (w.view heap) now
    refine told_of_act h (Act.Records.mono hrecords fun p records hp => ?_)
    refine ⟨?_, hp.1⟩
    show AccountStep w _ p.account
    rw [hp.2]
    exact .endFull
  | startRemark now =>
    cases h
    exact told_of_plain rfl rfl rfl
  | endRemark now =>
    have hrecords := w.policy.records_endRemark now
    refine told_of_act h (Act.Records.mono hrecords fun p records hp => ?_)
    refine ⟨?_, hp.1⟩
    show AccountStep w _ p.account
    rw [hp.2]
    exact .endRemark
  | startCleanup now =>
    cases h
    exact told_of_plain rfl rfl rfl
  | endCleanup heap now =>
    have hrecords := w.policy.records_endCleanup (w.view heap) now
    refine told_of_act h (Act.Records.mono hrecords fun r records hr => ?_)
    refine ⟨?_, hr.1⟩
    show AccountStep w _ r.1.account
    rw [hr.2]
    exact .endCleanup
  | request =>
    cases h
    exact told_of_plain rfl rfl rfl
  | arrive arrivals =>
    cases h
    exact told_of_plain rfl rfl rfl
  | forceMarking heap cause =>
    exact told_of_plain_act h rfl (w.policy.account_forceMarking (w.view heap) cause)
  | finishInitialMark => exact told_of_plain_act h rfl w.policy.account_finishInitialMark
  | setCandidates candidates =>
    cases h
    exact told_of_plain rfl rfl rfl
  | takeCandidates count =>
    simp only [perform] at h
    split at h
    · cases h
      exact told_of_plain rfl rfl rfl
    · obtain ⟨rest, _, hw'⟩ := Checked.exists_of_bind_eq_ok h
      cases hw'
      exact told_of_plain rfl rfl rfl
  | chooseOld heap timeLeft =>
    exact told_of_plain_act h rfl
      ((w.policy.quiet_chooseOldRegions _ timeLeft).mono fun _ _ => rfl)
  | chooseOptional heap most timeLeft =>
    exact told_of_plain_act h rfl
      ((w.policy.quiet_chooseOptionalRegions _ most timeLeft).mono fun _ _ => rfl)
  | chore chore => exact told_of_doChore h

theorem told_of_call {w w' : World α} {c : Call α} (h : w.call c = .ok w') : w.Told c w' := by
  obtain ⟨w₁, hperform, hpolicy, hjournal⟩ := exists_perform_of_call h
  obtain ⟨hstep, hrecords⟩ := told_of_perform hperform
  exact ⟨hpolicy ▸ hstep, hjournal ▸ hrecords⟩

end World

/-! ## Kinds of evacuation pauses -/

omit [Scalar α] in
theorem pauseKind_cases (c : Control α) :
    c.pauseKind = .young ∨ c.pauseKind = .lastYoung ∨ c.pauseKind = .initialMark ∨
      c.pauseKind = .mixed := by
  unfold Control.pauseKind Phases.pauseKind
  split
  · simp
  · split
    · simp
    · split <;> simp

omit [Scalar α] in
/-- Outside the young-only phase pauses are mixed, and only there. -/
theorem Coherent.pauseKind_eq_mixed_iff {s : Standing α} (h : Coherent s)
    (hfull : s.control.phases.full = false) :
    s.control.pauseKind = .mixed ↔ s.control.phases.youngOnly = false := by
  rw [Control.pauseKind, Phases.pauseKind_eq_mixed]
  constructor
  · exact fun hmixed => hmixed.2.2
  · intro hyoung
    refine ⟨?_, ?_, hyoung⟩
    · cases hscheduled : s.control.scheduled with
      | false => rfl
      | true =>
        have hyoung' := (h.initialMark hfull hscheduled).1
        exact absurd (hyoung.symm.trans hyoung') Bool.false_ne_true
    · cases hbefore : s.control.phases.beforeMixed with
      | false => rfl
      | true =>
        exact absurd (hyoung.symm.trans (h.lastYoung hfull hbefore)) Bool.false_ne_true

omit [Scalar α] in
/-- A pause of the young-only phase without initial-mark work is one of two kinds. -/
theorem Coherent.pauseKind_young_iff {s : Standing α} (h : Coherent s)
    (hfull : s.control.phases.full = false) :
    s.control.pauseKind = .young ∨ s.control.pauseKind = .lastYoung ↔
      s.control.phases.youngOnly = true ∧ s.control.scheduled = false := by
  have hmixed := h.pauseKind_eq_mixed_iff hfull
  have hmark : s.control.pauseKind = .initialMark ↔ s.control.scheduled = true :=
    Phases.pauseKind_eq_initialMark
  have hcases := pauseKind_cases s.control
  rw [← Bool.not_eq_false, ← hmixed, ← Bool.not_eq_true, ← hmark]
  constructor
  · rintro (hkind | hkind)
    · simp [hkind]
    · simp [hkind]
  · rintro ⟨hnotMixed, hnotMark⟩
    simpa [hnotMixed, hnotMark] using hcases

omit [Scalar α] in
/-- A pause that is about to end is outside full collections. -/
theorem Coherent.full_of_transferred {s : Standing α} (h : Coherent s)
    (hstage : s.stage = .transferred) : s.control.phases.full = false :=
  h.outsideFull (by rw [hstage]; nofun)

/-! ## Runs -/

namespace Chronicles

variable {allowed : World α → Call α → Bool} {es : List (Episode α)} {w : World α}

/-- A run that is told is a run, and the pauses that it tells of are those that the journal
reports. -/
theorem exists_reaches (hrun : Chronicles allowed es w)
    (horder : ∀ w c, allowed w c = true → inOrder w.standing c = true) :
    ∃ w₀ : World α, w₀.Fresh ∧ Reaches inOrder w₀ w ∧
      w.journal.records = w₀.journal.records ++ es.filterMap Episode.record? := by
  induction hrun with
  | opened hstart => exact ⟨_, .intro hstart, .start, (List.append_nil _).symm⟩
  | call _ hallowed hcall ih =>
    obtain ⟨w₀, hfresh, hreaches, hrecords⟩ := ih
    refine ⟨w₀, hfresh, hreaches.step (horder _ _ hallowed) hcall, ?_⟩
    rw [(World.told_of_call hcall).2, hrecords, List.filterMap_append, List.append_assoc]

theorem coherent (hrun : Chronicles allowed es w)
    (horder : ∀ w c, allowed w c = true → inOrder w.standing c = true) :
    Coherent w.standing := by
  obtain ⟨w₀, hfresh, hreaches, _⟩ := hrun.exists_reaches horder
  exact (hreaches.coherent hfresh (fun _ _ h => h) (I := fun _ => True) trivial
    fun _ _ _ _ _ _ _ => trivial).1

end Chronicles

end PauseGoal.Collector
