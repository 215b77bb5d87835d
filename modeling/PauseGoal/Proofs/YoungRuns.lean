import PauseGoal.Proofs.Chronicle
import PauseGoal.Proofs.YoungPlan

/-!
# When the young generation is sized

Of the calls of a collector, those that end a collection, ask for a choice or revise one choose a
length; a new size of the heap changes bounds and reserve; all others leave the plan alone and
report no length. `Planned` is the one inversion for all calls. Over a run in any order of calls the
plan stays current: it follows from the settings, the free regions at the last end of a collection
and the last size of the heap.
-/

namespace PauseGoal

open Checked (Meets meets_pure meets_value)
open Fault (OutsideSearch)

variable {α : Type}

/-! ## The calls of the collector -/

namespace Collector

variable [Scalar α]

/-- The heap and the time from which a call chooses a length. -/
def World.chooses (w : World α) : Call α → Option (Heap α × α)
  | .endPause heap now _ | .endFull heap now | .chore (.chooseYoungLength heap now) =>
    some (heap, now)
  | .chore (.revise heap now entries) =>
    if w.policy.expectedEntries < entries then some (heap, now) else none
  | _ => none

omit [Scalar α] in
/-- The free regions that the end of a collection finds. -/
def Call.freed? : Call α → Option Nat
  | .endPause heap _ _ | .endFull heap _ => some heap.free
  | _ => none

omit [Scalar α] in
/-- The size of the heap that a call tells, in regions. -/
def Call.resized? : Call α → Option Nat
  | .chore (.resize regions) => some regions
  | _ => none

/-- What a call does to the plan, and the lengths that it reports. -/
inductive Planned (w : World α) (c : Call α) (w' : World α) : Prop
  | kept (hchooses : w.chooses c = none) (hfreed : c.freed? = none) (hresized : c.resized? = none)
      (hplan : w'.policy.plan = w.policy.plan)
      (hlengths : w'.journal.lengths = w.journal.lengths)
  | resized {regions : Nat} (hchooses : w.chooses c = none) (hfreed : c.freed? = none)
      (hresized : c.resized? = some regions)
      (hplan : w'.policy.plan =
        { w.policy.plan with
          sizer := w.policy.sizer.forHeap regions
          reserve := Policy.reserveAt w.policy.settings regions })
      (hlengths : w'.journal.lengths = w.journal.lengths)
  | chosen {heap : Heap α} {now : α} {unbounded : Nat}
      (hchooses : w.chooses c = some (heap, now)) (hresized : c.resized? = none)
      (hchosen : w.policy.Rechosen (c.freed?.getD w.policy.freeRegions) heap now unbounded
        w'.policy)
      (hlengths : w'.journal.lengths = w.journal.lengths ++
        [⟨w'.policy.youngTarget, unbounded, w'.policy.youngMaximum⟩])

namespace World

omit [Scalar α] in
theorem lengths_append {journal journal' : Journal α} {events : List (Event α)}
    (h : journal'.events = journal.events ++ events) :
    journal'.lengths = journal.lengths ++ lengthsOf events := by
  rw [Journal.lengths, h, lengthsOf_append]
  rfl

/-- A call that leaves the plan alone and reports no length. -/
theorem planned_of_silent {w w' : World α} {c : Call α} {events : List (Event α)}
    (hchooses : w.chooses c = none) (hfreed : c.freed? = none) (hresized : c.resized? = none)
    (happend : w'.journal.events = w.journal.events ++ events) (hsilent : lengthsOf events = [])
    (hplan : w'.policy.plan = w.policy.plan) : Planned w c w' := by
  refine .kept hchooses hfreed hresized hplan ?_
  rw [lengths_append happend, hsilent, List.append_nil]

/-- What a call ends in: the plan and the lengths after it, or a fault that is not about the search
if a length was to be chosen. -/
def MeetsPlan (w : World α) (c : Call α) (x : Checked α (World α)) : Prop :=
  Meets x (Planned w c) fun fault => (w.chooses c).isSome = true → fault.OutsideSearch

omit [Scalar α] in
/-- A call that chooses no length may end in any fault. -/
theorem outsideSearch_of_none {w : World α} {c : Call α} {fault : Fault α}
    (hchooses : w.chooses c = none) (h : (w.chooses c).isSome = true) : fault.OutsideSearch := by
  rw [hchooses] at h
  cases h

/-- A computation of the policy on behalf of a call that leaves the plan alone. -/
theorem meetsPlan_of_silent {β : Type} {w : World α} {c : Call α} {x : Act α β}
    {next : β → World α} {post : β → List (Event α) → Prop} {fail : Fault α → Prop}
    (hx : x.Meets post fail) (hchooses : w.chooses c = none) (hfreed : c.freed? = none)
    (hresized : c.resized? = none)
    (hnext : ∀ b events, post b events →
      lengthsOf events = [] ∧ (next b).policy.plan = w.policy.plan) :
    w.MeetsPlan c (w.act x next) := by
  refine act_meets (hx.mono (fun _ _ h => h) fun _ _ => outsideSearch_of_none hchooses) ?_
  intro b events journal happend hpost
  obtain ⟨hsilent, hplan⟩ := hnext b events hpost
  exact planned_of_silent hchooses hfreed hresized happend hsilent hplan

/-- A computation of the policy on behalf of a call that chooses a length. -/
theorem meetsPlan_of_chosen {β : Type} {w : World α} {c : Call α} {heap : Heap α} {now : α}
    {x : Act α β} {next : β → World α} {post : β → List (Event α) → Prop} {fail : Fault α → Prop}
    (hx : x.Meets post fail) (hchooses : w.chooses c = some (heap, now))
    (hresized : c.resized? = none) (hfail : ∀ fault, fail fault → fault.OutsideSearch)
    (hnext : ∀ b events, post b events → ∃ unbounded,
      lengthsOf events = lengthsOf [(next b).policy.lengthsEvent unbounded] ∧
        w.policy.Rechosen (c.freed?.getD w.policy.freeRegions) heap now unbounded
          (next b).policy) :
    w.MeetsPlan c (w.act x next) := by
  refine act_meets (hx.mono (fun _ _ h => h) fun _ h _ => hfail _ h) ?_
  intro b events journal happend hpost
  obtain ⟨unbounded, hevents, hchosen⟩ := hnext b events hpost
  refine .chosen hchooses hresized hchosen ?_
  rw [lengths_append happend, hevents]
  rfl

/-- The answers of the heap to a choice do not depend on its candidates. -/
theorem rechosen_of_view {w : World α} {p q : Policy α} {free : Nat} {heap : Heap α} {now : α}
    {unbounded : Nat} (h : p.Rechosen free (w.view heap) now unbounded q) :
    p.Rechosen free heap now unbounded q := by
  obtain ⟨estimate, hsized⟩ := h.sized
  exact ⟨h.plan, estimate, hsized.estimated, hsized.asked, hsized.target, hsized.maximum⟩

theorem doChore_meetsPlan (w : World α) (chore : Chore α) :
    w.MeetsPlan (.chore chore) (w.doChore chore) := by
  -- what a chore does without the journal
  have silent {x : Checked α (Policy α)} {fail : Fault α → Prop}
      (hx : Meets x (fun q => q.plan = w.policy.plan) fail)
      (hchooses : w.chooses (.chore chore) = none)
      (hresized : (Call.chore chore).resized? = none) :
      w.MeetsPlan (.chore chore) (do return { w with policy := ← x }) := by
    refine (hx.mono (fun _ h => h) fun _ _ => outsideSearch_of_none hchooses).bind fun q hq => ?_
    exact meets_pure (.kept hchooses rfl hresized hq rfl)
  cases chore with
  | newEden => exact .kept rfl rfl rfl rfl rfl
  | addOldAllocation bytes =>
    refine silent ((w.policy.addOldAllocation_meets bytes).mono ?_ fun _ h => h) rfl rfl
    rintro _ rfl
    rfl
  | recordSurvivors tag bytes =>
    refine silent ((w.policy.recordSurvivors_meets tag bytes).mono ?_ fun _ h => h) rfl rfl
    rintro _ ⟨_, _, rfl⟩
    rfl
  | recordAges ages =>
    refine silent ((w.policy.recordAges_meets ages).mono ?_ fun _ h => h) rfl rfl
    rintro _ ⟨_, rfl⟩
    rfl
  | exhaustSurvivorSpace =>
    simp only [doChore]
    refine meetsPlan_of_silent w.policy.exhaustSurvivorSpace_meets rfl rfl rfl ?_
    rintro _ _ ⟨rfl, rfl⟩
    exact ⟨rfl, rfl⟩
  | measure breakdown => exact .kept rfl rfl rfl rfl rfl
  | resize regions =>
    refine ((w.policy.resize_meets regions).mono (fun _ h => h)
      fun _ _ => outsideSearch_of_none rfl).bind ?_
    rintro _ rfl
    exact meets_pure (.resized rfl rfl rfl rfl rfl)
  | chooseYoungLength heap now =>
    refine meetsPlan_of_chosen (w.policy.rechosen_of_chooseYoungLength (w.view heap) now) rfl rfl
      (fun _ h => h.outsideSearch) ?_
    rintro ⟨unbounded, q⟩ _ ⟨rfl, hchosen, _⟩
    exact ⟨unbounded, rfl, rechosen_of_view hchosen⟩
  | revise heap now entries =>
    by_cases hmore : w.policy.expectedEntries < entries
    · refine meetsPlan_of_chosen (w.policy.revise_meets (w.view heap) now entries)
        (if_pos hmore) rfl (fun _ h => h.outsideSearch) ?_
      rintro q _ (⟨hfewer, _⟩ | ⟨_, unbounded, rfl, hchosen⟩)
      · exact absurd hmore hfewer
      · exact ⟨unbounded, rfl, rechosen_of_view hchosen⟩
    · refine meetsPlan_of_silent (w.policy.revise_meets (w.view heap) now entries)
        (if_neg hmore) rfl rfl ?_
      rintro q _ (⟨_, rfl, rfl⟩ | ⟨hmore', _⟩)
      · exact ⟨rfl, rfl⟩
      · exact absurd hmore' hmore
  | readRefinement heap full =>
    refine meetsPlan_of_silent (w.policy.readRefinement_meets (w.view heap) full) rfl rfl rfl ?_
    rintro _ _ ⟨rfl, _, _, rfl⟩
    exact ⟨rfl, rfl⟩
  | needsMarking heap source bytes =>
    refine meetsPlan_of_silent (w.policy.needsMarking_meets (w.view heap) source bytes)
      rfl rfl rfl ?_
    rintro _ _ rfl
    exact ⟨rfl, rfl⟩

theorem perform_meetsPlan (w : World α) (c : Call α) : w.MeetsPlan c (w.perform c) := by
  cases c with
  | beginPause => exact .kept rfl rfl rfl rfl rfl
  | decide heap =>
    refine meetsPlan_of_silent (w.policy.decideMarking_meets (w.view heap)) rfl rfl rfl ?_
    rintro ⟨_, _, _⟩ _ ⟨hevents, ⟨_, _, _, rfl⟩, _⟩
    refine ⟨?_, rfl⟩
    rcases hevents with rfl | ⟨_, _, rfl⟩ <;> rfl
  | startPause heap start =>
    refine meetsPlan_of_silent (w.policy.startPause_meets (w.view heap) start) rfl rfl rfl ?_
    rintro _ _ ⟨⟨_, rfl⟩, _, _, _, _, rfl⟩
    exact ⟨rfl, rfl⟩
  | transfer count learn => exact .kept rfl rfl rfl rfl rfl
  | endPause heap now pause =>
    refine meetsPlan_of_chosen (w.policy.endPause_meets (w.view heap) now pause) rfl rfl
      (fun _ h => h) ?_
    rintro r events ⟨unbounded, hevents, hchosen⟩
    exact ⟨unbounded, hevents, rechosen_of_view hchosen⟩
  | startFull heap now =>
    simp only [perform]
    refine meetsPlan_of_silent (w.policy.startFull_meets (w.view heap) now) rfl rfl rfl ?_
    rintro ⟨_, _⟩ _ ⟨rfl, rfl, _⟩
    exact ⟨rfl, rfl⟩
  | endFull heap now =>
    refine meetsPlan_of_chosen (w.policy.endFull_meets (w.view heap) now) rfl rfl
      (fun _ h => h) ?_
    rintro q events ⟨unbounded, hevents, hchosen⟩
    exact ⟨unbounded, hevents, rechosen_of_view hchosen⟩
  | startRemark now => exact .kept rfl rfl rfl rfl rfl
  | endRemark now =>
    refine meetsPlan_of_silent (w.policy.endRemark_meets now) rfl rfl rfl ?_
    rintro _ _ ⟨rfl, _, _, _, rfl⟩
    exact ⟨rfl, rfl⟩
  | startCleanup now => exact .kept rfl rfl rfl rfl rfl
  | endCleanup heap now =>
    refine meetsPlan_of_silent (w.policy.endCleanup_meets (w.view heap) now) rfl rfl rfl ?_
    rintro ⟨_, _⟩ _ ⟨rfl, ⟨_, _, _, _, rfl⟩, _⟩
    exact ⟨rfl, rfl⟩
  | request => exact .kept rfl rfl rfl rfl rfl
  | arrive arrivals => exact .kept rfl rfl rfl rfl rfl
  | forceMarking heap cause =>
    refine meetsPlan_of_silent (w.policy.forceMarking_meets (w.view heap) cause) rfl rfl rfl ?_
    rintro ⟨_, _⟩ _ ⟨rfl, _, rfl⟩
    exact ⟨rfl, rfl⟩
  | finishInitialMark =>
    refine meetsPlan_of_silent w.policy.finishInitialMark_meets rfl rfl rfl ?_
    rintro _ _ ⟨rfl, _, rfl⟩
    exact ⟨rfl, rfl⟩
  | setCandidates candidates => exact .kept rfl rfl rfl rfl rfl
  | takeCandidates count =>
    simp only [perform]
    split
    · exact .kept rfl rfl rfl rfl rfl
    · refine ((meets_value _).mono (fun _ h => h)
        fun _ _ => outsideSearch_of_none rfl).bind fun rest _ => ?_
      exact meets_pure (.kept rfl rfl rfl rfl rfl)
  | chooseOld heap timeLeft =>
    refine meetsPlan_of_silent (w.policy.chooseOldRegions_meets (w.view heap) timeLeft)
      rfl rfl rfl ?_
    rintro _ _ rfl
    exact ⟨rfl, rfl⟩
  | chooseOptional heap most timeLeft =>
    refine meetsPlan_of_silent (w.policy.chooseOptionalRegions_meets (w.view heap) most timeLeft)
      rfl rfl rfl ?_
    rintro _ _ ⟨rfl, _⟩
    exact ⟨rfl, rfl⟩
  | chore chore => exact w.doChore_meetsPlan chore

variable {w w' : World α} {c : Call α}

theorem planned_of_call (h : w.call c = .ok w') : Planned w c w' := by
  obtain ⟨w₁, hperform, hpolicy, hjournal⟩ := exists_perform_of_call h
  have hplanned : Planned w c w₁ := (w.perform_meetsPlan c).of_eq_ok hperform
  cases hplanned with
  | kept hchooses hfreed hresized hplan hlengths =>
    exact .kept hchooses hfreed hresized (hpolicy ▸ hplan) (hjournal ▸ hlengths)
  | resized hchooses hfreed hresized hplan hlengths =>
    exact .resized hchooses hfreed hresized (hpolicy ▸ hplan) (hjournal ▸ hlengths)
  | chosen hchooses hresized hchosen hlengths =>
    refine .chosen hchooses hresized (hpolicy ▸ hchosen) ?_
    rw [hpolicy, hjournal]
    exact hlengths

theorem outsideSearch_of_call {fault : Fault α} (h : w.call c = .error fault)
    (hchooses : (w.chooses c).isSome = true) : fault.OutsideSearch := by
  unfold call at h
  cases hperform : w.perform c with
  | error fault' =>
    rw [hperform] at h
    cases h
    exact (w.perform_meetsPlan c).of_eq_error hperform hchooses
  | ok w₁ =>
    rw [hperform] at h
    cases h

end World

/-! ## Runs -/

/-- The world after calls in any order, unless one of them ends in a fault. -/
def World.run (w : World α) (calls : List (Call α)) : Checked α (World α) := calls.foldlM call w

omit [Scalar α] in
/-- The free regions that the last end of a collection found, at first those of the start. -/
def freeAfter (free : Nat) (calls : List (Call α)) : Nat :=
  calls.foldl (fun free c => c.freed?.getD free) free

omit [Scalar α] in
/-- The size of the heap that was told last, at first that of the start. -/
def regionsAfter (regions : Nat) (calls : List (Call α)) : Nat :=
  calls.foldl (fun regions c => c.resized?.getD regions) regions

section

variable {s : Settings α} {z : Young.Sizer} {free regions : Nat} {w w' : World α} {c : Call α}
  {calls : List (Call α)}

theorem Planned.current (h : Planned w c w') (hw : w.policy.plan.Current s z free regions) :
    w'.policy.plan.Current s z (c.freed?.getD free) (c.resized?.getD regions) := by
  cases h with
  | kept _ hfreed hresized hplan =>
    rw [hplan, hfreed, hresized]
    exact hw
  | @resized size _ hfreed hresized hplan =>
    rw [hplan, hfreed, hresized]
    exact hw.resized size
  | chosen _ hresized hchosen =>
    have hfree : w.policy.freeRegions = free := hw.freeRegions
    rw [hfree] at hchosen
    rw [hresized]
    exact hchosen.current hw

/-- A call that chooses a length sizes the young generation and reports that. -/
theorem Planned.sized {heap : Heap α} {now : α} (h : Planned w c w')
    (hchooses : w.chooses c = some (heap, now)) :
    ∃ estimate unbounded, w'.policy.Sized heap now estimate unbounded ∧
      w'.journal.lengths =
        w.journal.lengths ++ [⟨w'.policy.youngTarget, unbounded, w'.policy.youngMaximum⟩] := by
  cases h with
  | kept hnone => exact nomatch hnone.symm.trans hchooses
  | resized hnone => exact nomatch hnone.symm.trans hchooses
  | chosen hchooses' _ hchosen hlengths =>
    cases hchooses'.symm.trans hchooses
    obtain ⟨estimate, hsized⟩ := hchosen.sized
    exact ⟨estimate, _, hsized, hlengths⟩

/-- A call that chooses a length tells no size of the heap. -/
theorem Planned.resized?_eq_none {heap : Heap α} {now : α} (h : Planned w c w')
    (hchooses : w.chooses c = some (heap, now)) : c.resized? = none := by
  cases h with
  | kept _ _ hresized => exact hresized
  | resized hnone => exact nomatch hnone.symm.trans hchooses
  | chosen _ hresized => exact hresized

theorem current_of_run (h : w.run calls = .ok w') (hw : w.policy.plan.Current s z free regions) :
    w'.policy.plan.Current s z (freeAfter free calls) (regionsAfter regions calls) := by
  -- on the calls; the plan on the way changes with each of them
  induction calls generalizing w free regions with
  | nil =>
    cases h
    exact hw
  | cons c rest ih =>
    obtain ⟨w₁, hcall, hrest⟩ := Checked.exists_of_bind_eq_ok h
    exact ih hrest ((World.planned_of_call hcall).current hw)

end

/-- The policy that the settings start and the end of a run that makes the given calls, if there are
both. -/
def openedRun (settings : Settings α) (heap : Heap α) (now : α) (calls : List (Call α)) :
    Option (Policy α × World α) :=
  match (Policy.start settings heap now []).outcome {} with
  | (.ok (.ok policy), journal) =>
    match (World.opened policy journal).run calls with
    | .ok w => some (policy, w)
    | .error _ => none
  | _ => none

/-- A run that can be computed is one. -/
theorem exists_openedRun (settings : Settings α) (heap : Heap α) (now : α) (calls : List (Call α))
    {P : Policy α → World α → Bool}
    (h : (openedRun settings heap now calls).any (fun r => P r.1 r.2) = true) :
    ∃ policy after w,
      (Policy.start settings heap now []).outcome {} = (.ok (.ok policy), after) ∧
      (World.opened policy after).run calls = .ok w ∧ P policy w = true := by
  unfold openedRun at h
  split at h
  · next policy journal hstart =>
    split at h
    · next w hrun => exact ⟨policy, journal, w, hstart, hrun, h⟩
    · cases h
  · cases h

end Collector

end PauseGoal
