import PauseGoal.Proofs.Exact
import PauseGoal.Proofs.YoungRuns

/-!
# Starting over

A full collection ends whatever the policy was in the middle of. The state that it leaves is the
same after every history: young collections only, no measurement, survivors without statistics,
nothing allocated, no candidates. The marking flag depends on the heap and the threshold alone, not
on the flag before (`full_collection_starts_over`). The end settles the flag by three exchanges, and
it holds between any two of them that requests of other threads change nothing about the outcome.
-/

namespace PauseGoal

open Checked (Meets meets_pure)
open Marking (Flag)

variable {α : Type}

namespace Policy

open Act (meets_ofChecked meets_write meets_report)

variable [Scalar α]

/-! ## The end of a full collection -/

/-- While young collections run marking is needed if no cycle runs and the old generation is above
the threshold. The threshold is asked for only without a cycle. -/
theorem needsMarking_meets_of_young {p : Policy α} {heap : Heap α} {threshold : Nat}
    {fail : Fault α → Prop} (hyoung : p.phases.youngOnly = true)
    (hbefore : p.phases.beforeMixed = false)
    (hthreshold : heap.cycleRunning = false → p.threshold.bytes = .ok threshold)
    (hover : heap.cycleRunning = false → wordBound ≤ heap.oldBytes → fail .additionOverflow)
    (source : String) :
    (p.needsMarking heap source 0).Meets
      (fun needed events => events = [] ∧
        needed = decide (heap.cycleRunning = false ∧ threshold < heap.oldBytes))
      fail := by
  have hnear : p.mixedIsNear heap = heap.cycleRunning := by
    rw [mixedIsNear, hbefore, Bool.or_false]
  unfold needsMarking
  rw [hnear]
  cases hcycle : heap.cycleRunning with
  | true => exact Act.meets_pure ⟨rfl, rfl⟩
  | false =>
    have known : Meets p.threshold.bytes (fun bytes => bytes = threshold) fail := by
      rw [hthreshold hcycle]
      exact rfl
    refine (meets_ofChecked known).bind_silent ?_
    rintro _ rfl
    refine (meets_ofChecked (Word.meets_add (hover hcycle))).bind_silent ?_
    rintro _ ⟨_, rfl⟩
    split
    · next hbelow =>
      refine Act.meets_pure ⟨rfl, (decide_eq_false fun h => ?_).symm⟩
      exact Nat.not_le.mpr h.2 hbelow
    · next habove =>
      refine (meets_write _ _ _).bind_silent fun _ _ => Act.meets_pure ⟨rfl, ?_⟩
      rw [hyoung, hbefore, decide_eq_true ⟨rfl, Nat.not_le.mp habove⟩]
      rfl

/-- The state in which the end of a full collection looks whether marking is needed. -/
def compacted (p : Policy α) (now : α) : Policy α :=
  { p with
    costs := p.costs.addPause now ((now - p.fullStart) * num 1000)
    phases := { p.phases with full := false, youngOnly := true, beforeMixed := false } }

/-- The state in which it chooses the length of the next young generation. -/
def restarted (p : Policy α) (heap : Heap α) (now : α) (needed : Bool) : Policy α :=
  { (p.compacted now).settleRequest needed with
    phases := {}
    eden := p.eden.startAdding
    freeRegions := heap.free
    survivors := p.survivors.reset }

theorem endFull_eq (p : Policy α) (heap : Heap α) (now : α) :
    p.endFull heap now = (do
      let needed ← (p.compacted now).needsMarking heap "end of Full GC" 0
      let (_, q) ← (p.restarted heap now needed).chooseYoungLength heap now
      let q ← Act.ofChecked q.expectPredictedEntries
      let q ← { q with pendingAtEnd := heap.pendingCards, oldAllocation := 0 }.recordPause .full
        q.fullStart now
      Act.write .info .phases
        [Pause.Kind.full.name, " ", .fixed 3 ((now - p.fullStart) * num 1000),
          "ms, young target ", q.youngTarget, " regions"]
      return q) := rfl

/-- The faults of the end of a full collection for which the threshold is known, and when they
occur. -/
inductive FullFault (p : Policy α) (heap : Heap α) (now : α) : Fault α → Prop
  | occupied (hcycle : heap.cycleRunning = false) (h : wordBound ≤ heap.oldBytes) :
      FullFault p heap now .additionOverflow
  | choice {needed : Bool} {fault : Fault α}
      (h : (p.restarted heap now needed).ChoiceFault heap now fault) :
      FullFault p heap now fault
  | backwards (h : ¬ p.fullStart ≤ now) :
      FullFault p heap now (.pauseEndsBeforeStart now p.fullStart)

/-- Survivors that are reported would be asked for their ages, which nobody knows any more. -/
theorem FullFault.ne_ageFromFuture {p : Policy α} {heap : Heap α} {now : α} {fault : Fault α}
    (h : p.FullFault heap now fault) (hsurvivors : heap.survivors = []) (index allocated : Nat) :
    fault ≠ .ageFromFuture index allocated := by
  rintro rfl
  cases h with
  | choice h =>
    rcases h with hentries | hsizing
    · have counted (m : CostModel α) :
          Meets m.entryCount (fun _ => True) fun fault => fault = .additionOverflow := by
        refine Meets.mono (Word.meets_add fun _ => ?_) (fun _ _ => trivial) fun _ h => h
        rfl
      cases (counted _).of_eq_error hentries
    · cases hsizing with
      | estimate h =>
        obtain ⟨_, hleft⟩ := (regionsUntilPause_meets _ now).of_eq_error h
        cases hleft
      | unknown hr => exact List.not_mem_nil (hsurvivors ▸ hr)

/-- A full collection that is recorded ends any measurement, and fails only if it ended before its
start. -/
theorem recordPause_full_meets (p : Policy α) (start finish : α) :
    (p.recordPause .full start finish).Meets
      (fun q _ => q = { p with
        markingLength := .unknown
        costs := p.costs.countPause ⟨.full, start, finish⟩ })
      fun fault => ¬ start ≤ finish ∧ fault = .pauseEndsBeforeStart finish start := by
  have recorded : Meets (Pause.Record.create .full start finish)
      (fun record => record = ⟨.full, start, finish⟩)
      fun fault => ¬ start ≤ finish ∧ fault = .pauseEndsBeforeStart finish start :=
    (Checked.meets_demand fun h => ⟨h, rfl⟩).bind fun _ _ => meets_pure rfl
  unfold recordPause
  rw [if_pos rfl]
  refine (meets_ofChecked recorded).bind_silent ?_
  rintro _ rfl
  exact (meets_report _).bind fun _ _ _ => Act.meets_pure rfl

/-- The marking flag that a full collection leaves: marking is asked for if no cycle runs and the old
generation is above the threshold. -/
def flagAfterFull (heap : Heap α) (threshold : Nat) : Flag :=
  if heap.cycleRunning = false ∧ threshold < heap.oldBytes then .requested else .idle

/-- The state shows nothing of what was before: only young collections run, no measurement is on or
known, survivors have no statistics, and nothing was allocated into the old generation. -/
structure StartedOver (p : Policy α) (flag : Flag) : Prop where
  phases : p.phases =
    { youngOnly := true, beforeMixed := false, marking := false, clearing := false, full := false }
  markingLength : p.markingLength = .unknown
  survivors : p.survivors = .create p.survivors.population
  oldAllocation : p.oldAllocation = 0
  flag : p.request.flag = flag

/-- The end of a full collection starts over, whatever the state was. -/
theorem endFull_starts_over (p : Policy α) (heap : Heap α) {threshold : Nat}
    (hthreshold : heap.cycleRunning = false → p.threshold.bytes = .ok threshold) (now : α) :
    (p.endFull heap now).Meets (fun q _ => q.StartedOver (flagAfterFull heap threshold))
      (p.FullFault heap now) := by
  rw [endFull_eq]
  refine (needsMarking_meets_of_young (p := p.compacted now) rfl rfl hthreshold .occupied
    _).bind_silent fun needed hneeded => ?_
  have hflag : (p.restarted heap now needed).request.flag = flagAfterFull heap threshold := by
    rw [show (p.restarted heap now needed).request = ((p.compacted now).settleRequest needed).request
      from rfl, settleRequest_flag_eq, hneeded]
    simp only [decide_eq_true_eq, flagAfterFull]
  -- the rest of the end adds lengths, expectations and accounts to this state
  refine ((rechosen_of_chooseYoungLength _ heap now).mono (fun _ _ h => h)
    fun _ h => .choice h).bind ?_
  rintro ⟨_, q⟩ _ ⟨rfl, _, target, maximum, hq⟩
  dsimp only at hq ⊢
  have hcosts : q.costs = (p.restarted heap now needed).costs := hq ▸ rfl
  refine (meets_ofChecked (expectPredictedEntries_meets_of fun fault h =>
    .choice (.inl (hcosts ▸ h)))).bind_silent ?_
  rintro _ ⟨entries, rfl⟩
  have hstart : q.fullStart = p.fullStart := hq ▸ rfl
  dsimp only
  rw [hstart]
  refine ((recordPause_full_meets _ _ _).mono (fun _ _ h => h) ?_).bind ?_
  · rintro _ ⟨hbackwards, rfl⟩
    exact .backwards hbackwards
  rintro _ _ rfl
  refine (meets_write _ _ _).bind_silent fun _ _ => Act.meets_pure ?_
  subst hq
  exact ⟨rfl, rfl, rfl, rfl, hflag⟩

end Policy

/-! ## Full collections after two histories -/

namespace Collector

variable [Scalar α]

namespace World

theorem exists_call_startFull (w : World α) (heap : Heap α) (now : α) :
    ∃ w₁, w.call (.startFull heap now) = .ok w₁ ∧ w₁.candidates = none ∧
      w₁.policy.threshold = w.policy.threshold := by
  have hperform : w.perform (.startFull heap now) =
      w.act (w.policy.startFull (w.view heap) now) fun r =>
        { w with policy := r.1, candidates := r.2.candidates } := rfl
  refine (call_meets hperform (w.policy.startFull_meets _ now) ?_).exists_eq_ok
  rintro ⟨_, _⟩ _ _ _ _ ⟨_, rfl, rfl⟩
  exact ⟨rfl, rfl⟩

/-- A full collection leaves a policy that started over, with the given flag, and no candidates. Its
start does not fail, and its end fails only if a count or a time is out of range. -/
def Restarts (w : World α) (flag : Flag) (before : Heap α) (start : α) (heap : Heap α)
    (finish : α) : Prop :=
  ∃ w₁, w.call (.startFull before start) = .ok w₁ ∧
    Meets (w₁.call (.endFull heap finish))
      (fun w₂ => w₂.policy.StartedOver flag ∧ w₂.candidates = none)
      fun fault => w₁.policy.FullFault (w₁.view heap) finish fault ∧
        ∀ index allocated, fault ≠ .ageFromFuture index allocated

/-- A full collection that returned started over. -/
theorem Restarts.of_run {w w₂ : World α} {flag : Flag} {before heap : Heap α} {start finish : α}
    (h : w.Restarts flag before start heap finish)
    (hrun : w.run [.startFull before start, .endFull heap finish] = .ok w₂) :
    w₂.policy.StartedOver flag ∧ w₂.candidates = none := by
  obtain ⟨w₁, hstart, hended⟩ := h
  obtain ⟨_, hstart', hrest⟩ := Checked.exists_of_bind_eq_ok hrun
  obtain rfl := Except.ok.inj (hstart.symm.trans hstart')
  obtain ⟨_, hend, hlast⟩ := Checked.exists_of_bind_eq_ok hrest
  obtain rfl := Except.ok.inj hlast
  exact hended.of_eq_ok hend

theorem restarts (w : World α) {heap : Heap α} {threshold : Nat} (hsurvivors : heap.survivors = [])
    (hthreshold : heap.cycleRunning = false → w.policy.threshold.bytes = .ok threshold)
    (before : Heap α) (start finish : α) :
    w.Restarts (Policy.flagAfterFull heap threshold) before start heap finish := by
  obtain ⟨w₁, hstart, hcandidates, hsame⟩ := w.exists_call_startFull before start
  have hended := w₁.policy.endFull_starts_over (w₁.view heap) (hsame ▸ hthreshold) finish
  refine ⟨w₁, hstart, (call_meets rfl hended ?_).mono (fun _ h => h) fun fault hfault => ?_⟩
  · exact fun _ _ _ _ _ hended => ⟨hended, hcandidates⟩
  · exact ⟨hfault, hfault.ne_ageFromFuture hsurvivors⟩

end World

/-- Take two worlds with any histories, and two heaps that agree on whether a cycle runs and on the
old generation and report no survivors. If marking starts at the same threshold, then after a full
collection both policies have started over in the same way: their flags stand at a request exactly
if no cycle runs and the old generation is above the threshold, whatever the flags were and whoever
asked for marking meanwhile. -/
theorem full_collection_starts_over {w w' : World α} {heap heap' : Heap α} {threshold : Nat}
    (hcycle : heap'.cycleRunning = heap.cycleRunning) (hold : heap'.oldBytes = heap.oldBytes)
    (hsurvivors : heap.survivors = []) (hsurvivors' : heap'.survivors = [])
    (hthreshold : heap.cycleRunning = false → w.policy.threshold.bytes = .ok threshold)
    (hthreshold' : heap.cycleRunning = false → w'.policy.threshold.bytes = .ok threshold)
    (before before' : Heap α) (start start' finish finish' : α) :
    ∃ flag : Flag,
      (heap.cycleRunning = false ∧ threshold < heap.oldBytes → flag = .requested) ∧
      (¬ (heap.cycleRunning = false ∧ threshold < heap.oldBytes) → flag = .idle) ∧
      w.Restarts flag before start heap finish ∧ w'.Restarts flag before' start' heap' finish' := by
  refine ⟨_, fun h => if_pos h, fun h => if_neg h,
    w.restarts hsurvivors hthreshold before start finish, ?_⟩
  have hrestarts := w'.restarts hsurvivors' (hcycle ▸ hthreshold') before' start' finish'
  rwa [Policy.flagAfterFull, hcycle, hold] at hrestarts

/-- A heap of a hundred regions in which more is old than a threshold of 45 percent allows. -/
def crowdedHeap : Heap Rat := { plainHeap with oldBytes := 50000000 }

/-- A full collection takes the place of a pause that had been scheduled to start marking, and
another one comes while mixed collections are near, a list of candidates is installed and somebody
asks for marking. Both end, and leave a request. -/
theorem full_collection_starts_over_in_any_phase :
    ∃ w₀ w w₀' w' : World Rat,
      (w₀.Fresh ∧ Reaches inOrder w₀ w ∧ w.policy.request.flag = .scheduled ∧
        ∃ w₂, w.run [.startFull plainHeap 20, .endFull crowdedHeap 21] = .ok w₂ ∧
          w₂.policy.StartedOver .requested ∧ w₂.candidates = none) ∧
      (w₀'.Fresh ∧ Reaches inOrder w₀' w' ∧
        (w'.policy.phases.beforeMixed = true ∧ w'.policy.markingLength.active = true ∧
          w'.candidates.isSome = true ∧ w'.policy.request.flag = .requested) ∧
        ∃ w₂, w'.run [.startFull plainHeap 30, .endFull crowdedHeap 31] = .ok w₂ ∧
          w₂.policy.StartedOver .requested ∧ w₂.candidates = none) := by
  obtain ⟨w₀, w, hfresh, hrun, hends⟩ := exists_run inOrder plainSettings plainHeap 1
    [.request, .beginPause, .decide plainHeap, .startPause plainHeap 10]
    (P := fun _ w => decide (w.policy.request.flag = .scheduled ∧
      w.policy.threshold.bytes = .ok 47185920) &&
        (w.run [.startFull plainHeap 20, .endFull crowdedHeap 21]).toBool) (by decide +kernel)
  obtain ⟨w₀', w', hfresh', hrun', hends'⟩ := exists_run inOrder plainSettings plainHeap 1
    (plainCycle 10 10 ++ [.request])
    (P := fun _ w => decide (w.policy.threshold.bytes = .ok 47185920 ∧
      w.policy.phases.beforeMixed = true ∧ w.policy.markingLength.active = true ∧
      w.candidates.isSome = true ∧ w.policy.request.flag = .requested) &&
        (w.run [.startFull plainHeap 30, .endFull crowdedHeap 31]).toBool) (by decide +kernel)
  obtain ⟨hends, hdone⟩ := Bool.and_eq_true_iff.mp hends
  obtain ⟨hends', hdone'⟩ := Bool.and_eq_true_iff.mp hends'
  obtain ⟨hscheduled, hthreshold⟩ := of_decide_eq_true hends
  obtain ⟨hthreshold', hphase⟩ := of_decide_eq_true hends'
  obtain ⟨flag, hflag, -, hrestarts, hrestarts'⟩ :=
    @full_collection_starts_over Rat _ w w' crowdedHeap crowdedHeap 47185920 rfl rfl rfl rfl
      (fun _ => hthreshold) (fun _ => hthreshold') plainHeap plainHeap 20 30 21 31
  obtain rfl := hflag ⟨rfl, by decide⟩
  obtain ⟨w₂, hrun₂⟩ := Checked.exists_of_toBool hdone
  obtain ⟨w₂', hrun₂'⟩ := Checked.exists_of_toBool hdone'
  exact ⟨w₀, w, w₀', w',
    ⟨hfresh, hrun, hscheduled, w₂, hrun₂, hrestarts.of_run hrun₂⟩,
    ⟨hfresh', hrun', hphase, w₂', hrun₂', hrestarts'.of_run hrun₂'⟩⟩

end Collector

end PauseGoal
