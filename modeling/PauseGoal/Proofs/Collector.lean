import PauseGoal.Proofs.Cycle
import PauseGoal.Proofs.OldPart
import PauseGoal.Proofs.PauseEnd

/-!
# A collector that drives the policy

The policy is called by a collector, which brackets its pauses with calls in a fixed order:

* an evacuation pause is begun, decided on, started, given its survivors and ended;
* a full collection is started and ended, and may take the place of what is left of a pause;
* remark and cleanup are started and ended, between pauses and only while marking is on.

Whatever else the heap answers at a call, its candidates are those that the collector installed and
the policy did not drop. A `World` is the policy together with what the collector keeps for it, and
`Reaches` are the worlds at the ends of all runs in which each call was allowed and no call ended in
a fault.
-/

namespace PauseGoal

open OldRegions (Candidates evenShare)
open Pause (Kind)

/-- The pause collects garbage; the other kinds only interrupt marking. -/
def Pause.Kind.collects : Kind → Bool
  | .remark | .cleanup => false
  | _ => true

/-- The answers of a heap that has the given candidates. -/
def Heap.withCandidates {α : Type} (heap : Heap α) (candidates : Option Candidates) : Heap α :=
  { heap with candidates := candidates }

namespace Collector

/-- What the collector is doing. An evacuation pause has four stages. -/
inductive Stage where
  | mutators
  | begun
  | decided
  | started
  | transferred
  | full
  | remark
  | cleanup
deriving DecidableEq, Repr

namespace Stage

/-- An evacuation pause is on. -/
def evacuates : Stage → Bool
  | .begun | .decided | .started | .transferred => true
  | _ => false

/-- An evacuation pause is on and its initial-mark work is decided on. -/
def isDecided : Stage → Bool
  | .decided | .started | .transferred => true
  | _ => false

/-- Marking is interrupted by one of its own pauses. -/
def interrupts : Stage → Bool
  | .remark | .cleanup => true
  | _ => false

end Stage

/-- What the history of a run remembers, in order. -/
inductive Mark where
  /-- An evacuation pause or a full collection was reported. -/
  | pause (kind : Kind)
  /-- Cleanup ended; it found enough reclaimable space for mixed collections or not. -/
  | cleanup (found : Bool)
deriving DecidableEq, Repr

/-- The marks of reported pauses. -/
def collections (kinds : List Kind) : List Mark := (kinds.filter Kind.collects).map .pause

/-- The kind of a pause in the history. -/
def Mark.kind? : Mark → Option Kind
  | .pause kind => some kind
  | .cleanup _ => none

/-- The kinds of the pauses in the history, in order. -/
def pausesIn (marks : List Mark) : List Kind := marks.filterMap Mark.kind?

theorem pausesIn_append (marks more : List Mark) :
    pausesIn (marks ++ more) = pausesIn marks ++ pausesIn more :=
  List.filterMap_append

theorem pausesIn_collections (kinds : List Kind) :
    pausesIn (collections kinds) = kinds.filter Kind.collects := by
  rw [pausesIn, collections, List.filterMap_map]
  exact List.filterMap_some

variable {α : Type}

/-- A call that has no part in the marking cycle. It may come at any time. -/
inductive Chore (α : Type) where
  | newEden
  | addOldAllocation (bytes : Nat)
  | recordSurvivors (tag : SurvivalTag) (bytes : Nat)
  | recordAges (ages : SurvivorAges)
  | exhaustSurvivorSpace
  | measure (breakdown : Pause.Breakdown α)
  | resize (regions : Nat)
  | chooseYoungLength (heap : Heap α) (now : α)
  | revise (heap : Heap α) (now : α) (entries : Nat)
  | readRefinement (heap : Heap α) (full : Bool)
  | needsMarking (heap : Heap α) (source : String) (bytes : Nat)

/-- A call of the collector or of another thread. -/
inductive Call (α : Type) where
  | beginPause
  | decide (heap : Heap α)
  | startPause (heap : Heap α) (start : α)
  | transfer (count : Nat) (learn : Bool)
  | endPause (heap : Heap α) (now pause : α)
  | startFull (heap : Heap α) (now : α)
  | endFull (heap : Heap α) (now : α)
  | startRemark (now : α)
  | endRemark (now : α)
  | startCleanup (now : α)
  | endCleanup (heap : Heap α) (now : α)
  /-- Somebody asks for marking now. -/
  | request
  /-- Others will ask for marking while the coming calls run, between their steps. -/
  | arrive (arrivals : List Nat)
  | forceMarking (heap : Heap α) (cause : Cause)
  | finishInitialMark
  /-- The collector installs a list of candidates or drops the one there is. -/
  | setCandidates (candidates : Option Candidates)
  | takeCandidates (count : Nat)
  | chooseOld (heap : Heap α) (timeLeft : α)
  | chooseOptional (heap : Heap α) (most : Nat) (timeLeft : α)
  | chore (chore : Chore α)

/-- What the collector does after a call. -/
def Call.stageAfter : Call α → Stage → Stage
  | .beginPause, _ => .begun
  | .decide _, _ => .decided
  | .startPause _ _, _ => .started
  | .transfer _ _, _ => .transferred
  | .startFull _ _, _ => .full
  | .startRemark _, _ => .remark
  | .startCleanup _, _ => .cleanup
  | .endPause _ _ _, _ | .endFull _ _, _ | .endRemark _, _ | .endCleanup _ _, _ => .mutators
  | _, stage => stage

/-- The policy and what the collector keeps for it. -/
structure World (α : Type) where
  policy : Policy α
  candidates : Option Candidates
  stage : Stage
  /-- How many candidates of the initial part that was chosen last are still to be taken. -/
  owed : Option Nat
  history : List Mark
  journal : Journal α

namespace World

/-- Runs a computation of the policy. -/
def act {β : Type} (w : World α) (x : Act α β) (next : β → World α) : Checked α (World α) :=
  match x.outcome w.journal with
  | (.ok b, journal) => .ok { next b with journal := journal }
  | (.error fault, _) => .error fault

/-- The answers of the heap at a call. -/
def view (w : World α) (heap : Heap α) : Heap α := heap.withCandidates w.candidates

variable [Scalar α]

def doChore (w : World α) : Chore α → Checked α (World α)
  | .newEden => .ok { w with policy := w.policy.newEdenRegion.2 }
  | .addOldAllocation bytes => do return { w with policy := ← w.policy.addOldAllocation bytes }
  | .recordSurvivors tag bytes => do
    return { w with policy := ← w.policy.recordSurvivors tag bytes }
  | .recordAges ages => do return { w with policy := ← w.policy.recordAges ages }
  | .exhaustSurvivorSpace => w.act w.policy.exhaustSurvivorSpace fun p => { w with policy := p }
  | .measure breakdown => .ok { w with policy := { w.policy with breakdown := breakdown } }
  | .resize regions => do return { w with policy := ← w.policy.resize regions }
  | .chooseYoungLength heap now =>
    w.act (w.policy.chooseYoungLength (w.view heap) now) fun r => { w with policy := r.2 }
  | .revise heap now entries =>
    w.act (w.policy.revise (w.view heap) now entries) fun p => { w with policy := p }
  | .readRefinement heap full =>
    w.act (w.policy.readRefinement (w.view heap) full) fun p => { w with policy := p }
  | .needsMarking heap source bytes =>
    w.act (w.policy.needsMarking (w.view heap) source bytes) fun _ => w

/-- What a call does, but for the stage and the history. -/
def perform (w : World α) : Call α → Checked α (World α)
  | .beginPause => .ok { w with policy := w.policy.beginCollection, owed := none }
  | .decide heap =>
    w.act (w.policy.decideMarking (w.view heap)) fun r =>
      { w with policy := r.2.1, candidates := r.2.2.candidates }
  | .startPause heap start =>
    w.act (w.policy.startPause (w.view heap) start) fun p => { w with policy := p }
  | .transfer count learn => .ok { w with policy := (w.policy.transferSurvivors count learn).2 }
  | .endPause heap now pause =>
    w.act (w.policy.endPause (w.view heap) now pause) fun r =>
      { w with policy := r.1, candidates := r.2.candidates, owed := none }
  | .startFull heap now =>
    w.act (w.policy.startFull (w.view heap) now) fun r =>
      { w with policy := r.1, candidates := r.2.candidates }
  | .endFull heap now =>
    w.act (w.policy.endFull (w.view heap) now) fun p => { w with policy := p }
  | .startRemark now => .ok { w with policy := w.policy.startRemark now }
  | .endRemark now => w.act (w.policy.endRemark now) fun p => { w with policy := p }
  | .startCleanup now => .ok { w with policy := w.policy.startCleanup now }
  | .endCleanup heap now =>
    w.act (w.policy.endCleanup (w.view heap) now) fun r =>
      { w with policy := r.1, candidates := r.2.candidates }
  | .request => .ok { w with policy := { w.policy with request := w.policy.request.raise.2 } }
  | .arrive arrivals => .ok { w with policy := { w.policy with request.arrivals := arrivals } }
  | .forceMarking heap cause =>
    w.act (w.policy.forceMarking (w.view heap) cause) fun r => { w with policy := r.2 }
  | .finishInitialMark => w.act w.policy.finishInitialMark fun p => { w with policy := p }
  | .setCandidates candidates => .ok { w with candidates := candidates }
  | .takeCandidates count =>
    match w.candidates with
    | none => .ok w
    | some candidates => do
      let rest ← candidates.take count
      return { w with candidates := some rest, owed := w.owed.map (· - count) }
  | .chooseOld heap timeLeft =>
    w.act (w.policy.chooseOldRegions (w.view heap) timeLeft) fun budget =>
      { w with owed := some budget.initial }
  | .chooseOptional heap most timeLeft =>
    w.act (w.policy.chooseOptionalRegions (w.view heap) most timeLeft) fun _ => w
  | .chore chore => w.doChore chore

/-- What the end of cleanup finds. -/
def findings (w : World α) : Call α → List Mark
  | .endCleanup heap _ => [.cleanup (w.policy.control.worthwhile (w.view heap))]
  | _ => []

/-- The world after a call. The history goes on with the pauses that the policy reported. -/
def call (w : World α) (c : Call α) : Checked α (World α) := do
  let w' ← w.perform c
  let reported := w'.journal.pauses.drop w.journal.pauses.length
  return { w' with
    stage := c.stageAfter w.stage
    history := w.history ++ (w.findings c ++ collections reported) }

/-- A policy that has just started, with a collector that has not called it yet. -/
inductive Fresh : World α → Prop
  | intro {settings : Settings α} {heap : Heap α} {now : α} {fullCauses : List Cause}
      {policy : Policy α} {before after : Journal α}
      (hstart : (Policy.start settings heap now fullCauses).outcome before =
        (.ok (.ok policy), after)) :
      Fresh {
        policy := policy
        candidates := none
        stage := .mutators
        owed := none
        history := []
        journal := after }

end World

/-! ## Where a run stands -/

/-- The part of a world that decides how the marking cycle goes on. -/
structure Standing (α : Type) where
  control : Control α
  candidates : Option Candidates
  stage : Stage
  owed : Option Nat
  history : List Mark

def World.standing (w : World α) : Standing α where
  control := w.policy.control
  candidates := w.candidates
  stage := w.stage
  owed := w.owed
  history := w.history

variable [Scalar α]

/-- The worlds that runs from `w₀` reach by allowed calls, none of which ends in a fault. -/
inductive Reaches (allowed : Standing α → Call α → Bool) (w₀ : World α) : World α → Prop
  | start : Reaches allowed w₀ w₀
  | step {w w' : World α} {c : Call α} (hrun : Reaches allowed w₀ w)
      (hallowed : allowed w.standing c = true) (hcall : w.call c = .ok w') :
      Reaches allowed w₀ w'

/-- The world after a list of calls, unless one of them is not allowed or ends in a fault. -/
def follow (allowed : Standing α → Call α → Bool) (w : World α) : List (Call α) → Option (World α)
  | [] => some w
  | c :: rest =>
    if allowed w.standing c then
      match w.call c with
      | .ok w' => follow allowed w' rest
      | .error _ => none
    else none

theorem reaches_of_follow {allowed : Standing α → Call α → Bool} {w₀ w w' : World α}
    {calls : List (Call α)} (hrun : Reaches allowed w₀ w)
    (h : follow allowed w calls = some w') : Reaches allowed w₀ w' := by
  -- on the calls; the world on the way changes with each of them
  induction calls generalizing w with
  | nil =>
    cases h
    exact hrun
  | cons c rest ih =>
    unfold follow at h
    split at h
    · next hallowed =>
      split at h
      · next w₁ hcall => exact ih (hrun.step hallowed hcall) h
      · cases h
    · cases h

/-- The worlds at the start and at the end of a run that makes the given calls, if there is one. -/
def runOf (allowed : Standing α → Call α → Bool) (settings : Settings α) (heap : Heap α) (now : α)
    (calls : List (Call α)) : Option (World α × World α) :=
  match (Policy.start settings heap now []).outcome {} with
  | (.ok (.ok policy), journal) =>
    let w₀ : World α := ⟨policy, none, .mutators, none, [], journal⟩
    (follow allowed w₀ calls).map (w₀, ·)
  | _ => none

/-- A run that can be computed is one. -/
theorem exists_run (allowed : Standing α → Call α → Bool) (settings : Settings α) (heap : Heap α)
    (now : α) (calls : List (Call α)) {P : World α → World α → Bool}
    (h : (runOf allowed settings heap now calls).any (fun r => P r.1 r.2) = true) :
    ∃ w₀ w : World α, w₀.Fresh ∧ Reaches allowed w₀ w ∧ P w₀ w = true := by
  unfold runOf at h
  split at h
  · next policy journal hstart =>
    obtain ⟨r, hr, hP⟩ := (Option.any_eq_true _ _).mp h
    obtain ⟨w, hfollow, rfl⟩ := Option.map_eq_some_iff.mp hr
    exact ⟨_, w, .intro hstart, reaches_of_follow .start hfollow, hP⟩
  · cases h

/-- A larger set of allowed calls has more runs. -/
theorem Reaches.mono {allowed allowed' : Standing α → Call α → Bool} {w₀ w : World α}
    (h : ∀ s c, allowed s c = true → allowed' s c = true) (hrun : Reaches allowed w₀ w) :
    Reaches allowed' w₀ w := by
  induction hrun with
  | start => exact .start
  | step _ hallowed hcall ih => exact ih.step (h _ _ hallowed) hcall

/-! ## The order of the calls -/

/-- The collector makes the calls in the order that brackets require. -/
def inOrder (s : Standing α) : Call α → Bool
  | .beginPause | .finishInitialMark => s.stage == .mutators
  | .decide _ => s.stage == .begun
  | .startPause _ _ => s.stage == .decided
  | .transfer _ _ => s.stage == .started
  | .endPause _ _ _ => s.stage == .transferred
  | .startFull _ _ => s.stage == .mutators || s.stage.evacuates
  | .endFull _ _ => s.stage == .full
  | .startRemark _ | .startCleanup _ => s.stage == .mutators && s.control.phases.marking
  | .endRemark _ => s.stage == .remark
  | .endCleanup _ _ => s.stage == .cleanup
  | _ => true

end Collector

end PauseGoal
