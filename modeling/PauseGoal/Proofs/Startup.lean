import PauseGoal.Policy.Start
import PauseGoal.Proofs.DoubleBounds
import PauseGoal.Proofs.SizerRules
import PauseGoal.Proofs.YoungLength

/-!
# The start of the policy

Settings that validate should never make the start end in a fault. In doubles they do, but for one
check: the goal is compared with the interval in milliseconds, and the utilization tracker compares
the two in seconds. The start ends in a fault exactly if the goal in seconds is not below the
interval in seconds, which the comparison in milliseconds does not rule out: an interval that is no
number passes it, and neighbouring doubles may have the same quotient.
-/

namespace PauseGoal

open Checked (Meets meets_pure meets_demand)
open Double (AtMost atMost_num atMost_mul ceil_le)
open Young (Sizer)

/-! ## Percentages in doubles -/

theorem percentage_of_le {percent : Nat} (h : percent ≤ 100) :
    (num 0 : Float) ≤ num percent ∧ (num percent : Float) ≤ num 100 := by
  have hall : ∀ n ≤ 100, (num 0 : Float) ≤ num n ∧ (num n : Float) ≤ num 100 := by decide +kernel
  exact hall percent h

theorem atMost_share {percent : Nat} (h : percent ≤ 100) :
    AtMost 0 (num percent / num 100 : Float).toModel.unpack := by
  have hall : ∀ n ≤ 100, AtMost 0 (num n / num 100 : Float).toModel.unpack := by decide +kernel
  exact hall percent h

/-- A percentage of a count, rounded up, is no more than a power of two above the count. -/
theorem ceil_share_le {percent count : Nat} (hpercent : percent ≤ 100) (hcount : count ≤ 2 ^ 63) :
    Scalar.ceil ((num percent / num 100 : Float) * num count) ≤ 2 ^ 63 := by
  have hnumber : AtMost 63 (num count : Float).toModel.unpack := atMost_num (by decide) hcount
  exact ceil_le (atMost_mul (by decide) (atMost_share hpercent) hnumber)

/-- Before the first pause no entries of remembered sets are predicted, whatever the confidence. -/
theorem CostModel.entryCount_create {percent : Nat} (h : percent ≤ 100) (workers : Nat)
    (now : Float) :
    (create ⟨num percent / num 100⟩ workers now : CostModel Float).entryCount = .ok 0 := by
  have hall : ∀ n ≤ 100,
      let m : CostModel Float := create ⟨num n / num 100⟩ 0 (num 0)
      m.predictor.predictCount m.entries = 0 ∧
        Scalar.truncate (Scalar.max (m.predict m.entryExcess) (num 0)) = 0 := by
    decide +kernel
  obtain ⟨hentries, hexcess⟩ := hall percent h
  -- the prediction reads neither the workers nor the time
  have hunread : (create ⟨num percent / num 100⟩ workers now : CostModel Float).entryCount =
      (create ⟨num percent / num 100⟩ 0 (num 0) : CostModel Float).entryCount := rfl
  rw [hunread, entryCount, hentries, hexcess]
  rfl

/-! ## The heap at the start -/

/-- A heap to start with: it has regions and no young generation yet, and its counts stay below half
of the words in every product that is made of them. -/
structure Heap.Startable {α : Type} (heap : Heap α) (s : Settings α) : Prop where
  regions : 0 < heap.regions
  eden : heap.eden = 0
  survivors : heap.survivors = []
  bytes : heap.regions * s.regionSize < 2 ^ 63
  percent : heap.regions * s.largestYoungPercent < 2 ^ 63
  free : heap.free * s.regionSize < 2 ^ 63
  leastSize : ∀ size ∈ s.leastYoungSize, size < 2 ^ 63
  largestSize : ∀ size ∈ s.largestYoungSize, size < 2 ^ 63

namespace Policy

variable {s : Settings Float} {heap : Heap Float} {now : Float}

/-- The policy that knows its settings, the sizer and the heap, and has seen no pause. -/
structure Unused (s : Settings Float) (heap : Heap Float) (now : Float) (sizer : Sizer)
    (p : Policy Float) : Prop where
  settings : p.settings = s
  costs : p.costs = .create ⟨s.sigma⟩ s.workers now
  freeRegions : p.freeRegions = heap.free
  sizer : p.sizer = sizer

theorem initialThreshold_meets {α : Type} [Scalar α] {s : Settings α} {heap : Heap α}
    {predictor : Sample.Predictor α} {fail : Fault α → Prop}
    (h : (num 0 : α) ≤ num s.markingPercent ∧ (num s.markingPercent : α) ≤ num 100) :
    Meets (initialThreshold s predictor heap) (fun _ => True) fail :=
  (meets_demand fun hoff => absurd h hoff).bind fun _ _ => meets_pure trivial

/-- Only the tracker of pauses may refuse settings that validate. -/
theorem initial_meets (hvalid : s.Valid) (fullCauses : List Cause) (sizer : Sizer) :
    Meets (initial s heap now fullCauses sizer)
      (fun p => s.pauseGoalSeconds < s.pauseIntervalSeconds ∧ p.Unused s heap now sizer)
      (fun fault => ¬ s.pauseGoalSeconds < s.pauseIntervalSeconds ∧
        fault = .pauseExceedsSlice s.pauseGoalSeconds s.pauseIntervalSeconds) := by
  have hmarking : s.markingPercent ≤ 100 :=
    hvalid.percentages ("initiating_heap_occupancy_percent", _) (by simp [Settings.percentages])
  have htracker :
      Meets (Utilization.Tracker.create s.pauseIntervalSeconds s.pauseGoalSeconds)
        (fun _ => s.pauseGoalSeconds < s.pauseIntervalSeconds)
        (fun fault => ¬ s.pauseGoalSeconds < s.pauseIntervalSeconds ∧
          fault = .pauseExceedsSlice s.pauseGoalSeconds s.pauseIntervalSeconds) :=
    (meets_demand fun hlong => ⟨hlong, rfl⟩).bind fun _ hshort => meets_pure hshort
  refine htracker.bind fun utilization hshort => ?_
  refine (initialThreshold_meets (percentage_of_le hmarking)).bind fun threshold _ => ?_
  exact meets_pure ⟨hshort, rfl, rfl, rfl, rfl⟩

/-- With its sizes known the policy has bounds for the heap. -/
theorem resize_meets_of_unused {sizer : Sizer} {p : Policy Float} {fail : Fault Float → Prop}
    (hp : p.Unused s heap now sizer) (hheap : heap.Startable s) (hvalid : s.Valid)
    (hchosen : Sizer.Chosen s (.ok sizer)) :
    Meets (p.resize heap.regions)
      (fun q => q.Unused s heap now (sizer.forHeap heap.regions)) fail := by
  have hlargest : sizer.largestPercent = s.largestYoungPercent := by
    cases hchosen <;> rfl
  have hproduct : heap.regions * sizer.largestPercent < wordBound :=
    hlargest ▸ Nat.lt_trans hheap.percent (by decide)
  have hbytes : heap.regions * p.settings.regionSize < wordBound :=
    hp.settings ▸ Nat.lt_trans hheap.bytes (by decide)
  unfold resize
  rw [hp.sizer]
  refine ((hchosen.ordered hvalid.youngPercents).resize_meets hheap.regions hproduct).bind ?_
  rintro _ rfl
  refine (Word.meets_mul fun hover => absurd hbytes (Nat.not_lt.mpr hover)).bind fun _ _ => ?_
  exact meets_pure ⟨hp.settings, hp.costs, hp.freeRegions, rfl⟩

/-- The bounds for a heap to start with are counts below half of the words. -/
theorem boundsAt_lt {sizer : Sizer} (hheap : heap.Startable s) (hvalid : s.Valid)
    (hchosen : Sizer.Chosen s (.ok sizer)) : (sizer.boundsAt heap.regions).2 < 2 ^ 63 := by
  have sized {size : Nat} (h : size < 2 ^ 63) : Sizer.regionsIn size s.regionSize < 2 ^ 63 :=
    Nat.lt_succ_of_le (Sizer.regionsIn_le (Nat.le_of_lt_succ h) (by decide))
  have shared : Sizer.regionsAt heap.regions s.largestYoungPercent < 2 ^ 63 :=
    Nat.lt_succ_of_le (Sizer.regionsAt_le (Nat.le_of_lt_succ hheap.percent) (by decide))
  cases hchosen with
  | sizes _ hlargest _ => exact sized (hheap.largestSize _ hlargest)
  | leastSize hleast _ => exact Nat.max_lt.mpr ⟨shared, sized (hheap.leastSize _ hleast)⟩
  | largestSize _ hlargest => exact sized (hheap.largestSize _ hlargest)
  | ratio =>
    have hregions : heap.regions < 2 ^ 63 :=
      Nat.lt_of_le_of_lt (Nat.le_mul_of_pos_right _ (Nat.pos_of_ne_zero hvalid.regionSize_ne_zero))
        hheap.bytes
    exact Nat.max_lt.mpr ⟨Nat.lt_of_le_of_lt (Nat.div_le_self _ _) hregions, by decide⟩
  | percentages => exact shared

/-- The first length is chosen without a fault. -/
theorem chooseYoungLength_meets_of_unused {sizer : Sizer} {p : Policy Float}
    {fail : Fault Float → Prop} (hp : p.Unused s heap now sizer) (hheap : heap.Startable s)
    (hvalid : s.Valid) (hleast : sizer.least < 2 ^ 63) (hlargest : sizer.largest < 2 ^ 63) :
    (p.chooseYoungLength heap now).Meets (fun _ _ => True) fail := by
  have percent {name : String} {value : Nat} (h : (name, value) ∈ s.percentages) : value ≤ 100 :=
    hvalid.percentages _ h
  have hconfidence : s.confidencePercent ≤ 100 :=
    @percent "confidence_percent" _ (by simp [Settings.percentages])
  have hexpansion : s.expansionPercent ≤ 100 :=
    @percent "gc_locker_eden_expansion_percent" _ (by simp [Settings.percentages])
  have hestimate : p.regionsUntilPause now = .ok 0 := by
    have hnone : ¬ 3 < p.costs.allocationRates.size := by
      rw [hp.costs]
      exact Nat.not_lt_zero 3
    rw [regionsUntilPause, decide_eq_false hnone, Bool.and_false]
    rfl
  have hentries : p.costs.entryCount = .ok 0 := by
    rw [hp.costs]
    exact CostModel.entryCount_create hconfidence _ _
  have hentries : Meets p.costs.entryCount (fun _ => True) fail := hentries ▸ trivial
  refine (Act.meets_ofChecked hentries).bind_silent fun entries _ => ?_
  have hfloor : p.youngFloor heap 0 < 2 ^ 63 := by
    rw [youngFloor, hheap.survivors, hheap.eden, hp.sizer]
    simp only [List.length_nil]
    omega
  have hlargest : p.sizer.largest < 2 ^ 63 := hp.sizer ▸ hlargest
  have hchoosable : p.Choosable heap now 0 := by
    refine ⟨hestimate, ?_, ?_, ?_, fun _ => ?_, fun unbounded _ => ?_⟩
    · rw [hheap.survivors]
      decide
    · rw [hheap.survivors, hheap.eden]
      decide
    · rw [hheap.survivors]
      exact List.forall_mem_nil _
    · rw [hp.settings, hp.freeRegions]
      have hfree : (heap.free - p.reserve) * s.regionSize < 2 ^ 63 :=
        Nat.lt_of_le_of_lt (Nat.mul_le_mul_right _ (Nat.sub_le _ _)) hheap.free
      exact Nat.lt_trans hfree (by decide)
    · have hsmall : (p.sizingBounds heap 0).clamp unbounded < 2 ^ 63 :=
        Nat.lt_of_le_of_lt ((p.sizingBounds heap 0).clamp_le unbounded)
          (Nat.max_lt.mpr ⟨hfloor, Nat.lt_of_le_of_lt (Nat.min_le_left _ _) hlargest⟩)
      have hgrowth : p.youngExpansion ((p.sizingBounds heap 0).clamp unbounded) ≤ 2 ^ 63 := by
        rw [youngExpansion, hp.settings]
        exact ceil_share_le hexpansion (Nat.le_of_lt hsmall)
      have hword : wordBound = 2 ^ 63 + 2 ^ 63 := by decide
      omega
  exact hchoosable.chooseYoungLengthFor_meets entries

/-! ## All starts -/

/-- What a start ends in: a policy, or the refusal of sizes that cross. -/
inductive Started (s : Settings Float) : Except (SettingsError Float) (Policy Float) → Prop
  | refused {least largest : Nat} (hleast : s.leastYoungSize = some least)
      (hlargest : s.largestYoungSize = some largest) (h : largest < least) :
      Started s (.error (.youngSizes least largest))
  | policy {p : Policy Float} (hsizes : ¬ s.Crossed)
      (hshort : s.pauseGoalSeconds < s.pauseIntervalSeconds) : Started s (.ok p)

theorem start_meets (hvalid : s.validate = .ok ()) (hheap : heap.Startable s)
    (fullCauses : List Cause) :
    (start s heap now fullCauses).Meets (fun r _ => Started s r)
      (fun fault => (¬ s.Crossed ∧ ¬ s.pauseGoalSeconds < s.pauseIntervalSeconds) ∧
        fault = .pauseExceedsSlice s.pauseGoalSeconds s.pauseIntervalSeconds) := by
  have hall := Settings.validate_eq_ok_iff.mp hvalid
  unfold start
  rw [hvalid]
  refine (Act.meets_ofLogged (Sizer.ofSettings_meets hall.regionSize_ne_zero)).bind_silent ?_
  intro sizer hchosen
  cases sizer with
  | error error =>
    cases hchosen with
    | crossed hleast hlargest h => exact Act.meets_pure (.refused hleast hlargest h)
  | ok sizer =>
    have hsizes := hchosen.not_crossed
    have hbounds := boundsAt_lt hheap hall hchosen
    have hordered := (hchosen.ordered hall.youngPercents).boundsAt_le heap.regions
    refine ((Act.meets_ofChecked (initial_meets hall fullCauses sizer)).mono (fun _ _ h => h)
      fun _ h => ⟨⟨hsizes, h.1⟩, h.2⟩).bind_silent ?_
    rintro p ⟨hshort, hp⟩
    refine (Act.meets_ofChecked (resize_meets_of_unused hp hheap hall hchosen)).bind_silent ?_
    intro q hq
    refine (chooseYoungLength_meets_of_unused hq hheap hall
      (Nat.lt_of_le_of_lt hordered hbounds) hbounds).bind fun _ _ _ => ?_
    exact Act.meets_pure (.policy hsizes hshort)

/-- Settings that validate start the policy, or are refused because their sizes cross, if the goal
in seconds is below the interval in seconds. If it is not, the start ends in the fault of the
tracker, unless the sizes were refused before; there is no other fault. -/
theorem start_of_validated_settings (hvalid : s.validate = .ok ()) (hheap : heap.Startable s)
    (fullCauses : List Cause) (journal : Journal Float) :
    (s.Crossed → ∃ least largest,
      ((start s heap now fullCauses).outcome journal).1 =
        .ok (.error (.youngSizes least largest))) ∧
    (¬ s.Crossed → s.pauseGoalSeconds < s.pauseIntervalSeconds →
      ∃ p, ((start s heap now fullCauses).outcome journal).1 = .ok (.ok p)) ∧
    (¬ s.Crossed → ¬ s.pauseGoalSeconds < s.pauseIntervalSeconds →
      ((start s heap now fullCauses).outcome journal).1 =
        .error (.pauseExceedsSlice s.pauseGoalSeconds s.pauseIntervalSeconds)) := by
  have hmeets := @start_meets s heap now hvalid hheap fullCauses journal
  revert hmeets
  cases (start s heap now fullCauses).outcome journal with
  | mk result journal' =>
    cases result with
    | error fault =>
      rintro ⟨⟨hsizes, hlong⟩, rfl⟩
      exact ⟨fun hcrossed => absurd hcrossed hsizes, fun _ hshort => absurd hshort hlong,
        fun _ _ => rfl⟩
    | ok r =>
      rintro ⟨_, _, hstarted⟩
      cases hstarted with
      | refused hleast hlargest h =>
        have hcrossed : s.Crossed := ⟨_, hleast, _, hlargest, h⟩
        exact ⟨fun _ => ⟨_, _, rfl⟩, fun hsizes => absurd hcrossed hsizes,
          fun hsizes => absurd hcrossed hsizes⟩
      | policy hsizes hshort =>
        exact ⟨fun hcrossed => absurd hcrossed hsizes, fun _ _ => ⟨_, rfl⟩,
          fun _ hlong => absurd hshort hlong⟩

/-- A heap of a hundred regions, almost all of them free. -/
def newHeap : Heap Float where
  regions := 100
  expandable := 0
  free := 90
  capacity := 104857600
  maxCapacity := 104857600
  oldBytes := 0
  usedBytes := 0
  eden := 0
  survivors := []
  cycleRunning := false
  pendingCards := 0
  refinement := { concurrentCards := 0, concurrentTime := num 0, mutatorCards := 0 }
  cause := .allocation
  evacuationFailed := false
  candidates := none

/-- The default settings with another goal and another interval, both in milliseconds. -/
def timed (goal interval : Float) : Settings Float :=
  { (Settings.default : Settings Float) with pauseGoal := goal, pauseInterval := interval }

theorem newHeap_startable (goal interval : Float) : newHeap.Startable (timed goal interval) where
  regions := by decide
  eden := rfl
  survivors := rfl
  bytes := show 100 * 1048576 < 2 ^ 63 by decide
  percent := show 100 * 60 < 2 ^ 63 by decide
  free := show 90 * 1048576 < 2 ^ 63 by decide
  leastSize := nofun
  largestSize := nofun

theorem start_of_defaults :
    (timed (num 200) (num 201)).validate = .ok () ∧
      newHeap.Startable (timed (num 200) (num 201)) ∧
      ∃ p, ((start (timed (num 200) (num 201)) newHeap (num 1) []).outcome {}).1 = .ok (.ok p) := by
  have hvalid : (timed (num 200) (num 201)).validate = .ok () :=
    Settings.validate_of_toBool (by decide +kernel)
  have hsizes : ¬ (timed (num 200) (num 201)).Crossed := by
    rintro ⟨_, hleast, _⟩
    cases hleast
  refine ⟨hvalid, newHeap_startable _ _, ?_⟩
  exact (start_of_validated_settings hvalid (newHeap_startable _ _) [] {}).2.1 hsizes
    (by decide +kernel)

/-- An interval that is no number passes validation, and so does the next double after a goal. In
seconds neither is above the goal. -/
theorem start_breaks_after_validation :
    ((timed (num 200) (num 0 / num 0)).validate = .ok () ∧
      newHeap.Startable (timed (num 200) (num 0 / num 0)) ∧
      ∃ fault, ((start (timed (num 200) (num 0 / num 0)) newHeap (num 1) []).outcome {}).1 =
        .error fault) ∧
    ((timed (num 251) (num 251 + ratio 1 (2 ^ 45))).validate = .ok () ∧
      newHeap.Startable (timed (num 251) (num 251 + ratio 1 (2 ^ 45))) ∧
      ∃ fault,
        ((start (timed (num 251) (num 251 + ratio 1 (2 ^ 45))) newHeap (num 1) []).outcome {}).1 =
          .error fault) := by
  have breaks {s : Settings Float}
      (h : ((start s newHeap (num 1) []).outcome {}).1.fault?.isSome = true) :
      ∃ fault, ((start s newHeap (num 1) []).outcome {}).1 = .error fault := by
    obtain ⟨fault, hfault⟩ := Option.isSome_iff_exists.mp h
    exact ⟨fault, Checked.eq_error_of_fault? hfault⟩
  exact ⟨⟨Settings.validate_of_toBool (by decide +kernel), newHeap_startable _ _,
      breaks (by decide +kernel)⟩,
    Settings.validate_of_toBool (by decide +kernel), newHeap_startable _ _,
      breaks (by decide +kernel)⟩

end Policy

end PauseGoal
