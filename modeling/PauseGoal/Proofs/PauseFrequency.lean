import PauseGoal.Proofs.SampleTotals
import PauseGoal.Proofs.Traces

/-!
# How frequent recent pauses were

The recent part of time spent in pauses is a quotient of two windows. One holds the times of the
last pauses. The other holds when they ended, and since the start of the model counts as an end it
is one sample ahead until both are full. It is asked for its oldest end before the end of the
present pause enters. So the interval starts where the earliest pause that is still summed begins to
count, both before and after the windows wrap around. Full collections enter both windows, but the
quotient is not taken at their ends.

Scalars are exact here. A rounded sum would carry the errors of all samples ever added.
-/

namespace PauseGoal

open Sample (Predictor Window)
open Scalar.Exact (toReal)

variable {α : Type} [Scalar α]

/-! ## What a collection adds -/

/-- A collection that was learned from. -/
structure Collection (α : Type) where
  /-- When it ended, in seconds. -/
  finish : α
  /-- How long it took, in milliseconds. -/
  time : α
  full : Bool
deriving DecidableEq

namespace CostModel

/-- The end of a collection: it enters both windows, and unless it was a full one the pauses are
related to the interval since the end that was the oldest before. -/
def learnCollection (m : CostModel α) (c : Collection α) : CostModel α :=
  let interval := (c.finish - m.oldestPauseEnd) * num 1000
  let entered := m.addPause c.finish c.time
  if c.full then entered else entered.updateRatios interval c.time

/-- What the ratios are updated from is the frequency itself. -/
theorem frequency_updateRatios {m m' : CostModel α} (h : m.frequency = m'.frequency)
    (interval time : α) :
    (m.updateRatios interval time).frequency = (m'.updateRatios interval time).frequency := by
  have htimes : m.pauseTimes = m'.pauseTimes := congrArg Frequency.pauseTimes h
  have hends : m.pauseEnds = m'.pauseEnds := congrArg Frequency.pauseEnds h
  unfold updateRatios
  split
  · exact h
  · simp only [frequency, htimes, hends]

theorem frequency_addPause {m m' : CostModel α} (h : m.frequency = m'.frequency)
    (finish time : α) :
    (m.addPause finish time).frequency = (m'.addPause finish time).frequency := by
  have hadded (m : CostModel α) : (m.addPause finish time).frequency =
      { m.frequency with
        pauseTimes := m.frequency.pauseTimes.add time
        pauseEnds := m.frequency.pauseEnds.add finish } := rfl
  rw [hadded, hadded, h]

theorem frequency_learnCollection {m m' : CostModel α} (h : m.frequency = m'.frequency)
    (c : Collection α) : (m.learnCollection c).frequency = (m'.learnCollection c).frequency := by
  have holdest : m.oldestPauseEnd = m'.oldestPauseEnd :=
    congrArg (fun f => f.pauseEnds.oldest) h
  simp only [learnCollection, holdest]
  split
  · exact frequency_addPause h _ _
  · exact frequency_updateRatios (frequency_addPause h _ _) _ _

theorem windows_updateRatios (m : CostModel α) (interval time : α) :
    (m.updateRatios interval time).pauseTimes = m.pauseTimes ∧
      (m.updateRatios interval time).pauseEnds = m.pauseEnds := by
  unfold updateRatios
  split <;> exact ⟨rfl, rfl⟩

/-- Every collection enters both windows. -/
theorem windows_learnCollection (m : CostModel α) (c : Collection α) :
    (m.learnCollection c).pauseTimes = m.pauseTimes.add c.time ∧
      (m.learnCollection c).pauseEnds = m.pauseEnds.add c.finish := by
  simp only [learnCollection]
  split
  · exact ⟨rfl, rfl⟩
  · exact windows_updateRatios _ _ _

theorem windows_foldl_learnCollection (m : CostModel α) (cs : List (Collection α)) :
    (cs.foldl learnCollection m).pauseTimes =
        (cs.map Collection.time).foldl Window.add m.pauseTimes ∧
      (cs.foldl learnCollection m).pauseEnds =
        (cs.map Collection.finish).foldl Window.add m.pauseEnds := by
  induction cs generalizing m with
  | nil => exact ⟨rfl, rfl⟩
  | cons c cs ih =>
    obtain ⟨htimes, hends⟩ := windows_learnCollection m c
    obtain ⟨ihTimes, ihEnds⟩ := ih (m.learnCollection c)
    exact ⟨by rw [List.foldl_cons, ihTimes, htimes]; rfl,
      by rw [List.foldl_cons, ihEnds, hends]; rfl⟩

/-- At the end of an evacuation pause the pauses are related to the interval, if there is one. -/
theorem pauseRatio_learnCollection {m : CostModel α} {finish time : α}
    (h : ¬ (finish - m.oldestPauseEnd) * num 1000 ≤ num 0) :
    (m.learnCollection ⟨finish, time, false⟩).pauseRatio =
      Scalar.min (Scalar.max ((m.pauseTimes.add time).sum /
        ((finish - m.oldestPauseEnd) * num 1000)) (num 0)) (num 1) := by
  simp only [learnCollection, updateRatios, if_neg h, Bool.false_eq_true, if_false]
  rfl

/-! ## Any number of collections -/

section

variable (predictor : Predictor α) (workers : Nat) (begun : α) (cs : List (Collection α))

/-- When the model began and the collections since ended, in order. -/
def endsFrom (begun : α) (cs : List (Collection α)) : List α := begun :: cs.map Collection.finish

/-- The last collections, as many as a window holds. -/
def lastTen (cs : List (Collection α)) : List (Collection α) :=
  cs.drop (cs.length - min cs.length 10)

/-- The start of the model is one end more, so that the next collection will be the last of those
that follow the oldest end. -/
theorem oldestPauseEnd_foldl :
    (endsFrom begun cs)[cs.length + 1 - min (cs.length + 1) 10]? =
      some (cs.foldl learnCollection (create predictor workers begun)).oldestPauseEnd := by
  have hlength : (endsFrom begun cs).length = cs.length + 1 := by
    rw [endsFrom, List.length_cons, List.length_map]
  have hindex : cs.length + 1 - min (cs.length + 1) 10 = (endsFrom begun cs).length - 10 := by
    omega
  have hsome : (endsFrom begun cs).length - 10 < (endsFrom begun cs).length := by omega
  have hends : (cs.foldl learnCollection (create predictor workers begun)).pauseEnds =
      (endsFrom begun cs).foldl Window.add (Window.empty 10 Window.defaultWeight) :=
    (windows_foldl_learnCollection (create predictor workers begun) cs).2
  rw [hindex, oldestPauseEnd, hends, Window.oldest_foldl_add_empty,
    List.getElem?_eq_getElem hsome, Option.getD_some]

theorem toReal_sum_pauseTimes_foldl [Scalar.Exact α] :
    toReal (cs.foldl learnCollection (create predictor workers begun)).pauseTimes.sum =
      ((lastTen cs).map fun c => toReal c.time).sum := by
  have hempty : (create predictor workers begun).pauseTimes =
    Window.empty 10 Window.defaultWeight := rfl
  have hsummed := (Window.summed_empty (show 0 < 10 by decide)
    (Window.defaultWeight : α)).foldl_add (cs.map Collection.time)
  have hsamples := Window.samples_foldl_add_empty (show 0 < 10 by decide)
    (Window.defaultWeight : α) (cs.map Collection.time)
  have htimes := (windows_foldl_learnCollection (create predictor workers begun) cs).1
  have hindex : cs.length - 10 = cs.length - min cs.length 10 := by omega
  rw [List.length_map, hindex] at hsamples
  rw [htimes, hempty, hsummed.sum_eq, hsamples, lastTen, ← List.map_drop, List.map_map]
  rfl

end

/-- When the ends ascend, the collections from some position on are those that ended after the end
before them. -/
theorem drop_eq_filter_of_ascending [Scalar.Exact α] {begun start : α} {cs : List (Collection α)}
    {i : Nat} (hascend : (endsFrom begun cs).Pairwise (· < ·))
    (hstart : (endsFrom begun cs)[i]? = some start) :
    cs.drop i = cs.filter fun c => decide (start < c.finish) := by
  obtain ⟨hi, hget⟩ := List.getElem?_eq_some_iff.mp hstart
  -- the end in question with the ends before and after it
  have hsplit : endsFrom begun cs =
      (endsFrom begun cs).take i ++ start :: (endsFrom begun cs).drop (i + 1) := by
    rw [← hget, List.getElem_cons_drop, List.take_append_drop]
  rw [hsplit, List.pairwise_append, List.pairwise_cons] at hascend
  obtain ⟨_, ⟨hafter, _⟩, hbefore⟩ := hascend
  have early (c : Collection α) (hc : c ∈ cs.take i) : ¬ start < c.finish := by
    have hmem : c.finish ∈ (endsFrom begun cs).take (i + 1) := by
      rw [endsFrom, List.take_succ_cons, ← List.map_take]
      exact List.mem_cons_of_mem _ (List.mem_map_of_mem hc)
    rw [List.take_succ_eq_append_getElem hi, hget, List.mem_append, List.mem_singleton] at hmem
    rw [Scalar.not_lt_iff, Scalar.Exact.le_iff]
    rcases hmem with hmem | heq
    · exact ((Scalar.Exact.lt_iff _ _).mp (hbefore _ hmem start List.mem_cons_self)).le
    · rw [heq]
  have late (c : Collection α) (hc : c ∈ cs.drop i) : start < c.finish := by
    refine hafter _ ?_
    rw [endsFrom, List.drop_succ_cons, ← List.map_drop]
    exact List.mem_map_of_mem hc
  conv_rhs => rw [← List.take_append_drop i cs]
  rw [List.filter_append, List.filter_eq_nil_iff.mpr fun c hc => by simpa using early c hc,
    List.filter_eq_self.mpr fun c hc => by simpa using late c hc, List.nil_append]

section

variable (predictor : Predictor α) (workers : Nat) (begun finish time : α)
  (earlier : List (Collection α))

/-- The interval of an evacuation pause begins with the last ten collections, this pause being the
last of them, or with the model if there were fewer. -/
theorem oldestPauseEnd_eq :
    let all := earlier ++ [⟨finish, time, false⟩]
    (endsFrom begun all)[all.length - min all.length 10]? =
      some (earlier.foldl learnCollection (create predictor workers begun)).oldestPauseEnd := by
  intro all
  have hlength : all.length = earlier.length + 1 := List.length_append
  have hends : endsFrom begun all = endsFrom begun earlier ++ [finish] := by
    rw [endsFrom, endsFrom, List.map_append, List.map_singleton, List.cons_append]
  have hindex : earlier.length + 1 - min (earlier.length + 1) 10 <
      (endsFrom begun earlier).length := by
    rw [endsFrom, List.length_cons, List.length_map]
    omega
  rw [hends, hlength, List.getElem?_append_left hindex]
  exact oldestPauseEnd_foldl predictor workers begun earlier

theorem toReal_pauseRatio [Scalar.Exact α] :
    let before := earlier.foldl learnCollection (create predictor workers begun)
    num 0 < (finish - before.oldestPauseEnd) * num 1000 →
    toReal (before.learnCollection ⟨finish, time, false⟩).pauseRatio =
      min 1 (max 0 (((lastTen (earlier ++ [⟨finish, time, false⟩])).map fun c =>
        toReal c.time).sum / ((toReal finish - toReal before.oldestPauseEnd) * 1000))) := by
  intro before hinterval
  have hsum : toReal (before.pauseTimes.add time).sum =
      ((lastTen (earlier ++ [⟨finish, time, false⟩])).map fun c => toReal c.time).sum := by
    rw [← toReal_sum_pauseTimes_foldl predictor workers begun, List.foldl_append]
    exact congrArg (fun w => toReal w.sum)
      (windows_learnCollection before ⟨finish, time, false⟩).1.symm
  have hpositive : ¬ (finish - before.oldestPauseEnd) * num 1000 ≤ num 0 := by
    rw [Scalar.Exact.le_iff, not_le, ← Scalar.Exact.lt_iff]
    exact hinterval
  rw [pauseRatio_learnCollection hpositive]
  simp [hsum, max_comm, min_comm]

/-- When the ends ascend, the last ten collections are those that ended in the interval. -/
theorem lastTen_eq_filter [Scalar.Exact α] :
    let before := earlier.foldl learnCollection (create predictor workers begun)
    let all := earlier ++ [⟨finish, time, false⟩]
    (endsFrom begun all).Pairwise (· < ·) →
    lastTen all =
      all.filter fun c => decide (before.oldestPauseEnd < c.finish ∧ c.finish ≤ finish) := by
  intro before all hascend
  have hlast (c : Collection α) (hc : c ∈ all) : c.finish ≤ finish := by
    rw [Scalar.Exact.le_iff]
    rcases List.mem_append.mp hc with hc | hc
    · have hends : endsFrom begun all = endsFrom begun earlier ++ [finish] := by
        rw [endsFrom, endsFrom, List.map_append, List.map_singleton, List.cons_append]
      rw [hends, List.pairwise_append] at hascend
      have hmem : c.finish ∈ endsFrom begun earlier :=
        List.mem_cons_of_mem _ (List.mem_map_of_mem hc)
      exact ((Scalar.Exact.lt_iff _ _).mp
        (hascend.2.2 _ hmem finish List.mem_cons_self)).le
    · rw [List.mem_singleton.mp hc]
  rw [lastTen, drop_eq_filter_of_ascending hascend
    (oldestPauseEnd_eq predictor workers begun finish time earlier)]
  refine List.filter_congr fun c hc => ?_
  simp [before, hlast c hc]

end

end CostModel

/-! ## In a run of the policy -/

namespace Policy

open Act (returns_pure returns_bind returns_ofChecked)

/-- The allocation rate, which is learned on the way, is no part of the frequency. -/
theorem frequency_learnFrequency (p : Policy α) (mutatorTime finish pause : α) :
    (p.learnFrequency mutatorTime finish pause).frequency =
      (p.costs.learnCollection ⟨finish, pause, false⟩).frequency :=
  CostModel.frequency_learnCollection
    (show (p.costs.addAllocationRate _).frequency = p.costs.frequency from rfl)
    ⟨finish, pause, false⟩

theorem frequency_chooseYoungLength (p : Policy α) (heap : Heap α) (now : α) :
    (p.chooseYoungLength heap now).Returns fun r => r.2.costs.frequency = p.costs.frequency := by
  refine (rechosen_of_chooseYoungLength p heap now).returns ?_
  rintro ⟨_, _⟩ _ ⟨_, _, _, _, rfl⟩
  rfl

theorem frequency_prepareNext (p : Policy α) (heap : Heap α) (now mutatorTime hotCards : α)
    (youngOnly initialMark : Bool) :
    (p.prepareNext heap now mutatorTime hotCards youngOnly initialMark).Returns fun q =>
      q.costs.frequency = p.costs.frequency := by
  refine (p.frequency_chooseYoungLength heap now).bind fun r hr => ?_
  refine (returns_ofChecked fun q hq =>
    r.2.expectPredictedEntries_meets.of_eq_ok hq).bind fun q hq => ?_
  refine ((q.learnThresholdUnlessPeriodic_meets heap _ _ _ _).returns
    fun _ _ h => h.2).bind fun s hs => ?_
  refine (s.grantRefinementTime_meets heap hotCards).returns ?_
  rintro _ _ ⟨_, _, _, rfl⟩
  obtain ⟨_, rfl⟩ := hq
  obtain ⟨_, _, _, rfl⟩ := hs
  exact hr

/-- The collections that the end of an evacuation pause is learned as: none if evacuation failed. -/
theorem frequency_endPause (p : Policy α) (heap : Heap α) (now pause : α) :
    (p.endPause heap now pause).Returns fun r =>
      r.1.costs.frequency =
        (if heap.evacuationFailed then p.costs
        else p.costs.learnCollection ⟨now, pause, false⟩).frequency := by
  unfold endPause
  simp only
  refine returns_bind fun kind => ?_
  refine ((recordPause_meets _ _ _ _).returns fun _ _ h => h.2).bind ?_
  rintro q₁ ⟨_, _, _, _, hq₁⟩
  have hcounted : q₁.costs.frequency = p.costs.frequency := by
    rw [hq₁]
    rfl
  clear hq₁
  refine ((settleMarking_meets _ _ _).returns fun _ _ h => h.2).bind fun q₂ hq₂ => ?_
  have hsettled : q₂.costs.frequency = p.costs.frequency := by
    obtain ⟨_, rfl⟩ := hq₂
    exact hcounted
  clear hq₂
  have hfrequency :
      (q₂.frequencyAfter q₂.mutatorTime now pause (!heap.evacuationFailed)).frequency =
        (if heap.evacuationFailed then p.costs
        else p.costs.learnCollection ⟨now, pause, false⟩).frequency := by
    unfold frequencyAfter
    cases heap.evacuationFailed with
    | true => exact hsettled
    | false =>
      exact (q₂.frequency_learnFrequency _ _ _).trans
        (CostModel.frequency_learnCollection hsettled _)
  refine ((advancePhases_meets _ _ _ _).returns fun _ _ h => h.2.1).bind fun r hr => ?_
  have hadvanced : r.1.costs.frequency =
      (q₂.frequencyAfter q₂.mutatorTime now pause (!heap.evacuationFailed)).frequency := by
    obtain ⟨_, _, hr⟩ := hr
    rw [hr]
  clear hr
  refine (returns_ofChecked fun costs h => frequency_costsAfter h).bind fun costs hcosts => ?_
  refine returns_bind fun _ => (frequency_prepareNext _ _ _ _ _ _ _).bind fun s hs => ?_
  refine returns_bind fun _ => returns_pure ?_
  calc s.costs.frequency
      = costs.frequency := hs
    _ = r.1.costs.frequency := hcosts
    _ = (q₂.frequencyAfter q₂.mutatorTime now pause (!heap.evacuationFailed)).frequency :=
      hadvanced
    _ = _ := hfrequency

theorem frequency_endFull (p : Policy α) (heap : Heap α) (now : α) :
    (p.endFull heap now).Returns fun q =>
      q.costs.frequency =
        (p.costs.learnCollection ⟨now, (now - p.fullStart) * num 1000, true⟩).frequency := by
  unfold endFull
  simp only
  refine returns_bind fun needed => ?_
  refine ((rechosen_of_chooseYoungLength _ heap now).returns fun _ _ h => h.2.2).bind fun r hr => ?_
  refine (returns_ofChecked fun q hq =>
    r.2.expectPredictedEntries_meets.of_eq_ok hq).bind fun q hq => ?_
  refine ((recordPause_meets _ _ _ _).returns fun _ _ h => h.2).bind fun s hs => ?_
  refine returns_bind fun _ => returns_pure ?_
  obtain ⟨_, _, hr⟩ := hr
  obtain ⟨_, rfl⟩ := hq
  obtain ⟨_, _, _, _, rfl⟩ := hs
  rw [hr]
  rfl

theorem frequency_endRemark (p : Policy α) (now : α) :
    (p.endRemark now).Returns fun q => q.costs.frequency = p.costs.frequency := by
  unfold endRemark
  extract_lets pause costs
  refine (recordPause_meets _ _ _ _).returns ?_
  rintro _ _ ⟨_, _, _, _, _, rfl⟩
  rfl

theorem frequency_endCleanup (p : Policy α) (heap : Heap α) (now : α) :
    (p.endCleanup heap now).Returns fun r => r.1.costs.frequency = p.costs.frequency := by
  refine returns_bind fun worthwhile => ?_
  have hforget : ∃ length,
      (if worthwhile then p else p.forgetMarkingLength) = { p with markingLength := length } := by
    cases worthwhile with
    | true => exact ⟨p.markingLength, rfl⟩
    | false => exact ⟨.unknown, rfl⟩
  obtain ⟨length, hforget⟩ := hforget
  simp only [hforget]
  refine ((recordPause_meets _ _ _ _).returns fun _ _ h => h.2).bind ?_
  rintro _ ⟨_, _, _, _, rfl⟩
  exact returns_pure rfl

theorem frequency_initial {settings : Settings α} {heap : Heap α} {now : α}
    {fullCauses : List Cause} {sizer : Young.Sizer} {p : Policy α}
    (h : initial settings heap now fullCauses sizer = .ok p) :
    p.costs.frequency = (CostModel.create p.predictor p.settings.workers now).frequency := by
  obtain ⟨utilization, _, h⟩ := Checked.exists_of_bind_eq_ok h
  obtain ⟨threshold, _, hp⟩ := Checked.exists_of_bind_eq_ok h
  cases hp
  rfl

theorem frequency_start (settings : Settings α) (heap : Heap α) (now : α)
    (fullCauses : List Cause) :
    (start settings heap now fullCauses).Returns fun r =>
      ∀ p, r = .ok p →
        p.costs.frequency =
          (CostModel.create p.predictor p.settings.workers now).frequency := by
  refine returns_start fun sizer p q hp hq =>
    (q.frequency_chooseYoungLength heap now).mono fun r hr => ?_
  have hinitial := frequency_initial hp
  obtain rfl := (p.resize_meets heap.regions).of_eq_ok hq
  exact hr.trans hinitial

end Policy

namespace Collector

/-- The collection that a call ends, if anything is learned from it. -/
def World.collection? (w : World α) : Call α → Option (Collection α)
  | .endPause heap now pause => if heap.evacuationFailed then none else some ⟨now, pause, false⟩
  | .endFull _ now => some ⟨now, (now - w.policy.fullStart) * num 1000, true⟩
  | _ => none

/-- The collections of a run, in order. -/
def learnedCollections (t : List (Moment α)) : List (Collection α) :=
  t.filterMap fun m => m.world.collection? m.call

namespace World

variable {w w' : World α} {c : Call α}

/-- The policy knows of the pauses before a call and of the collection that it ended, if any. -/
def Counted (w : World α) (c : Call α) (p : Policy α) : Prop :=
  p.costs.frequency =
    ((w.collection? c).toList.foldl CostModel.learnCollection w.policy.costs).frequency

theorem counted_of_act {β : Type} {x : Act α β} {next : β → World α} (h : w.act x next = .ok w')
    (hx : x.Returns fun b => w.Counted c (next b).policy) : w.Counted c w'.policy := by
  obtain ⟨b, journal, hout, rfl⟩ := exists_of_act_eq_ok h
  exact hx _ _ _ hout

theorem counted_of_doChore {chore : Chore α} (h : w.doChore chore = .ok w') :
    w.Counted (.chore chore) w'.policy := by
  cases chore with
  | newEden | measure breakdown =>
    cases h
    rfl
  | addOldAllocation bytes =>
    obtain ⟨p, hp, hw'⟩ := Checked.exists_of_bind_eq_ok h
    cases hw'
    obtain rfl := (w.policy.addOldAllocation_meets bytes).of_eq_ok hp
    rfl
  | recordSurvivors tag bytes =>
    obtain ⟨p, hp, hw'⟩ := Checked.exists_of_bind_eq_ok h
    cases hw'
    obtain ⟨_, _, rfl⟩ := (w.policy.recordSurvivors_meets tag bytes).of_eq_ok hp
    rfl
  | recordAges ages =>
    obtain ⟨p, hp, hw'⟩ := Checked.exists_of_bind_eq_ok h
    cases hw'
    obtain ⟨_, rfl⟩ := (w.policy.recordAges_meets ages).of_eq_ok hp
    rfl
  | exhaustSurvivorSpace =>
    simp only [doChore] at h
    refine counted_of_act h (w.policy.exhaustSurvivorSpace_meets.returns ?_)
    rintro _ _ ⟨_, rfl⟩
    rfl
  | resize regions =>
    obtain ⟨p, hp, hw'⟩ := Checked.exists_of_bind_eq_ok h
    cases hw'
    obtain rfl := (w.policy.resize_meets regions).of_eq_ok hp
    rfl
  | chooseYoungLength heap now =>
    exact counted_of_act h (w.policy.frequency_chooseYoungLength (w.view heap) now)
  | revise heap now entries =>
    refine counted_of_act h ((w.policy.revised_meets (w.view heap) now entries).returns ?_)
    rintro q _ (⟨_, _, rfl⟩ | ⟨_, _, _, _, hq⟩)
    · rfl
    · obtain ⟨_, hexpected⟩ := w.policy.expectEntries_eq (entries * 1100 / 1000)
      rw [Counted, hq, hexpected]
      rfl
  | readRefinement heap full =>
    refine counted_of_act h ((w.policy.readRefinement_meets (w.view heap) full).returns ?_)
    rintro _ _ ⟨_, _, _, rfl⟩
    rfl
  | needsMarking heap source bytes => exact counted_of_act h fun _ _ _ _ => rfl

theorem counted_of_perform (h : w.perform c = .ok w') : w.Counted c w'.policy := by
  cases c with
  | beginPause | transfer count learn | startRemark now | startCleanup now | request
  | arrive arrivals | setCandidates candidates =>
    cases h
    rfl
  | decide heap =>
    refine counted_of_act h ((w.policy.decideMarking_meets (w.view heap)).returns ?_)
    rintro ⟨_, _, _⟩ _ ⟨_, ⟨_, _, _, rfl⟩, _⟩
    rfl
  | startPause heap start =>
    refine counted_of_act h ((w.policy.startPause_meets (w.view heap) start).returns ?_)
    rintro _ _ ⟨_, _, _, _, _, rfl⟩
    rfl
  | endPause heap now pause =>
    refine counted_of_act h ((w.policy.frequency_endPause (w.view heap) now pause).mono ?_)
    intro r hr
    rw [Counted, hr, collection?, show (w.view heap).evacuationFailed = heap.evacuationFailed from
      rfl]
    cases heap.evacuationFailed <;> rfl
  | startFull heap now =>
    simp only [perform] at h
    refine counted_of_act h ((w.policy.startFull_meets (w.view heap) now).returns ?_)
    rintro ⟨_, _⟩ _ ⟨_, rfl, _⟩
    rfl
  | endFull heap now => exact counted_of_act h (w.policy.frequency_endFull (w.view heap) now)
  | endRemark now => exact counted_of_act h (w.policy.frequency_endRemark now)
  | endCleanup heap now => exact counted_of_act h (w.policy.frequency_endCleanup (w.view heap) now)
  | forceMarking heap cause =>
    refine counted_of_act h ((w.policy.forceMarking_meets (w.view heap) cause).returns ?_)
    rintro ⟨_, _⟩ _ ⟨_, _, rfl⟩
    rfl
  | finishInitialMark =>
    refine counted_of_act h (w.policy.finishInitialMark_meets.returns ?_)
    rintro _ _ ⟨_, _, rfl⟩
    rfl
  | takeCandidates count =>
    simp only [perform] at h
    split at h
    · cases h
      rfl
    · obtain ⟨rest, _, hw'⟩ := Checked.exists_of_bind_eq_ok h
      cases hw'
      rfl
  | chooseOld heap timeLeft => exact counted_of_act h fun _ _ _ _ => rfl
  | chooseOptional heap most timeLeft => exact counted_of_act h fun _ _ _ _ => rfl
  | chore chore => exact counted_of_doChore h

theorem counted_of_call (h : w.call c = .ok w') : w.Counted c w'.policy := by
  obtain ⟨w₁, hperform, hpolicy, _⟩ := exists_perform_of_call h
  rw [hpolicy]
  exact counted_of_perform hperform

end World

theorem frequency_foldl_learnCollection {m m' : CostModel α} (h : m.frequency = m'.frequency)
    (cs : List (Collection α)) :
    (cs.foldl CostModel.learnCollection m).frequency =
      (cs.foldl CostModel.learnCollection m').frequency := by
  induction cs generalizing m m' with
  | nil => exact h
  | cons c cs ih => exact ih (CostModel.frequency_learnCollection h c)

/-- In a run the policy learns the frequency of pauses from its collections and nothing else. -/
theorem Traces.frequency_eq {allowed : List (Moment α) → Call α → Bool} {w₀ w : World α}
    {t : List (Moment α)} (hrun : Traces allowed w₀ t w) :
    w.policy.costs.frequency =
      ((learnedCollections t).foldl CostModel.learnCollection w₀.policy.costs).frequency := by
  induction hrun with
  | start => rfl
  | call _ _ hcall ih =>
    rw [World.counted_of_call hcall, learnedCollections, List.filterMap_append, List.foldl_append]
    exact frequency_foldl_learnCollection ih _

/-- Take any sequence of collections that ends in an evacuation pause. The interval to which its
pauses are related begins at the end before the last ten of them, or with the model; the recent part
of time is the sum of just these pauses by the interval, cut to between nothing and all of it; and
when the ends ascend these are the pauses that ended in the interval. That is what the policy
computes: after any run its recent pauses are those of the collections of the run in their order. -/
theorem pauseRatio_relates_matching_windows [Scalar.Exact α] :
    (∀ (predictor : Predictor α) (workers : Nat) (begun finish time : α)
        (earlier : List (Collection α)),
      let before := earlier.foldl CostModel.learnCollection (.create predictor workers begun)
      let all := earlier ++ [⟨finish, time, false⟩]
      let n := min all.length 10
      let start := before.oldestPauseEnd
      (CostModel.endsFrom begun all)[all.length - n]? = some start ∧
        (num 0 < (finish - start) * num 1000 →
          toReal (before.learnCollection ⟨finish, time, false⟩).pauseRatio =
            min 1 (max 0 (((all.drop (all.length - n)).map fun c => toReal c.time).sum /
              ((toReal finish - toReal start) * 1000)))) ∧
        ((CostModel.endsFrom begun all).Pairwise (· < ·) →
          all.drop (all.length - n) =
            all.filter fun c => decide (start < c.finish ∧ c.finish ≤ finish))) ∧
      ∀ (settings : Settings α) (heap : Heap α) (now : α) (fullCauses : List Cause)
        (policy : Policy α) (before after : Journal α) (t : List (Moment α)) (w : World α),
        (Policy.start settings heap now fullCauses).outcome before = (.ok (.ok policy), after) →
        Traces anyCall (.opened policy after) t w →
        w.policy.costs.frequency =
          ((learnedCollections t).foldl CostModel.learnCollection
            (.create policy.predictor policy.settings.workers now)).frequency := by
  constructor
  · intro predictor workers begun finish time earlier before all n start
    exact ⟨CostModel.oldestPauseEnd_eq predictor workers begun finish time earlier,
      CostModel.toReal_pauseRatio predictor workers begun finish time earlier,
      CostModel.lastTen_eq_filter predictor workers begun finish time earlier⟩
  · intro settings heap now fullCauses policy before after t w hstart hrun
    rw [hrun.frequency_eq]
    refine frequency_foldl_learnCollection ?_ _
    exact Policy.frequency_start settings heap now fullCauses _ _ _ hstart policy rfl

/-- Twelve collections of a second each, ten seconds apart, of which the third is a full one. -/
def twelveCollections : List (Call Rat) :=
  (List.range 12).flatMap fun i : Nat =>
    if i = 2 then
      [.startFull plainHeap (10 * (i : Rat) + 10), .endFull plainHeap (10 * (i : Rat) + 11)]
    else plainPause plainHeap (10 * i + 10) []

/-- What is learned from the first eleven of them. -/
def learnedEleven : List (Collection Rat) :=
  (List.range 11).map fun i : Nat => ⟨10 * (i : Rat) + 11, 1000, i == 2⟩

/-- What is learned from all of them. -/
def learnedTwelve : List (Collection Rat) := learnedEleven ++ [⟨121, 1000, false⟩]

/-- The interval of the twelfth collection begins at the end of the second, and the ten after it
take a tenth of the interval. -/
theorem pauseRatio_relates_matching_windows_of_twelve :
    ∃ (policy : Policy Rat) (after : Journal Rat) (t : List (Moment Rat)) (w : World Rat),
      (Policy.start plainSettings plainHeap 1 []).outcome {} = (.ok (.ok policy), after) ∧
        Traces anyCall (.opened policy after) t w ∧ learnedCollections t = learnedTwelve ∧
        (CostModel.endsFrom 1 learnedTwelve).Pairwise (· < ·) ∧
        learnedTwelve.drop 2 =
          learnedTwelve.filter (fun c => decide (21 < c.finish ∧ c.finish ≤ 121)) ∧
        num 0 < ((121 - 21) * num 1000 : Rat) ∧ toReal w.policy.costs.pauseRatio = 1 / 10 := by
  obtain ⟨hsequences, hruns⟩ := pauseRatio_relates_matching_windows (α := Rat)
  obtain ⟨policy, after, t, w, hstart, hrun, _, hcollections⟩ :=
    exists_trace anyCall plainSettings plainHeap 1 twelveCollections
      (P := fun t _ => decide (learnedCollections t = learnedTwelve)) (by decide +kernel)
  have hcollections := of_decide_eq_true hcollections
  obtain ⟨hbegin, hratio, hrecent⟩ :=
    hsequences policy.predictor policy.settings.workers 1 121 1000 learnedEleven
  have hbegin : (learnedEleven.foldl CostModel.learnCollection
      (.create policy.predictor policy.settings.workers 1)).oldestPauseEnd = 21 :=
    Option.some.inj (hbegin.symm.trans (by decide +kernel))
  rw [hbegin] at hratio hrecent
  have hascend : (CostModel.endsFrom 1 learnedTwelve).Pairwise (· < ·) := by decide +kernel
  have hpositive : num 0 < ((121 - 21) * num 1000 : Rat) := by decide +kernel
  have htimes : (learnedTwelve.drop 2).map Collection.time = List.replicate 10 1000 := by
    decide +kernel
  have hsum : ((learnedTwelve.drop 2).map fun c => toReal c.time).sum = 10000 := by
    show ((learnedTwelve.drop 2).map (toReal ∘ Collection.time)).sum = 10000
    rw [← List.map_map, htimes]
    norm_num [toReal]
  have hlearned := hruns plainSettings plainHeap 1 [] policy {} after t w hstart hrun
  rw [hcollections, learnedTwelve, List.foldl_append] at hlearned
  refine ⟨policy, after, t, w, hstart, hrun, hcollections, hascend, hrecent hascend, hpositive, ?_⟩
  calc toReal w.policy.costs.pauseRatio
      = _ := congrArg (fun f => toReal f.pauseRatio) hlearned
    _ = min 1 (max 0 (((learnedTwelve.drop 2).map fun c => toReal c.time).sum /
          ((toReal (121 : Rat) - toReal (21 : Rat)) * 1000))) := hratio hpositive
    _ = 1 / 10 := by
      rw [hsum]
      norm_num [toReal]

end Collector

end PauseGoal
