import PauseGoal.Proofs.Exact
import PauseGoal.Proofs.RegionAges
import PauseGoal.Proofs.Traces

/-!
# Every collected young region gets its own age and one sample

Tags are handed out when regions join a population and come back, in any order, when the population
is collected; ages are counted backwards from a number that three different calls set back to zero.
`GroupStep` is the inversion of the calls for one population. From it follow, over runs in any
order, that the tags in force are numbered up to the number of the population, and so have the ages
from zero on; and, for runs that take no eden regions inside a pause, that each of them can be
recorded while a pause is on. If all of them are, each age of the population has one more sample at
the end.
-/

namespace PauseGoal.Collector

open SurvivalGroup (Collected Numbered tagsUpTo)

variable {α : Type}

/-! ## What a call does to a population -/

namespace Call

/-- The population is over: its regions were collected. -/
def settles : Population → Call α → Bool
  | .eden, .endPause _ _ _ | .survivor, .transfer _ _ | _, .endFull _ _ => true
  | _, _ => false

/-- The survivors that a call records for a population, as tag and bytes. -/
def recording? (population : Population) : Call α → Option (SurvivalTag × Nat)
  | .chore (.recordSurvivors tag bytes) =>
    if tag.population = population then some (tag, bytes) else none
  | _ => none

/-- The call does not touch a population. -/
def leaves (population : Population) : Call α → Bool
  | .chore .newEden | .startPause _ _ | .endPause _ _ _ => population == .survivor
  | .transfer _ _ => population == .eden
  | .endFull _ _ => false
  | .chore (.recordSurvivors tag _) => tag.population != population
  | _ => true

def isNewEden : Call α → Bool
  | .chore .newEden => true
  | _ => false

end Call

variable [Scalar α]

/-- The tags of a population that a call hands out. -/
def World.handsOut (w : World α) : Population → Call α → List SurvivalTag
  | .eden, .chore .newEden => [w.policy.newEdenRegion.1]
  | .survivor, .transfer count learn => (w.policy.transferSurvivors count learn).1
  | _, _ => []

/-- A population after a call. -/
inductive GroupStep (w : World α) : Population → Call α → SurvivalGroup α → Prop
  | left {population : Population} {c : Call α} (hleaves : c.leaves population = true) :
      GroupStep w population c (w.policy.group population)
  | record {population : Population} {tag : SurvivalTag} {bytes age : Nat} {g : SurvivalGroup α}
      (hpopulation : tag.population = population)
      (hage : (w.policy.group population).ageOf tag.index = .ok age)
      (hrecord : (w.policy.group population).record age bytes w.policy.settings.regionSize =
        .ok g) :
      GroupStep w population (.chore (.recordSurvivors tag bytes)) g
  | join : GroupStep w .eden (.chore .newEden) w.policy.eden.join.2
  | close {heap : Heap α} {start : α} :
      GroupStep w .eden (.startPause heap start) w.policy.eden.stopAdding
  | finish {heap : Heap α} {now pause : α} :
      GroupStep w .eden (.endPause heap now pause)
        (w.policy.eden.finish w.policy.predictor (!heap.evacuationFailed)).startAdding
  | transfer {count : Nat} {learn : Bool} :
      GroupStep w .survivor (.transfer count learn)
        (w.policy.transferSurvivors count learn).2.survivors
  | abandon {heap : Heap α} {now : α} :
      GroupStep w .eden (.endFull heap now) w.policy.eden.startAdding
  | reset {heap : Heap α} {now : α} :
      GroupStep w .survivor (.endFull heap now) w.policy.survivors.reset

theorem RegisterStep.grouped {w : World α} {c : Call α} {r : Register α} (h : RegisterStep w c r)
    (population : Population) : GroupStep w population c (r.group population) := by
  cases h with
  | @kept c hkeeps =>
    rw [Policy.register_group]
    refine .left ?_
    cases c with
    | chore chore => cases chore <;> first | rfl | cases hkeeps
    | _ => first | rfl | cases hkeeps
  | newEden => cases population <;> first | exact .join | exact .left rfl
  | @recordSurvivors tag bytes age g hage hrecord =>
    by_cases hpopulation : tag.population = population
    · subst hpopulation
      have hgroup : (w.policy.register.setGroup g tag.population).group tag.population = g := by
        cases tag.population <;> rfl
      rw [hgroup]
      exact .record rfl hage hrecord
    · have hgroup : (w.policy.register.setGroup g tag.population).group population =
          w.policy.group population := by
        cases hother : tag.population <;> cases population <;>
          first | rfl | exact absurd hother hpopulation
      rw [hgroup]
      exact .left (bne_iff_ne.mpr hpopulation)
  | recordAges => cases population <;> exact .left rfl
  | exhaust => cases population <;> exact .left rfl
  | startPause => cases population <;> first | exact .close | exact .left rfl
  | transfer => cases population <;> first | exact .transfer | exact .left rfl
  | endPause => cases population <;> first | exact .finish | exact .left rfl
  | endFull => cases population <;> first | exact .abandon | exact .reset
  | endRemark => cases population <;> exact .left rfl
  | endCleanup => cases population <;> exact .left rfl

theorem World.grouped_of_call {w w' : World α} {c : Call α} (h : w.call c = .ok w')
    (population : Population) : GroupStep w population c (w'.policy.group population) := by
  rw [← Policy.register_group]
  exact (registered_of_call h).grouped population

section leaves

variable {population : Population} {c : Call α}

omit [Scalar α] in
theorem settles_of_leaves (h : c.leaves population = true) : c.settles population = false := by
  cases population <;> cases c <;> first | rfl | cases h

omit [Scalar α] in
theorem recording?_of_leaves (h : c.leaves population = true) : c.recording? population = none := by
  cases c with
  | chore chore =>
    cases chore with
    | recordSurvivors tag bytes => exact if_neg (bne_iff_ne.mp h)
    | _ => rfl
  | _ => rfl

omit [Scalar α] in
theorem startsPause_of_leaves (h : c.leaves .eden = true) : ¬ c.startsPause = true := by
  cases c <;> first | exact Bool.false_ne_true | cases h

theorem handsOut_of_leaves (w : World α) (h : c.leaves population = true) :
    w.handsOut population c = [] := by
  cases c with
  | chore chore => cases population <;> cases chore <;> first | rfl | cases h
  | _ => cases population <;> first | rfl | cases h

end leaves

/-! ## Tags in force -/

/-- The tags of a population that are in force after a run: those that the last call that settled
the population handed out, and all that were handed out since. -/
def tagsOf (population : Population) (t : List (Moment α)) : List SurvivalTag :=
  t.foldl (fun tags m =>
    (if m.call.settles population then [] else tags) ++ m.world.handsOut population m.call) []

theorem tagsOf_concat (population : Population) (t : List (Moment α)) (w : World α) (c : Call α) :
    tagsOf population (t ++ [⟨w, c⟩]) =
      (if c.settles population then [] else tagsOf population t) ++ w.handsOut population c := by
  rw [tagsOf, List.foldl_append]
  rfl

/-- The tags in force are numbered up to the number of the population. -/
structure Tagged (population : Population) (t : List (Moment α)) (g : SurvivalGroup α) : Prop where
  tags : tagsOf population t = tagsUpTo population g.allocated
  numbered : Numbered g population
  /-- Survivors are closed as soon as they are handed out. -/
  closed : population = .survivor → g.regions ≤ g.ages.size

theorem GroupStep.tagged {population : Population} {t : List (Moment α)} {w : World α} {c : Call α}
    {g : SurvivalGroup α} (h : GroupStep w population c g)
    (hw : Tagged population t (w.policy.group population)) :
    Tagged population (t ++ [⟨w, c⟩]) g := by
  have hnumbered := hw.numbered
  cases h with
  | left hleaves =>
    refine ⟨?_, hnumbered, hw.closed⟩
    rw [tagsOf_concat, settles_of_leaves hleaves, handsOut_of_leaves w hleaves, List.append_nil]
    exact hw.tags
  | @record _ tag bytes age g hpopulation hage hrecord =>
    have hcollected := (Collected.refl w.policy.settings.regionSize _).record hrecord
    have hsettles : (Call.chore (.recordSurvivors tag bytes) : Call α).settles population =
        false := by
      cases population <;> rfl
    have hhands : w.handsOut population (.chore (.recordSurvivors tag bytes)) = [] := by
      cases population <;> rfl
    refine ⟨?_, hnumbered.collected hcollected, fun hpopulation => ?_⟩
    · rw [tagsOf_concat, hsettles, hhands, hcollected.allocated, List.append_nil]
      exact hw.tags
    · rw [hcollected.regions, hcollected.size_eq]
      exact hw.closed hpopulation
  | join =>
    refine ⟨?_, hnumbered.join, nofun⟩
    rw [tagsOf_concat]
    show tagsOf .eden t ++ [⟨w.policy.eden.population, w.policy.eden.allocated + 1⟩] =
      tagsUpTo .eden (w.policy.eden.allocated + 1)
    rw [SurvivalGroup.tagsUpTo_add, hw.tags,
      show w.policy.eden.population = .eden from hnumbered.population]
    rfl
  | close =>
    refine ⟨?_, hnumbered.stopAdding, nofun⟩
    rw [tagsOf_concat]
    exact (List.append_nil _).trans hw.tags
  | finish =>
    refine ⟨?_, (hnumbered.finish _ _).startAdding, nofun⟩
    rw [tagsOf_concat]
    rfl
  | @transfer count learn =>
    have hsettled := (hnumbered.finish w.policy.predictor learn).startAdding
    have hjoined : Numbered
        ((w.policy.survivors.finish w.policy.predictor learn).startAdding.joinTimes count).2
        .survivor :=
      ⟨hsettled.population, congrArg (· + count) hsettled.regions, hsettled.ages_pos⟩
    refine ⟨?_, hjoined.stopAdding, fun _ => SurvivalGroup.regions_le_size_stopAdding _⟩
    rw [tagsOf_concat]
    show (List.range' (0 + 1) count).map
        (fun index => (⟨(w.policy.survivors.finish w.policy.predictor learn).population, index⟩ :
          SurvivalTag)) = tagsUpTo .survivor (0 + count)
    rw [show (w.policy.survivors.finish w.policy.predictor learn).population = .survivor from
      hsettled.population, Nat.zero_add, Nat.zero_add]
    rfl
  | abandon =>
    refine ⟨?_, hnumbered.startAdding, nofun⟩
    rw [tagsOf_concat]
    rfl
  | reset =>
    have hpopulation : w.policy.survivors.population = .survivor := hnumbered.population
    refine ⟨?_, ?_, fun _ => Nat.zero_le _⟩
    · rw [tagsOf_concat]
      rfl
    · unfold SurvivalGroup.reset
      rw [hpopulation]
      exact .create .survivor

theorem Traces.tagged {allowed : List (Moment α) → Call α → Bool} {w₀ w : World α}
    {t : List (Moment α)} (hrun : Traces allowed w₀ t w) (hfresh : w₀.Fresh)
    (population : Population) :
    Tagged population t (w.policy.group population) := by
  induction hrun with
  | start =>
    have hgroup : w₀.policy.group population = .create population := by
      rw [← Policy.register_group, hfresh.register_eq]
      cases population <;> rfl
    rw [hgroup]
    exact ⟨rfl, .create population, fun _ => Nat.zero_le _⟩
  | call _ _ hcall ih => exact (World.grouped_of_call hcall population).tagged ih

/-! ## Recording inside a pause -/

omit [Scalar α] in
/-- An evacuation pause was started and neither it nor a full collection in its place is over. -/
def pauseOn (t : List (Moment α)) : Bool :=
  t.foldl (fun on m => (on || m.call.startsPause) && !m.call.settles .eden) false

omit [Scalar α] in
theorem pauseOn_concat (t : List (Moment α)) (w : World α) (c : Call α) :
    pauseOn (t ++ [⟨w, c⟩]) = ((pauseOn t || c.startsPause) && !c.settles .eden) := by
  rw [pauseOn, List.foldl_append]
  rfl

omit [Scalar α] in
/-- No eden region joins while a pause is on. -/
def edenOutsidePauses (t : List (Moment α)) (c : Call α) : Bool := !(c.isNewEden && pauseOn t)

/-- While a pause is on every eden region has its age in the statistics. -/
theorem Traces.eden_closed {w₀ w : World α} {t : List (Moment α)}
    (hrun : Traces edenOutsidePauses w₀ t w) (hpause : pauseOn t = true) :
    w.policy.eden.regions ≤ w.policy.eden.ages.size := by
  induction hrun with
  | start => cases hpause
  | @call t w w' c _ hallowed hcall ih =>
    rw [pauseOn_concat, Bool.and_eq_true, Bool.or_eq_true, Bool.not_eq_true'] at hpause
    obtain ⟨hpause, hsettles⟩ := hpause
    have hstep : GroupStep w .eden c w'.policy.eden := World.grouped_of_call hcall .eden
    generalize w'.policy.eden = g at hstep
    cases hstep with
    | left hleaves => exact ih (hpause.resolve_right (startsPause_of_leaves hleaves))
    | record _ hage hrecord =>
      have hcollected := (Collected.refl w.policy.settings.regionSize _).record hrecord
      rw [hcollected.regions, hcollected.size_eq]
      exact ih (hpause.resolve_right nofun)
    | join =>
      rw [edenOutsidePauses, hpause.resolve_right nofun] at hallowed
      cases hallowed
    | close => exact SurvivalGroup.regions_le_size_stopAdding _
    | finish => cases hsettles
    | abandon => cases hsettles

/-- A region that joined a closed population can be recorded. -/
theorem World.exists_recordSurvivors {w : World α} {tag : SurvivalTag}
    (hfirst : 1 ≤ tag.index) (hlast : tag.index ≤ (w.policy.group tag.population).allocated)
    (hnumbered : Numbered (w.policy.group tag.population) tag.population)
    (hclosed : (w.policy.group tag.population).regions ≤
      (w.policy.group tag.population).ages.size) (bytes : Nat) :
    ∃ w', w.call (.chore (.recordSurvivors tag bytes)) = .ok w' := by
  have hage := SurvivalGroup.ageOf_eq hlast
  have hregions := hnumbered.regions
  obtain ⟨g, hg⟩ : ∃ g, (w.policy.group tag.population).record
      ((w.policy.group tag.population).allocated - tag.index) bytes
      w.policy.settings.regionSize = .ok g :=
    SurvivalGroup.exists_record (by omega) (by omega) _ _
  have hrecorded : ∃ p, w.policy.recordSurvivors tag bytes = .ok p := by
    unfold Policy.recordSurvivors
    simp only [Policy.setGroup_settings, hage, bind, Except.bind, hg]
    exact ⟨_, rfl⟩
  obtain ⟨p, hp⟩ := hrecorded
  unfold call perform doChore
  simp only [hp]
  exact ⟨_, rfl⟩

/-- The survivors recorded for a population, in order. -/
def recordingsOf (population : Population) (t : List (Moment α)) : List (SurvivalTag × Nat) :=
  t.filterMap fun m => m.call.recording? population

/-- A call inside a pause, before the population is settled. -/
def collecting (population : Population) (_ : List (Moment α)) (c : Call α) : Bool :=
  !c.isNewEden && !c.startsPause && !c.settles population

/-- Inside a pause nothing but recorded survivors touches a population. -/
theorem Traces.collected {population : Population} {w w' : World α} {inside : List (Moment α)}
    (hrun : Traces (collecting population) w inside w') :
    Collected w.policy.settings.regionSize
      ((recordingsOf population inside).map fun r =>
        ((w.policy.group population).allocated - r.1.index, r.2))
      (w.policy.group population) (w'.policy.group population) := by
  induction hrun with
  | start => exact .refl _ _
  | @call t w₁ w₂ c hrun hallowed hcall ih =>
    simp only [collecting, Bool.and_eq_true, Bool.not_eq_true'] at hallowed
    obtain ⟨⟨hnoEden, hnoStart⟩, hsettles⟩ := hallowed
    have hstep := World.grouped_of_call hcall population
    have hrecordings : recordingsOf population (t ++ [⟨w₁, c⟩]) =
        recordingsOf population t ++ (c.recording? population).toList := by
      unfold recordingsOf
      rw [List.filterMap_append]
      cases hrecording : c.recording? population <;> simp [hrecording]
    rw [hrecordings]
    generalize w₂.policy.group population = g at hstep
    cases hstep with
    | left hleaves =>
      rw [recording?_of_leaves hleaves, Option.toList_none, List.append_nil]
      exact ih
    | @record _ tag bytes age g hpopulation hage hrecord =>
      rw [show (Call.chore (.recordSurvivors tag bytes) : Call α).recording? population =
        some (tag, bytes) from if_pos hpopulation, List.map_append]
      unfold SurvivalGroup.ageOf at hage
      split at hage
      · cases hage
        rw [hrun.constants.1] at hrecord
        have hnext := ih.record hrecord
        rw [ih.allocated] at hnext
        exact hnext
      · cases hage
    | join => cases hnoEden
    | close => cases hnoStart
    | finish => cases hsettles
    | transfer => cases hsettles
    | abandon => cases hsettles
    | reset => cases hsettles

/-! ## One sample for every age -/

/-- The call settles a population and learns from it. -/
def Call.learns : Population → Call α → Bool
  | .eden, .endPause heap _ _ => !heap.evacuationFailed
  | .survivor, .transfer _ learn => learn
  | _, _ => false

omit [Scalar α] in
theorem settles_of_learns {population : Population} {c : Call α}
    (h : c.learns population = true) : c.settles population = true := by
  cases population <;> cases c <;> first | rfl | cases h

/-- A call that settles a population and learns leaves the samples of the finished population. -/
theorem GroupStep.rates_of_learns {population : Population} {w : World α} {c : Call α}
    {g : SurvivalGroup α} (h : GroupStep w population c g) (hlearns : c.learns population = true)
    {age : Nat} (hage : age < (w.policy.group population).ages.size) :
    g.rates[age]? = ((w.policy.group population).finish w.policy.predictor true).rates[age]? := by
  cases h with
  | left hleaves =>
    have hsettles := settles_of_learns hlearns
    rw [settles_of_leaves hleaves] at hsettles
    cases hsettles
  | finish =>
    have hlearn : (!Heap.evacuationFailed _) = true := hlearns
    rw [hlearn]
    rfl
  | @transfer count learn =>
    obtain rfl : learn = true := hlearns
    obtain ⟨_, _, heq, hsize⟩ :=
      (w.policy.group .survivor).finish_eq w.policy.predictor true
    refine SurvivalGroup.rates_stopAdding ?_
    show age < ((w.policy.group .survivor).finish w.policy.predictor true).ages.size
    rw [heq, hsize]
    exact hage
  | record => cases population <;> cases hlearns
  | _ => cases hlearns

omit [Scalar α] in
/-- The tags in force by age, oldest first. -/
theorem map_tagsUpTo_by_age (population : Population) (count : Nat) (bytes : SurvivalTag → Nat) :
    ((tagsUpTo population count).map fun tag => (count - tag.index, bytes tag)) =
      ((List.range count).map fun age => (age, bytes ⟨population, count - age⟩)).reverse := by
  unfold tagsUpTo
  refine List.ext_getElem (by simp) fun i hi _ => ?_
  have hi : i < count := by simpa using hi
  simp only [List.getElem_map, List.getElem_range', List.getElem_reverse, List.getElem_range,
    List.length_map, List.length_range, Nat.one_mul]
  rw [show count - (count - 1 - i) = 1 + i by omega, Nat.sub_sub]

/-- At every point of a run without faults that takes no eden regions inside a pause, whatever else
it does in whatever order, the ages of the tags in force count down to zero, each age once. While a
pause is on each of these regions can be recorded. If all of them are, in whatever order, and the
population is settled and learned from, each age has one more sample: that of the region of its age,
or beyond the oldest region that of this one. There always are ages, and the numbers handed out are
those of the regions. -/
theorem every_region_has_its_age_and_sample {w₀ w : World α} {t : List (Moment α)}
    (hfresh : w₀.Fresh) (hrun : Traces edenOutsidePauses w₀ t w) (population : Population) :
    let tags := tagsOf population t
    let ageOf (tag : SurvivalTag) := (w.policy.group tag.population).ageOf tag.index
    let g := w.policy.group population
    (∀ tag ∈ tags, tag.population = population) ∧
    tags.map ageOf = (List.range tags.length).reverse.map .ok ∧
    (∀ tag ∈ tags, population = .survivor ∨ pauseOn t = true → ∀ bytes,
      ∃ w', w.call (.chore (.recordSurvivors tag bytes)) = .ok w') ∧
    (∀ inside w' c w'' (bytes : SurvivalTag → Nat), pauseOn t = true → tags ≠ [] →
      Traces (collecting population) w inside w' →
      (recordingsOf population inside).Perm (tags.map fun tag => (tag, bytes tag)) →
      c.learns population = true → w'.call c = .ok w'' →
      ∀ age < g.ages.size, ∃ tag ∈ tags, ageOf tag = .ok (Nat.min age (tags.length - 1)) ∧
        (w''.policy.group population).rates[age]? =
          g.rates[age]?.map
            (Sample.Window.add · (num (bytes tag) / num w.policy.settings.regionSize))) ∧
    0 < g.ages.size ∧ g.regions = g.allocated := by
  intro tags ageOf g
  have htagged : Tagged population t g := hrun.tagged hfresh population
  have hnumbered := htagged.numbered
  have htags : tags = tagsUpTo population g.allocated := htagged.tags
  have hlength : tags.length = g.allocated := by
    rw [htags, SurvivalGroup.length_tagsUpTo]
  have hmem (tag : SurvivalTag) : tag ∈ tags ↔
      tag.population = population ∧ 1 ≤ tag.index ∧ tag.index ≤ g.allocated := by
    rw [htags, SurvivalGroup.mem_tagsUpTo]
  have hclosed (h : population = .survivor ∨ pauseOn t = true) :
      g.regions ≤ g.ages.size := by
    cases population with
    | survivor => exact htagged.closed rfl
    | eden => exact hrun.eden_closed (h.resolve_left nofun)
  refine ⟨fun tag htag => ((hmem tag).mp htag).1, ?_, ?_, ?_, hnumbered.ages_pos,
    hnumbered.regions⟩
  · have hages : tags.map ageOf = tags.map fun tag => g.ageOf tag.index := by
      refine List.map_congr_left fun tag htag => ?_
      obtain ⟨rfl, _⟩ := (hmem tag).mp htag
      rfl
    rw [hages, hlength, htags]
    exact g.map_ageOf_tagsUpTo population
  · intro tag htag hready bytes
    obtain ⟨rfl, hfirst, hlast⟩ := (hmem tag).mp htag
    exact World.exists_recordSurvivors hfirst hlast hnumbered (hclosed hready) bytes
  · intro inside w' c w'' bytes hpause hne hinside hrecordings hlearns hcall age hage
    have hpos : 0 < g.allocated := by
      rw [← hlength]
      exact List.length_pos_of_ne_nil hne
    have hcollected := hinside.collected
    have honce : ((recordingsOf population inside).map fun r =>
        (g.allocated - r.1.index, r.2)).Perm
          ((List.range g.regions).map fun age =>
            (age, bytes ⟨population, g.allocated - age⟩)) := by
      refine (hrecordings.map _).trans ?_
      rw [List.map_map, htags, hnumbered.regions]
      exact (List.Perm.of_eq (map_tagsUpTo_by_age population g.allocated bytes)).trans
        (List.reverse_perm _)
    have hfinished := (World.grouped_of_call hcall population).rates_of_learns hlearns
      (hcollected.size_eq ▸ hage)
    have hsamples := SurvivalGroup.rates_finish_of_once hcollected
      (hnumbered.regions.symm ▸ hpos) (hclosed (.inr hpause)) honce w'.policy.predictor age
    have hmin : Nat.min age (g.allocated - 1) ≤ g.allocated - 1 := Nat.min_le_right _ _
    rw [hlength]
    refine ⟨⟨population, g.allocated - Nat.min age (g.allocated - 1)⟩, ?_, ?_, ?_⟩
    · refine (hmem _).mpr ⟨rfl, ?_, Nat.sub_le _ _⟩
      show 1 ≤ g.allocated - Nat.min age (g.allocated - 1)
      omega
    · show g.ageOf (g.allocated - Nat.min age (g.allocated - 1)) = _
      rw [SurvivalGroup.ageOf_eq (Nat.sub_le _ _), Nat.sub_sub_self (by omega)]
    · rw [hfinished, hsamples, hnumbered.regions]

/-- Three regions are collected in a first pause and two in a second one, the older of them recorded
last. Age 2 has no region in the second pause and gets the sample of the older one. -/
theorem regions_of_second_pause_have_their_samples :
    let eden : Call Rat := .chore .newEden
    let calls := [eden, eden, eden] ++ plainPause plainHeap 10 [] ++ [eden, eden] ++
      [.beginPause, .decide plainHeap, .startPause plainHeap 20]
    let inside : List (Call Rat) :=
      [.chore (.recordSurvivors ⟨.eden, 2⟩ 524288), .transfer 0 true,
        .chore (.recordSurvivors ⟨.eden, 1⟩ 262144)]
    ∃ policy after t w t' w' w'',
      (Policy.start plainSettings plainHeap 1 []).outcome {} = (.ok (.ok policy), after) ∧
        Traces edenOutsidePauses (.opened policy after) t w ∧ t.map Moment.call = calls ∧
        Traces (collecting .eden) w t' w' ∧ t'.map Moment.call = inside ∧
        w'.call (.endPause plainHeap 21 1000) = .ok w'' ∧
        tagsOf .eden t = [⟨.eden, 1⟩, ⟨.eden, 2⟩] ∧
        (tagsOf .eden t).map (fun tag => w.policy.eden.ageOf tag.index) = [.ok 1, .ok 0] ∧
        w''.policy.eden.rates[2]?.map Sample.Window.latest = some (1 / 4) := by
  intro eden calls inside
  obtain ⟨policy, after, t, w, hstart, hrun, hcalls, hends⟩ :=
    exists_trace edenOutsidePauses plainSettings plainHeap 1 calls
      (P := fun t w =>
        decide (tagsOf .eden t = [⟨.eden, 1⟩, ⟨.eden, 2⟩]) && pauseOn t &&
          decide (w.policy.eden.ages.size = 3) && decide (w.policy.settings = plainSettings) &&
          (traceFrom (collecting .eden) [] w inside).any fun r =>
            decide (recordingsOf .eden r.1 = [(⟨.eden, 2⟩, 524288), (⟨.eden, 1⟩, 262144)]) &&
              (r.2.call (.endPause plainHeap 21 1000)).toBool)
      (by decide +kernel)
  simp only [Bool.and_eq_true, decide_eq_true_eq, Option.any_eq_true] at hends
  obtain ⟨⟨⟨⟨htags, hpause⟩, hages⟩, hsettings⟩, ⟨t', w'⟩, htrace, hrecordings, hcalled⟩ := hends
  obtain ⟨w'', hcall⟩ := Checked.exists_of_toBool hcalled
  obtain ⟨hinside, hcalls'⟩ := traces_of_traceFrom .start htrace
  obtain ⟨_, hcount, _, hsamples, _⟩ :=
    every_region_has_its_age_and_sample (.intro hstart) hrun .eden
  obtain ⟨tag, htag, hage, hrates⟩ := hsamples t' w' (.endPause plainHeap 21 1000) w''
    (fun tag => if tag.index = 1 then 262144 else 524288) hpause (by rw [htags]; decide) hinside
    (by rw [hrecordings, htags]; decide) rfl hcall 2 (by rw [Policy.group, hages]; decide)
  rw [htags] at htag hage hcount
  refine ⟨policy, after, t, w, t', w', w'', hstart, hrun, hcalls, hinside, hcalls', hcall, htags,
    ?_, ?_⟩
  · rw [htags]
    exact hcount
  · have hsecond : w.policy.eden.ageOf 2 = .ok 0 :=
      congrArg (fun ages => ages.getD 1 (.ok 0)) hcount
    simp only [List.mem_cons, List.not_mem_nil, or_false] at htag
    rcases htag with rfl | rfl
    · have hrates : w''.policy.eden.rates[2]? = _ := hrates
      have hsize : 2 < w.policy.eden.rates.size := by
        rw [SurvivalGroup.size_rates, hages]
        decide
      rw [hrates, Policy.group, Array.getElem?_eq_getElem hsize, Option.map_some, Option.map_some,
        Sample.Window.latest_add, hsettings]
      decide +kernel
    · have hage : w.policy.eden.ageOf 2 = .ok 1 := hage
      rw [hsecond] at hage
      cases hage

end PauseGoal.Collector
