import PauseGoal.Proofs.Chronicle
import PauseGoal.Proofs.YoungPlan

/-!
# What is kept of past pauses

A finished pause leaves three things behind: what survived of each region, by age; how old the
survivors were, from which the tenuring threshold of the next pause is chosen; and its time, counted
in the ledger. The `Register` of the policy is these parts, with the settings and the predictor that
they are read with. `RegisterStep` is the one inversion for all calls: few of them enter something,
and what each enters is an equation.
-/

namespace PauseGoal

open Checked (Meets meets_pure meets_value)
open Pause (Kind Ledger Record)
open Sample (Predictor)

variable {α : Type}

/-- What the policy keeps of past pauses. -/
structure Register (α : Type) where
  settings : Settings α
  predictor : Predictor α
  eden : SurvivalGroup α
  survivors : SurvivalGroup α
  tenuring : Nat
  ages : SurvivorAges
  ledger : Ledger α

namespace Register

def group (r : Register α) : Population → SurvivalGroup α
  | .eden => r.eden
  | .survivor => r.survivors

def setGroup (r : Register α) (g : SurvivalGroup α) : Population → Register α
  | .eden => { r with eden := g }
  | .survivor => { r with survivors := g }

/-- The register of a policy that has just started. -/
def opening [Scalar α] (settings : Settings α) : Register α where
  settings := settings
  predictor := ⟨settings.sigma⟩
  eden := .create .eden
  survivors := .create .survivor
  tenuring := settings.maxTenuring
  ages := .empty
  ledger := .empty

end Register

theorem Act.Meets.returns {β : Type} {x : Act α β} {post : β → List (Event α) → Prop}
    {fail : Fault α → Prop} {post' : β → Prop} (hx : x.Meets post fail)
    (h : ∀ b events, post b events → post' b) : x.Returns post' := by
  intro journal b journal' hout
  obtain ⟨events, _, hb⟩ := hx.reports _ _ _ hout
  exact h b events hb

/-- What is known of the value goes into the contract. -/
theorem Act.Meets.and_returns {β : Type} {x : Act α β} {post : β → List (Event α) → Prop}
    {fail : Fault α → Prop} {post' : β → Prop} (hx : x.Meets post fail) (hx' : x.Returns post') :
    x.Meets (fun b events => post b events ∧ post' b) fail := by
  intro journal
  have hj := hx journal
  have hj' := hx' journal
  revert hj hj'
  cases x.outcome journal with
  | mk result journal' =>
    cases result with
    | error fault => exact fun hfault _ => hfault
    | ok b => exact fun ⟨events, happend, hb⟩ hb' => ⟨events, happend, hb, hb' b journal' rfl⟩

theorem Act.returns_ofChecked {β : Type} {x : Checked α β} {post : β → Prop}
    (h : ∀ b, x = .ok b → post b) : (Act.ofChecked x).Returns post :=
  fun _ b _ hout => h b (congrArg Prod.fst hout)

namespace Policy

open Act (meets_logged returns_pure returns_bind returns_ofChecked reports_pure reports_ofChecked
  reports_report)

/-- The register of a policy. -/
def register (p : Policy α) : Register α where
  settings := p.settings
  predictor := p.predictor
  eden := p.eden
  survivors := p.survivors
  tenuring := p.tenuring
  ages := p.ages
  ledger := p.costs.ledger

theorem setGroup_settings (p : Policy α) (g : SurvivalGroup α) (population : Population) :
    (p.setGroup g population).settings = p.settings := by
  cases population <;> rfl

theorem setGroup_setGroup (p : Policy α) (g g' : SurvivalGroup α) (population : Population) :
    (p.setGroup g population).setGroup g' population = p.setGroup g' population := by
  cases population <;> rfl

theorem register_setGroup (p : Policy α) (g : SurvivalGroup α) (population : Population) :
    (p.setGroup g population).register = p.register.setGroup g population := by
  cases population <;> rfl

theorem register_group (p : Policy α) (population : Population) :
    p.register.group population = p.group population := by
  cases population <;> rfl

variable [Scalar α]

/-! ## The length of the young generation -/

theorem register_chooseYoungLengthFor (p : Policy α) (heap : Heap α) (now : α) (entries : Nat) :
    (p.chooseYoungLengthFor heap now entries).Returns fun r => r.2.register = p.register := by
  refine (p.chooseYoungLengthFor_meets heap now entries).returns ?_
  rintro _ _ ⟨_, hr, _⟩
  rw [hr]
  rfl

theorem register_chooseYoungLength (p : Policy α) (heap : Heap α) (now : α) :
    (p.chooseYoungLength heap now).Returns fun r => r.2.register = p.register :=
  returns_bind fun entries => p.register_chooseYoungLengthFor heap now entries

theorem register_revise (p : Policy α) (heap : Heap α) (now : α) (entries : Nat) :
    (p.revise heap now entries).Returns fun q => q.register = p.register := by
  refine returns_bind fun _ => ?_
  split
  · refine returns_bind fun scaled => ?_
    obtain ⟨_, hexpected⟩ := p.expectEntries_eq (scaled / 1000)
    simp only [hexpected]
    exact (register_chooseYoungLengthFor _ _ _ _).bind fun _ hr => returns_pure hr
  · exact returns_pure rfl

/-! ## The start -/

theorem register_initial {settings : Settings α} {heap : Heap α} {now : α}
    {fullCauses : List Cause} {sizer : Young.Sizer} {p : Policy α}
    (h : initial settings heap now fullCauses sizer = .ok p) :
    p.register = .opening settings := by
  obtain ⟨utilization, _, h⟩ := Checked.exists_of_bind_eq_ok h
  obtain ⟨threshold, _, hp⟩ := Checked.exists_of_bind_eq_ok h
  cases hp
  rfl

/-- A policy that was started was made from the settings, told the size of the heap, and chose its
first length. -/
theorem returns_start {settings : Settings α} {heap : Heap α} {now : α} {fullCauses : List Cause}
    {post : Policy α → Prop}
    (h : ∀ sizer p q, initial settings heap now fullCauses sizer = .ok p →
      p.resize heap.regions = .ok q →
        (q.chooseYoungLength heap now).Returns fun r => post r.2) :
    (start settings heap now fullCauses).Returns fun r => ∀ p, r = .ok p → post p := by
  unfold start
  cases settings.validate with
  | error error => exact returns_pure fun p hp => nomatch hp
  | ok _ =>
    refine returns_bind fun sizer => ?_
    cases sizer with
    | error error => exact returns_pure fun p hp => nomatch hp
    | ok sizer =>
      refine (returns_ofChecked fun p hp => hp).bind fun p hp => ?_
      refine (returns_ofChecked fun q hq => hq).bind fun q hq => ?_
      refine (h sizer p q hp hq).bind fun r hr => returns_pure ?_
      rintro _ ⟨⟩
      exact hr

theorem register_start (settings : Settings α) (heap : Heap α) (now : α)
    (fullCauses : List Cause) :
    (start settings heap now fullCauses).Returns fun r =>
      ∀ p, r = .ok p → p.register = .opening settings := by
  refine returns_start fun sizer p q hp hq =>
    (q.register_chooseYoungLength heap now).mono fun r hr => ?_
  have hinitial := register_initial hp
  obtain rfl := (p.resize_meets heap.regions).of_eq_ok hq
  exact hr.trans hinitial

/-! ## The ends of pauses -/

theorem ledger_updateRatios (m : CostModel α) (interval time : α) :
    (m.updateRatios interval time).ledger = m.ledger := by
  unfold CostModel.updateRatios
  split <;> rfl

theorem ledger_frequencyAfter (p : Policy α) (mutatorTime finish pause : α) (learn : Bool) :
    (p.frequencyAfter mutatorTime finish pause learn).ledger = p.costs.ledger := by
  unfold frequencyAfter
  split
  · exact ledger_updateRatios _ _ _
  · rfl

/-- The time up to the next pause is prepared without a look at what is kept of past ones. -/
theorem register_prepareNext (p : Policy α) (heap : Heap α) (now mutatorTime hotCards : α)
    (youngOnly initialMark : Bool) :
    (p.prepareNext heap now mutatorTime hotCards youngOnly initialMark).Returns fun q =>
      q.register = p.register := by
  refine (p.register_chooseYoungLength heap now).bind fun r hr => ?_
  refine (returns_ofChecked fun q hq =>
    r.2.expectPredictedEntries_meets.of_eq_ok hq).bind fun q hq => ?_
  refine ((q.learnThresholdUnlessPeriodic_meets heap _ _ _ _).returns
    fun _ _ h => h.2).bind fun s hs => ?_
  refine (s.grantRefinementTime_meets heap hotCards).returns ?_
  rintro _ _ ⟨_, _, _, rfl⟩
  obtain ⟨_, rfl⟩ := hq
  obtain ⟨_, _, _, rfl⟩ := hs
  exact hr

/-- The end of an evacuation pause settles eden and counts the pause, under the kind that flag and
phases gave it before. -/
theorem register_endPause (p : Policy α) (heap : Heap α) (now pause : α) :
    (p.endPause heap now pause).Returns fun r => ∃ kind,
      (p.phases.evacuationKind p.seesInitialMark.1 : Checked α Kind) = .ok kind ∧
      r.1.register =
        { p.register with
          eden := (p.eden.finish p.predictor (!heap.evacuationFailed)).startAdding
          ledger := p.costs.ledger.count ⟨kind, now - pause / num 1000, now⟩ } := by
  unfold endPause
  simp only
  refine (returns_ofChecked fun kind h => h).bind fun kind hkind => ?_
  refine ((recordPause_meets _ _ _ _).returns fun _ _ h => h.2).bind ?_
  rintro q₁ ⟨_, _, _, _, hq₁⟩
  have hcounted : q₁.register =
      { p.register with
        ledger := p.costs.ledger.count ⟨kind, now - pause / num 1000, now⟩ } := by
    rw [hq₁]
    rfl
  clear hq₁
  refine ((settleMarking_meets _ _ _).returns fun _ _ h => h.2).bind fun q₂ hq₂ => ?_
  have hsettled : q₂.register = q₁.register := by
    obtain ⟨_, rfl⟩ := hq₂
    rfl
  clear hq₂
  have hkept (m : CostModel α) (hm : m.ledger = q₂.costs.ledger) :
      ({ q₂ with costs := m } : Policy α).register = q₁.register := by
    rw [← hsettled, register, hm]
    rfl
  have hfrequency := hkept _
    (q₂.ledger_frequencyAfter q₂.mutatorTime now pause (!heap.evacuationFailed))
  clear hkept
  refine ((advancePhases_meets _ _ _ _).returns fun _ _ h => h.2.1).bind fun r hr => ?_
  have hadvanced : r.1.register = q₁.register := by
    obtain ⟨_, _, hr⟩ := hr
    rw [← hfrequency, hr]
    rfl
  clear hr hfrequency
  refine (returns_ofChecked fun costs h => h).bind fun costs hcosts => ?_
  have hledger : costs.ledger = r.1.costs.ledger := congrArg Prod.snd (books_costsAfter hcosts)
  clear hcosts
  refine returns_bind fun _ => (register_prepareNext _ _ _ _ _ _ _).bind fun s hs => ?_
  refine returns_bind fun _ => returns_pure ⟨kind, hkind, ?_⟩
  have hs : s.register =
      { r.1.register with
        eden := (r.1.eden.finish r.1.predictor (!heap.evacuationFailed)).startAdding
        ledger := costs.ledger } := hs
  have heden : r.1.eden = p.eden := congrArg Register.eden (hadvanced.trans hcounted)
  have hpredictor : r.1.predictor = p.predictor :=
    congrArg Register.predictor (hadvanced.trans hcounted)
  have hcount : r.1.costs.ledger = p.costs.ledger.count ⟨kind, now - pause / num 1000, now⟩ :=
    congrArg Register.ledger (hadvanced.trans hcounted)
  rw [hs, heden, hpredictor, hledger, hcount, hadvanced, hcounted]

/-- The end of a full collection starts both populations over and counts the collection. -/
theorem register_endFull (p : Policy α) (heap : Heap α) (now : α) :
    (p.endFull heap now).Returns fun q =>
      q.register =
        { p.register with
          eden := p.eden.startAdding
          survivors := p.survivors.reset
          ledger := p.costs.ledger.count ⟨.full, p.fullStart, now⟩ } := by
  unfold endFull
  simp only
  refine returns_bind fun needed => ?_
  refine ((rechosen_of_chooseYoungLength _ heap now).returns fun _ _ h => h.2.2).bind fun r hr => ?_
  refine (returns_ofChecked fun q hq =>
    r.2.expectPredictedEntries_meets.of_eq_ok hq).bind fun q hq => ?_
  refine ((recordPause_meets _ _ _ _).returns fun _ _ h => h.2).bind fun s hs => ?_
  refine returns_bind fun _ => returns_pure ?_
  obtain ⟨_, _, hr⟩ := hr
  obtain ⟨_, rfl⟩ := hq
  obtain ⟨_, _, _, _, rfl⟩ := hs
  rw [hr]
  rfl

theorem register_endRemark (p : Policy α) (now : α) :
    (p.endRemark now).Returns fun q =>
      q.register =
        { p.register with ledger := p.costs.ledger.count ⟨.remark, p.remarkStart, now⟩ } := by
  unfold endRemark
  extract_lets pause costs
  refine (recordPause_meets _ _ _ _).returns ?_
  rintro _ _ ⟨_, _, _, _, _, rfl⟩
  rfl

theorem register_endCleanup (p : Policy α) (heap : Heap α) (now : α) :
    (p.endCleanup heap now).Returns fun r =>
      r.1.register =
        { p.register with ledger := p.costs.ledger.count ⟨.cleanup, p.cleanupStart, now⟩ } := by
  refine returns_bind fun worthwhile => ?_
  have hforget : ∃ length,
      (if worthwhile then p else p.forgetMarkingLength) = { p with markingLength := length } := by
    cases worthwhile with
    | true => exact ⟨p.markingLength, rfl⟩
    | false => exact ⟨.unknown, rfl⟩
  obtain ⟨length, hforget⟩ := hforget
  simp only [hforget]
  refine ((recordPause_meets _ _ _ _).returns fun _ _ h => h.2).bind ?_
  rintro _ ⟨_, _, _, _, rfl⟩
  exact returns_pure rfl

/-! ## The start of a pause -/

/-- The threshold of a pause is chosen from the survivors of the last one, and so reported. -/
theorem chooseTenuring_reports (p : Policy α) (heap : Heap α) :
    (p.chooseTenuring heap).Reports fun q events => ∃ desired,
      p.desiredSurvivorBytes p.desiredSurvivorRegions = .ok desired ∧
      p.ages.threshold desired p.settings.maxTenuring = (.ok q.tenuring : Checked α Nat) ∧
      events = [.tenuring q.tenuring desired q.maxSurvivors] ∧
      ∃ tenuring most, q = { p with tenuring := tenuring, maxSurvivors := most } := by
  refine (reports_ofChecked fun desired hdesired => ⟨rfl, hdesired⟩).bind_silent ?_
  intro desired hdesired
  refine (reports_ofChecked fun threshold hthreshold => ⟨rfl, hthreshold⟩).bind_silent ?_
  intro threshold hthreshold
  refine (meets_logged _).reports.bind_silent fun _ _ => ?_
  refine (reports_ofChecked fun available _ => ⟨rfl, trivial⟩).bind_silent fun available _ => ?_
  refine (reports_report _).bind ?_
  rintro _ _ rfl
  exact reports_pure ⟨desired, hdesired, hthreshold, rfl, _, _, rfl⟩

theorem startPause_reports (p : Policy α) (heap : Heap α) (start : α) :
    (p.startPause heap start).Reports fun q events =>
      (∃ desired, p.desiredSurvivorBytes p.desiredSurvivorRegions = .ok desired ∧
        p.ages.threshold desired p.settings.maxTenuring = (.ok q.tenuring : Checked α Nat) ∧
        events = [.tenuring q.tenuring desired q.maxSurvivors]) ∧
      q.register =
        { p.register with eden := p.eden.stopAdding, tenuring := q.tenuring, ages := .empty } := by
  refine (chooseTenuring_reports _ heap).bind ?_
  rintro q _ ⟨desired, hdesired, hthreshold, rfl, hq⟩
  refine (readRefinement_meets _ heap false).reports.bind ?_
  rintro r _ ⟨rfl, _, _, rfl⟩
  refine reports_pure ⟨⟨desired, hdesired, hthreshold, rfl⟩, ?_⟩
  obtain ⟨_, _, rfl⟩ := hq
  rfl

end Policy

/-! ## The calls of the collector -/

namespace Collector

variable [Scalar α]

omit [Scalar α] in
/-- The call enters nothing into the register. -/
def Call.keepsRegister : Call α → Bool
  | .startPause _ _ | .transfer _ _ | .endPause _ _ _ | .endFull _ _ | .endRemark _
  | .endCleanup _ _ => false
  | .chore .newEden | .chore (.recordSurvivors _ _) | .chore (.recordAges _)
  | .chore .exhaustSurvivorSpace => false
  | _ => true

/-- The register after a call. -/
inductive RegisterStep (w : World α) : Call α → Register α → Prop
  | kept {c : Call α} (hkeeps : c.keepsRegister = true) : RegisterStep w c w.policy.register
  | newEden :
      RegisterStep w (.chore .newEden)
        { w.policy.register with eden := w.policy.eden.join.2 }
  | recordSurvivors {tag : SurvivalTag} {bytes age : Nat} {g : SurvivalGroup α}
      (hage : (w.policy.group tag.population).ageOf tag.index = .ok age)
      (hrecord : (w.policy.group tag.population).record age bytes w.policy.settings.regionSize =
        .ok g) :
      RegisterStep w (.chore (.recordSurvivors tag bytes))
        (w.policy.register.setGroup g tag.population)
  | recordAges {ages merged : SurvivorAges}
      (hmerge : w.policy.ages.merge ages = (.ok merged : Checked α SurvivorAges)) :
      RegisterStep w (.chore (.recordAges ages)) { w.policy.register with ages := merged }
  | exhaust :
      RegisterStep w (.chore .exhaustSurvivorSpace) { w.policy.register with tenuring := 0 }
  | startPause {heap : Heap α} {start : α} {tenuring : Nat} :
      RegisterStep w (.startPause heap start)
        { w.policy.register with
          eden := w.policy.eden.stopAdding
          tenuring := tenuring
          ages := .empty }
  | transfer {count : Nat} {learn : Bool} :
      RegisterStep w (.transfer count learn)
        { w.policy.register with
          survivors := (w.policy.transferSurvivors count learn).2.survivors }
  | endPause {heap : Heap α} {now pause : α} {kind : Kind}
      (hkind : (w.policy.phases.evacuationKind w.policy.seesInitialMark.1 : Checked α Kind) =
        .ok kind) :
      RegisterStep w (.endPause heap now pause)
        { w.policy.register with
          eden := (w.policy.eden.finish w.policy.predictor (!heap.evacuationFailed)).startAdding
          ledger := w.policy.costs.ledger.count ⟨kind, now - pause / num 1000, now⟩ }
  | endFull {heap : Heap α} {now : α} :
      RegisterStep w (.endFull heap now)
        { w.policy.register with
          eden := w.policy.eden.startAdding
          survivors := w.policy.survivors.reset
          ledger := w.policy.costs.ledger.count ⟨.full, w.policy.fullStart, now⟩ }
  | endRemark {now : α} :
      RegisterStep w (.endRemark now)
        { w.policy.register with
          ledger := w.policy.costs.ledger.count ⟨.remark, w.policy.remarkStart, now⟩ }
  | endCleanup {heap : Heap α} {now : α} :
      RegisterStep w (.endCleanup heap now)
        { w.policy.register with
          ledger := w.policy.costs.ledger.count ⟨.cleanup, w.policy.cleanupStart, now⟩ }

/-- Settings and predictor are never entered. -/
theorem RegisterStep.constants {w : World α} {c : Call α} {r : Register α}
    (h : RegisterStep w c r) :
    r.settings = w.policy.settings ∧ r.predictor = w.policy.predictor := by
  cases h with
  | recordSurvivors => rename_i tag _ _ _ _ _; cases tag.population <;> exact ⟨rfl, rfl⟩
  | _ => exact ⟨rfl, rfl⟩

namespace World

variable {w w' : World α} {c : Call α}

theorem registered_of_act {β : Type} {x : Act α β} {next : β → World α}
    (h : w.act x next = .ok w')
    (hx : x.Returns fun b => RegisterStep w c (next b).policy.register) :
    RegisterStep w c w'.policy.register := by
  obtain ⟨b, journal, hout, rfl⟩ := exists_of_act_eq_ok h
  exact hx _ _ _ hout

theorem registered_of_kept_act {β : Type} {x : Act α β} {next : β → World α}
    (h : w.act x next = .ok w') (hkeeps : c.keepsRegister = true)
    (hx : x.Returns fun b => (next b).policy.register = w.policy.register) :
    RegisterStep w c w'.policy.register := by
  refine registered_of_act h (hx.mono fun b hb => ?_)
  rw [hb]
  exact .kept hkeeps

theorem registered_of_doChore {chore : Chore α} (h : w.doChore chore = .ok w') :
    RegisterStep w (.chore chore) w'.policy.register := by
  cases chore with
  | newEden =>
    cases h
    exact .newEden
  | addOldAllocation bytes =>
    obtain ⟨p, hp, hw'⟩ := Checked.exists_of_bind_eq_ok h
    cases hw'
    obtain rfl := (w.policy.addOldAllocation_meets bytes).of_eq_ok hp
    exact .kept rfl
  | recordSurvivors tag bytes =>
    obtain ⟨p, hp, hw'⟩ := Checked.exists_of_bind_eq_ok h
    cases hw'
    obtain ⟨age, hage, hp⟩ := Checked.exists_of_bind_eq_ok hp
    obtain ⟨g, hg, hp⟩ := Checked.exists_of_bind_eq_ok hp
    cases hp
    rw [Policy.setGroup_settings] at hg
    show RegisterStep w _ (((w.policy.setGroup _ _).setGroup g _).register)
    rw [Policy.setGroup_setGroup, Policy.register_setGroup]
    exact .recordSurvivors hage hg
  | recordAges ages =>
    obtain ⟨p, hp, hw'⟩ := Checked.exists_of_bind_eq_ok h
    cases hw'
    obtain ⟨merged, hmerged, hp⟩ := Checked.exists_of_bind_eq_ok hp
    cases hp
    exact .recordAges hmerged
  | exhaustSurvivorSpace =>
    simp only [doChore] at h
    refine registered_of_act h (w.policy.exhaustSurvivorSpace_meets.returns ?_)
    rintro _ _ ⟨_, rfl⟩
    exact .exhaust
  | measure breakdown =>
    cases h
    exact .kept rfl
  | resize regions =>
    obtain ⟨p, hp, hw'⟩ := Checked.exists_of_bind_eq_ok h
    cases hw'
    obtain rfl := (w.policy.resize_meets regions).of_eq_ok hp
    exact .kept rfl
  | chooseYoungLength heap now =>
    exact registered_of_kept_act h rfl (w.policy.register_chooseYoungLength (w.view heap) now)
  | revise heap now entries =>
    exact registered_of_kept_act h rfl (w.policy.register_revise (w.view heap) now entries)
  | readRefinement heap full =>
    refine registered_of_kept_act h rfl
      ((w.policy.readRefinement_meets (w.view heap) full).returns ?_)
    rintro _ _ ⟨_, _, _, rfl⟩
    rfl
  | needsMarking heap source bytes =>
    exact registered_of_kept_act h rfl fun _ _ _ _ => rfl

theorem registered_of_perform (h : w.perform c = .ok w') : RegisterStep w c w'.policy.register := by
  cases c with
  | beginPause =>
    cases h
    exact .kept rfl
  | decide heap =>
    refine registered_of_kept_act h rfl ((w.policy.decideMarking_meets (w.view heap)).returns ?_)
    rintro ⟨_, _, _⟩ _ ⟨_, ⟨_, _, _, rfl⟩, _⟩
    rfl
  | startPause heap start =>
    obtain ⟨p, journal, hout, rfl⟩ := exists_of_act_eq_ok h
    obtain ⟨_, _, _, hp⟩ := w.policy.startPause_reports (w.view heap) start _ _ _ hout
    show RegisterStep w _ p.register
    rw [hp]
    exact .startPause
  | transfer count learn =>
    cases h
    exact .transfer
  | endPause heap now pause =>
    refine registered_of_act h ((w.policy.register_endPause (w.view heap) now pause).mono ?_)
    rintro r ⟨kind, hkind, hr⟩
    show RegisterStep w _ r.1.register
    rw [hr]
    exact .endPause hkind
  | startFull heap now =>
    simp only [perform] at h
    refine registered_of_kept_act h rfl ((w.policy.startFull_meets (w.view heap) now).returns ?_)
    rintro ⟨_, _⟩ _ ⟨_, rfl, _⟩
    rfl
  | endFull heap now =>
    refine registered_of_act h ((w.policy.register_endFull (w.view heap) now).mono fun p hp => ?_)
    show RegisterStep w _ p.register
    rw [hp]
    exact .endFull
  | startRemark now =>
    cases h
    exact .kept rfl
  | endRemark now =>
    refine registered_of_act h ((w.policy.register_endRemark now).mono fun p hp => ?_)
    show RegisterStep w _ p.register
    rw [hp]
    exact .endRemark
  | startCleanup now =>
    cases h
    exact .kept rfl
  | endCleanup heap now =>
    refine registered_of_act h
      ((w.policy.register_endCleanup (w.view heap) now).mono fun r hr => ?_)
    show RegisterStep w _ r.1.register
    rw [hr]
    exact .endCleanup
  | request =>
    cases h
    exact .kept rfl
  | arrive arrivals =>
    cases h
    exact .kept rfl
  | forceMarking heap cause =>
    refine registered_of_kept_act h rfl
      ((w.policy.forceMarking_meets (w.view heap) cause).returns ?_)
    rintro ⟨_, _⟩ _ ⟨_, _, rfl⟩
    rfl
  | finishInitialMark =>
    refine registered_of_kept_act h rfl (w.policy.finishInitialMark_meets.returns ?_)
    rintro _ _ ⟨_, _, rfl⟩
    rfl
  | setCandidates candidates =>
    cases h
    exact .kept rfl
  | takeCandidates count =>
    simp only [perform] at h
    split at h
    · cases h
      exact .kept rfl
    · obtain ⟨rest, _, hw'⟩ := Checked.exists_of_bind_eq_ok h
      cases hw'
      exact .kept rfl
  | chooseOld heap timeLeft => exact registered_of_kept_act h rfl fun _ _ _ _ => rfl
  | chooseOptional heap most timeLeft => exact registered_of_kept_act h rfl fun _ _ _ _ => rfl
  | chore chore => exact registered_of_doChore h

theorem registered_of_call (h : w.call c = .ok w') : RegisterStep w c w'.policy.register := by
  obtain ⟨w₁, hperform, hpolicy, _⟩ := exists_perform_of_call h
  rw [hpolicy]
  exact registered_of_perform hperform

end World

theorem World.Fresh.register_eq {w : World α} (h : w.Fresh) :
    w.policy.register = .opening w.policy.settings := by
  obtain ⟨hstart⟩ := h
  rename_i settings heap now fullCauses policy before after
  have hregister : policy.register = .opening settings :=
    Policy.register_start settings heap now fullCauses _ _ _ hstart policy rfl
  rw [hregister, show policy.settings = settings from congrArg Register.settings hregister]

theorem World.Fresh.valid {w : World α} (h : w.Fresh) : w.policy.settings.Valid := by
  obtain ⟨hstart⟩ := h
  rename_i settings heap now fullCauses policy before after
  obtain ⟨_, _, hopening⟩ :=
    (Policy.start_meets_opening settings heap now fullCauses).reports _ _ _ hstart
  obtain ⟨_, _, _, hopening⟩ := hopening policy rfl
  rw [show policy.settings = settings from hopening.settings]
  exact hopening.valid

end Collector

end PauseGoal
