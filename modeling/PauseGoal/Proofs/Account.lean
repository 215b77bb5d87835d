import PauseGoal.Proofs.Operations
import PauseGoal.Proofs.PauseEnd

/-!
# What feeds the marking threshold

The marking threshold learns from two measurements, the length of marking and the allocation of a
mutator phase. The `Account` of the policy is what they are taken from: the running measurement, the
bytes counted, and the moments at which pauses started and ended. Most operations leave it alone and
report no pause, which `Act.Quiet` says together with a statement about the value.
-/

namespace PauseGoal

open Marking (Length Threshold)
open Pause (Kind Record)

/-- The pause that an event reports. -/
def Event.record? {α : Type} : Event α → Option (Record α)
  | .pause kind start finish => some ⟨kind, start, finish⟩
  | _ => none

/-- The pauses that events report, in order. -/
def recordsOf {α : Type} (events : List (Event α)) : List (Record α) :=
  events.filterMap Event.record?

/-- The pauses reported so far, in order. -/
def Journal.records {α : Type} (journal : Journal α) : List (Record α) := recordsOf journal.events

theorem recordsOf_append {α : Type} (events more : List (Event α)) :
    recordsOf (events ++ more) = recordsOf events ++ recordsOf more := List.filterMap_append

/-- What a cost model keeps beside costs: the end of the last pause and the pauses counted. -/
def CostModel.books {α : Type} (m : CostModel α) : α × Pause.Ledger α := (m.lastPauseEnd, m.ledger)

/-- The recent pauses that a cost model remembers, and the parts of time that they took. -/
structure Frequency (α : Type) where
  pauseTimes : Sample.Window α
  pauseEnds : Sample.Window α
  pauseRatio : α
  lastPauseRatio : α

def CostModel.frequency {α : Type} (m : CostModel α) : Frequency α :=
  ⟨m.pauseTimes, m.pauseEnds, m.pauseRatio, m.lastPauseRatio⟩

/-- All that a cost model keeps about pauses as such, rather than about what they cost. -/
def CostModel.pauses {α : Type} (m : CostModel α) : Frequency α × (α × Pause.Ledger α) :=
  (m.frequency, m.books)

/-- What the policy keeps for the marking threshold. -/
structure Account (α : Type) where
  threshold : Threshold α
  markingLength : Length α
  oldAllocation : Nat
  /-- When the last evacuation pause started, in seconds. -/
  started : α
  /-- When the last pause ended, in milliseconds, moved on by the pauses that interrupted marking
  since. -/
  lastPauseEnd : α
  /-- When the last full collection started, in seconds. -/
  fullStart : α

namespace Act

variable {α β γ : Type}

/-- A value and the pauses reported on the way satisfy `post`. -/
def Records (x : Act α β) (post : β → List (Record α) → Prop) : Prop :=
  x.Reports fun b events => post b (recordsOf events)

/-- No pause is reported and the value satisfies `post`. -/
def Quiet (x : Act α β) (post : β → Prop) : Prop :=
  x.Records fun b records => records = [] ∧ post b

theorem records_pure {post : β → List (Record α) → Prop} {b : β} (h : post b []) :
    (pure b : Act α β).Records post := reports_pure h

theorem quiet_pure {post : β → Prop} {b : β} (h : post b) : (pure b : Act α β).Quiet post :=
  records_pure ⟨rfl, h⟩

theorem Records.bind {x : Act α β} {f : β → Act α γ} {mid : β → List (Record α) → Prop}
    {post : γ → List (Record α) → Prop} (hx : x.Records mid)
    (hf : ∀ b records, mid b records → (f b).Records fun c more => post c (records ++ more)) :
    (x >>= f).Records post := by
  refine Reports.bind hx fun b events hb => (hf b _ hb).mono fun c more hc => ?_
  rwa [recordsOf_append]

/-- After a quiet computation the rest reports what it would have anyway. -/
theorem Quiet.bind_records {x : Act α β} {f : β → Act α γ} {mid : β → Prop}
    {post : γ → List (Record α) → Prop} (hx : x.Quiet mid)
    (hf : ∀ b, mid b → (f b).Records post) : (x >>= f).Records post := by
  refine Records.bind hx ?_
  rintro b _ ⟨rfl, hb⟩
  exact hf b hb

theorem Quiet.bind {x : Act α β} {f : β → Act α γ} {mid : β → Prop} {post : γ → Prop}
    (hx : x.Quiet mid) (hf : ∀ b, mid b → (f b).Quiet post) : (x >>= f).Quiet post :=
  hx.bind_records hf

theorem Records.mono {x : Act α β} {post post' : β → List (Record α) → Prop}
    (hx : x.Records post) (h : ∀ b records, post b records → post' b records) :
    x.Records post' :=
  Reports.mono hx fun b _ hb => h b _ hb

theorem Quiet.mono {x : Act α β} {post post' : β → Prop} (hx : x.Quiet post)
    (h : ∀ b, post b → post' b) : x.Quiet post' :=
  Records.mono hx fun b _ hb => ⟨hb.1, h b hb.2⟩

theorem quiet_ofChecked {x : Checked α β} {post : β → Prop} (h : ∀ b, x = .ok b → post b) :
    (ofChecked x).Quiet post :=
  reports_ofChecked fun b hb => ⟨rfl, h b hb⟩

theorem quiet_check (x : Checked α β) : (ofChecked x).Quiet fun _ => True :=
  quiet_ofChecked fun _ _ => trivial

theorem quiet_ofLogged (x : Logged α β) : (ofLogged x).Quiet fun _ => True := by
  refine (reports_ofLogged x).mono ?_
  rintro _ _ rfl
  exact ⟨rfl, trivial⟩

theorem quiet_write (severity : Severity) (topic : Topic) (pieces : List (Piece α)) :
    (write severity topic pieces).Quiet fun _ => True := quiet_ofLogged _

theorem records_report (event : Event α) :
    (report event).Records fun _ records => records = event.record?.toList := by
  refine (reports_report event).mono ?_
  rintro _ _ rfl
  cases hrecord : event.record? with
  | none => rw [recordsOf, List.filterMap_cons_none hrecord]; rfl
  | some record => rw [recordsOf, List.filterMap_cons_some hrecord]; rfl

theorem quiet_report {event : Event α} (h : event.record? = none) :
    (report event).Quiet fun _ => True := by
  refine (records_report event).mono ?_
  rintro _ _ hrecords
  rw [h] at hrecords
  exact ⟨hrecords, trivial⟩

/-- A value that is known from elsewhere. -/
theorem Quiet.and_returns {x : Act α β} {post post' : β → Prop} (hx : x.Quiet post)
    (hx' : x.Returns post') : x.Quiet fun b => post b ∧ post' b := by
  intro journal b journal' hout
  obtain ⟨events, happend, hquiet, hb⟩ := hx _ _ _ hout
  exact ⟨events, happend, hquiet, hb, hx' _ _ _ hout⟩

/-- A contract under which other events than pauses may be reported. -/
theorem Meets.quiet {x : Act α β} {post : β → List (Event α) → Prop} {fail : Fault α → Prop}
    {post' : β → Prop} (hx : x.Meets post fail)
    (h : ∀ b events, post b events → recordsOf events = [] ∧ post' b) : x.Quiet post' :=
  Reports.mono hx.reports h

end Act

namespace Policy

open Act (quiet_pure quiet_check)

variable {α : Type}

/-- The account of a policy. -/
def account (p : Policy α) : Account α where
  threshold := p.threshold
  markingLength := p.markingLength
  oldAllocation := p.oldAllocation
  started := p.breakdown.start
  lastPauseEnd := p.costs.lastPauseEnd
  fullStart := p.fullStart

/-! ## The mutator phase -/

theorem account_addOldAllocation {p q : Policy α} {bytes : Nat}
    (h : p.addOldAllocation bytes = .ok q) :
    q.account = { p.account with oldAllocation := p.oldAllocation + bytes } := by
  obtain rfl := (p.addOldAllocation_meets bytes).of_eq_ok h
  rfl

theorem account_recordAges {p q : Policy α} {ages : SurvivorAges} (h : p.recordAges ages = .ok q) :
    q.account = p.account := by
  obtain ⟨_, rfl⟩ := (p.recordAges_meets ages).of_eq_ok h
  rfl

variable [Scalar α]

theorem account_recordSurvivors {p q : Policy α} {tag : SurvivalTag} {bytes : Nat}
    (h : p.recordSurvivors tag bytes = .ok q) : q.account = p.account := by
  obtain ⟨_, _, rfl⟩ := (p.recordSurvivors_meets tag bytes).of_eq_ok h
  rfl

theorem account_resize {p q : Policy α} {regions : Nat} (h : p.resize regions = .ok q) :
    ∃ target, q.account = { p.account with threshold := p.threshold.setTarget target } := by
  obtain rfl := (p.resize_meets regions).of_eq_ok h
  exact ⟨_, rfl⟩

omit [Scalar α] in
theorem account_exhaustSurvivorSpace (p : Policy α) :
    p.exhaustSurvivorSpace.Quiet fun q => q.account = p.account := by
  refine p.exhaustSurvivorSpace_meets.quiet ?_
  rintro _ _ ⟨rfl, rfl⟩
  exact ⟨rfl, rfl⟩

/-! ## The length of the young generation -/

theorem account_chooseYoungLengthFor (p : Policy α) (heap : Heap α) (now : α) (entries : Nat) :
    (p.chooseYoungLengthFor heap now entries).Quiet fun r => r.2.account = p.account := by
  refine (p.chooseYoungLengthFor_meets heap now entries).quiet ?_
  rintro _ _ ⟨rfl, hq, _⟩
  exact ⟨rfl, by rw [hq]; rfl⟩

theorem account_chooseYoungLength (p : Policy α) (heap : Heap α) (now : α) :
    (p.chooseYoungLength heap now).Quiet fun r => r.2.account = p.account :=
  (quiet_check _).bind fun entries _ =>
    p.account_chooseYoungLengthFor heap now entries

theorem account_expectPredictedEntries {p q : Policy α} (h : p.expectPredictedEntries = .ok q) :
    q.account = p.account := by
  obtain ⟨_, rfl⟩ := p.expectPredictedEntries_meets.of_eq_ok h
  rfl

theorem account_revise (p : Policy α) (heap : Heap α) (now : α) (entries : Nat) :
    (p.revise heap now entries).Quiet fun q => q.account = p.account := by
  refine (quiet_check _).bind fun _ _ => ?_
  split
  · refine (quiet_check _).bind fun scaled _ => ?_
    obtain ⟨_, hexpected⟩ := p.expectEntries_eq (scaled / 1000)
    simp only [hexpected]
    exact (account_chooseYoungLengthFor _ _ _ _).bind fun _ hr => quiet_pure hr
  · exact quiet_pure rfl

/-! ## The start of a pause -/

theorem account_readRefinement (p : Policy α) (heap : Heap α) (full : Bool) :
    (p.readRefinement heap full).Quiet fun q => q.account = p.account := by
  refine (p.readRefinement_meets heap full).quiet ?_
  rintro _ _ ⟨rfl, _, _, rfl⟩
  exact ⟨rfl, rfl⟩

theorem account_startPause (p : Policy α) (heap : Heap α) (start : α) :
    (p.startPause heap start).Quiet fun q =>
      q.account = { p.account with started := start } := by
  refine (p.startPause_meets heap start).quiet ?_
  rintro _ _ ⟨⟨_, rfl⟩, _, _, _, _, rfl⟩
  exact ⟨rfl, rfl⟩

/-! ## The marking flag and the phases -/

theorem quiet_needsMarking (p : Policy α) (heap : Heap α) (source : String) (bytes : Nat) :
    (p.needsMarking heap source bytes).Quiet fun _ => True := by
  refine (p.needsMarking_meets heap source bytes).quiet ?_
  rintro _ _ rfl
  exact ⟨rfl, trivial⟩

omit [Scalar α] in
theorem account_forceMarking (p : Policy α) (heap : Heap α) (cause : Cause) :
    (p.forceMarking heap cause).Quiet fun r => r.2.account = p.account := by
  refine (p.forceMarking_meets heap cause).quiet ?_
  rintro ⟨_, _⟩ _ ⟨rfl, _, rfl⟩
  exact ⟨rfl, rfl⟩

omit [Scalar α] in
theorem account_finishInitialMark (p : Policy α) :
    p.finishInitialMark.Quiet fun q => q.account = p.account := by
  refine p.finishInitialMark_meets.quiet ?_
  rintro _ _ ⟨rfl, _, rfl⟩
  exact ⟨rfl, rfl⟩

theorem account_settleMarking (p : Policy α) (heap : Heap α) (initialMark : Bool) :
    (p.settleMarking heap initialMark).Quiet fun q => q.account = p.account := by
  refine (p.settleMarking_meets heap initialMark).quiet ?_
  rintro _ _ ⟨rfl, _, rfl⟩
  exact ⟨rfl, rfl⟩

theorem quiet_mixedIsWorthwhile (p : Policy α) (heap : Heap α) (yes no : String) :
    (p.mixedIsWorthwhile heap yes no).Quiet fun b => b = p.control.worthwhile heap := by
  have quiet : (p.mixedIsWorthwhile heap yes no).Quiet fun _ => True := by
    refine (p.mixedIsWorthwhile_meets heap yes no).quiet ?_
    rintro _ _ rfl
    exact ⟨rfl, trivial⟩
  exact (quiet.and_returns (p.gives_mixedIsWorthwhile heap yes no).returns).mono fun _ h => h.2

theorem account_advancePhases (p : Policy α) (heap : Heap α) (youngOnly initialMark : Bool) :
    (p.advancePhases heap youngOnly initialMark).Quiet fun r =>
      r.1.account = p.account ∧ r.2.cause = heap.cause := by
  refine (p.advancePhases_meets heap youngOnly initialMark).quiet ?_
  rintro ⟨_, _⟩ _ ⟨rfl, ⟨_, _, rfl⟩, _, rfl⟩
  exact ⟨rfl, rfl, rfl⟩

/-! ## The end of a pause -/

theorem pauses_addRememberedCost (m : CostModel α) (cost : α) (young : Bool) :
    (m.addRememberedCost cost young).pauses = m.pauses := by
  unfold CostModel.addRememberedCost
  split <;> rfl

theorem pauses_addCardsPerEntry (m : CostModel α) (cards : α) (young : Bool) :
    (m.addCardsPerEntry cards young).pauses = m.pauses := by
  unfold CostModel.addCardsPerEntry
  split <;> rfl

theorem pauses_addByteCost (m : CostModel α) (cost : α) (marking : Bool) :
    (m.addByteCost cost marking).pauses = m.pauses := by
  unfold CostModel.addByteCost
  split <;> rfl

/-- Costs are learned apart from what is kept about pauses. -/
theorem pauses_learnCosts {p : Policy α} {pause : α} {youngOnly : Bool} {m : CostModel α}
    (h : p.learnCosts pause youngOnly = .ok m) : m.pauses = p.costs.pauses := by
  unfold learnCosts at h
  extract_lets b m₀ m₁ m₂ m₃ m₄ m₅ m₆ at h
  have optional {c : Prop} [Decidable c] {m m' : CostModel α} (hm : m.pauses = m'.pauses) :
      (if c then m else m').pauses = m'.pauses := by
    split
    · exact hm
    · rfl
  have h₁ : m₁.pauses = p.costs.pauses := optional rfl
  have h₃ : m₃.pauses = m₁.pauses := optional (pauses_addRememberedCost _ _ _)
  have h₄ : m₄.pauses = m₃.pauses := optional (pauses_addCardsPerEntry _ _ _)
  have h₅ : m₅.pauses = m₄.pauses := optional rfl
  have h₆ : m₆.pauses = m₅.pauses := optional (pauses_addByteCost _ _ _)
  obtain ⟨youngRegions, _, h⟩ := Checked.exists_of_bind_eq_ok h
  extract_lets m₇ m₈ m₉ at h
  have h₇ : m₇.pauses = m₆.pauses := optional rfl
  have h₈ : m₈.pauses = m₇.pauses := optional rfl
  clear_value m₈
  have h₉ : m.pauses = m₈.pauses := by
    split at h
    · rw [← Except.ok.inj h]
      rfl
    · rw [← Except.ok.inj h]
      rfl
  rw [h₉, h₈, h₇, h₆, h₅, h₄, h₃, h₁]

theorem pauses_costsAfter {p : Policy α} {pause : α} {youngOnly learn : Bool} {m : CostModel α}
    (h : p.costsAfter pause youngOnly learn = .ok m) : m.pauses = p.costs.pauses := by
  unfold costsAfter at h
  split at h
  · exact pauses_learnCosts h
  · cases h
    rfl

theorem books_costsAfter {p : Policy α} {pause : α} {youngOnly learn : Bool} {m : CostModel α}
    (h : p.costsAfter pause youngOnly learn = .ok m) : m.books = p.costs.books :=
  congrArg Prod.snd (pauses_costsAfter h)

theorem frequency_costsAfter {p : Policy α} {pause : α} {youngOnly learn : Bool}
    {m : CostModel α} (h : p.costsAfter pause youngOnly learn = .ok m) :
    m.frequency = p.costs.frequency :=
  congrArg Prod.fst (pauses_costsAfter h)

theorem lastPauseEnd_costsAfter {p : Policy α} {pause : α} {youngOnly learn : Bool}
    {m : CostModel α} (h : p.costsAfter pause youngOnly learn = .ok m) :
    m.lastPauseEnd = p.costs.lastPauseEnd :=
  congrArg Prod.fst (books_costsAfter h)

theorem lastPauseEnd_updateRatios (m : CostModel α) (interval time : α) :
    (m.updateRatios interval time).lastPauseEnd = m.lastPauseEnd := by
  unfold CostModel.updateRatios
  split <;> rfl

theorem lastPauseEnd_frequencyAfter (p : Policy α) (mutatorTime finish pause : α) (learn : Bool) :
    (p.frequencyAfter mutatorTime finish pause learn).lastPauseEnd =
      if learn then finish * num 1000 else p.costs.lastPauseEnd := by
  unfold frequencyAfter
  split
  · exact lastPauseEnd_updateRatios _ _ _
  · rfl

theorem account_grantRefinementTime (p : Policy α) (heap : Heap α) (hotCards : α) :
    (p.grantRefinementTime heap hotCards).Quiet fun q => q.account = p.account := by
  refine (p.grantRefinementTime_meets heap hotCards).quiet ?_
  rintro _ _ ⟨⟨_, _, rfl⟩, _, _, rfl⟩
  exact ⟨rfl, rfl⟩

theorem quiet_logPauseEnd (p : Policy α) (heap : Heap α) (kind : Pause.Kind) (pause : α) :
    (p.logPauseEnd heap kind pause).Quiet fun _ => True := by
  refine (p.logPauseEnd_meets heap kind pause).quiet ?_
  rintro _ _ ⟨rfl, _⟩
  exact ⟨rfl, trivial⟩

end Policy

end PauseGoal
