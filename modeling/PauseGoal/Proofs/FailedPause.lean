import PauseGoal.Proofs.Exact
import PauseGoal.Proofs.Remeasured

/-!
# A pause whose evacuation failed teaches nothing

What a pause measures is reported while it runs, and all of it is looked at when it ends. If its
evacuation failed, the measurements say nothing about evacuations that succeed: the time granted for
logged cards follows from them and what is said about cards and phases, nothing else.

Main statement: two runs that differ only in what such a pause measured go on alike, in all that the
policy keeps and decides, as long as no later pause ends that was not begun
(`failed_pause_teaches_nothing`). One step at a time the worlds stay twins; what the two pauses
measured is forgotten when the next pause begins, and what they were granted when it ends.
-/

namespace PauseGoal

open Policy (Reading Twin Cards)

variable {α β γ : Type}

/-! ## Journals side by side -/

namespace Journal

/-- The same was written after both journals. -/
def Continue (j j' k k' : Journal α) : Prop :=
  ∃ entries events, k = j.extend entries events ∧ k' = j'.extend entries events

/-- A goal was reported, with entries about cards and phases. -/
def Grants (before k : Journal α) : Prop :=
  ∃ entries goal cards hotCards, (∀ entry ∈ entries, Cards entry.topic) ∧
    k = before.extend entries [.refinementGoal goal cards hotCards]

/-- Both journals go on the same, and then a goal was reported in each. -/
def Parted (before k k' : Journal α) : Prop :=
  ∃ entries events, (before.extend entries events).Grants k ∧
    (before.extend entries events).Grants k'

theorem continue_refl (j j' : Journal α) : Continue j j' j j' :=
  ⟨[], [], j.extend_nil.symm, j'.extend_nil.symm⟩

theorem Continue.extend {j j' k k' : Journal α} (h : Continue j j' k k')
    (entries : List (Entry α)) (events : List (Event α)) :
    Continue j j' (k.extend entries events) (k'.extend entries events) := by
  obtain ⟨before, said, rfl, rfl⟩ := h
  exact ⟨before ++ entries, said ++ events, j.extend_extend .., j'.extend_extend ..⟩

/-- Computations that are alike write the same after both. -/
theorem Continue.left_alike {R : β → γ → Prop} {x : Act α β} {y : Act α γ} {j j' k k' : Journal α}
    (h : Continue j j' k k') (hlevel : j'.log.level = j.log.level) (hxy : x.Alike R y) :
    Checked.Alike (fun b c => R b.1 c.1 ∧ Continue j j' b.2 c.2) (x.left k) (y.left k') := by
  obtain ⟨result, result', entries, events, hresults, houtcomes⟩ := hxy j.log.level
  have hafter := h.extend entries events
  obtain ⟨before, said, rfl, rfl⟩ := h
  have hx := (houtcomes (j.extend before said) rfl).1
  have hy := (houtcomes (j'.extend before said) hlevel).2
  cases result with
  | error fault =>
    cases result' with
    | error fault' =>
      rw [Act.left_of_error hx, Act.left_of_error hy]
      exact hresults
    | ok c => exact hresults.elim
  | ok b =>
    cases result' with
    | error fault' => exact hresults.elim
    | ok c =>
      rw [Act.left_of_ok hx, Act.left_of_ok hy]
      exact ⟨hresults, hafter⟩

/-- The pauses reported since the beginning are the same. -/
theorem Continue.pauses_drop {j j' k k' l l' : Journal α} (h : Continue j j' k k')
    (h' : Continue j j' l l') :
    l'.pauses.drop k'.pauses.length = l.pauses.drop k.pauses.length := by
  obtain ⟨_, before, rfl, rfl⟩ := h
  obtain ⟨_, said, rfl, rfl⟩ := h'
  simp only [pauses_extend, List.length_append, List.drop_length_add_append]

/-- Goals are no pauses. -/
theorem Grants.pauses_eq {before k : Journal α} (h : before.Grants k) :
    k.pauses = before.pauses := by
  obtain ⟨_, _, _, _, -, rfl⟩ := h
  rw [pauses_extend]
  exact List.append_nil _

theorem Grants.level_eq {before k : Journal α} (h : before.Grants k) :
    k.log.level = before.log.level := by
  obtain ⟨_, _, _, _, -, rfl⟩ := h
  rfl

end Journal

/-! ## The end of a failed pause -/

/-- Twins whose pauses started at the same time, beside the same heap, with journals that parted. -/
structure Policy.Parted (before : Journal α) (x x' : (Policy α × Heap α) × Journal α) : Prop where
  twins : ∃ r r', Twin r r' x.1.1 x'.1.1 ∧ r'.breakdown.start = r.breakdown.start
  heap_eq : x'.1.2 = x.1.2
  journals : before.Parted x.2 x'.2

/-- After a pause whose evacuation failed twins are twins again. What is written parts only once the
cards are looked at. -/
theorem Policy.Twin.endPause_of_failed [Scalar α] {p q : Policy α} {r r' : Reading α}
    (h : Twin r r' p q) (hstart : r'.breakdown.start = r.breakdown.start) {heap : Heap α}
    (hfailed : heap.evacuationFailed = true) (now pause : α) (journal : Journal α) :
    Checked.Alike (Parted journal) ((p.endPause heap now pause).left journal)
      ((q.endPause heap now pause).left journal) := by
  obtain ⟨result, result', entries, events, hresults, houtcomes⟩ :=
    h.concluded hstart (.inl hfailed) now pause journal.log.level
  obtain ⟨hp, hq⟩ := houtcomes journal rfl
  rw [endPause_eq, endPause_eq]
  rcases result with fault | ⟨p', heap', kind, hotCards⟩
  · rcases result' with fault' | _
    · rw [Act.left_bind_of_error hp, Act.left_bind_of_error hq]
      exact hresults
    · exact hresults.elim
  · rcases result' with _ | ⟨q', _, _, hotCards'⟩
    · exact hresults.elim
    · obtain ⟨htwin, rfl, rfl, -, -⟩ := hresults
      obtain ⟨goal, hgoal⟩ := p'.settleCards_tells heap' kind hotCards pause
      obtain ⟨goal', hgoal'⟩ := q'.settleCards_tells heap' kind hotCards' pause
      obtain ⟨said, habout, hsaid⟩ := hgoal journal.log.level
      obtain ⟨said', habout', hsaid'⟩ := hgoal' journal.log.level
      rw [Act.left_bind_of_ok hp, Act.left_bind_of_ok hq]
      dsimp only
      rw [Act.left_of_ok (hsaid (journal.extend entries events) rfl),
        Act.left_of_ok (hsaid' (journal.extend entries events) rfl)]
      refine ⟨⟨⟨r.breakdown, goal⟩, ⟨r'.breakdown, goal'⟩, ?_, hstart⟩, rfl, entries, events,
        ⟨said, _, _, _, habout, rfl⟩, ⟨said', _, _, _, habout', rfl⟩⟩
      obtain ⟨rfl, rfl⟩ := htwin
      exact ⟨rfl, rfl⟩

namespace Collector

open Journal (Continue Grants)

/-- Calls that differ at most in what they say a pause measured, but for when it started. -/
inductive SameButMeasured : Call α → Call α → Prop
  | same (c : Call α) : SameButMeasured c c
  | measure {b b' : Pause.Breakdown α} (h : b'.start = b.start) :
      SameButMeasured (.chore (.measure b)) (.chore (.measure b'))

theorem SameButMeasured.stageAfter_eq {c c' : Call α} (h : SameButMeasured c c') (stage : Stage) :
    c'.stageAfter stage = c.stageAfter stage := by
  cases h with
  | same => rfl
  | measure => rfl

namespace World

/-- The worlds agree but for the journal and for what only cards look at. -/
structure SameBut (r r' : Reading α) (w w' : World α) : Prop where
  twin : Twin r r' w.policy w'.policy
  candidates_eq : w'.candidates = w.candidates
  stage_eq : w'.stage = w.stage
  owed_eq : w'.owed = w.owed
  history_eq : w'.history = w.history

variable {w w' : World α} {j j' : Journal α} {r r' : Reading α}

theorem act_eq_left (w : World α) (x : Act α β) (next : β → World α) :
    w.act x next = (x.left w.journal >>= fun r => .ok { next r.1 with journal := r.2 }) := by
  unfold act
  rcases hx : x.outcome w.journal with ⟨_ | b, k⟩
  · rw [Act.left_of_error hx]
    rfl
  · rw [Act.left_of_ok hx]
    rfl

/-- Computations that are alike lead to worlds that go on from the same journals. -/
theorem act_alike {R : β → γ → Prop} {V : World α → World α → Prop} {x : Act α β} {y : Act α γ}
    {next : β → World α} {next' : γ → World α} (hjournals : Continue j j' w.journal w'.journal)
    (hlevel : j'.log.level = j.log.level) (hxy : x.Alike R y)
    (hnext : ∀ b c, R b c → ∀ k k',
      V { next b with journal := k } { next' c with journal := k' }) :
    Checked.Alike (fun v v' => V v v' ∧ Continue j j' v.journal v'.journal)
      (w.act x next) (w'.act y next') := by
  rw [act_eq_left, act_eq_left]
  refine (hjournals.left_alike hlevel hxy).bind fun b c hleft => ?_
  obtain ⟨hvalues, hafter⟩ := hleft
  exact ⟨hnext b.1 c.1 hvalues _ _, hafter⟩

/-! ## One call -/

variable [Scalar α]

/-- What only cards look at after a call that ends no evacuation pause. -/
def readingAfter : Call α → Reading α → Reading α
  | .beginPause, r => { r with breakdown := .zero }
  | .startPause _ start, r => { r with breakdown.start := start }
  | .chore (.measure b), r => { r with breakdown := b }
  | _, r => r

/-- A call beside the marking cycle on both sides. -/
theorem SameBut.doChore_alike (h : SameBut r r' w w')
    (hjournals : Continue j j' w.journal w'.journal) (hlevel : j'.log.level = j.log.level)
    (hstart : r'.breakdown.start = r.breakdown.start) (chore : Chore α) :
    Checked.Alike
      (fun v v' => SameBut (readingAfter (.chore chore) r) (readingAfter (.chore chore) r') v v' ∧
        Continue j j' v.journal v'.journal)
      (w.doChore chore) (w'.doChore chore) := by
  obtain ⟨q, _, _, _, _, journal'⟩ := w'
  obtain ⟨htwin, rfl, rfl, rfl, rfl⟩ := h
  cases chore with
  | newEden => exact ⟨⟨htwin.newEdenRegion, rfl, rfl, rfl, rfl⟩, hjournals⟩
  | addOldAllocation bytes =>
    exact (htwin.addOldAllocation _).bind fun p' q' htwin =>
      ⟨⟨htwin, rfl, rfl, rfl, rfl⟩, hjournals⟩
  | recordSurvivors tag bytes =>
    exact (htwin.recordSurvivors _ _).bind fun p' q' htwin =>
      ⟨⟨htwin, rfl, rfl, rfl, rfl⟩, hjournals⟩
  | recordAges ages =>
    exact (htwin.recordAges _).bind fun p' q' htwin =>
      ⟨⟨htwin, rfl, rfl, rfl, rfl⟩, hjournals⟩
  | exhaustSurvivorSpace =>
    have hchore (w : World α) : w.doChore .exhaustSurvivorSpace =
        w.act w.policy.exhaustSurvivorSpace fun p => { w with policy := p } := rfl
    rw [hchore, hchore]
    exact act_alike hjournals hlevel htwin.exhaustSurvivorSpace fun p' q' htwin _ _ =>
      ⟨htwin, rfl, rfl, rfl, rfl⟩
  | measure b => exact ⟨⟨htwin.measure b b, rfl, rfl, rfl, rfl⟩, hjournals⟩
  | resize regions =>
    exact (htwin.resize _).bind fun p' q' htwin =>
      ⟨⟨htwin, rfl, rfl, rfl, rfl⟩, hjournals⟩
  | chooseYoungLength heap now =>
    exact act_alike hjournals hlevel (htwin.chooseYoungLength _ _) fun _ _ htwin _ _ =>
      ⟨htwin.2, rfl, rfl, rfl, rfl⟩
  | revise heap now entries =>
    exact act_alike hjournals hlevel (htwin.revise _ _ _) fun p' q' htwin _ _ =>
      ⟨htwin, rfl, rfl, rfl, rfl⟩
  | readRefinement heap full =>
    exact act_alike hjournals hlevel (htwin.readRefinement hstart _ _) fun p' q' htwin _ _ =>
      ⟨htwin, rfl, rfl, rfl, rfl⟩
  | needsMarking heap source bytes =>
    exact act_alike hjournals hlevel (htwin.needsMarking _ _ _) fun _ _ _ _ _ =>
      ⟨htwin, rfl, rfl, rfl, rfl⟩

/-- A call on both sides, with measurements of its own on each. -/
theorem SameBut.perform_alike (h : SameBut r r' w w')
    (hjournals : Continue j j' w.journal w'.journal) (hlevel : j'.log.level = j.log.level)
    (hstart : r'.breakdown.start = r.breakdown.start) {c c' : Call α} (hc : SameButMeasured c c')
    (hopen : ∀ heap now pause, c ≠ .endPause heap now pause) :
    Checked.Alike
      (fun v v' => SameBut (readingAfter c r) (readingAfter c' r') v v' ∧
        Continue j j' v.journal v'.journal)
      (w.perform c) (w'.perform c') := by
  obtain ⟨q, _, _, _, _, journal'⟩ := w'
  obtain ⟨htwin, rfl, rfl, rfl, rfl⟩ := h
  cases hc with
  | @measure b b' _ => exact ⟨⟨htwin.measure b b', rfl, rfl, rfl, rfl⟩, hjournals⟩
  | same =>
    cases c with
    | beginPause => exact ⟨⟨htwin.measure .zero .zero, rfl, rfl, rfl, rfl⟩, hjournals⟩
    | decide heap =>
      refine act_alike hjournals hlevel (htwin.decideMarking _) ?_
      rintro ⟨_, p', heap⟩ ⟨_, q', _⟩ ⟨rfl, rfl, htwin⟩ _ _
      exact ⟨htwin, rfl, rfl, rfl, rfl⟩
    | startPause heap start =>
      exact act_alike hjournals hlevel (htwin.startPause _ _) fun p' q' htwin _ _ =>
        ⟨htwin, rfl, rfl, rfl, rfl⟩
    | transfer count learn => exact ⟨⟨htwin.transferSurvivors _ _, rfl, rfl, rfl, rfl⟩, hjournals⟩
    | endPause heap now pause => exact absurd rfl (hopen heap now pause)
    | startFull heap now =>
      have hperform (w : World α) : w.perform (.startFull heap now) =
          w.act (w.policy.startFull (w.view heap) now) fun r =>
            { w with policy := r.1, candidates := r.2.candidates } := rfl
      rw [hperform, hperform]
      refine act_alike hjournals hlevel (htwin.startFull hstart _ _) ?_
      rintro ⟨p', heap⟩ ⟨q', _⟩ ⟨htwin, rfl⟩ _ _
      exact ⟨htwin, rfl, rfl, rfl, rfl⟩
    | endFull heap now =>
      exact act_alike hjournals hlevel (htwin.endFull _ _) fun p' q' htwin _ _ =>
        ⟨htwin, rfl, rfl, rfl, rfl⟩
    | startRemark now =>
      have htwin := htwin.map (fun p => p.startRemark now) fun _ => ⟨rfl, rfl⟩
      exact ⟨⟨htwin, rfl, rfl, rfl, rfl⟩, hjournals⟩
    | endRemark now =>
      exact act_alike hjournals hlevel (htwin.endRemark _) fun p' q' htwin _ _ =>
        ⟨htwin, rfl, rfl, rfl, rfl⟩
    | startCleanup now =>
      have htwin := htwin.map (fun p => p.startCleanup now) fun _ => ⟨rfl, rfl⟩
      exact ⟨⟨htwin, rfl, rfl, rfl, rfl⟩, hjournals⟩
    | endCleanup heap now =>
      refine act_alike hjournals hlevel (htwin.endCleanup _ _) ?_
      rintro ⟨p', heap⟩ ⟨q', _⟩ ⟨htwin, rfl⟩ _ _
      exact ⟨htwin, rfl, rfl, rfl, rfl⟩
    | request =>
      have htwin := htwin.map (fun p => { p with request := p.request.raise.2 }) fun _ => ⟨rfl, rfl⟩
      exact ⟨⟨htwin, rfl, rfl, rfl, rfl⟩, hjournals⟩
    | arrive arrivals =>
      have htwin := htwin.map (fun p => { p with request.arrivals := arrivals }) fun _ => ⟨rfl, rfl⟩
      exact ⟨⟨htwin, rfl, rfl, rfl, rfl⟩, hjournals⟩
    | forceMarking heap cause =>
      exact act_alike hjournals hlevel (htwin.forceMarking _ _) fun x x' htwin _ _ =>
        ⟨htwin.2, rfl, rfl, rfl, rfl⟩
    | finishInitialMark =>
      exact act_alike hjournals hlevel htwin.finishInitialMark fun p' q' htwin _ _ =>
        ⟨htwin, rfl, rfl, rfl, rfl⟩
    | setCandidates candidates => exact ⟨⟨htwin, rfl, rfl, rfl, rfl⟩, hjournals⟩
    | takeCandidates count =>
      unfold perform
      dsimp only
      split
      · exact ⟨⟨htwin, rfl, rfl, rfl, rfl⟩, hjournals⟩
      · exact Checked.alike_bind _ fun rest => ⟨⟨htwin, rfl, rfl, rfl, rfl⟩, hjournals⟩
    | chooseOld heap timeLeft =>
      refine act_alike hjournals hlevel (htwin.chooseOldRegions _ _) ?_
      rintro budget _ rfl _ _
      exact ⟨htwin, rfl, rfl, rfl, rfl⟩
    | chooseOptional heap most timeLeft =>
      exact act_alike hjournals hlevel (htwin.chooseOptionalRegions _ _ _) fun _ _ _ _ _ =>
        ⟨htwin, rfl, rfl, rfl, rfl⟩
    | chore chore =>
      exact SameBut.doChore_alike ⟨htwin, rfl, rfl, rfl, rfl⟩ hjournals hlevel hstart chore

omit [Scalar α] in
/-- The worlds are twins again, with readings and journals that are related. -/
def Together (P : Reading α → Reading α → Prop) (J : Journal α → Journal α → Prop)
    (w w' : World α) : Prop :=
  ∃ r r', P r r' ∧ SameBut r r' w w' ∧ J w.journal w'.journal

/-- What a call adds to the history is the same on both sides if the same pauses were reported. -/
theorem SameBut.call_alike {P : Reading α → Reading α → Prop} {J : Journal α → Journal α → Prop}
    (h : SameBut r r' w w') {c c' : Call α} (hc : SameButMeasured c c')
    (hreported : ∀ k k', J k k' →
      k'.pauses.drop w'.journal.pauses.length = k.pauses.drop w.journal.pauses.length)
    (hperform : Checked.Alike (Together P J) (w.perform c) (w'.perform c')) :
    Checked.Alike (Together P J) (w.call c) (w'.call c') := by
  have hfindings : w'.findings c' = w.findings c := by
    obtain ⟨q, _, _, _, _, journal'⟩ := w'
    obtain ⟨⟨-, rfl⟩, rfl, rfl, rfl, rfl⟩ := h
    cases hc with
    | same => cases c <;> rfl
    | measure => rfl
  refine hperform.bind fun v v' htogether => ?_
  obtain ⟨s, s', hreadings, hv, hjournals⟩ := htogether
  refine ⟨s, s', hreadings, ⟨hv.twin, hv.candidates_eq, ?_, hv.owed_eq, ?_⟩, hjournals⟩
  · rw [h.stage_eq, hc.stageAfter_eq]
  · rw [h.history_eq, hfindings, hreported _ _ hjournals]

theorem perform_endPause (w : World α) (heap : Heap α) (now pause : α) :
    w.perform (.endPause heap now pause) =
      w.act (w.policy.endPause (w.view heap) now pause) fun r =>
        { w with policy := r.1, candidates := r.2.candidates, owed := none } := rfl

/-- Twins whose pauses measured the same are one policy after the pause. -/
theorem SameBut.endPause_alike (h : SameBut r r' w w')
    (hjournals : Continue j j' w.journal w'.journal) (hlevel : j'.log.level = j.log.level)
    (hsame : r'.breakdown = r.breakdown) (heap : Heap α) (now pause : α) :
    Checked.Alike (Together (fun s s' => s' = s) (Continue j j'))
      (w.call (.endPause heap now pause)) (w'.call (.endPause heap now pause)) := by
  refine h.call_alike (.same _) (fun _ _ hk => hjournals.pauses_drop hk) ?_
  obtain ⟨q, _, _, _, _, journal'⟩ := w'
  obtain ⟨htwin, rfl, rfl, rfl, rfl⟩ := h
  rw [perform_endPause, perform_endPause]
  have hended := htwin.endPause hsame (w.view heap) now pause
  refine (act_alike (V := fun v v' => ∃ s, SameBut s s v v') hjournals hlevel hended ?_).mono ?_
  · rintro ⟨p', heap'⟩ _ rfl k k'
    exact ⟨p'.reading, ⟨rfl, rfl⟩, rfl, rfl, rfl, rfl⟩
  · rintro v v' ⟨⟨s, hv⟩, hk⟩
    exact ⟨s, s, rfl, hv, hk⟩

/-- A pause whose evacuation failed leaves twins behind. -/
theorem SameBut.endPause_of_failed (h : SameBut r r' w w') (hjournal : w'.journal = w.journal)
    (hstart : r'.breakdown.start = r.breakdown.start) {heap : Heap α}
    (hfailed : heap.evacuationFailed = true) (now pause : α) :
    Checked.Alike
      (Together (fun s s' => s'.breakdown.start = s.breakdown.start) w.journal.Parted)
      (w.call (.endPause heap now pause)) (w'.call (.endPause heap now pause)) := by
  refine h.call_alike (.same _) ?_ ?_
  · intro k k' hparted
    obtain ⟨_, _, hk, hk'⟩ := hparted
    rw [hjournal, hk.pauses_eq, hk'.pauses_eq]
  have hview : w'.view heap = w.view heap := congrArg heap.withCandidates h.candidates_eq
  have hfailed : (w.view heap).evacuationFailed = true := hfailed
  rw [perform_endPause, perform_endPause, act_eq_left, act_eq_left, hview, hjournal]
  refine (h.twin.endPause_of_failed hstart hfailed now pause w.journal).bind
    fun x x' hparted => ?_
  obtain ⟨⟨s, s', htwin, hstart⟩, hheap, hjournals⟩ := hparted
  exact ⟨s, s', hstart, ⟨htwin, congrArg Heap.candidates hheap, h.stage_eq, rfl, h.history_eq⟩,
    hjournals⟩

/-! ## Runs -/

/-- Both sides go on agreeing on when the pause started. -/
theorem start_readingAfter {c c' : Call α} (hc : SameButMeasured c c')
    (hstart : r'.breakdown.start = r.breakdown.start) :
    (readingAfter c' r').breakdown.start = (readingAfter c r).breakdown.start := by
  cases hc with
  | measure h => exact h
  | same =>
    cases c with
    | beginPause | startPause => rfl
    | chore chore =>
      cases chore with
      | measure => rfl
      | _ => exact hstart
    | _ => exact hstart

theorem readingAfter_congr {c : Call α} (hsame : r'.breakdown = r.breakdown) :
    (readingAfter c r').breakdown = (readingAfter c r).breakdown := by
  cases c with
  | beginPause => rfl
  | startPause heap start => exact congrArg (fun b => { b with start := start }) hsame
  | chore chore =>
    cases chore with
    | measure => rfl
    | _ => exact hsame
  | _ => exact hsame

/-- A call on both sides that ends no evacuation pause. -/
theorem SameBut.open_call_alike (h : SameBut r r' w w')
    (hjournals : Continue j j' w.journal w'.journal) (hlevel : j'.log.level = j.log.level)
    (hstart : r'.breakdown.start = r.breakdown.start) {c c' : Call α} (hc : SameButMeasured c c')
    (hopen : ∀ heap now pause, c ≠ .endPause heap now pause) :
    Checked.Alike
      (Together (fun s s' => s = readingAfter c r ∧ s' = readingAfter c' r') (Continue j j'))
      (w.call c) (w'.call c') := by
  refine h.call_alike hc (fun _ _ hk => hjournals.pauses_drop hk) ?_
  refine (h.perform_alike hjournals hlevel hstart hc hopen).mono fun v v' hperformed => ?_
  obtain ⟨hv, hk⟩ := hperformed
  exact ⟨_, _, ⟨rfl, rfl⟩, hv, hk⟩

/-- During a pause the two sides measure something else and stay twins. -/
theorem SameBut.inside_alike (h : SameBut r r' w w')
    (hjournals : Continue j j' w.journal w'.journal) (hlevel : j'.log.level = j.log.level)
    (hstart : r'.breakdown.start = r.breakdown.start) {inside inside' : List (Call α)}
    (hinside : List.Forall₂ SameButMeasured inside inside')
    (hopen : ∀ heap now pause, .endPause heap now pause ∉ inside) :
    Checked.Alike
      (Together (fun s s' => s'.breakdown.start = s.breakdown.start) (Continue j j'))
      (w.run inside) (w'.run inside') := by
  induction hinside generalizing w w' r r' with
  | nil => exact ⟨r, r', hstart, h, hjournals⟩
  | @cons c c' rest rest' hc _ ih =>
    have hopen_c (heap now pause) : c ≠ .endPause heap now pause := by
      rintro rfl
      exact hopen heap now pause (List.mem_cons_self ..)
    have hopen_rest (heap now pause) : .endPause heap now pause ∉ rest :=
      fun hmem => hopen heap now pause (List.mem_cons_of_mem _ hmem)
    refine (h.open_call_alike hjournals hlevel hstart hc hopen_c).bind fun v v' htogether => ?_
    obtain ⟨_, _, ⟨rfl, rfl⟩, hv, hk⟩ := htogether
    exact ih hv hk (start_readingAfter hc hstart) hopen_rest

/-- No pause ends that was not begun. -/
def PausesBegun (calls : List (Call α)) : Prop :=
  ∀ before heap now pause after, calls = before ++ .endPause heap now pause :: after →
    .beginPause ∈ before

omit [Scalar α] in
theorem pausesBegun_nil : PausesBegun ([] : List (Call α)) := by
  intro before heap now pause after hsplit
  exact absurd hsplit.symm (List.append_ne_nil_of_right_ne_nil _ (List.cons_ne_nil _ _))

omit [Scalar α] in
/-- Calls that begin with a pause are in order. -/
theorem pausesBegun_beginPause (calls : List (Call α)) : PausesBegun (.beginPause :: calls) := by
  intro before heap now pause after hsplit
  cases before with
  | nil => cases hsplit
  | cons c before =>
    cases hsplit
    exact List.mem_cons_self ..

/-- A pause that begins forgets what the last one measured; after any other call the same pauses are
still to begin. -/
theorem PausesBegun.next {c : Call α} {rest : List (Call α)}
    (h : r'.breakdown = r.breakdown ∨ PausesBegun (c :: rest)) :
    (readingAfter c r').breakdown = (readingAfter c r).breakdown ∨ PausesBegun rest := by
  rcases h with hsame | hbegun
  · exact .inl (readingAfter_congr hsame)
  by_cases hbegins : c = .beginPause
  · subst hbegins
    exact .inl rfl
  refine .inr fun before heap now pause after hsplit => ?_
  have hmem := hbegun (c :: before) heap now pause after (congrArg (c :: ·) hsplit)
  rcases List.mem_cons.mp hmem with hc | hmem
  · exact absurd hc.symm hbegins
  · exact hmem

/-- What an earlier pause measured is forgotten when a pause begins, and what it was granted when
one ends. -/
theorem SameBut.rest_alike (h : SameBut r r' w w')
    (hjournals : Continue j j' w.journal w'.journal) (hlevel : j'.log.level = j.log.level)
    (hstart : r'.breakdown.start = r.breakdown.start) {rest : List (Call α)}
    (hbegun : r'.breakdown = r.breakdown ∨ PausesBegun rest) :
    Checked.Alike
      (Together (fun s s' =>
          (r'.breakdown = r.breakdown ∨ .beginPause ∈ rest → s'.breakdown = s.breakdown) ∧
          (r' = r ∨ (∃ heap now pause, .endPause heap now pause ∈ rest) → s' = s))
        (Continue j j'))
      (w.run rest) (w'.run rest) := by
  induction rest generalizing w w' r r' with
  | nil =>
    refine ⟨r, r', ⟨?_, ?_⟩, h, hjournals⟩
    · rintro (hsame | hmem)
      · exact hsame
      · cases hmem
    · rintro (hsame | ⟨_, _, _, hmem⟩)
      · exact hsame
      · cases hmem
  | cons c rest ih =>
    by_cases hends : ∃ heap now pause, c = .endPause heap now pause
    · obtain ⟨heap, now, pause, rfl⟩ := hends
      have hsame : r'.breakdown = r.breakdown := by
        rcases hbegun with hsame | hbegun
        · exact hsame
        · exact absurd (hbegun [] heap now pause rest rfl) List.not_mem_nil
      refine (h.endPause_alike hjournals hlevel hsame heap now pause).bind fun v v' hended => ?_
      obtain ⟨s, _, rfl, hv, hk⟩ := hended
      refine (ih hv hk rfl (.inl rfl)).mono fun u u' htogether => ?_
      obtain ⟨t, t', ⟨_, hall⟩, hu, hk⟩ := htogether
      obtain rfl := hall (.inl rfl)
      exact ⟨_, _, ⟨fun _ => rfl, fun _ => rfl⟩, hu, hk⟩
    · have hopen (heap now pause) : c ≠ .endPause heap now pause :=
        fun heq => hends ⟨heap, now, pause, heq⟩
      refine (h.open_call_alike hjournals hlevel hstart (.same c) hopen).bind fun v v' hcall => ?_
      obtain ⟨_, _, ⟨rfl, rfl⟩, hv, hk⟩ := hcall
      have hstart := start_readingAfter (.same c) hstart
      refine (ih hv hk hstart (PausesBegun.next hbegun)).mono fun u u' htogether => ?_
      obtain ⟨t, t', ⟨hbreakdown, hall⟩, hu, hk⟩ := htogether
      refine ⟨t, t', ⟨?_, ?_⟩, hu, hk⟩
      · rintro (hsame | hmem)
        · exact hbreakdown (.inl (readingAfter_congr hsame))
        · rcases List.mem_cons.mp hmem with rfl | hmem
          · exact hbreakdown (.inl rfl)
          · exact hbreakdown (.inr hmem)
      · rintro (rfl | ⟨heap, now, pause, hmem⟩)
        · exact hall (.inl rfl)
        · rcases List.mem_cons.mp hmem with hc | hmem
          · exact absurd hc.symm (hopen heap now pause)
          · exact hall (.inr ⟨heap, now, pause, hmem⟩)

/-- Two runs decide alike after a pause that parted them and the calls `rest`: the policies agree
but for the measurements of that pause and the time it was granted for logged cards, and so do all
predicted times and all answers about old regions; the collectors agree; and the journals agree but
for one goal and for entries about cards and phases. When the next pause begins the measurements
agree again, and when it ends everything in the policies does. -/
structure DecidesAlike (rest : List (Call α)) (w w' : World α) : Prop where
  policy_eq : w'.policy = { w.policy with
    breakdown := w'.policy.breakdown
    refinementGoal := w'.policy.refinementGoal }
  breakdown_eq : .beginPause ∈ rest → w'.policy.breakdown = w.policy.breakdown
  settled : (∃ heap now pause, .endPause heap now pause ∈ rest) → w'.policy = w.policy
  baseTime_eq (pendingCards entries : Nat) :
    w'.policy.baseTime pendingCards entries = w.policy.baseTime pendingCards entries
  regionTime_eq (young : Bool) (r : Region) :
    w'.policy.regionTime young r = w.policy.regionTime young r
  survivorTime_eq (heap : Heap α) : w'.policy.survivorTime heap = w.policy.survivorTime heap
  oldRegions_eq (heap : Heap α) (timeLeft : α) :
    w'.policy.chooseOldRegions heap timeLeft = w.policy.chooseOldRegions heap timeLeft
  optionalRegions_eq (heap : Heap α) (most : Nat) (timeLeft : α) :
    w'.policy.chooseOptionalRegions heap most timeLeft =
      w.policy.chooseOptionalRegions heap most timeLeft
  candidates_eq : w'.candidates = w.candidates
  stage_eq : w'.stage = w.stage
  owed_eq : w'.owed = w.owed
  history_eq : w'.history = w.history
  journals : ∃ before k k' : Journal α, before.Grants k ∧ before.Grants k' ∧
    Continue k k' w.journal w'.journal

theorem SameBut.decidesAlike {rest : List (Call α)} (h : SameBut r r' w w')
    (hbreakdown : .beginPause ∈ rest → r'.breakdown = r.breakdown)
    (hall : (∃ heap now pause, .endPause heap now pause ∈ rest) → r' = r)
    (hjournals : ∃ before k k' : Journal α, before.Grants k ∧ before.Grants k' ∧
      Continue k k' w.journal w'.journal) :
    DecidesAlike rest w w' := by
  have heq := h.twin.eq
  have hreading := h.twin.reading_eq
  refine ⟨by rw [heq], fun hbegins => ?_, fun hends => ?_, ?_, ?_, ?_, ?_, ?_,
    h.candidates_eq, h.stage_eq, h.owed_eq, h.history_eq, hjournals⟩
  · rw [heq]
    show r'.breakdown = w.policy.reading.breakdown
    rw [hbreakdown hbegins, hreading]
  · rw [heq, hall hends, ← hreading]
    rfl
  all_goals
    intros
    rw [heq]
    rfl

end World

/-- Take two runs from any world that differ only in what they measure before the end of a pause
whose evacuation failed, and let both go on with the same calls. Unless a pause ends there that was
not begun, either both end in the same fault or both return worlds that decide alike. -/
theorem failed_pause_teaches_nothing [Scalar α] (w : World α) {inside inside' : List (Call α)}
    (hinside : List.Forall₂ SameButMeasured inside inside')
    (hopen : ∀ heap now pause, .endPause heap now pause ∉ inside) {heap : Heap α}
    (hfailed : heap.evacuationFailed = true) (now pause : α) {rest : List (Call α)}
    (hbegun : World.PausesBegun rest) :
    Checked.Alike (World.DecidesAlike rest)
      (w.run (inside ++ .endPause heap now pause :: rest))
      (w.run (inside' ++ .endPause heap now pause :: rest)) := by
  have hsplit (calls : List (Call α)) : w.run (calls ++ .endPause heap now pause :: rest) = (do
      let v ← w.run calls
      let v ← v.call (.endPause heap now pause)
      v.run rest) := by
    rw [World.run, List.foldlM_append]
    rfl
  have hself : World.SameBut w.policy.reading w.policy.reading w w :=
    ⟨⟨rfl, rfl⟩, rfl, rfl, rfl, rfl⟩
  rw [hsplit, hsplit]
  -- during the pause, at its end, and after it
  refine (hself.inside_alike (Journal.continue_refl _ _) rfl rfl hinside hopen).bind
    fun v v' hpaused => ?_
  obtain ⟨r, r', hstart, hv, entries, events, hjournal, hjournal'⟩ := hpaused
  refine (hv.endPause_of_failed (hjournal'.trans hjournal.symm) hstart hfailed now pause).bind
    fun u u' hended => ?_
  obtain ⟨s, s', hstart, hu, entries, events, hk, hk'⟩ := hended
  have hlevel : u'.journal.log.level = u.journal.log.level := hk'.level_eq.trans hk.level_eq.symm
  refine (hu.rest_alike (Journal.continue_refl _ _) hlevel hstart (.inr hbegun)).mono
    fun t t' hcontinued => ?_
  obtain ⟨_, _, ⟨hbreakdown, hall⟩, ht, hjournals⟩ := hcontinued
  exact ht.decidesAlike (fun hmem => hbreakdown (.inr hmem)) (fun hmem => hall (.inr hmem))
    ⟨_, _, _, hk, hk', hjournals⟩

/-- The evacuation of a pause in this heap fails. -/
def failedHeap : Heap Rat := { plainHeap with evacuationFailed := true }

/-- A pause in that heap up to its end, with the time that hot cards took. -/
def slowPause (hotCards : Rat) : List (Call Rat) :=
  [.beginPause, .decide failedHeap, .startPause failedHeap 10,
    .chore (.measure { Pause.Breakdown.zero with start := 10, mergeHotCards := hotCards }),
    .transfer 0 true]

theorem sameButMeasured_slowPause (hotCards hotCards' : Rat) :
    List.Forall₂ SameButMeasured (slowPause hotCards) (slowPause hotCards') :=
  .cons (.same _) <| .cons (.same _) <| .cons (.same _) <| .cons (.measure rfl) <|
    .cons (.same _) .nil

/-- The run returns a policy with the given goal. -/
def endsWithGoal (goal : Rat) (x : Checked Rat (World Rat)) : Bool :=
  decide (x.toOption.map (fun w => w.policy.refinementGoal) = some goal)

theorem exists_of_endsWithGoal {goal : Rat} {x : Checked Rat (World Rat)}
    (h : endsWithGoal goal x = true) : ∃ w, x = .ok w ∧ w.policy.refinementGoal = goal := by
  have hgoal := of_decide_eq_true h
  cases x with
  | ok w => exact ⟨w, rfl, Option.some.inj hgoal⟩
  | error fault => cases hgoal

/-- Hot cards take no time in one run and five milliseconds in the other, which gives another goal;
after the next pause the policies are one. -/
theorem failed_pause_teaches_nothing_about_hot_cards :
    let rest := plainPause plainHeap 20 []
    ∃ (policy : Policy Rat) (after : Journal Rat) (u u' v v' : World Rat),
      (Policy.start plainSettings plainHeap 1 []).outcome {} = (.ok (.ok policy), after) ∧
        (World.opened policy after).run (slowPause 0 ++ [.endPause failedHeap 11 1000]) = .ok u ∧
        (World.opened policy after).run (slowPause 5 ++ [.endPause failedHeap 11 1000]) = .ok u' ∧
        u'.policy.refinementGoal ≠ u.policy.refinementGoal ∧ u'.policy.costs = u.policy.costs ∧
        (World.opened policy after).run (slowPause 0 ++ .endPause failedHeap 11 1000 :: rest) =
          .ok v ∧
        (World.opened policy after).run (slowPause 5 ++ .endPause failedHeap 11 1000 :: rest) =
          .ok v' ∧
        v'.policy = v.policy := by
  intro rest
  obtain ⟨policy, after, w, hstart, hrun, hends⟩ :=
    exists_openedRun plainSettings plainHeap 1 []
      (P := fun _ w =>
        (endsWithGoal 20 (w.run (slowPause 0 ++ [.endPause failedHeap 11 1000])) &&
          endsWithGoal 15 (w.run (slowPause 5 ++ [.endPause failedHeap 11 1000]))) &&
        ((w.run
            (slowPause 0 ++ .endPause failedHeap 11 1000 :: plainPause plainHeap 20 [])).toBool &&
          (w.run
            (slowPause 5 ++ .endPause failedHeap 11 1000 :: plainPause plainHeap 20 [])).toBool))
      (by decide +kernel)
  cases hrun
  obtain ⟨hgoals, hreturn⟩ := Bool.and_eq_true_iff.mp hends
  obtain ⟨hgoal, hgoal'⟩ := Bool.and_eq_true_iff.mp hgoals
  obtain ⟨hreturn, hreturn'⟩ := Bool.and_eq_true_iff.mp hreturn
  obtain ⟨u, hu, hgoal⟩ := exists_of_endsWithGoal hgoal
  obtain ⟨u', hu', hgoal'⟩ := exists_of_endsWithGoal hgoal'
  obtain ⟨v, hv⟩ := Checked.exists_of_toBool hreturn
  obtain ⟨v', hv'⟩ := Checked.exists_of_toBool hreturn'
  have hopen (heap : Heap Rat) (now pause : Rat) :
      Call.endPause heap now pause ∉ slowPause 0 := by
    simp [slowPause]
  have hsame := sameButMeasured_slowPause 0 5
  have hended := failed_pause_teaches_nothing (World.opened policy after) hsame hopen
    (rfl : failedHeap.evacuationFailed = true) 11 1000 World.pausesBegun_nil
  have hbegun : World.PausesBegun (plainPause plainHeap 20 []) := World.pausesBegun_beginPause _
  have hlater := failed_pause_teaches_nothing (World.opened policy after) hsame hopen
    (rfl : failedHeap.evacuationFailed = true) 11 1000 hbegun
  rw [hu, hu'] at hended
  rw [hv, hv'] at hlater
  have hcosts : u'.policy.costs = u.policy.costs := by rw [hended.policy_eq]
  have hpolicy : v'.policy = v.policy :=
    hlater.settled ⟨plainHeap, 20 + 1, 1000, by simp [plainPause]⟩
  refine ⟨policy, after, u, u', v, v', hstart, hu, hu', ?_, hcosts, hv, hv', hpolicy⟩
  rw [hgoal, hgoal']
  decide

end Collector

end PauseGoal
