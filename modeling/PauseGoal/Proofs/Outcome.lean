import PauseGoal.Journal

/-!
# What a computation ends in

A computation of the policy ends in a value or in a fault, and what it wrote before stays written.
The predicates here say what both ends look like, whatever the journal was before:

* `Checked.Gives` and `Logged.Gives`: the value satisfies a condition, and a fault is not one about
  the marking cycle;
* `Act.Ends`: the same, and beside the value the kinds of the pauses that were reported;
* `Act.Gives`: no pause was reported;
* `Logged.Succeeds` and `Act.Succeeds`: there is no fault at all.

Each has a rule for `pure` and one for `>>=`, so that a proof follows the text of a program: one
step for every line.
-/

namespace PauseGoal

open Pause (Kind)

/-- Whether a fault is about the marking cycle: the phases, the marking flag, the measurement of the
marking length, the candidates. All other faults are about numbers, ages and bounds. -/
def Fault.aboutCycle {α : Type} : Fault α → Bool
  | .fullCollectionAsEvacuation | .initialMarkBeforeMixed | .initialMarkRepeated
  | .markingLengthUnknown | .initialMarkLeftScheduled | .requestVanished
  | .lastYoungStartsMarking | .initialMarkWhileMarking | .noCandidates | .optionalOutsideMixed
  | .noOptionalCandidates => true
  | _ => false

variable {α β γ : Type}

/-! ## Computations that write nothing -/

/-- The value satisfies `post`; a fault is not about the marking cycle. -/
def Checked.Gives (x : Checked α β) (post : β → Prop) : Prop :=
  match x with
  | .ok b => post b
  | .error fault => fault.aboutCycle = false

/-- The value satisfies `post`; a fault about the marking cycle satisfies `fail`. -/
def Checked.Ends (x : Checked α β) (post : β → Prop) (fail : Fault α → Prop) : Prop :=
  match x with
  | .ok b => post b
  | .error fault => fault.aboutCycle = true → fail fault

/-- No fault about the marking cycle. -/
def Checked.Calm (x : Checked α β) : Prop := Checked.Gives x fun _ => True

namespace Checked

theorem gives_pure {post : β → Prop} {b : β} (h : post b) :
    Gives (pure b : Checked α β) post := h

theorem Gives.mono {x : Checked α β} {post post' : β → Prop} (hx : Gives x post)
    (h : ∀ b, post b → post' b) : Gives x post' := by
  cases x with
  | ok b => exact h b hx
  | error fault => exact hx

theorem Gives.bind {x : Checked α β} {f : β → Checked α γ} {mid : β → Prop} {post : γ → Prop}
    (hx : Gives x mid) (hf : ∀ b, mid b → Gives (f b) post) : Gives (x >>= f) post := by
  cases x with
  | ok b => exact hf b hx
  | error fault => exact hx

theorem Gives.calm {x : Checked α β} {post : β → Prop} (hx : Gives x post) : Calm x :=
  hx.mono fun _ _ => trivial

theorem Gives.of_eq_ok {x : Checked α β} {post : β → Prop} (hx : Gives x post) {b : β}
    (h : x = .ok b) : post b := by
  subst h
  exact hx

theorem Gives.ends {x : Checked α β} {post : β → Prop} {fail : Fault α → Prop}
    (hx : Gives x post) : Ends x post fail := by
  cases x with
  | ok b => exact hx
  | error fault =>
    intro hcycle
    rw [show fault.aboutCycle = false from hx] at hcycle
    cases hcycle

theorem Ends.mono {x : Checked α β} {post post' : β → Prop} {fail fail' : Fault α → Prop}
    (hx : Ends x post fail) (hpost : ∀ b, post b → post' b)
    (hfail : ∀ fault, fail fault → fail' fault) : Ends x post' fail' := by
  cases x with
  | ok b => exact hpost b hx
  | error fault => exact fun hcycle => hfail fault (hx hcycle)

/-- The fault that a computation ended in. -/
def fault? : Checked α β → Option (Fault α)
  | .ok _ => none
  | .error fault => some fault

theorem eq_error_of_fault? {x : Checked α β} {fault : Fault α} (h : x.fault? = some fault) :
    x = .error fault := by
  cases x with
  | ok b => cases h
  | error fault' => rw [Option.some.inj h]

theorem calm_ok (b : β) : Calm (.ok b : Checked α β) := trivial

theorem calm_pure (b : β) : Calm (pure b : Checked α β) := trivial

theorem Calm.bind_gives {x : Checked α β} {f : β → Checked α γ} {post : γ → Prop} (hx : Calm x)
    (hf : ∀ b, Gives (f b) post) : Gives (x >>= f) post :=
  Gives.bind hx fun b _ => hf b

theorem Calm.bind {x : Checked α β} {f : β → Checked α γ} (hx : Calm x)
    (hf : ∀ b, Calm (f b)) : Calm (x >>= f) :=
  hx.bind_gives hf

theorem calm_ite {c : Prop} [Decidable c] {x y : Checked α β} (hx : Calm x) (hy : Calm y) :
    Calm (if c then x else y) := by
  split
  · exact hx
  · exact hy

/-- A demand is met by its condition. -/
theorem gives_demand {condition : Prop} [Decidable condition] {fault : Fault α}
    (h : fault.aboutCycle = false) : Gives (demand condition fault) fun _ => condition := by
  unfold demand
  split
  · next hc => exact hc
  · exact h

/-- A demand that is met cannot fail. -/
theorem calm_demand {condition : Prop} [Decidable condition] {fault : Fault α}
    (h : condition) : Calm (demand condition fault) := by
  rw [demand, if_pos h]
  exact calm_ok _

theorem calm_mapM {f : β → Checked α γ} {l : List β} (hf : ∀ b, Calm (f b)) :
    Calm (l.mapM f) := by
  induction l with
  | nil => exact calm_pure _
  | cons b l ih =>
    rw [List.mapM_cons]
    exact (hf b).bind fun _ => ih.bind fun _ => calm_pure _

end Checked

/-! ## Computations that write to the log -/

/-- Whatever was written before, the value satisfies `post`; a fault is not about the marking
cycle. -/
def Logged.Gives (x : Logged α β) (post : β → Prop) : Prop :=
  ∀ log, Checked.Gives (x.run.run log).1 post

/-- No fault about the marking cycle. -/
def Logged.Calm (x : Logged α β) : Prop := Logged.Gives x fun _ => True

namespace Logged

theorem run_bind (x : Logged α β) (f : β → Logged α γ) (log : Log α) :
    (x >>= f).run.run log =
      match x.run.run log with
      | (.ok b, log') => (f b).run.run log'
      | (.error fault, log') => (.error fault, log') := by
  simp only [ExceptT.run_bind, StateT.run_bind]
  cases x.run.run log with
  | mk result log' => cases result <;> rfl

theorem gives_pure {post : β → Prop} {b : β} (h : post b) :
    Gives (pure b : Logged α β) post := fun _ => h

theorem Gives.bind {x : Logged α β} {f : β → Logged α γ} {mid : β → Prop} {post : γ → Prop}
    (hx : Gives x mid) (hf : ∀ b, mid b → Gives (f b) post) : Gives (x >>= f) post := by
  intro log
  rw [run_bind]
  have hlog := hx log
  revert hlog
  cases x.run.run log with
  | mk result log' =>
    cases result with
    | ok b => exact fun hb => hf b hb log'
    | error fault => exact fun hfault => hfault

theorem calm_pure (b : β) : Calm (pure b : Logged α β) := gives_pure trivial

theorem Calm.bind_gives {x : Logged α β} {f : β → Logged α γ} {post : γ → Prop} (hx : Calm x)
    (hf : ∀ b, Gives (f b) post) : Gives (x >>= f) post :=
  Gives.bind hx fun b _ => hf b

theorem Calm.bind {x : Logged α β} {f : β → Logged α γ} (hx : Calm x)
    (hf : ∀ b, Calm (f b)) : Calm (x >>= f) :=
  hx.bind_gives hf

theorem gives_ofChecked {x : Checked α β} {post : β → Prop} (h : Checked.Gives x post) :
    Gives (ofChecked x) post := fun _ => h

theorem calm_ofChecked {x : Checked α β} (h : Checked.Calm x) : Calm (ofChecked x) :=
  gives_ofChecked h

theorem calm_write (severity : Severity) (topic : Topic) (pieces : List (Piece α)) :
    Calm (write severity topic pieces) := fun _ => trivial

theorem calm_keeps (severity : Severity) : Calm (keeps severity : Logged α Bool) :=
  fun _ => trivial

/-- Whatever the log was before, there is a value and no fault. -/
def Succeeds (x : Logged α β) : Prop := ∀ log, ∃ b log', x.run.run log = (.ok b, log')

theorem succeeds_pure (b : β) : (pure b : Logged α β).Succeeds := fun log => ⟨b, log, rfl⟩

theorem Succeeds.bind {x : Logged α β} {f : β → Logged α γ} (hx : x.Succeeds)
    (hf : ∀ b, (f b).Succeeds) : (x >>= f).Succeeds := by
  intro log
  obtain ⟨b, log', hb⟩ := hx log
  rw [run_bind, hb]
  exact hf b log'

theorem succeeds_write (severity : Severity) (topic : Topic) (pieces : List (Piece α)) :
    (write severity topic pieces).Succeeds := fun _ => ⟨(), _, rfl⟩

theorem succeeds_keeps (severity : Severity) : (keeps severity : Logged α Bool).Succeeds :=
  fun log => ⟨log.keeps severity, log, rfl⟩

end Logged

/-! ## Computations that write to the journal -/

/-- The kind of a pause that an event reports. -/
def Event.pauseKind? : Event α → Option Kind
  | .pause kind _ _ => some kind
  | _ => none

/-- The kinds of the pauses reported so far, in order. -/
def Journal.pauses (journal : Journal α) : List Kind := journal.events.filterMap Event.pauseKind?

namespace Act

/-- The end of a computation and the journal after it. -/
def outcome (x : Act α β) (journal : Journal α) : Checked α β × Journal α := x.run.run journal

/-- Whatever the journal was before, the value and the kinds of the pauses reported on the way
satisfy `post`; a fault about the marking cycle satisfies `fail`. -/
def Ends (x : Act α β) (post : β → List Kind → Prop) (fail : Fault α → Prop) : Prop :=
  ∀ journal,
    match x.outcome journal with
    | (.ok b, journal') => ∃ kinds, journal'.pauses = journal.pauses ++ kinds ∧ post b kinds
    | (.error fault, _) => fault.aboutCycle = true → fail fault

/-- No pause is reported and the value satisfies `post`; no fault is about the marking cycle. -/
def Gives (x : Act α β) (post : β → Prop) : Prop :=
  x.Ends (fun b kinds => kinds = [] ∧ post b) fun _ => False

theorem outcome_bind (x : Act α β) (f : β → Act α γ) (journal : Journal α) :
    (x >>= f).outcome journal =
      match x.outcome journal with
      | (.ok b, journal') => (f b).outcome journal'
      | (.error fault, journal') => (.error fault, journal') := by
  simp only [outcome, ExceptT.run_bind, StateT.run_bind]
  cases x.run.run journal with
  | mk result journal' => cases result <;> rfl

theorem ends_pure {post : β → List Kind → Prop} {fail : Fault α → Prop} {b : β} (h : post b []) :
    (pure b : Act α β).Ends post fail :=
  fun _ => ⟨[], (List.append_nil _).symm, h⟩

theorem gives_pure {post : β → Prop} {b : β} (h : post b) : (pure b : Act α β).Gives post :=
  ends_pure ⟨rfl, h⟩

theorem Ends.mono {x : Act α β} {post post' : β → List Kind → Prop} {fail fail' : Fault α → Prop}
    (hx : x.Ends post fail) (hpost : ∀ b kinds, post b kinds → post' b kinds)
    (hfail : ∀ fault, fail fault → fail' fault) : x.Ends post' fail' := by
  intro journal
  have hj := hx journal
  revert hj
  cases x.outcome journal with
  | mk result journal' =>
    cases result with
    | ok b =>
      rintro ⟨kinds, happend, hb⟩
      exact ⟨kinds, happend, hpost b kinds hb⟩
    | error fault => exact fun h hcycle => hfail fault (h hcycle)

theorem Ends.bind {x : Act α β} {f : β → Act α γ} {mid : β → List Kind → Prop}
    {post : γ → List Kind → Prop} {fail : Fault α → Prop} (hx : x.Ends mid fail)
    (hf : ∀ b kinds, mid b kinds → (f b).Ends (fun c more => post c (kinds ++ more)) fail) :
    (x >>= f).Ends post fail := by
  intro journal
  rw [outcome_bind]
  have hj := hx journal
  revert hj
  cases x.outcome journal with
  | mk result journal' =>
    cases result with
    | error fault => exact fun h => h
    | ok b =>
      rintro ⟨kinds, happend, hb⟩
      -- the second part begins with the journal that the first one left
      have hrest := hf b kinds hb journal'
      revert hrest
      simp only
      cases (f b).outcome journal' with
      | mk result journal'' =>
        cases result with
        | error fault => exact fun h => h
        | ok c =>
          rintro ⟨more, happend', hc⟩
          exact ⟨kinds ++ more, by rw [happend', happend, List.append_assoc], hc⟩

/-- After a computation that reports no pause the rest ends as it would have anyway. -/
theorem Gives.bind_ends {x : Act α β} {f : β → Act α γ} {mid : β → Prop}
    {post : γ → List Kind → Prop} {fail : Fault α → Prop} (hx : x.Gives mid)
    (hf : ∀ b, mid b → (f b).Ends post fail) : (x >>= f).Ends post fail := by
  refine Ends.bind (hx.mono (fun _ _ h => h) fun _ h => h.elim) ?_
  rintro b _ ⟨rfl, hb⟩
  exact hf b hb

theorem Gives.bind {x : Act α β} {f : β → Act α γ} {mid : β → Prop} {post : γ → Prop}
    (hx : x.Gives mid) (hf : ∀ b, mid b → (f b).Gives post) : (x >>= f).Gives post :=
  hx.bind_ends hf

theorem Gives.mono {x : Act α β} {post post' : β → Prop} (hx : x.Gives post)
    (h : ∀ b, post b → post' b) : x.Gives post' :=
  Ends.mono hx (fun b _ hb => ⟨hb.1, h b hb.2⟩) fun _ hfail => hfail

theorem Gives.ends {x : Act α β} {post : β → Prop} {fail : Fault α → Prop} (hx : x.Gives post) :
    x.Ends (fun b kinds => kinds = [] ∧ post b) fail :=
  Ends.mono hx (fun _ _ hb => hb) fun _ hfalse => hfalse.elim

theorem ends_ofChecked {x : Checked α β} {post : β → List Kind → Prop} {fail : Fault α → Prop}
    (hok : ∀ b, x = .ok b → post b [])
    (herror : ∀ fault, x = .error fault → fault.aboutCycle = true → fail fault) :
    (ofChecked x).Ends post fail := by
  intro journal
  cases x with
  | ok b => exact ⟨[], (List.append_nil _).symm, hok b rfl⟩
  | error fault => exact herror fault rfl

theorem gives_ofChecked {x : Checked α β} {post : β → Prop} (h : Checked.Gives x post) :
    (ofChecked x).Gives post := by
  refine ends_ofChecked (fun b hb => ⟨rfl, h.of_eq_ok hb⟩) fun fault hfault hcycle => ?_
  subst hfault
  rw [show fault.aboutCycle = false from h] at hcycle
  cases hcycle

/-- A demand fails only if its condition does. -/
theorem ends_demand {condition : Prop} [Decidable condition] {fault : Fault α}
    {fail : Fault α → Prop} (h : ¬ condition → fail fault) :
    (ofChecked (demand condition fault)).Ends (fun _ kinds => kinds = [] ∧ condition) fail := by
  unfold demand
  split
  · next hc => exact ends_pure ⟨rfl, hc⟩
  · next hc => exact ends_ofChecked nofun fun _ hfault _ => Except.error.inj hfault ▸ h hc

theorem outcome_ofLogged (x : Logged α β) (journal : Journal α) :
    (ofLogged x).outcome journal =
      ((x.run.run journal.log).1, { journal with log := (x.run.run journal.log).2 }) := rfl

theorem gives_ofLogged {x : Logged α β} {post : β → Prop} (h : Logged.Gives x post) :
    (ofLogged x).Gives post := by
  intro journal
  rw [outcome_ofLogged]
  have hlog := h journal.log
  revert hlog
  cases (x.run.run journal.log).1 with
  | ok b => exact fun hb => ⟨[], (List.append_nil _).symm, rfl, hb⟩
  | error fault =>
    intro hfault hcycle
    rw [show fault.aboutCycle = false from hfault] at hcycle
    cases hcycle

theorem gives_write (severity : Severity) (topic : Topic) (pieces : List (Piece α)) :
    (write severity topic pieces).Gives fun _ => True :=
  gives_ofLogged (Logged.calm_write severity topic pieces)

theorem ends_report {event : Event α} {post : Unit → List Kind → Prop} {fail : Fault α → Prop}
    (h : post () event.pauseKind?.toList) : (report event).Ends post fail := by
  intro journal
  refine ⟨event.pauseKind?.toList, ?_, h⟩
  cases hkind : event.pauseKind? <;> simp [Journal.pauses, hkind]

theorem gives_report {event : Event α} (h : event.pauseKind? = none) :
    (report event).Gives fun _ => True :=
  ends_report (by simp [h])

/-- Whatever the journal was before, there is a value and no fault. -/
def Succeeds (x : Act α β) : Prop := ∀ journal, ∃ b journal', x.outcome journal = (.ok b, journal')

theorem succeeds_pure (b : β) : (pure b : Act α β).Succeeds := fun journal => ⟨b, journal, rfl⟩

theorem Succeeds.bind {x : Act α β} {f : β → Act α γ} (hx : x.Succeeds)
    (hf : ∀ b, (f b).Succeeds) : (x >>= f).Succeeds := by
  intro journal
  obtain ⟨b, journal', hb⟩ := hx journal
  obtain ⟨c, journal'', hc⟩ := hf b journal'
  refine ⟨c, journal'', ?_⟩
  rw [outcome_bind, hb]
  exact hc

theorem succeeds_ofChecked {x : Checked α β} {b : β} (h : x = .ok b) : (ofChecked x).Succeeds :=
  fun journal => ⟨b, journal, by rw [h]; rfl⟩

/-- A check that passes, and what it gives. -/
theorem succeeds_bind_ofChecked {x : Checked α β} {f : β → Act α γ} {b : β} (h : x = .ok b)
    (hf : (f b).Succeeds) : (ofChecked x >>= f).Succeeds := by
  intro journal
  rw [outcome_bind, h]
  exact hf journal

theorem succeeds_ofLogged {x : Logged α β} (hx : x.Succeeds) : (ofLogged x).Succeeds := by
  intro journal
  obtain ⟨b, log, hb⟩ := hx journal.log
  exact ⟨b, { journal with log := log }, by rw [outcome_ofLogged, hb]⟩

theorem succeeds_write (severity : Severity) (topic : Topic) (pieces : List (Piece α)) :
    (write severity topic pieces).Succeeds := fun _ => ⟨(), _, rfl⟩

theorem succeeds_report (event : Event α) : (report event).Succeeds := fun _ => ⟨(), _, rfl⟩

end Act

end PauseGoal
