import PauseGoal.Proofs.Collector

/-!
# What a computation returns and reports

A run goes on only after calls that ended in a value. Statements about runs therefore ask what the
value of a computation is, `Act.Returns`, or what it is together with the events that were reported
on the way, `Act.Reports`, and leave faults aside. Both have a rule for `pure` and one for `>>=`.
-/

namespace PauseGoal

variable {α β γ : Type}

/-- A demand that did not fail was met. -/
theorem of_demand_eq_ok {condition : Prop} [Decidable condition] {fault : Fault α} {u : Unit}
    (h : demand condition fault = .ok u) : condition := by
  unfold demand at h
  split at h
  · next hcondition => exact hcondition
  · cases h

theorem Checked.exists_of_bind_eq_ok {x : Checked α β} {f : β → Checked α γ} {c : γ}
    (h : x >>= f = .ok c) : ∃ b, x = .ok b ∧ f b = .ok c := by
  cases x with
  | ok b => exact ⟨b, rfl, h⟩
  | error fault => cases h

theorem Checked.exists_of_toBool {x : Checked α β} (h : x.toBool = true) : ∃ b, x = .ok b := by
  cases x with
  | ok b => exact ⟨b, rfl⟩
  | error fault => cases h

theorem Checked.exists_of_any_toOption {x : Checked α β} {P : β → Bool}
    (h : x.toOption.any P = true) : ∃ b, x = .ok b ∧ P b = true := by
  cases x with
  | ok b => exact ⟨b, rfl, h⟩
  | error fault => cases h

namespace Act

/-- A value satisfies `post`. -/
def Returns (x : Act α β) (post : β → Prop) : Prop :=
  ∀ journal b journal', x.outcome journal = (.ok b, journal') → post b

/-- A value and the events reported on the way satisfy `post`. -/
def Reports (x : Act α β) (post : β → List (Event α) → Prop) : Prop :=
  ∀ journal b journal', x.outcome journal = (.ok b, journal') →
    ∃ events, journal'.events = journal.events ++ events ∧ post b events

/-- The first part of a computation that ended in a value did so too. -/
theorem exists_of_outcome_bind {x : Act α β} {f : β → Act α γ} {journal journal' : Journal α}
    {c : γ} (h : (x >>= f).outcome journal = (.ok c, journal')) :
    ∃ b middle, x.outcome journal = (.ok b, middle) ∧
      (f b).outcome middle = (.ok c, journal') := by
  rw [outcome_bind] at h
  cases hx : x.outcome journal with
  | mk result middle =>
    rw [hx] at h
    cases result with
    | ok b => exact ⟨b, middle, rfl, h⟩
    | error fault => cases h

/-! ## Values -/

theorem returns_pure {post : β → Prop} {b : β} (h : post b) : (pure b : Act α β).Returns post := by
  rintro journal _ _ ⟨⟩
  exact h

theorem Returns.bind {x : Act α β} {f : β → Act α γ} {mid : β → Prop} {post : γ → Prop}
    (hx : x.Returns mid) (hf : ∀ b, mid b → (f b).Returns post) : (x >>= f).Returns post := by
  intro journal c journal' h
  obtain ⟨b, middle, hb, hc⟩ := exists_of_outcome_bind h
  exact hf b (hx _ _ _ hb) _ _ _ hc

theorem Returns.mono {x : Act α β} {post post' : β → Prop} (hx : x.Returns post)
    (h : ∀ b, post b → post' b) : x.Returns post' :=
  fun _ _ _ hout => h _ (hx _ _ _ hout)

theorem returns_any (x : Act α β) : x.Returns fun _ => True := fun _ _ _ _ => trivial

/-- A step whose value says nothing. -/
theorem returns_bind {x : Act α β} {f : β → Act α γ} {post : γ → Prop}
    (hf : ∀ b, (f b).Returns post) : (x >>= f).Returns post :=
  x.returns_any.bind fun b _ => hf b

theorem Gives.returns {x : Act α β} {post : β → Prop} (hx : x.Gives post) : x.Returns post := by
  intro journal b journal' hout
  have hj := hx journal
  rw [hout] at hj
  obtain ⟨_, _, _, hpost⟩ := hj
  exact hpost

theorem Ends.returns {x : Act α β} {post : β → List Pause.Kind → Prop} {fail : Fault α → Prop}
    (hx : x.Ends post fail) : x.Returns fun b => ∃ kinds, post b kinds := by
  intro journal b journal' hout
  have hj := hx journal
  rw [hout] at hj
  obtain ⟨kinds, _, hpost⟩ := hj
  exact ⟨kinds, hpost⟩

/-! ## Values and events -/

theorem reports_pure {post : β → List (Event α) → Prop} {b : β} (h : post b []) :
    (pure b : Act α β).Reports post := by
  rintro journal _ _ ⟨⟩
  exact ⟨[], (List.append_nil _).symm, h⟩

theorem Reports.bind {x : Act α β} {f : β → Act α γ} {mid : β → List (Event α) → Prop}
    {post : γ → List (Event α) → Prop} (hx : x.Reports mid)
    (hf : ∀ b events, mid b events →
      (f b).Reports fun c more => post c (events ++ more)) : (x >>= f).Reports post := by
  intro journal c journal' h
  obtain ⟨b, middle, hb, hc⟩ := exists_of_outcome_bind h
  obtain ⟨events, happend, hmid⟩ := hx _ _ _ hb
  obtain ⟨more, happend', hpost⟩ := hf b events hmid _ _ _ hc
  exact ⟨events ++ more, by rw [happend', happend, List.append_assoc], hpost⟩

theorem Reports.mono {x : Act α β} {post post' : β → List (Event α) → Prop} (hx : x.Reports post)
    (h : ∀ b events, post b events → post' b events) : x.Reports post' := by
  intro journal b journal' hout
  obtain ⟨events, happend, hpost⟩ := hx _ _ _ hout
  exact ⟨events, happend, h _ _ hpost⟩

/-- A step that reports nothing. -/
theorem Reports.bind_silent {x : Act α β} {f : β → Act α γ} {mid : β → Prop}
    {post : γ → List (Event α) → Prop} (hx : x.Reports fun b events => events = [] ∧ mid b)
    (hf : ∀ b, mid b → (f b).Reports post) : (x >>= f).Reports post := by
  refine hx.bind ?_
  rintro b _ ⟨rfl, hb⟩
  exact hf b hb

theorem reports_ofChecked {x : Checked α β} {post : β → List (Event α) → Prop}
    (h : ∀ b, x = .ok b → post b []) : (ofChecked x).Reports post := by
  intro journal b journal' hout
  have hvalue : x = .ok b := congrArg Prod.fst hout
  have hjournal : journal = journal' := congrArg Prod.snd hout
  exact ⟨[], by rw [hjournal, List.append_nil], h b hvalue⟩

theorem reports_ofLogged (x : Logged α β) :
    (ofLogged x).Reports fun _ events => events = [] := by
  intro journal b journal' hout
  rw [outcome_ofLogged] at hout
  have hevents : journal.events = journal'.events := congrArg (fun r => r.2.events) hout
  exact ⟨[], by rw [hevents, List.append_nil], rfl⟩

theorem reports_write (severity : Severity) (topic : Topic) (pieces : List (Piece α)) :
    (write severity topic pieces).Reports fun _ events => events = [] := reports_ofLogged _

theorem reports_report (event : Event α) :
    (report event).Reports fun _ events => events = [event] := by
  rintro journal _ _ ⟨⟩
  exact ⟨[event], rfl, rfl⟩

end Act

/-! ## Calls -/

namespace Collector.World

theorem exists_of_act_eq_ok {w w' : World α} {x : Act α β} {next : β → World α}
    (h : w.act x next = .ok w') : ∃ b journal, x.outcome w.journal = (.ok b, journal) ∧
      w' = { next b with journal := journal } := by
  unfold act at h
  split at h
  · next b journal hout => exact ⟨b, journal, hout, (Except.ok.inj h).symm⟩
  · cases h

/-- But for the stage and the history, a call does what it performs. -/
theorem exists_perform_of_call [Scalar α] {w w' : World α} {c : Call α} (h : w.call c = .ok w') :
    ∃ w₁, w.perform c = .ok w₁ ∧ w'.policy = w₁.policy ∧ w'.journal = w₁.journal := by
  obtain ⟨w₁, hperform, hw'⟩ := Checked.exists_of_bind_eq_ok h
  cases hw'
  exact ⟨w₁, hperform, rfl, rfl⟩

end Collector.World

end PauseGoal
