import PauseGoal.Proofs.Returns

/-!
# Contracts

A contract names both ends of a computation: what a value satisfies, together with the events that
were reported on the way, and which faults there can be. A contract without faults promises a value.
`Meets` has a rule for each way to build a computation, so that a proof follows the text of the
program; the rules for checked arithmetic say of each fault when it occurs.
-/

namespace PauseGoal

variable {α β γ : Type}

/-! ## Computations that write nothing -/

namespace Checked

/-- A value satisfies `post` and a fault satisfies `fail`. -/
def Meets (x : Checked α β) (post : β → Prop) (fail : Fault α → Prop) : Prop :=
  match x with
  | .ok b => post b
  | .error fault => fail fault

variable {post post' : β → Prop} {fail fail' : Fault α → Prop}

theorem meets_pure {b : β} (h : post b) : Meets (pure b : Checked α β) post fail := h

theorem Meets.mono {x : Checked α β} (hx : Meets x post fail) (hpost : ∀ b, post b → post' b)
    (hfail : ∀ fault, fail fault → fail' fault) : Meets x post' fail' := by
  cases x with
  | ok b => exact hpost b hx
  | error fault => exact hfail fault hx

theorem Meets.bind {x : Checked α β} {f : β → Checked α γ} {mid : β → Prop} {post : γ → Prop}
    (hx : Meets x mid fail) (hf : ∀ b, mid b → Meets (f b) post fail) :
    Meets (x >>= f) post fail := by
  cases x with
  | ok b => exact hf b hx
  | error fault => exact hx

theorem Meets.of_eq_ok {x : Checked α β} (hx : Meets x post fail) {b : β} (h : x = .ok b) :
    post b := by
  subst h
  exact hx

theorem Meets.of_eq_error {x : Checked α β} (hx : Meets x post fail) {fault : Fault α}
    (h : x = .error fault) : fail fault := by
  subst h
  exact hx

/-- Without a fault there is a value. -/
theorem Meets.exists_eq_ok {x : Checked α β} (hx : Meets x post fun _ => False) :
    ∃ b, x = .ok b ∧ post b := by
  cases x with
  | ok b => exact ⟨b, rfl, hx⟩
  | error fault => exact hx.elim

/-- A computation keeps the contract that its end reads off. -/
theorem meets_self (x : Checked α β) :
    Meets x (fun b => x = .ok b) fun fault => x = .error fault := by
  cases x with
  | ok b => exact rfl
  | error fault => exact rfl

/-- The value of a computation, faults aside. -/
theorem meets_value (x : Checked α β) : Meets x (fun b => x = .ok b) fun _ => True :=
  (meets_self x).mono (fun _ h => h) fun _ _ => trivial

/-- Beside what a contract says of a value it is the value. -/
theorem Meets.and_eq_ok {x : Checked α β} (hx : Meets x post fail) :
    Meets x (fun b => x = .ok b ∧ post b) fail := by
  cases x with
  | ok b => exact ⟨rfl, hx⟩
  | error fault => exact hx

theorem meets_demand {condition : Prop} [Decidable condition] {fault : Fault α}
    (h : ¬ condition → fail fault) : Meets (demand condition fault) (fun _ => condition) fail := by
  unfold demand
  split
  · next hcondition => exact hcondition
  · next hcondition => exact h hcondition

theorem meets_mapM {f : β → Checked α γ} {l : List β}
    (hf : ∀ b ∈ l, Meets (f b) (fun _ => True) fail) :
    Meets (l.mapM f) (fun _ => True) fail := by
  induction l with
  | nil => exact meets_pure trivial
  | cons b l ih =>
    rw [List.mapM_cons]
    refine (hf b List.mem_cons_self).bind fun _ _ => ?_
    refine (ih fun c hc => hf c (List.mem_cons_of_mem b hc)).bind fun _ _ => ?_
    exact meets_pure trivial

end Checked

namespace Word

open Checked (Meets)

variable {fail : Fault α → Prop}

theorem meets_add {a b : Nat} (h : wordBound ≤ a + b → fail .additionOverflow) :
    Meets (add a b) (fun sum => a + b < wordBound ∧ sum = a + b) fail := by
  unfold add
  split
  · next hword => exact ⟨hword, rfl⟩
  · next hword => exact h (Nat.le_of_not_lt hword)

theorem meets_sub {a b : Nat} (h : a < b → fail .subtractionOverflow) :
    Meets (sub a b) (fun difference => b ≤ a ∧ difference = a - b) fail := by
  unfold sub
  split
  · next hle => exact ⟨hle, rfl⟩
  · next hlt => exact h (Nat.lt_of_not_le hlt)

theorem meets_mul {a b : Nat} (h : wordBound ≤ a * b → fail .multiplicationOverflow) :
    Meets (mul a b) (fun product => a * b < wordBound ∧ product = a * b) fail := by
  unfold mul
  split
  · next hword => exact ⟨hword, rfl⟩
  · next hword => exact h (Nat.le_of_not_lt hword)

theorem meets_div {a b : Nat} (h : b = 0 → fail .divisionByZero) :
    Meets (div a b) (fun quotient => b ≠ 0 ∧ quotient = a / b) fail := by
  unfold div
  split
  · next hzero => exact h hzero
  · next hzero => exact ⟨hzero, rfl⟩

end Word

/-! ## Computations that write to the journal -/

namespace Act

/-- Whatever the journal was before, a value and the events reported on the way satisfy `post`, and
a fault satisfies `fail`. -/
def Meets (x : Act α β) (post : β → List (Event α) → Prop) (fail : Fault α → Prop) : Prop :=
  ∀ journal,
    match x.outcome journal with
    | (.ok b, journal') => ∃ events, journal'.events = journal.events ++ events ∧ post b events
    | (.error fault, _) => fail fault

variable {post post' : β → List (Event α) → Prop} {fail fail' : Fault α → Prop}

theorem meets_pure {b : β} (h : post b []) : (pure b : Act α β).Meets post fail :=
  fun _ => ⟨[], (List.append_nil _).symm, h⟩

theorem Meets.mono {x : Act α β} (hx : x.Meets post fail)
    (hpost : ∀ b events, post b events → post' b events)
    (hfail : ∀ fault, fail fault → fail' fault) : x.Meets post' fail' := by
  intro journal
  have hj := hx journal
  revert hj
  cases x.outcome journal with
  | mk result journal' =>
    cases result with
    | ok b =>
      rintro ⟨events, happend, hb⟩
      exact ⟨events, happend, hpost b events hb⟩
    | error fault => exact hfail fault

theorem Meets.bind {x : Act α β} {f : β → Act α γ} {mid : β → List (Event α) → Prop}
    {post : γ → List (Event α) → Prop} (hx : x.Meets mid fail)
    (hf : ∀ b events, mid b events → (f b).Meets (fun c more => post c (events ++ more)) fail) :
    (x >>= f).Meets post fail := by
  intro journal
  rw [outcome_bind]
  have hj := hx journal
  revert hj
  cases x.outcome journal with
  | mk result journal' =>
    cases result with
    | error fault => exact fun h => h
    | ok b =>
      rintro ⟨events, happend, hb⟩
      -- the second part begins with the journal that the first one left
      have hrest := hf b events hb journal'
      revert hrest
      simp only
      cases (f b).outcome journal' with
      | mk result journal'' =>
        cases result with
        | error fault => exact fun h => h
        | ok c =>
          rintro ⟨more, happend', hc⟩
          exact ⟨events ++ more, by rw [happend', happend, List.append_assoc], hc⟩

/-- A step that reports nothing. -/
theorem Meets.bind_silent {x : Act α β} {f : β → Act α γ} {mid : β → Prop}
    {post : γ → List (Event α) → Prop} (hx : x.Meets (fun b events => events = [] ∧ mid b) fail)
    (hf : ∀ b, mid b → (f b).Meets post fail) : (x >>= f).Meets post fail := by
  refine hx.bind ?_
  rintro b _ ⟨rfl, hb⟩
  exact hf b hb

theorem meets_ofChecked {x : Checked α β} {post : β → Prop} (h : Checked.Meets x post fail) :
    (ofChecked x).Meets (fun b events => events = [] ∧ post b) fail := by
  intro journal
  cases x with
  | ok b => exact ⟨[], (List.append_nil _).symm, rfl, h⟩
  | error fault => exact h

theorem meets_ofLogged {x : Logged α β} {post : β → Prop}
    (h : ∀ log, Checked.Meets (x.run.run log).1 post fail) :
    (ofLogged x).Meets (fun b events => events = [] ∧ post b) fail := by
  intro journal
  rw [outcome_ofLogged]
  have hlog := h journal.log
  revert hlog
  cases (x.run.run journal.log).1 with
  | ok b => exact fun hb => ⟨[], (List.append_nil _).symm, rfl, hb⟩
  | error fault => exact fun hfault => hfault

/-- A logged computation, its value and its faults aside. -/
theorem meets_logged (x : Logged α β) :
    (ofLogged x).Meets (fun _ events => events = [] ∧ True) fun _ => True := by
  refine meets_ofLogged fun log => ?_
  exact (Checked.meets_value _).mono (fun _ _ => trivial) fun _ h => h

theorem meets_write (severity : Severity) (topic : Topic) (pieces : List (Piece α)) :
    (write severity topic pieces).Meets (fun _ events => events = [] ∧ True) fail :=
  meets_ofLogged fun _ => trivial

theorem meets_report (event : Event α) :
    (report event).Meets (fun _ events => events = [event]) fail :=
  fun _ => ⟨[event], rfl, rfl⟩

theorem Meets.reports {x : Act α β} (hx : x.Meets post fail) : x.Reports post := by
  intro journal b journal' hout
  have hj := hx journal
  rw [hout] at hj
  exact hj

theorem Meets.of_eq_error {x : Act α β} (hx : x.Meets post fail) {journal journal' : Journal α}
    {fault : Fault α} (h : x.outcome journal = (.error fault, journal')) : fail fault := by
  have hj := hx journal
  rw [h] at hj
  exact hj

/-- Without a fault there is a value. -/
theorem Meets.succeeds {x : Act α β} (hx : x.Meets post fun _ => False) : x.Succeeds := by
  intro journal
  have hj := hx journal
  revert hj
  cases hout : x.outcome journal with
  | mk result journal' =>
    cases result with
    | ok b => exact fun _ => ⟨b, journal', rfl⟩
    | error fault => exact fun h => h.elim

end Act

/-! ## Calls -/

namespace Collector.World

open Checked (Meets)

theorem act_meets {w : World α} {x : Act α β} {next : β → World α}
    {post : β → List (Event α) → Prop} {fail : Fault α → Prop} {done : World α → Prop}
    (hx : x.Meets post fail)
    (hnext : ∀ b events journal, journal.events = w.journal.events ++ events → post b events →
      done { next b with journal := journal }) : Meets (w.act x next) done fail := by
  have hj := hx w.journal
  unfold act
  revert hj
  cases x.outcome w.journal with
  | mk result journal =>
    cases result with
    | error fault => exact fun h => h
    | ok b =>
      rintro ⟨events, happend, hpost⟩
      exact hnext b events journal happend hpost

/-- A call that the policy answers by a computation. -/
theorem call_meets [Scalar α] {w : World α} {c : Call α} {x : Act α β} {next : β → World α}
    {post : β → List (Event α) → Prop} {fail : Fault α → Prop} {done : World α → Prop}
    (hperform : w.perform c = w.act x next) (hx : x.Meets post fail)
    (hnext : ∀ b events journal stage history, post b events →
      done { next b with journal := journal, stage := stage, history := history }) :
    Meets (w.call c) done fail := by
  have performed : Meets (w.perform c)
      (fun w₁ => ∀ stage history, done { w₁ with stage := stage, history := history }) fail := by
    rw [hperform]
    exact act_meets hx fun b events journal _ hpost stage history =>
      hnext b events journal stage history hpost
  exact performed.bind fun w₁ h => Checked.meets_pure (h _ _)

end Collector.World

end PauseGoal
