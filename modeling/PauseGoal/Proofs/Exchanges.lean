import PauseGoal.Proofs.Request

/-!
# The exchanges of the marking flag

Whatever the policy and other threads do to the flag is a sequence of attempts at four exchanges,
one atomic step each. An attempt succeeds if it finds the flag in the state that its exchange starts
from. Since every exchange moves the flag from one fixed state to another, successes alternate, and
at every moment the tally is `Balanced`: each request that was raised was scheduled once, withdrawn
once or is pending, and each scheduled initial mark was completed once or is still scheduled.
-/

namespace PauseGoal.Marking

/-- The exchanges that the flag knows. -/
inductive Exchange where
  | raise
  | schedule
  | complete
  | withdraw
deriving DecidableEq, Repr

namespace Exchange

/-- The state in which an exchange has to find the flag. -/
def before : Exchange → Flag
  | .raise => .idle
  | .schedule | .withdraw => .requested
  | .complete => .scheduled

/-- The state in which it leaves the flag. -/
def after : Exchange → Flag
  | .raise => .requested
  | .schedule => .scheduled
  | .complete | .withdraw => .idle

end Exchange

namespace Tally

/-- How many exchanges of one sort took place. -/
def count (t : Tally) : Exchange → Nat
  | .raise => t.raised
  | .schedule => t.scheduled
  | .complete => t.completed
  | .withdraw => t.withdrawn

def add (t : Tally) : Exchange → Tally
  | .raise => { t with raised := t.raised + 1 }
  | .schedule => { t with scheduled := t.scheduled + 1 }
  | .complete => { t with completed := t.completed + 1 }
  | .withdraw => { t with withdrawn := t.withdrawn + 1 }

theorem count_le_add (t : Tally) (e e' : Exchange) : t.count e ≤ (t.add e').count e := by
  cases e <;> cases e' <;> simp [count, add]

theorem count_add_of_ne (t : Tally) {e e' : Exchange} (h : e' ≠ e) :
    (t.add e').count e = t.count e := by
  cases e <;> cases e' <;> first | rfl | exact absurd rfl h

end Tally

namespace Request

/-- One attempt at an exchange: whether it succeeded, and the flag after it. -/
def attempt (r : Request) (e : Exchange) : Bool × Request :=
  if r.flag = e.before then (true, { r with flag := e.after, tally := r.tally.add e })
  else (false, r)

/-- The flag after several attempts. -/
def attempts (r : Request) (es : List Exchange) : Request := es.foldl (fun r e => (r.attempt e).2) r

theorem attempts_append (r : Request) (es more : List Exchange) :
    r.attempts (es ++ more) = (r.attempts es).attempts more :=
  List.foldl_append

/-- The tally counts an attempt exactly if it succeeds. -/
theorem tally_attempt (r : Request) (e : Exchange) :
    (r.attempt e).2.tally = if (r.attempt e).1 then r.tally.add e else r.tally := by
  unfold attempt
  split <;> rfl

/-- Requests that are still to come play no part in an attempt. -/
theorem attempts_withArrivals (r : Request) (arrivals : List Nat) (es : List Exchange) :
    ({ r with arrivals := arrivals } : Request).attempts es =
      { r.attempts es with arrivals := arrivals } := by
  induction es generalizing r with
  | nil => rfl
  | cons e es ih =>
    have hattempt : (({ r with arrivals := arrivals } : Request).attempt e).2 =
        { (r.attempt e).2 with arrivals := arrivals } := by
      unfold attempt
      split <;> rfl
    exact (congrArg (fun r : Request => r.attempts es) hattempt).trans (ih _)

/-! ## The balance -/

/-- Requests were neither lost nor taken up twice. -/
structure Balanced (r : Request) : Prop where
  raised : r.tally.raised =
    r.tally.scheduled + r.tally.withdrawn + if r.flag = .requested then 1 else 0
  scheduled : r.tally.scheduled = r.tally.completed + if r.flag = .scheduled then 1 else 0

theorem balanced_initial : ({} : Request).Balanced := ⟨rfl, rfl⟩

namespace Balanced

variable {r : Request}

theorem attempt (h : r.Balanced) (e : Exchange) : (r.attempt e).2.Balanced := by
  unfold Request.attempt
  split
  · next hflag =>
    -- a success moves one request on to the next column
    have hraised := h.raised
    have hscheduled := h.scheduled
    rw [hflag] at hraised hscheduled
    cases e with
    | raise => exact ⟨congrArg (· + 1) hraised, hscheduled⟩
    | schedule =>
      refine ⟨?_, congrArg (· + 1) hscheduled⟩
      show r.tally.raised = r.tally.scheduled + 1 + r.tally.withdrawn
      rw [hraised]
      exact Nat.add_right_comm _ _ _
    | complete => exact ⟨hraised, hscheduled⟩
    | withdraw => exact ⟨hraised, hscheduled⟩
  · exact h

/-- The balance holds after every attempt. -/
theorem attempts (h : r.Balanced) (es : List Exchange) : (r.attempts es).Balanced := by
  induction es generalizing r with
  | nil => exact h
  | cons e es ih => exact ih (h.attempt e)

theorem withArrivals (h : r.Balanced) (arrivals : List Nat) :
    ({ r with arrivals := arrivals } : Request).Balanced := ⟨h.raised, h.scheduled⟩

end Balanced

/-! ## The operations as attempts -/

/-- The flag went from one value to the other by attempts at permitted exchanges. -/
def Moved (permitted : Exchange → Bool) (r r' : Request) : Prop :=
  ∃ es later, (∀ e ∈ es, permitted e = true) ∧ r' = { r.attempts es with arrivals := later }

/-- Other threads only raise requests. -/
def byOthers : Exchange → Bool
  | .raise => true
  | _ => false

namespace Moved

variable {permitted : Exchange → Bool} {r r' r'' : Request}

theorem refl (r : Request) : Moved permitted r r := ⟨[], r.arrivals, nofun, rfl⟩

theorem trans (h : Moved permitted r r') (h' : Moved permitted r' r'') :
    Moved permitted r r'' := by
  obtain ⟨es, arrivals, hes, rfl⟩ := h
  obtain ⟨more, later, hmore, rfl⟩ := h'
  refine ⟨es ++ more, later, fun e he => ?_, ?_⟩
  · exact (List.mem_append.mp he).elim (hes e) (hmore e)
  · rw [attempts_withArrivals, attempts_append]

theorem mono {permitted' : Exchange → Bool} (h : Moved permitted r r')
    (hmono : ∀ e, permitted e = true → permitted' e = true) : Moved permitted' r r' := by
  obtain ⟨es, later, hes, hr'⟩ := h
  exact ⟨es, later, fun e he => hmono e (hes e he), hr'⟩

theorem balanced (h : Moved permitted r r') (hr : r.Balanced) : r'.Balanced := by
  obtain ⟨es, later, _, rfl⟩ := h
  exact (hr.attempts es).withArrivals later

/-- An exchange that is not permitted does not take place. -/
theorem count_eq (h : Moved permitted r r') {e : Exchange} (he : permitted e = false) :
    r'.tally.count e = r.tally.count e := by
  obtain ⟨es, later, hes, rfl⟩ := h
  show (r.attempts es).tally.count e = r.tally.count e
  induction es generalizing r with
  | nil => rfl
  | cons e' es ih =>
    have hne : e' ≠ e := by
      rintro rfl
      exact absurd (he.symm.trans (hes _ List.mem_cons_self)) nofun
    refine (ih (fun e he => hes e (List.mem_cons_of_mem _ he))).trans ?_
    rw [tally_attempt]
    split
    · exact Tally.count_add_of_ne _ hne
    · rfl

/-- What took place stays counted. -/
theorem count_le (h : Moved permitted r r') (e : Exchange) :
    r.tally.count e ≤ r'.tally.count e := by
  obtain ⟨es, later, -, rfl⟩ := h
  show r.tally.count e ≤ (r.attempts es).tally.count e
  induction es generalizing r with
  | nil => exact Nat.le_refl _
  | cons e' es ih =>
    have hstep : r.tally.count e ≤ (r.attempt e').2.tally.count e := by
      rw [tally_attempt]
      split
      · exact Tally.count_le_add _ _ _
      · exact Nat.le_refl _
    exact Nat.le_trans hstep ih

end Moved

theorem moved_attempt {permitted : Exchange → Bool} (r : Request) {e : Exchange}
    (h : permitted e = true) : Moved permitted r (r.attempt e).2 :=
  ⟨[e], (r.attempt e).2.arrivals, by simpa using h, rfl⟩

theorem moved_arrivals (r : Request) (arrivals : List Nat) :
    Moved byOthers r { r with arrivals := arrivals } :=
  ⟨[], arrivals, nofun, rfl⟩

theorem raise_eq (r : Request) : r.raise = r.attempt .raise := rfl

theorem moved_raise (r : Request) : Moved byOthers r r.raise.2 := by
  rw [raise_eq]
  exact r.moved_attempt rfl

theorem moved_raiseTimes (n : Nat) (r : Request) : Moved byOthers r (raiseTimes n r).2 := by
  induction n generalizing r with
  | zero => exact .refl r
  | succ n ih => exact (moved_raise r).trans (ih r.raise.2)

theorem moved_settle (r : Request) : Moved byOthers r r.settle := by
  unfold settle
  split
  · exact .refl r
  · exact (moved_arrivals r _).trans (moved_raiseTimes _ _)

theorem moved_load (r : Request) : Moved byOthers r r.load.2 := moved_settle r

theorem moved_ask (r : Request) : Moved byOthers r r.ask.2 :=
  (moved_settle r).trans (moved_raise _)

section policy

variable {permitted : Exchange → Bool}

theorem Moved.of_others {r r' : Request} (h : Moved byOthers r r')
    (hraise : permitted .raise = true) : Moved permitted r r' := by
  refine h.mono fun e he => ?_
  cases e with
  | raise => exact hraise
  | _ => cases he

/-- An exchange of the policy, after the requests that arrive before it. -/
theorem moved_settle_attempt (r : Request) {e : Exchange} (hraise : permitted .raise = true)
    (h : permitted e = true) : Moved permitted r (r.settle.attempt e).2 :=
  ((moved_settle r).of_others hraise).trans (moved_attempt _ h)

theorem schedule_eq (r : Request) : r.schedule = r.settle.attempt .schedule := rfl

theorem complete_eq (r : Request) : r.complete = r.settle.attempt .complete := rfl

theorem withdraw_eq (r : Request) : r.withdraw = r.settle.attempt .withdraw := rfl

theorem moved_schedule (r : Request) (hraise : permitted .raise = true)
    (h : permitted .schedule = true) : Moved permitted r r.schedule.2 := by
  rw [schedule_eq]
  exact r.moved_settle_attempt hraise h

theorem moved_complete (r : Request) (hraise : permitted .raise = true)
    (h : permitted .complete = true) : Moved permitted r r.complete.2 := by
  rw [complete_eq]
  exact r.moved_settle_attempt hraise h

theorem moved_withdraw (r : Request) (hraise : permitted .raise = true)
    (h : permitted .withdraw = true) : Moved permitted r r.withdraw.2 := by
  rw [withdraw_eq]
  exact r.moved_settle_attempt hraise h

end policy

/-- A request that was taken up is counted. -/
theorem scheduled_schedule {r : Request} (h : r.schedule.1 = true) :
    r.schedule.2.tally.scheduled = r.tally.scheduled + 1 := by
  have hsettle : r.settle.tally.scheduled = r.tally.scheduled :=
    (moved_settle r).count_eq (e := .schedule) rfl
  rw [schedule_eq] at h ⊢
  rw [tally_attempt, if_pos h, ← hsettle]
  rfl

end Request

end PauseGoal.Marking
