import PauseGoal.Marking.Request

/-!
# The marking flag between two steps of the policy

Requests of other threads may arrive before every step of the policy. All they can do is turn an
idle flag into a requested one, so a scheduled initial mark and a pending request stay what they
are until the policy itself changes them.
-/

namespace PauseGoal.Marking.Request

/-- Only requests arrived: the flag is as before, or it was idle and marking is requested now. -/
def Later (r r' : Request) : Prop :=
  r'.flag = r.flag ∨ (r.flag = .idle ∧ r'.flag = .requested)

theorem Later.refl (r : Request) : Later r r := .inl rfl

theorem Later.trans {r r' r'' : Request} (h : Later r r') (h' : Later r' r'') : Later r r'' := by
  rcases h with h | ⟨hidle, hreq⟩
  · rcases h' with h' | ⟨hidle', hreq'⟩
    · exact .inl (h'.trans h)
    · exact .inr ⟨h ▸ hidle', hreq'⟩
  · rcases h' with h' | ⟨hidle', _⟩
    · exact .inr ⟨hidle, h'.trans hreq⟩
    · rw [hreq] at hidle'
      cases hidle'

/-- Nobody but the policy schedules an initial mark or is done with one. -/
theorem Later.scheduled_iff {r r' : Request} (h : Later r r') :
    r'.flag = .scheduled ↔ r.flag = .scheduled := by
  rcases h with h | ⟨hidle, hreq⟩
  · rw [h]
  · simp [hidle, hreq]

/-- Nobody but the policy takes a request back. -/
theorem Later.requested {r r' : Request} (h : Later r r') (hreq : r.flag = .requested) :
    r'.flag = .requested := by
  rcases h with h | ⟨_, hreq'⟩
  · exact h.trans hreq
  · exact hreq'

theorem later_raise (r : Request) : Later r r.raise.2 := by
  unfold raise
  split
  · next hidle => exact .inr ⟨hidle, rfl⟩
  · exact .refl r

theorem later_raiseTimes (n : Nat) (r : Request) : Later r (raiseTimes n r).2 := by
  induction n generalizing r with
  | zero => exact .refl r
  | succ n ih => exact (later_raise r).trans (ih r.raise.2)

theorem later_settle (r : Request) : Later r r.settle := by
  unfold settle
  split
  · exact .refl r
  · exact later_raiseTimes _ _

theorem later_load (r : Request) : Later r r.load.2 := later_settle r

theorem later_ask (r : Request) : Later r r.ask.2 := (later_settle r).trans (later_raise _)

/-- A pending request can be taken up. -/
theorem schedule_of_requested {r : Request} (h : r.flag = .requested) :
    r.schedule.1 = true ∧ r.schedule.2.flag = .scheduled := by
  simp [schedule, (later_settle r).requested h]

/-- After its completion no initial mark is scheduled. -/
theorem complete_flag_ne (r : Request) : r.complete.2.flag ≠ .scheduled := by
  unfold complete
  dsimp only
  split
  · intro h
    cases h
  · next h => exact h

/-- A request of the policy itself stands, whoever asked before. -/
theorem ask_flag {r : Request} (h : r.flag ≠ .scheduled) : r.ask.2.flag = .requested := by
  have hsettled : r.settle.flag ≠ .scheduled := mt (later_settle r).scheduled_iff.mp h
  unfold ask raise
  cases hflag : r.settle.flag with
  | idle => rw [if_pos rfl]
  | requested => exact hflag
  | scheduled => exact absurd hflag hsettled

/-- The withdrawal takes back the requests that arrive before it, too. -/
theorem withdraw_flag {r : Request} (h : r.flag ≠ .scheduled) : r.withdraw.2.flag = .idle := by
  have hsettled : r.settle.flag ≠ .scheduled := mt (later_settle r).scheduled_iff.mp h
  unfold withdraw
  dsimp only
  split
  · rfl
  · next hquiet =>
    cases hflag : r.settle.flag with
    | idle => rfl
    | requested => exact absurd hflag hquiet
    | scheduled => exact absurd hflag hsettled

end PauseGoal.Marking.Request
