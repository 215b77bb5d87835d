import PauseGoal.Proofs.Register

/-!
# Runs as lists of moments

What was entered into the register at some time is used much later: tags are recorded against a
pause after they were handed out, tables of survivors against the next one. A statement about such a
link has to name both ends, so a run is listed here moment by moment, each call with the world in
which it was made. `Traces` are the runs with these lists. They make no assumption about the order
of the calls but the one that `allowed` states.
-/

namespace PauseGoal.Collector

variable {α : Type}

/-- A call and the world in which it was made. -/
structure Moment (α : Type) where
  world : World α
  call : Call α

variable [Scalar α]

/-- Runs of calls from `w₀`, none of which ends in a fault, moment by moment. Each call was allowed
after the moments before it. -/
inductive Traces (allowed : List (Moment α) → Call α → Bool) (w₀ : World α) :
    List (Moment α) → World α → Prop
  | start : Traces allowed w₀ [] w₀
  | call {t : List (Moment α)} {w w' : World α} {c : Call α} (hrun : Traces allowed w₀ t w)
      (hallowed : allowed t c = true) (hcall : w.call c = .ok w') :
      Traces allowed w₀ (t ++ [⟨w, c⟩]) w'

omit [Scalar α] in
/-- No order is required of the calls. -/
def anyCall : List (Moment α) → Call α → Bool := fun _ _ => true

omit [Scalar α] in
def Call.startsPause : Call α → Bool
  | .startPause _ _ => true
  | _ => false

/-- Settings and predictor are those of the start. -/
theorem Traces.constants {allowed : List (Moment α) → Call α → Bool} {w₀ w : World α}
    {t : List (Moment α)} (hrun : Traces allowed w₀ t w) :
    w.policy.settings = w₀.policy.settings ∧ w.policy.predictor = w₀.policy.predictor := by
  induction hrun with
  | start => exact ⟨rfl, rfl⟩
  | call _ _ hcall ih =>
    obtain ⟨hsettings, hpredictor⟩ := (World.registered_of_call hcall).constants
    exact ⟨hsettings.trans ih.1, hpredictor.trans ih.2⟩

/-! ## The moments since the last one of some sort -/

section sinceLast

variable {β : Type}

/-- The elements after the last one with a property; all of them if there is none. -/
def sinceLast (p : β → Bool) (xs : List β) : List β := ((since p xs).map Prod.snd).getD xs

theorem sinceLast_concat (p : β → Bool) (xs : List β) (x : β) :
    sinceLast p (xs ++ [x]) = if p x then [] else sinceLast p xs ++ [x] := by
  unfold sinceLast
  rw [since_concat]
  split
  · rfl
  · cases since p xs <;> rfl

end sinceLast

/-! ## Runs that can be computed -/

/-- The moments of a list of calls, and the world after them, unless one of them is not allowed or
ends in a fault. -/
def traceFrom (allowed : List (Moment α) → Call α → Bool) (t : List (Moment α)) (w : World α) :
    List (Call α) → Option (List (Moment α) × World α)
  | [] => some (t, w)
  | c :: rest =>
    if allowed t c then
      match w.call c with
      | .ok w' => traceFrom allowed (t ++ [⟨w, c⟩]) w' rest
      | .error _ => none
    else none

theorem traces_of_traceFrom {allowed : List (Moment α) → Call α → Bool} {w₀ w w' : World α}
    {t t' : List (Moment α)} {calls : List (Call α)} (hrun : Traces allowed w₀ t w)
    (h : traceFrom allowed t w calls = some (t', w')) :
    Traces allowed w₀ t' w' ∧ t'.map Moment.call = t.map Moment.call ++ calls := by
  -- on the calls; moments and world change with each of them
  induction calls generalizing t w with
  | nil =>
    cases h
    exact ⟨hrun, (List.append_nil _).symm⟩
  | cons c rest ih =>
    unfold traceFrom at h
    split at h
    · next hallowed =>
      split at h
      · next w₁ hcall =>
        obtain ⟨htraces, hcalls⟩ := ih (hrun.call hallowed hcall) h
        exact ⟨htraces, by simp [hcalls]⟩
      · cases h
    · cases h

/-- The moments and the end of a run that makes the given calls, if there is one. -/
def traceOf (allowed : List (Moment α) → Call α → Bool) (settings : Settings α) (heap : Heap α)
    (now : α) (calls : List (Call α)) : Option (List (Moment α) × World α) :=
  match (Policy.start settings heap now []).outcome {} with
  | (.ok (.ok policy), journal) => traceFrom allowed [] (.opened policy journal) calls
  | _ => none

/-- A run that can be computed is one. -/
theorem exists_trace (allowed : List (Moment α) → Call α → Bool) (settings : Settings α)
    (heap : Heap α) (now : α) (calls : List (Call α)) {P : List (Moment α) → World α → Bool}
    (h : (traceOf allowed settings heap now calls).any (fun r => P r.1 r.2) = true) :
    ∃ policy after t w,
      (Policy.start settings heap now []).outcome {} = (.ok (.ok policy), after) ∧
      Traces allowed (.opened policy after) t w ∧ t.map Moment.call = calls ∧ P t w = true := by
  unfold traceOf at h
  split at h
  · next policy journal hstart =>
    obtain ⟨⟨t, w⟩, htrace, hP⟩ := (Option.any_eq_true _ _).mp h
    obtain ⟨htraces, hcalls⟩ := traces_of_traceFrom .start htrace
    exact ⟨policy, journal, t, w, hstart, htraces, hcalls, hP⟩
  · cases h

end PauseGoal.Collector
