import PauseGoal.Proofs.Contracts

/-!
# Where a target length ends up

The length of the young generation is searched for, clamped to what is allowed, and never below the
minimum. The lemmas here are about these three layers alone: whatever is asked about lengths, the
search stays between its ends and ends in no fault of its own, and the clamp lets the minimum win.
-/

namespace PauseGoal.Young

open Checked (Meets meets_pure meets_demand)

variable {α : Type} {fits : Nat → Checked α Bool} {fail : Fault α → Prop}

/-! ## The search -/

theorem bisect_meets (hfits : ∀ length, Meets (fits length) (fun _ => True) fail) (low high : Nat)
    (h : low ≤ high) :
    Meets (bisect fits low high) (fun length => low ≤ length ∧ length ≤ high) fail := by
  -- along the recursion; the halves lie in the range
  induction low, high using bisect.induct with
  | case1 low high hsmall =>
    rw [bisect, dif_pos hsmall]
    exact ⟨Nat.le_refl low, h⟩
  | case2 low high hlarge ih_low ih_high =>
    rw [bisect, dif_neg hlarge]
    refine (hfits _).bind fun fit _ => ?_
    split
    · refine (ih_low (by omega)).mono (fun length hlength => ?_) fun _ hfault => hfault
      omega
    · refine (ih_high (by omega)).mono (fun length hlength => ?_) fun _ hfault => hfault
      omega

theorem largestFitting_meets (hfits : ∀ length, Meets (fits length) (fun _ => True) fail)
    {low high : Nat} (h : low ≤ high) :
    Meets (largestFitting low high fits) (fun length => low ≤ length ∧ length ≤ high) fail := by
  refine (meets_demand fun hcrossed => absurd h hcrossed).bind fun _ _ => ?_
  refine (hfits low).bind fun least _ => ?_
  split
  · refine (hfits high).bind fun largest _ => ?_
    split
    · exact meets_pure ⟨h, Nat.le_refl high⟩
    · exact bisect_meets hfits low high h
  · exact meets_pure ⟨Nat.le_refl low, h⟩

namespace Bounds

variable (b : Bounds)

/-- With room for eden in the minimum the search has no fault but those of the question. -/
theorem search_meets (hfits : ∀ length, Meets (fits length) (fun _ => True) fail)
    {survivors : Nat} (hroom : survivors < b.least) :
    Meets (b.search survivors fits)
      (fun length => b.least ≤ length ∧ length ≤ Nat.max b.least b.largest) fail := by
  unfold search
  split
  · exact ⟨Nat.le_refl _, Nat.le_max_left _ _⟩
  · next hwide =>
    refine (meets_demand fun hnone => absurd hroom hnone).bind fun _ _ => ?_
    refine (Word.meets_sub fun hbelow => by omega).bind ?_
    rintro leastEden ⟨_, rfl⟩
    refine (Word.meets_sub fun hbelow => by omega).bind ?_
    rintro largestEden ⟨_, rfl⟩
    refine (largestFitting_meets hfits (by omega)).bind fun eden heden => ?_
    refine meets_pure ⟨by omega, Nat.le_trans ?_ (Nat.le_max_right _ _)⟩
    omega

/-! ## The target -/

/-- The lengths that may be asked for: the fixed one, or what a search can find. -/
def Asks (searching : Bool) (unbounded : Nat) : Prop :=
  match b.fixed with
  | some length => unbounded = length
  | none =>
    if searching then b.least ≤ unbounded ∧ unbounded ≤ Nat.max b.least b.largest
    else unbounded = b.least

/-- Only a search asks whether a length fits. -/
theorem target_meets {survivors : Nat} (hroom : survivors < b.least) (searching : Bool)
    (hfits : b.fixed = none → searching = true →
      ∀ length, Meets (fits length) (fun _ => True) fail) :
    Meets (b.target survivors searching fits)
      (fun target => target.bounded = b.clamp target.unbounded ∧
        b.Asks searching target.unbounded) fail := by
  unfold target Asks
  cases hfixed : b.fixed with
  | some length => exact meets_pure ⟨rfl, rfl⟩
  | none =>
    cases searching with
    | true =>
      refine (b.search_meets (hfits hfixed rfl) hroom).bind fun length hlength => ?_
      exact meets_pure ⟨rfl, hlength⟩
    | false => exact meets_pure ⟨rfl, rfl⟩

/-! ## The clamp -/

theorem least_le_clamp (length : Nat) : b.least ≤ b.clamp length := Nat.le_max_right _ _

theorem clamp_le (length : Nat) :
    b.clamp length ≤ Nat.max b.least (Nat.min b.largest b.allowed) :=
  Nat.max_le.mpr ⟨Nat.le_trans (Nat.min_le_right _ _) (Nat.le_max_right _ _), Nat.le_max_left _ _⟩

/-- The minimum wins over a smaller length and over both maxima. -/
theorem clamp_of_le {length : Nat} (h : length ≤ b.least) : b.clamp length = b.least :=
  Nat.max_eq_right (Nat.le_trans (Nat.min_le_left _ _) h)

end Bounds

end PauseGoal.Young
