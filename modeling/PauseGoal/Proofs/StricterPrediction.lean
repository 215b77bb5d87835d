import PauseGoal.Proofs.YoungSearch

/-!
# A stricter prediction

One question is stricter than another if every length that fits under it fits under the other. Its
search then finds no longer length, whether or not shorter lengths fit where longer ones do: two
searches of one range ask about the same lengths until they disagree, and from then on the stricter
one stays below the length that they disagree about and the other one does not (`bisect_noMore`).
Survivors and the clamp keep the order. Main statement: neither the target nor the length that
prediction alone asks for is longer under the stricter question.
-/

namespace PauseGoal.Young

open Checked (Meets)

variable {α : Type} {f g : Nat → Bool} {low high : Nat}

/-- Asks a predicate. -/
def asking (f : Nat → Bool) : Nat → Checked α Bool := fun length => .ok (f length)

theorem asking_meets (f : Nat → Bool) (length : Nat) :
    Meets (asking f length : Checked α Bool) (fun _ => True) fun _ => False := trivial

/-- Two computations return, the first one no more than the second. -/
def NoMore (x y : Checked α Nat) : Prop := ∃ m n, x = .ok m ∧ y = .ok n ∧ m ≤ n

theorem noMore_self (n : Nat) : NoMore (.ok n : Checked α Nat) (.ok n) :=
  ⟨n, n, rfl, rfl, Nat.le_refl n⟩

/-! ## Two searches -/

/-- A predicate leaves no question open. -/
theorem exists_bisect (f : Nat → Bool) (h : low ≤ high) :
    ∃ length, bisect (asking f) low high = (.ok length : Checked α Nat) ∧
      low ≤ length ∧ length ≤ high :=
  (bisect_meets (asking_meets f) low high h).exists_eq_ok

theorem exists_largestFitting (f : Nat → Bool) (h : low ≤ high) :
    ∃ length, largestFitting low high (asking f) = (.ok length : Checked α Nat) ∧
      low ≤ length ∧ length ≤ high :=
  (largestFitting_meets (asking_meets f) h).exists_eq_ok

theorem bisect_of_neighbours (f : Nat → Bool) (h : (high - low) / 2 = 0) :
    bisect (asking f) low high = (.ok low : Checked α Nat) := by
  rw [bisect, dif_pos h]

theorem bisect_of_wide (f : Nat → Bool) (h : ¬ (high - low) / 2 = 0) :
    (bisect (asking f) low high : Checked α Nat) =
      if f (low + (high - low) / 2) then bisect (asking f) (low + (high - low) / 2) high
      else bisect (asking f) low (low + (high - low) / 2) := by
  rw [bisect, dif_neg h]
  rfl

theorem bisect_noMore (hstricter : ∀ n, f n = true → g n = true) (h : low ≤ high) :
    NoMore (bisect (asking f) low high : Checked α Nat) (bisect (asking g) low high) := by
  -- along the recursion, which is the same for both while the answers agree
  induction low, high using bisect.induct with
  | case1 low high hsmall =>
    rw [bisect_of_neighbours f hsmall, bisect_of_neighbours g hsmall]
    exact noMore_self low
  | case2 low high hlarge ih_low ih_high =>
    rw [bisect_of_wide f hlarge, bisect_of_wide g hlarge]
    have hbelow : low ≤ low + (high - low) / 2 := Nat.le_add_right _ _
    have habove : low + (high - low) / 2 ≤ high := by omega
    generalize low + (high - low) / 2 = middle at ih_low ih_high hbelow habove
    cases hf : f middle with
    | true =>
      rw [hstricter middle hf]
      exact ih_low habove
    | false =>
      cases hg : g middle with
      | false => exact ih_high hbelow
      | true =>
        -- here the searches part, and neither crosses the middle
        obtain ⟨m, hm, _, hle⟩ := exists_bisect (α := α) f hbelow
        obtain ⟨n, hn, hge, _⟩ := exists_bisect (α := α) g habove
        exact ⟨m, n, hm, hn, hle.trans hge⟩

theorem largestFitting_eq (f : Nat → Bool) (h : low ≤ high) :
    (largestFitting low high (asking f) : Checked α Nat) =
      if f low then if f high then .ok high else bisect (asking f) low high else .ok low := by
  unfold largestFitting
  rw [show (demand (low ≤ high) (.emptyLengthRange low high) : Checked α Unit) = .ok () from
    demand_eq_ok_iff.mpr h]
  cases hlow : f low <;> cases hhigh : f high <;>
    simp [asking, hlow, hhigh, bind, Except.bind, pure, Except.pure]

/-- The ends of the range are asked about first. -/
theorem largestFitting_noMore (hstricter : ∀ n, f n = true → g n = true) (h : low ≤ high) :
    NoMore (largestFitting low high (asking f) : Checked α Nat)
      (largestFitting low high (asking g)) := by
  obtain ⟨m, hm, _, hle⟩ := exists_largestFitting (α := α) f h
  obtain ⟨n, hn, hge, _⟩ := exists_largestFitting (α := α) g h
  cases hlow : f low with
  | false =>
    have hleast : m = low := by
      rw [largestFitting_eq f h, hlow] at hm
      exact (Except.ok.inj hm).symm
    exact ⟨m, n, hm, hn, hleast ▸ hge⟩
  | true =>
    cases hhigh : g high with
    | true =>
      have hmost : n = high := by
        rw [largestFitting_eq g h, hstricter low hlow, hhigh] at hn
        exact (Except.ok.inj hn).symm
      exact ⟨m, n, hm, hn, hmost ▸ hle⟩
    | false =>
      have hf : f high = false := by
        cases hf : f high with
        | false => rfl
        | true => rw [← hhigh, hstricter high hf]
      rw [largestFitting_eq f h, largestFitting_eq g h, hlow, hstricter low hlow, hhigh, hf]
      exact bisect_noMore hstricter h

namespace Bounds

variable {b : Bounds} {survivors : Nat}

/-! ## Two targets -/

/-- A search needs room for eden in the minimum; without one nothing is asked of the bounds. -/
def Accepts (b : Bounds) (survivors : Nat) (searching : Bool) : Prop :=
  b.fixed = none → searching = true → b.least < b.largest → survivors < b.least

theorem search_noMore (hstricter : ∀ n, f n = true → g n = true)
    (hroom : b.least < b.largest → survivors < b.least) :
    NoMore (b.search survivors (asking f) : Checked α Nat) (b.search survivors (asking g)) := by
  by_cases hnarrow : b.largest ≤ b.least
  · rw [search, search, if_pos hnarrow, if_pos hnarrow]
    exact noMore_self b.least
  · have hwide : b.least < b.largest := Nat.lt_of_not_le hnarrow
    have hroom : survivors < b.least := hroom hwide
    rw [search_eq_largestFitting hroom hwide, search_eq_largestFitting hroom hwide]
    obtain ⟨m, n, hm, hn, hle⟩ :=
      largestFitting_noMore (α := α) hstricter (Nat.sub_le_sub_right hwide.le survivors)
    rw [hm, hn]
    exact ⟨survivors + m, survivors + n, rfl, rfl, Nat.add_le_add_left hle survivors⟩

/-- Without room for eden a search is refused before anything is asked. -/
theorem search_of_no_room {fits : Nat → Checked α Bool} (hwide : b.least < b.largest)
    (hfull : b.least ≤ survivors) :
    b.search survivors fits = .error (.noRoomForEden b.least survivors) := by
  rw [search, if_neg (Nat.not_le_of_lt hwide), demand, if_neg (Nat.not_lt_of_le hfull)]
  rfl

theorem clamp_mono : Monotone b.clamp := fun _ _ hle =>
  max_le_max_right b.least (min_le_min_right _ hle)

/-- What prediction alone asks for. -/
def asked (b : Bounds) (survivors : Nat) (searching : Bool) (fits : Nat → Checked α Bool) :
    Checked α Nat :=
  match b.fixed with
  | some length => .ok length
  | none => if searching then b.search survivors fits else .ok b.least

theorem target_eq (searching : Bool) (fits : Nat → Checked α Bool) :
    b.target survivors searching fits =
      (fun length => ⟨b.clamp length, length⟩) <$> b.asked survivors searching fits := by
  unfold target asked
  cases b.fixed with
  | some length => rfl
  | none =>
    cases searching with
    | true => rfl
    | false => rfl

theorem asked_noMore {searching : Bool} (hstricter : ∀ n, f n = true → g n = true)
    (haccepts : b.Accepts survivors searching) :
    NoMore (b.asked survivors searching (asking f) : Checked α Nat)
      (b.asked survivors searching (asking g)) := by
  unfold asked
  cases hfixed : b.fixed with
  | some length => exact noMore_self length
  | none =>
    cases searching with
    | true => exact search_noMore hstricter (haccepts hfixed rfl)
    | false => exact noMore_self b.least

/-- Whatever the predicates, under the stricter one neither the target nor the length that
prediction alone asks for is longer. Both have a target unless a search has no room for eden, which
ends both in the same fault. -/
theorem stricter_prediction_asks_no_more (b : Bounds) (survivors : Nat) (searching : Bool)
    {f g : Nat → Bool} (hstricter : ∀ n, f n = true → g n = true) :
    (b.Accepts survivors searching → ∃ strict target : Target,
      b.target survivors searching (fun n => .ok (f n)) = (.ok strict : Checked α Target) ∧
      b.target survivors searching (fun n => .ok (g n)) = (.ok target : Checked α Target) ∧
      strict.bounded ≤ target.bounded ∧ strict.unbounded ≤ target.unbounded) ∧
    (¬ b.Accepts survivors searching → ∀ fits : Nat → Checked α Bool,
      b.target survivors searching fits = .error (.noRoomForEden b.least survivors)) := by
  refine ⟨fun haccepts => ?_, fun hrefuses fits => ?_⟩
  · obtain ⟨m, n, hm, hn, hle⟩ := asked_noMore (α := α) hstricter haccepts
    refine ⟨⟨b.clamp m, m⟩, ⟨b.clamp n, n⟩, ?_, ?_, clamp_mono hle, hle⟩
    · exact (target_eq searching _).trans (congrArg _ hm)
    · exact (target_eq searching _).trans (congrArg _ hn)
  · simp only [Accepts, not_forall, Nat.not_lt] at hrefuses
    obtain ⟨hfixed, rfl, hwide, hfull⟩ := hrefuses
    rw [target_eq, asked, hfixed]
    simp only [if_true, search_of_no_room hwide hfull]
    rfl

/-- Multiples of four are even. The searches part at an eden of 50 regions, for which even lengths
are enough: that search ends at 52 on top of ten survivors, and the other one at 40. -/
theorem multiples_of_four_ask_no_more_than_even_lengths :
    (∀ n, (n % 4 == 0 && n != 390) = true → (n % 2 == 0 && n != 390) = true) ∧
      fiftyToFourHundred.Accepts 10 true ∧
      ∃ strict target : Target,
        fiftyToFourHundred.target 10 true (fun n => .ok (n % 4 == 0 && n != 390)) =
          (.ok strict : Checked Rat Target) ∧
        fiftyToFourHundred.target 10 true (fun n => .ok (n % 2 == 0 && n != 390)) =
          (.ok target : Checked Rat Target) ∧
        strict = ⟨50, 50⟩ ∧ target = ⟨62, 62⟩ ∧
        strict.bounded ≤ target.bounded ∧ strict.unbounded ≤ target.unbounded := by
  have hstricter : ∀ n, (n % 4 == 0 && n != 390) = true → (n % 2 == 0 && n != 390) = true := by
    intro n hn
    simp only [Bool.and_eq_true, beq_iff_eq, bne_iff_ne] at hn ⊢
    omega
  have haccepts : fiftyToFourHundred.Accepts 10 true := fun _ _ _ => by decide
  obtain ⟨strict, target, hstrict, htarget, hbounded, hunbounded⟩ :=
    (stricter_prediction_asks_no_more (α := Rat) fiftyToFourHundred 10 true hstricter).1 haccepts
  have hfifty : (fiftyToFourHundred.target 10 true (fun n => .ok (n % 4 == 0 && n != 390)) :
      Checked Rat Target) = .ok ⟨50, 50⟩ := by
    decide +kernel
  have hsixtyTwo : (fiftyToFourHundred.target 10 true (fun n => .ok (n % 2 == 0 && n != 390)) :
      Checked Rat Target) = .ok ⟨62, 62⟩ := by
    decide +kernel
  refine ⟨hstricter, haccepts, strict, target, hstrict, htarget, ?_, ?_, hbounded, hunbounded⟩
  · exact Except.ok.inj (hstrict.symm.trans hfifty)
  · exact Except.ok.inj (htarget.symm.trans hsixtyTwo)

end Bounds

end PauseGoal.Young
