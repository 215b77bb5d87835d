import Mathlib.Order.Bounds.Basic
import Mathlib.Order.MinMax
import PauseGoal.Proofs.YoungBounds

/-!
# What a search for a length finds

The search asks whether a length fits and halves a range whose lower end fits and whose upper end
does not. That much holds for any question: the length found fits or is the lower end, and the next
one does not fit or is out of the range (`largestFitting_finds`). If no length fits above one that
does not, it is the longest that fits (`Longest`), and the lower end if none does.

The target is searched in the range that the operator allows and clamped to the free regions
afterwards. Main statement: it is the longest length that fits in the clamped range, the same that a
search of that range finds.
-/

namespace PauseGoal.Young

variable {α : Type} {fits : Nat → Checked α Bool} {holds : Nat → Prop} {low high length : Nat}

/-! ## Neighbours -/

/-- Within a range every question is answered, and truthfully. -/
def Answers (fits : Nat → Checked α Bool) (low high : Nat) (holds : Nat → Prop)
    [DecidablePred holds] : Prop :=
  ∀ n, low ≤ n → n ≤ high → fits n = .ok (decide (holds n))

theorem Answers.mono [DecidablePred holds] {low' high' : Nat} (h : Answers fits low high holds)
    (hlow : low ≤ low') (hhigh : high' ≤ high) : Answers fits low' high' holds :=
  fun n hle hge => h n (Nat.le_trans hlow hle) (Nat.le_trans hge hhigh)

theorem answers_ok (test : Nat → Bool) (low high : Nat) :
    Answers (fun n => (.ok (test n) : Checked α Bool)) low high fun n => test n = true := by
  intro n _ _
  simp

theorem bisect_finds [DecidablePred holds] (hanswers : Answers fits low high holds)
    (hlt : low < high) (hlow : holds low) (hhigh : ¬ holds high) :
    ∃ length, bisect fits low high = .ok length ∧ low ≤ length ∧ length < high ∧
      holds length ∧ ¬ holds (length + 1) := by
  -- along the recursion, with the ends apart: `low` fits and `high` does not
  induction low, high using bisect.induct with
  | case1 low high hsmall =>
    have hnext : high = low + 1 := by omega
    rw [bisect, dif_pos hsmall]
    exact ⟨low, rfl, Nat.le_refl low, hlt, hlow, hnext ▸ hhigh⟩
  | case2 low high hlarge ih_low ih_high =>
    have hmiddle : low < low + (high - low) / 2 ∧ low + (high - low) / 2 < high := by omega
    rw [bisect, dif_neg hlarge, hanswers _ hmiddle.1.le hmiddle.2.le]
    by_cases hfit : holds (low + (high - low) / 2)
    · obtain ⟨length, hfound, hle, hlength, hfits, hnext⟩ :=
        ih_low (hanswers.mono hmiddle.1.le (Nat.le_refl _)) hmiddle.2 hfit hhigh
      refine ⟨length, ?_, Nat.le_trans hmiddle.1.le hle, hlength, hfits, hnext⟩
      rw [decide_eq_true hfit]
      exact hfound
    · obtain ⟨length, hfound, hle, hlength, hfits, hnext⟩ :=
        ih_high (hanswers.mono (Nat.le_refl _) hmiddle.2.le) hmiddle.1 hlow hfit
      refine ⟨length, ?_, hle, Nat.lt_trans hlength hmiddle.2, hfits, hnext⟩
      rw [decide_eq_false hfit]
      exact hfound

/-- Whatever is asked about lengths, the search ends at a border between a length that fits and one
that does not, or at an end of the range. -/
theorem largestFitting_finds [DecidablePred holds] (hanswers : Answers fits low high holds)
    (h : low ≤ high) :
    ∃ length, largestFitting low high fits = .ok length ∧ low ≤ length ∧ length ≤ high ∧
      (length = low ∨ holds length) ∧
      (holds low → length = high ∨ ¬ holds (length + 1)) := by
  have hordered : (demand (low ≤ high) (.emptyLengthRange low high) : Checked α Unit) = .ok () :=
    demand_eq_ok_iff.mpr h
  unfold largestFitting
  rw [hordered, hanswers low (Nat.le_refl _) h, hanswers high h (Nat.le_refl _)]
  by_cases hlow : holds low
  · by_cases hhigh : holds high
    · refine ⟨high, ?_, h, Nat.le_refl _, .inr hhigh, fun _ => .inl rfl⟩
      simp [hlow, hhigh, bind, Except.bind, pure, Except.pure]
    · have hlt : low < high := by
        refine Nat.lt_of_le_of_ne h ?_
        rintro rfl
        exact hhigh hlow
      obtain ⟨length, hfound, hle, hlength, hfits, hnext⟩ := bisect_finds hanswers hlt hlow hhigh
      refine ⟨length, ?_, hle, hlength.le, .inr hfits, fun _ => .inr hnext⟩
      simpa [hlow, hhigh, bind, Except.bind] using hfound
  · refine ⟨low, ?_, Nat.le_refl _, h, .inl rfl, fun hfits => absurd hfits hlow⟩
    simp [hlow, bind, Except.bind, pure, Except.pure]

/-! ## The longest length -/

/-- The largest length of a range that fits, or the lower end if none does. -/
def Longest (low high : Nat) (holds : Nat → Prop) (length : Nat) : Prop :=
  IsGreatest {n | low ≤ n ∧ n ≤ high ∧ holds n} length ∨
    length = low ∧ ∀ n, low ≤ n → n ≤ high → ¬ holds n

theorem Longest.unique {length' : Nat} (h : Longest low high holds length)
    (h' : Longest low high holds length') : length = length' := by
  rcases h with hgreatest | ⟨hlow, hnone⟩
  · rcases h' with hgreatest' | ⟨_, hnone⟩
    · exact hgreatest.unique hgreatest'
    · obtain ⟨⟨hle, hge, hfits⟩, _⟩ := hgreatest
      exact absurd hfits (hnone length hle hge)
  · rcases h' with ⟨⟨hle, hge, hfits⟩, _⟩ | ⟨hlow', _⟩
    · exact absurd hfits (hnone length' hle hge)
    · rw [hlow, hlow']

/-- A single length is the longest in its range. -/
theorem longest_self (low : Nat) (holds : Nat → Prop) : Longest low low holds low := by
  by_cases h : holds low
  · exact .inl ⟨⟨Nat.le_refl _, Nat.le_refl _, h⟩, fun n hn => hn.2.1⟩
  · refine .inr ⟨rfl, fun n hle hge hn => ?_⟩
    exact h (Nat.le_antisymm hge hle ▸ hn)

/-- At a border between lengths that fit and lengths that do not. -/
theorem longest_of_border (hdown : Antitone holds) (hle : low ≤ length) (hge : length ≤ high)
    (hfits : length = low ∨ holds length)
    (hnext : holds low → length = high ∨ ¬ holds (length + 1)) :
    Longest low high holds length := by
  by_cases hlow : holds low
  · refine .inl ⟨⟨hle, hge, ?_⟩, ?_⟩
    · rcases hfits with rfl | hlength
      · exact hlow
      · exact hlength
    · intro n hn
      rcases hnext hlow with rfl | hnot
      · exact hn.2.1
      · by_contra hlonger
        exact hnot (hdown (Nat.lt_of_not_le hlonger) hn.2.2)
  · have hnone : ∀ n, low ≤ n → ¬ holds n := fun n hn h => hlow (hdown hn h)
    refine .inr ⟨?_, fun n hn _ => hnone n hn⟩
    rcases hfits with hlength | hlength
    · exact hlength
    · exact absurd hlength (hnone length hle)

/-- With `survivors` regions in front of eden. -/
theorem Longest.add (survivors : Nat) (h : Longest low high holds length) :
    Longest (survivors + low) (survivors + high) (fun n => holds (n - survivors))
      (survivors + length) := by
  rcases h with ⟨⟨hle, hge, hfits⟩, hgreatest⟩ | ⟨hlow, hnone⟩
  · refine .inl ⟨⟨Nat.add_le_add_left hle _, Nat.add_le_add_left hge _, ?_⟩, ?_⟩
    · show holds (survivors + length - survivors)
      rwa [Nat.add_sub_cancel_left]
    · intro n hn
      have hbelow : n - survivors ≤ length :=
        hgreatest ⟨Nat.le_sub_of_add_le' hn.1, Nat.sub_le_iff_le_add'.mpr hn.2.1, hn.2.2⟩
      exact Nat.sub_le_iff_le_add'.mp hbelow
  · refine .inr ⟨by rw [hlow], fun n hle hge => ?_⟩
    exact hnone _ (Nat.le_sub_of_add_le' hle) (Nat.sub_le_iff_le_add'.mpr hge)

theorem antitone_sub (survivors : Nat) (hdown : Antitone holds) :
    Antitone fun n => holds (n - survivors) :=
  fun _ _ hle => hdown (Nat.sub_le_sub_right hle survivors)

/-- Where no length fits above one that does not, the search finds the longest. -/
theorem largestFitting_longest [DecidablePred holds] (hanswers : Answers fits low high holds)
    (hdown : Antitone holds) (h : low ≤ high) :
    ∃ length, largestFitting low high fits = .ok length ∧ Longest low high holds length := by
  obtain ⟨length, hfound, hle, hge, hfits, hnext⟩ := largestFitting_finds hanswers h
  exact ⟨length, hfound, longest_of_border hdown hle hge hfits hnext⟩

/-! ## The target -/

namespace Bounds

variable {b : Bounds} {survivors : Nat}

/-- The longest target: what the operator and the free regions allow, unless the minimum is above
it. -/
def ceiling (b : Bounds) : Nat := Nat.max b.least (Nat.min b.largest b.allowed)

theorem search_eq_largestFitting (hroom : survivors < b.least) (hwide : b.least < b.largest) :
    b.search survivors fits =
      (survivors + ·) <$> largestFitting (b.least - survivors) (b.largest - survivors) fits := by
  have hdemand : (demand (survivors < b.least) (.noRoomForEden b.least survivors) :
      Checked α Unit) = .ok () :=
    demand_eq_ok_iff.mpr hroom
  have hleast : (Word.sub b.least survivors : Checked α Nat) = .ok (b.least - survivors) :=
    Word.sub_eq_ok_iff.mpr ⟨hroom.le, rfl⟩
  have hlargest : (Word.sub b.largest survivors : Checked α Nat) = .ok (b.largest - survivors) :=
    Word.sub_eq_ok_iff.mpr ⟨hroom.le.trans hwide.le, rfl⟩
  unfold search
  rw [if_neg (Nat.not_le_of_lt hwide), hdemand, hleast, hlargest]
  rfl

theorem search_longest [DecidablePred holds]
    (hanswers : b.least < b.largest →
      Answers fits (b.least - survivors) (b.largest - survivors) holds)
    (hdown : Antitone holds) (hroom : survivors < b.least) :
    ∃ length, b.search survivors fits = .ok length ∧
      Longest b.least (Nat.max b.least b.largest) (fun n => holds (n - survivors)) length := by
  by_cases hnarrow : b.largest ≤ b.least
  · refine ⟨b.least, if_pos hnarrow, ?_⟩
    rw [show Nat.max b.least b.largest = b.least from Nat.max_eq_left hnarrow]
    exact longest_self _ _
  · have hwide : b.least < b.largest := Nat.lt_of_not_le hnarrow
    obtain ⟨eden, hfound, hlongest⟩ :=
      largestFitting_longest (hanswers hwide) hdown (Nat.sub_le_sub_right hwide.le survivors)
    have hshifted := hlongest.add survivors
    rw [Nat.add_sub_cancel' hroom.le, Nat.add_sub_cancel' (hroom.le.trans hwide.le)] at hshifted
    refine ⟨survivors + eden, ?_, ?_⟩
    · rw [search_eq_largestFitting hroom hwide, hfound]
      rfl
    · rw [show Nat.max b.least b.largest = b.largest from Nat.max_eq_right hwide.le]
      exact hshifted

/-- A clamp loses no length that the clamped range has. -/
theorem clamp_longest (hdown : Antitone holds)
    (h : Longest b.least (Nat.max b.least b.largest) holds length) :
    Longest b.least b.ceiling holds (b.clamp length) := by
  have hceiling : b.ceiling ≤ Nat.max b.least b.largest :=
    Nat.max_le.mpr ⟨Nat.le_max_left _ _, (Nat.min_le_left _ _).trans (Nat.le_max_right _ _)⟩
  rcases h with ⟨⟨hle, _, hfits⟩, hgreatest⟩ | ⟨rfl, hnone⟩
  · have hcut : b.clamp length ≤ length := Nat.max_le.mpr ⟨Nat.min_le_left _ _, hle⟩
    refine .inl ⟨⟨b.least_le_clamp length, b.clamp_le length, hdown hcut hfits⟩, ?_⟩
    intro n hn
    have hlength : n ≤ length := hgreatest ⟨hn.1, hn.2.1.trans hceiling, hn.2.2⟩
    rcases le_max_iff.mp hn.2.1 with hleast | hmost
    · exact hleast.trans (b.least_le_clamp length)
    · exact (Nat.le_min.mpr ⟨hlength, hmost⟩).trans (Nat.le_max_left _ _)
  · refine .inr ⟨b.clamp_of_le (Nat.le_refl _), fun n hle hge => ?_⟩
    exact hnone n hle (hge.trans hceiling)

/-- It is enough that the lengths are asked about truthfully which the operator allows. -/
theorem target_longest [DecidablePred holds] (hfixed : b.fixed = none)
    (hroom : survivors < b.least)
    (hanswers : b.least < b.largest →
      Answers fits (b.least - survivors) (b.largest - survivors) holds)
    (hdown : Antitone holds) :
    ∃ target, b.target survivors true fits = .ok target ∧
      Longest b.least b.ceiling (fun n => holds (n - survivors)) target.bounded := by
  obtain ⟨length, hfound, hlongest⟩ := search_longest hanswers hdown hroom
  refine ⟨⟨b.clamp length, length⟩, ?_, clamp_longest (antitone_sub survivors hdown) hlongest⟩
  unfold target
  simp [hfixed, hfound, bind, Except.bind, pure, Except.pure]

/-- The least eden is asked about first. -/
theorem target_of_error {fault : Fault α} (hfixed : b.fixed = none) (hroom : survivors < b.least)
    (hwide : b.least < b.largest) (hfault : fits (b.least - survivors) = .error fault) :
    b.target survivors true fits = .error fault := by
  have hsearch : b.search survivors fits = .error fault := by
    have hordered : b.least - survivors ≤ b.largest - survivors :=
      Nat.sub_le_sub_right hwide.le survivors
    rw [search_eq_largestFitting hroom hwide, largestFitting, demand, if_pos hordered, hfault]
    rfl
  unfold target
  simp [hfixed, hsearch, bind, Except.bind]

/-- The clamped target is the longest length that fits in the clamped range, and a search of that
range finds the same. Without any assumption on the question a search ends at a border between a
length that fits and one that does not, or at an end of its range. -/
theorem target_is_longest_in_clamped_range :
    (∀ (b : Bounds) (survivors : Nat) (fits : Nat → Bool), b.fixed = none →
      survivors < b.least → Antitone fits →
      ∃ target,
        b.target survivors true (fun n => .ok (fits n)) = (.ok target : Checked α Target) ∧
        Longest b.least b.ceiling (fun n => fits (n - survivors) = true) target.bounded ∧
        largestFitting (b.least - survivors) (b.ceiling - survivors) (fun n => .ok (fits n)) =
          (.ok (target.bounded - survivors) : Checked α Nat)) ∧
    ∀ (fits : Nat → Bool) (low high : Nat), low ≤ high →
      ∃ length,
        largestFitting low high (fun n => .ok (fits n)) = (.ok length : Checked α Nat) ∧
        low ≤ length ∧ length ≤ high ∧ (length = low ∨ fits length = true) ∧
        (fits low = true → length = high ∨ fits (length + 1) = false) := by
  refine ⟨fun b survivors fits hfixed hroom hdown => ?_, fun fits low high h => ?_⟩
  · have hholds : Antitone fun n => fits n = true := fun _ _ hle => hdown hle
    have hceiling : b.least ≤ b.ceiling := Nat.le_max_left _ _
    obtain ⟨target, htarget, hlongest⟩ :=
      target_longest hfixed hroom (fun _ => answers_ok fits _ _) hholds
    obtain ⟨eden, hfound, heden⟩ :=
      largestFitting_longest (answers_ok fits _ _) hholds
        (Nat.sub_le_sub_right hceiling survivors)
    have hclamped := heden.add survivors
    rw [Nat.add_sub_cancel' hroom.le, Nat.add_sub_cancel' (hroom.le.trans hceiling)] at hclamped
    refine ⟨target, htarget, hlongest, ?_⟩
    rw [hfound, hlongest.unique hclamped, Nat.add_sub_cancel_left]
  · obtain ⟨length, hfound, hle, hge, hfits, hnext⟩ :=
      largestFitting_finds (answers_ok fits low high) h
    exact ⟨length, hfound, hle, hge, hfits, fun hlow => (hnext hlow).imp id eq_false_of_ne_true⟩

/-- The bounds of a test in which the free regions end below what the operator allows. -/
def fiftyToFourHundred : Bounds := ⟨none, 50, 400, 300⟩

theorem target_is_longest_up_to_three_hundred :
    fiftyToFourHundred.fixed = none ∧ 10 < fiftyToFourHundred.least ∧
      (Antitone fun n => decide (n ≤ 350)) ∧
      (∃ target,
        fiftyToFourHundred.target 10 true (fun n => .ok (decide (n ≤ 350))) =
          (.ok target : Checked Rat Target) ∧
        Longest 50 300 (fun n => decide (n - 10 ≤ 350) = true) target.bounded ∧
        largestFitting 40 290 (fun n => .ok (decide (n ≤ 350))) =
          (.ok (target.bounded - 10) : Checked Rat Nat)) ∧
      3 ≤ 9 ∧
      ∃ length,
        largestFitting 3 9 (fun n => .ok (decide (n % 4 = 3))) = (.ok length : Checked Rat Nat) ∧
        3 ≤ length ∧ length ≤ 9 ∧ (length = 3 ∨ decide (length % 4 = 3) = true) ∧
        (decide (3 % 4 = 3) = true → length = 9 ∨ decide ((length + 1) % 4 = 3) = false) := by
  have hdown : Antitone fun n => decide (n ≤ 350) := by
    intro m n hle hn
    exact decide_eq_true (hle.trans (of_decide_eq_true hn))
  refine ⟨rfl, by decide, hdown, ?_, by decide, ?_⟩
  · exact target_is_longest_in_clamped_range.1 fiftyToFourHundred 10 _ rfl (by decide) hdown
  · exact target_is_longest_in_clamped_range.2 _ 3 9 (by decide)

end Bounds

end PauseGoal.Young
