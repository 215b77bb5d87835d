import PauseGoal.Pause.Breakdown
import PauseGoal.Proofs.ExactReals

/-!
# Where the time of scanning cards goes

Logged cards and remembered sets share the time that scanning took. Each part is computed alone and
has cases of its own. Without scanned cards, and with more logged than scanned ones, the logged
cards take all of the time; the remembered sets get nothing in the first case and the part of no
cards in the second. Both parts come from one number, the `loggedShare`, so that no time is counted
twice and none is lost.
-/

namespace PauseGoal.Pause.Breakdown

open Scalar.Exact (toReal)

variable {α : Type} [Scalar α] [Scalar.Exact α] {b : Breakdown α}

/-- No time was measured as negative. -/
structure NonNegative (b : Breakdown α) : Prop where
  parallel : num 0 ≤ b.parallel
  mergeLogs : num 0 ≤ b.mergeLogs
  mergeRememberedSets : num 0 ≤ b.mergeRememberedSets
  scanRoots : num 0 ≤ b.scanRoots
  youngOther : num 0 ≤ b.youngOther
  oldOther : num 0 ≤ b.oldOther

/-! ## The share of logged cards -/

omit [Scalar α] [Scalar.Exact α] in
/-- The logged part of the scanned cards. All of them count as logged where that is no part. -/
noncomputable def loggedShare (b : Breakdown α) : ℝ :=
  if b.scannedCards = 0 ∨ b.scannedCards < b.loggedCards then 1 else b.loggedCards / b.scannedCards

omit [Scalar α] [Scalar.Exact α] in
theorem loggedShare_mem (b : Breakdown α) : b.loggedShare ∈ Set.Icc 0 1 := by
  unfold loggedShare
  split
  · exact ⟨zero_le_one, le_rfl⟩
  · next hpart =>
    have hle : b.loggedCards ≤ b.scannedCards := by omega
    exact ⟨div_nonneg (Nat.cast_nonneg _) (Nat.cast_nonneg _),
      div_le_one_of_le₀ (Nat.cast_le.mpr hle) (Nat.cast_nonneg _)⟩

theorem toReal_loggedCardTime (b : Breakdown α) :
    toReal b.loggedCardTime = toReal b.scanRoots * b.loggedShare + toReal b.mergeLogs := by
  unfold loggedCardTime loggedShare
  split
  · rw [Scalar.Exact.toReal_add, mul_one]
  · simp [mul_div_assoc]

/-- Remembered sets do not ask whether more cards were logged than scanned: then no cards are left
for them. -/
theorem toReal_rememberedSetTime (b : Breakdown α) :
    toReal b.rememberedSetTime =
      toReal b.scanRoots * (1 - b.loggedShare) + toReal b.mergeRememberedSets := by
  unfold rememberedSetTime rememberedCards loggedShare
  by_cases hnone : b.scannedCards = 0
  · simp [hnone]
  rw [if_neg hnone]
  by_cases hover : b.scannedCards < b.loggedCards
  · simp [hover, Nat.sub_eq_zero_of_le hover.le]
  · have hscanned : (b.scannedCards : ℝ) ≠ 0 := Nat.cast_ne_zero.mpr hnone
    rw [if_neg (not_or.mpr ⟨hnone, hover⟩)]
    simp only [Scalar.Exact.toReal_add, Scalar.Exact.toReal_div, Scalar.Exact.toReal_mul,
      Scalar.Exact.toReal_num, Nat.cast_sub (not_lt.mp hover)]
    rw [mul_div_assoc, sub_div, div_self hscanned]

/-! ## The time outside parallel phases -/

theorem toReal_otherTime (b : Breakdown α) (pause : α) :
    toReal (b.otherTime pause) = max (toReal pause - toReal b.parallel) 0 := by
  simp [otherTime]

theorem toReal_constantOtherTime (b : Breakdown α) (pause : α) :
    toReal (b.constantOtherTime pause) =
      max (toReal (b.otherTime pause) - toReal b.youngOther - toReal b.oldOther) 0 := by
  simp [constantOtherTime]

/-! ## The whole -/

/-- The parts of logged cards and remembered sets are together what scanning and both merges took,
and neither part is less than its merge. What is outside parallel phases is no more than the pause,
and what of that is constant is no more than that. -/
theorem card_time_is_split (h : b.NonNegative) (pause : α) :
    toReal b.loggedCardTime + toReal b.rememberedSetTime =
      toReal b.scanRoots + toReal b.mergeLogs + toReal b.mergeRememberedSets ∧
    (num 0 ≤ b.loggedCardTime ∧ b.mergeLogs ≤ b.loggedCardTime) ∧
    (num 0 ≤ b.rememberedSetTime ∧ b.mergeRememberedSets ≤ b.rememberedSetTime) ∧
    num 0 ≤ b.constantOtherTime pause ∧ b.constantOtherTime pause ≤ b.otherTime pause ∧
      b.otherTime pause ≤ Scalar.max (num 0) pause := by
  have hlogged := toReal_loggedCardTime b
  have hremembered := toReal_rememberedSetTime b
  obtain ⟨hshare, hrest⟩ := loggedShare_mem b
  have hscan := Scalar.zero_le_iff.mp h.scanRoots
  have hscanLogged := mul_nonneg hscan hshare
  have hscanRemembered := mul_nonneg hscan (sub_nonneg.mpr hrest)
  have hlogs : b.mergeLogs ≤ b.loggedCardTime := by
    rw [Scalar.Exact.le_iff, hlogged]
    exact le_add_of_nonneg_left hscanLogged
  have hsets : b.mergeRememberedSets ≤ b.rememberedSetTime := by
    rw [Scalar.Exact.le_iff, hremembered]
    exact le_add_of_nonneg_left hscanRemembered
  refine ⟨?_, ⟨?_, hlogs⟩, ⟨?_, hsets⟩, ?_, ?_, ?_⟩
  · rw [hlogged, hremembered]
    ring
  · exact Scalar.zero_le_iff.mpr ((Scalar.zero_le_iff.mp h.mergeLogs).trans
      ((Scalar.Exact.le_iff _ _).mp hlogs))
  · exact Scalar.zero_le_iff.mpr ((Scalar.zero_le_iff.mp h.mergeRememberedSets).trans
      ((Scalar.Exact.le_iff _ _).mp hsets))
  · rw [Scalar.zero_le_iff, toReal_constantOtherTime]
    exact le_max_right _ _
  · have hyoung := Scalar.zero_le_iff.mp h.youngOther
    have hold := Scalar.zero_le_iff.mp h.oldOther
    have hother : 0 ≤ toReal (b.otherTime pause) := by
      rw [toReal_otherTime]
      exact le_max_right _ _
    rw [Scalar.Exact.le_iff, toReal_constantOtherTime]
    exact max_le (by linarith) hother
  · have hparallel := Scalar.zero_le_iff.mp h.parallel
    rw [Scalar.Exact.le_iff, toReal_otherTime, Scalar.toReal_max, Scalar.Exact.toReal_num,
      Nat.cast_zero, max_comm]
    exact max_le_max_left 0 (sub_le_self _ hparallel)

/-- A pause in which a quarter of a thousand scanned cards had been logged. -/
def thousandCards : Breakdown Rat :=
  { Breakdown.zero with
    parallel := 8
    mergeLogs := 1
    loggedCards := 250
    mergeRememberedSets := 2
    scanRoots := 10
    scannedCards := 1000
    youngOther := 3 / 4
    oldOther := 1 / 2 }

theorem card_time_is_split_of_a_thousand :
    thousandCards.NonNegative ∧
    toReal thousandCards.loggedCardTime + toReal thousandCards.rememberedSetTime =
      toReal thousandCards.scanRoots + toReal thousandCards.mergeLogs +
        toReal thousandCards.mergeRememberedSets ∧
    (num 0 ≤ thousandCards.loggedCardTime ∧
      thousandCards.mergeLogs ≤ thousandCards.loggedCardTime) ∧
    (num 0 ≤ thousandCards.rememberedSetTime ∧
      thousandCards.mergeRememberedSets ≤ thousandCards.rememberedSetTime) ∧
    num 0 ≤ thousandCards.constantOtherTime 10 ∧
      thousandCards.constantOtherTime 10 ≤ thousandCards.otherTime 10 ∧
      thousandCards.otherTime 10 ≤ Scalar.max (num 0) 10 := by
  have hnonneg : thousandCards.NonNegative :=
    ⟨by decide +kernel, by decide +kernel, by decide +kernel, by decide +kernel, by decide +kernel,
      by decide +kernel⟩
  exact ⟨hnonneg, card_time_is_split hnonneg 10⟩

end PauseGoal.Pause.Breakdown
