import Mathlib
import PauseGoal.Scalar

/-!
# Doubles below a power of two

Shares of counts are computed in doubles and cut down to counts again. A share of a count is at most
the count, also after rounding: a power of two is a double itself, and rounding to the nearest
double does not cross it. The lemmas follow a product from its factors through the two shifts of
rounding, packing and the way back to a count.
-/

namespace PauseGoal.Double

open Float.Model (Format UnpackedFloat totalExponent)
open Float.Model.UnpackedFloat

/-- Not negative and at most `2 ^ n`. -/
def AtMost (n : Nat) : UnpackedFloat → Prop
  | .zero _ => True
  | .finite .positive mantissa exponent _ =>
    exponent ≤ n ∧ mantissa ≤ 2 ^ ((n : Int) - exponent).toNat
  | _ => False

instance AtMost.decidable (n : Nat) : DecidablePred (AtMost n)
  | .zero _ => .isTrue trivial
  | .finite .positive mantissa exponent _ =>
    inferInstanceAs (Decidable (exponent ≤ n ∧ mantissa ≤ 2 ^ ((n : Int) - exponent).toNat))
  | .finite .negative _ _ _ => .isFalse id
  | .infinity _ => .isFalse id
  | .notANumber => .isFalse id

/-! ## Rounding -/

/-- The mantissa with what was shifted out of it is at most `bound`. -/
def Within (bound : Nat) (em : ExtendedMantissa) : Prop :=
  em.mantissa < bound ∨ em.mantissa = bound ∧ em.roundBit = false ∧ em.stickyBit = false

theorem Within.shiftRightOne {bound : Nat} {em : ExtendedMantissa} (h : Within (2 * bound) em) :
    Within bound em.shiftRightOne := by
  obtain ⟨mantissa, roundBit, stickyBit⟩ := em
  simp only [Within, ExtendedMantissa.shiftRightOne] at h ⊢
  obtain h | ⟨rfl, rfl, rfl⟩ := h
  · left
    omega
  · right
    simp

theorem Within.shiftRight {bound : Nat} {em : ExtendedMantissa} (k : Nat)
    (h : Within (2 ^ k * bound) em) : Within bound (em >>> k) := by
  induction k generalizing bound with
  | zero =>
    rw [Nat.pow_zero, Nat.one_mul] at h
    exact h
  | succ k ih =>
    rw [Nat.pow_succ, Nat.mul_assoc] at h
    exact (ih h).shiftRightOne

theorem Within.rounded_le {bound : Nat} {em : ExtendedMantissa} (h : Within bound em) :
    em.roundedMantissa ≤ bound := by
  obtain ⟨mantissa, roundBit, stickyBit⟩ := em
  obtain h | ⟨rfl, rfl, rfl⟩ := h
  · have hround : ExtendedMantissa.roundedMantissa ⟨mantissa, roundBit, stickyBit⟩ ≤
        mantissa + 1 := by
      cases roundBit <;> cases stickyBit <;>
        simp [ExtendedMantissa.roundedMantissa, ExtendedMantissa.accuracy,
          Accuracy.roundToNearestEven]
      omega
    exact Nat.le_trans hround h
  · exact Nat.le_refl _

theorem Within.mantissa_le {bound : Nat} {em : ExtendedMantissa} (h : Within bound em) :
    em.mantissa ≤ bound := by
  obtain h | ⟨h, -⟩ := h
  · exact Nat.le_of_lt h
  · exact Nat.le_of_eq h

theorem within_exact {bound mantissa : Nat} (h : mantissa ≤ bound) :
    Within bound (.ofMantissaAndAccuracy mantissa .exact) := by
  obtain h | h := Nat.lt_or_eq_of_le h
  · exact .inl h
  · exact .inr ⟨h, rfl, rfl⟩

theorem targetExponent_eq (total : Int) :
    Format.binary64.targetExponent total = max (total - 53) (-1074) := rfl

/-- Bits are only shifted out until the mantissa is short enough, which a power of two is before it
would be shifted out itself. -/
theorem targetExponent_le {n mantissa : Nat} {exponent : Int} (hexponent : exponent ≤ n)
    (hmantissa : mantissa ≤ 2 ^ ((n : Int) - exponent).toNat) :
    Format.binary64.targetExponent (totalExponent mantissa exponent) ≤ n := by
  have hlog : mantissa.log2 ≤ ((n : Int) - exponent).toNat := by
    rcases Nat.eq_zero_or_pos mantissa with rfl | hpos
    · simp
    · exact (Nat.pow_le_pow_iff_right (by decide : 1 < 2)).mp
        (Nat.le_trans (Nat.log2_self_le (Nat.ne_of_gt hpos)) hmantissa)
  rw [targetExponent_eq, totalExponent]
  omega

theorem shiftToTargetExponent_within {n mantissa : Nat} {exponent : Int}
    (hexponent : exponent ≤ n) (hmantissa : mantissa ≤ 2 ^ ((n : Int) - exponent).toNat) :
    let shifted := shiftToTargetExponent .binary64 mantissa exponent .exact
    shifted.2 ≤ n ∧ Within (2 ^ ((n : Int) - shifted.2).toNat) shifted.1 := by
  have htarget := targetExponent_le hexponent hmantissa
  simp only [shiftToTargetExponent, shiftToExponent]
  generalize hk : (Format.binary64.targetExponent (totalExponent mantissa exponent) -
    exponent).toNat = k
  have hle : exponent + k ≤ n := by omega
  refine ⟨hle, Within.shiftRight k ?_⟩
  have hsplit : 2 ^ ((n : Int) - exponent).toNat =
      2 ^ k * 2 ^ ((n : Int) - (exponent + k)).toNat := by
    rw [← Nat.pow_add]
    congr 1
    omega
  rw [← hsplit]
  exact within_exact hmantissa

theorem atMost_roundWithAccuracy {n mantissa : Nat} {exponent : Int} (hexponent : exponent ≤ n)
    (hmantissa : mantissa ≤ 2 ^ ((n : Int) - exponent).toNat) :
    AtMost n (roundWithAccuracy .binary64 .positive mantissa exponent .exact) := by
  obtain ⟨hfirst, hwithin⟩ := shiftToTargetExponent_within hexponent hmantissa
  -- the second shift makes room for the bit that rounding may have carried over
  obtain ⟨hsecond, hwithin'⟩ := shiftToTargetExponent_within hfirst hwithin.rounded_le
  unfold roundWithAccuracy
  simp only
  split
  · trivial
  · exact ⟨hsecond, hwithin'.mantissa_le⟩

theorem atMost_round {n mantissa : Nat} {exponent : Int} (hexponent : exponent ≤ n)
    (hmantissa : mantissa ≤ 2 ^ ((n : Int) - exponent).toNat) :
    AtMost n (UnpackedFloat.round .binary64 .positive mantissa exponent) := by
  unfold UnpackedFloat.round decreaseExponent
  simp only
  generalize (exponent - Format.binary64.targetExponent (totalExponent mantissa exponent)).toNat = k
  refine atMost_roundWithAccuracy (by omega) ?_
  have hsplit : ((n : Int) - (exponent - k)).toNat = ((n : Int) - exponent).toNat + k := by omega
  rw [hsplit, Nat.pow_add, Nat.shiftLeft_eq]
  exact Nat.mul_le_mul_right _ hmantissa

theorem AtMost.mul {m n : Nat} {a b : UnpackedFloat} (ha : AtMost m a) (hb : AtMost n b) :
    AtMost (m + n) (UnpackedFloat.mul .binary64 a b) := by
  match a, b, ha, hb with
  | .zero _, .zero _, _, _ => trivial
  | .zero _, .finite .positive _ _ _, _, _ => trivial
  | .finite .positive _ _ _, .zero _, _, _ => trivial
  | .finite .positive m₁ e₁ _, .finite .positive m₂ e₂ _, ⟨he₁, hm₁⟩, ⟨he₂, hm₂⟩ =>
    refine atMost_roundWithAccuracy (by push_cast; omega) ?_
    have hsplit : (((m + n : Nat) : Int) - (e₁ + e₂)).toNat =
        ((m : Int) - e₁).toNat + ((n : Int) - e₂).toNat := by omega
    rw [hsplit, Nat.pow_add]
    exact Nat.mul_le_mul hm₁ hm₂

theorem atMost_ofNat {n count : Nat} (h : count ≤ 2 ^ n) :
    AtMost n (UnpackedFloat.ofNat .binary64 count) := by
  unfold UnpackedFloat.ofNat UnpackedFloat.ofInt UnpackedFloat.normalize
  split
  · next hneg => exact absurd (Int.compare_eq_lt.mp hneg) (by omega)
  · trivial
  · exact atMost_round (Int.natCast_nonneg n) (by simpa using h)

/-! ## Packing -/

theorem unpackSign_packComponents {spec : Format} (sign : Sign)
    (exponent : BitVec spec.exponentBits) (mantissa : BitVec spec.mantissaBitsWithoutImplicit) :
    unpackSign (packComponents spec sign exponent mantissa) = sign.toBitVec := by
  ext i hi
  have hzero : i = 0 := by omega
  simp [unpackSign, packComponents, BitVec.getLsbD_append, BitVec.getElem_append, hzero]

/-- Without the bits of an exponent the mantissa stands for less than `1`. -/
theorem atMost_unpack_subnormal (n : Nat) (mantissa : BitVec 52) :
    AtMost n (unpack .binary64 (packComponents .binary64 .positive 0#11 mantissa)) := by
  simp only [unpack, unpackExponent_packComponents, unpackMantissa_packComponents,
    unpackSign_packComponents]
  rw [if_neg (by decide), if_pos trivial]
  split
  · trivial
  · refine ⟨by simp [Format.exponentBias], ?_⟩
    have hpow : 2 ^ 52 ≤ 2 ^ ((n : Int) - (((0#11).toNat : Int) -
        ((Format.binary64.exponentBias : Int) + (52 : Nat)) + 1)).toNat :=
      Nat.pow_le_pow_right (by decide) (by simp [Format.exponentBias]; omega)
    exact Nat.le_trans (Nat.le_of_lt mantissa.isLt) hpow

theorem bounds_of_log2 {mantissa k : Nat} (h : mantissa.log2 = 52 + k) :
    2 ^ (52 + k) ≤ mantissa ∧ mantissa < 2 ^ (52 + k + 1) := by
  have hne : mantissa ≠ 0 := by
    rintro rfl
    simp at h
    omega
  exact (Nat.log2_eq_iff hne).mp h

theorem toNat_implicitBit {mantissa : Nat} (h : mantissa.log2 = 52) :
    (1#1 ++ BitVec.ofNat 52 mantissa).toNat = mantissa := by
  obtain ⟨hlow, hhigh⟩ := bounds_of_log2 (k := 0) h
  rw [BitVec.toNat_append, ← Nat.shiftLeft_add_eq_or_of_lt (BitVec.isLt _)]
  simp only [BitVec.toNat_ofNat, Nat.shiftLeft_eq]
  omega

theorem unpack_normal {exponent : BitVec 11} {mantissa : Nat} (hpos : 0 < mantissa)
    (hlog : mantissa.log2 = 52) (hzero : exponent ≠ 0#11) (hones : exponent ≠ -1#11) :
    unpack .binary64 (packComponents .binary64 .positive exponent (BitVec.ofNat 52 mantissa)) =
      .finite .positive mantissa ((exponent.toNat : Int) - 1075) hpos := by
  simp only [unpack, unpackExponent_packComponents, unpackMantissa_packComponents,
    unpackSign_packComponents]
  rw [if_neg hones, if_neg hzero]
  simp only [toNat_implicitBit hlog]
  rfl

/-- A double with all its bits keeps them when it is packed. -/
theorem unpack_pack_of_normal {mantissa : Nat} {exponent : Int} (hpos : 0 < mantissa)
    (hlog : mantissa.log2 = 52) (hlow : -1074 ≤ exponent) (hhigh : exponent ≤ 971) :
    unpack .binary64 (pack .binary64 (.finite .positive mantissa exponent hpos)) =
      .finite .positive mantissa exponent hpos := by
  unfold pack
  simp only
  generalize hbiased : (exponent + (Format.binary64.exponentBias : Int) + (52 : Nat)).toNat =
    biased
  have hbias : (Format.binary64.exponentBias : Int) = 1023 := rfl
  rw [if_neg (by omega), if_pos (by simp [Format.mantissaBits, hlog])]
  have hfield : (BitVec.ofNat 11 biased).toNat = biased := by
    rw [BitVec.toNat_ofNat, Nat.mod_eq_of_lt (by omega)]
  have hzero : BitVec.ofNat 11 biased ≠ 0#11 := by
    intro heq
    rw [heq] at hfield
    simp at hfield
    omega
  have hones : BitVec.ofNat 11 biased ≠ -1#11 := by
    intro heq
    rw [heq] at hfield
    simp at hfield
    omega
  rw [unpack_normal hpos hlog hzero hones, hfield, show (biased : Int) - 1075 = exponent by omega]

/-- Packing rounds nothing up; what is too small for the format becomes smaller. -/
theorem AtMost.unpack_pack {n : Nat} (hn : n ≤ 900) {u : UnpackedFloat} (h : AtMost n u) :
    AtMost n (unpack .binary64 (pack .binary64 u)) := by
  match u, h with
  | .zero sign, _ =>
    have hzero : unpack .binary64 (pack .binary64 (.zero sign)) = .zero sign := by
      cases sign <;> rfl
    rw [hzero]
    trivial
  | .finite .positive mantissa exponent hpos, ⟨hexponent, hmantissa⟩ =>
    by_cases hnormal : mantissa.log2 = 52 ∧ -1074 ≤ exponent
    · rw [unpack_pack_of_normal hpos hnormal.1 hnormal.2 (by omega)]
      exact ⟨hexponent, hmantissa⟩
    · have hbias : (Format.binary64.exponentBias : Int) = 1023 := rfl
      unfold pack
      simp only
      rw [if_neg (by omega)]
      split
      · next hlog =>
        simp [Format.mantissaBits] at hlog
        rw [show (exponent + (Format.binary64.exponentBias : Int) + (52 : Nat)).toNat = 0 by omega]
        exact atMost_unpack_subnormal n _
      · exact atMost_unpack_subnormal n _

/-! ## What doubles unpack to -/

theorem unpack_mul (x y : Float) : (x * y).toModel.unpack =
    unpack .binary64 (pack .binary64
      (UnpackedFloat.mul .binary64 x.toModel.unpack y.toModel.unpack)) := rfl

theorem lt_iff_unpack {x y : Float} :
    x < y ↔ UnpackedFloat.lt x.toModel.unpack y.toModel.unpack = true :=
  ⟨of_decide_eq_true, decide_eq_true⟩

theorem truncate_eq_unpack (x : Float) : Scalar.truncate x =
    (UInt64.ofNatClamp (x.toModel.unpack.toInt 0 (UInt64.size - 1)).toNat).toNat := rfl

/-! ## Counts -/

theorem atMost_num {n count : Nat} (hn : n ≤ 900) (h : count ≤ 2 ^ n) :
    AtMost n (num count : Float).toModel.unpack := by
  have hword : count.toUInt64.toNat ≤ 2 ^ n := by
    rw [Nat.toUInt64, UInt64.toNat_ofNat']
    exact Nat.le_trans (Nat.mod_le _ _) h
  exact (atMost_ofNat hword).unpack_pack hn

theorem atMost_mul {m n : Nat} {a b : Float} (hsum : m + n ≤ 900)
    (ha : AtMost m a.toModel.unpack) (hb : AtMost n b.toModel.unpack) :
    AtMost (m + n) (a * b).toModel.unpack :=
  (ha.mul hb).unpack_pack hsum

theorem toNat_ofNatClamp_le (n : Nat) : (UInt64.ofNatClamp n).toNat ≤ n := by
  unfold UInt64.ofNatClamp
  split
  · exact Nat.le_refl _
  · next h =>
    have hlarge : 2 ^ 64 ≤ n := Nat.le_of_not_lt h
    exact Nat.le_trans (Nat.le_of_lt (UInt64.toNat_lt _)) hlarge

theorem truncate_le {n : Nat} {x : Float} (h : AtMost n x.toModel.unpack) :
    Scalar.truncate x ≤ 2 ^ n := by
  have hint : (x.toModel.unpack.toInt 0 (UInt64.size - 1)).toNat ≤ 2 ^ n := by
    revert h
    generalize x.toModel.unpack = u
    intro h
    match u, h with
    | .zero _, _ => exact Nat.zero_le _
    | .finite .positive mantissa exponent _, ⟨hexponent, hmantissa⟩ =>
      simp only [UnpackedFloat.toInt, roundToInt, decreaseExponent, shiftToExponent, Sign.apply,
        Int.toNat_natCast]
      refine Within.mantissa_le (Within.shiftRight _ (within_exact ?_))
      rw [Nat.shiftLeft_eq, ← Nat.pow_add]
      refine Nat.le_trans (Nat.mul_le_mul_right _ hmantissa) ?_
      rw [← Nat.pow_add]
      exact Nat.pow_le_pow_right (by decide) (by omega)
  exact Nat.le_trans (toNat_ofNatClamp_le _) hint

/-- A double has all its bits unless it is as close to zero as doubles get. -/
theorem unpack_canonical {b : BitVec 64} {sign : Sign} {mantissa : Nat} {exponent : Int}
    {hpos : 0 < mantissa} (h : unpack .binary64 b = .finite sign mantissa exponent hpos) :
    exponent = -1074 ∨ 2 ^ 52 ≤ mantissa := by
  unfold unpack at h
  simp only at h
  split at h
  · split at h <;> cases h
  · split at h
    · next hzero =>
      split at h
      · cases h
      · left
        cases h
        rw [hzero]
        rfl
    · right
      cases h
      rw [BitVec.toNat_append, ← Nat.shiftLeft_add_eq_or_of_lt (BitVec.isLt _)]
      simp [Nat.shiftLeft_eq]

theorem num_not_lt {x : Float} (h : AtMost 63 x.toModel.unpack) :
    ¬ (num (2 ^ 63) : Float) < x := by
  have hbound : (num (2 ^ 63) : Float).toModel.unpack = .finite .positive (2 ^ 52) 11 (by decide) :=
    rfl
  intro hcompare
  rw [lt_iff_unpack, hbound] at hcompare
  revert h hcompare
  generalize hx : x.toModel.unpack = u
  intro h hcompare
  match u, h with
  | .zero _, _ => cases hcompare
  | .finite .positive mantissa exponent _, ⟨hexponent, hmantissa⟩ =>
    simp only [UnpackedFloat.lt, UnpackedFloat.compare, beq_iff_eq, Option.some.injEq,
      Ordering.then_eq_lt, Int.compare_eq_lt, Int.compare_eq_eq, Nat.compare_eq_lt] at hcompare
    obtain hexceeds | ⟨rfl, hexceeds⟩ := hcompare
    · have hfull : 2 ^ 52 ≤ mantissa := (unpack_canonical hx).resolve_left (by omega)
      have hshort : 2 ^ ((63 : Nat) - exponent : Int).toNat ≤ 2 ^ 51 :=
        Nat.pow_le_pow_right (by decide) (by omega)
      omega
    · exact Nat.not_lt.mpr hmantissa hexceeds

/-- A count that doubles cannot exceed, rounded up. -/
theorem ceil_le {x : Float} (h : AtMost 63 x.toModel.unpack) : Scalar.ceil x ≤ 2 ^ 63 := by
  have htruncate : Scalar.truncate x ≤ 2 ^ 63 := truncate_le h
  unfold Scalar.ceil
  split
  · next hlt =>
    have hne : Scalar.truncate x ≠ 2 ^ 63 := fun heq => num_not_lt h (heq ▸ hlt)
    exact Nat.le_trans (Nat.min_le_left _ _) (by omega)
  · exact htruncate

end PauseGoal.Double
