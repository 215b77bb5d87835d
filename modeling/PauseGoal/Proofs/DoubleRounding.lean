import PauseGoal.Proofs.DoubleBounds

/-!
# Which double a product is

A product of doubles is the double nearest to the exact product. The lemmas here say so in rational
numbers for normal doubles, that is for those with all bits of the mantissa in use, and say which
count such a double comes to when it is rounded up. Nothing here depends on which numbers are
multiplied; the range of exponents is wide enough for counts and for shares of them.
-/

namespace PauseGoal.Double

open Float.Model (Format UnpackedFloat totalExponent)
open Float.Model.UnpackedFloat

/-! ## Shifting bits out -/

/-- After `k` bits were shifted out, the round bit says whether they are at least half of the last
bit that is left, and the sticky bit whether they are neither nothing nor just a half. -/
theorem shiftRight_exact (mantissa k : Nat) :
    ExtendedMantissa.ofMantissaAndAccuracy mantissa .exact >>> k =
      ⟨mantissa / 2 ^ k, decide (2 ^ k ≤ 2 * (mantissa % 2 ^ k)),
        decide (2 * (mantissa % 2 ^ k) % 2 ^ k ≠ 0)⟩ := by
  induction k with
  | zero => simp [Nat.mod_one, HShiftRight.hShiftRight, Nat.repeat,
      ExtendedMantissa.ofMantissaAndAccuracy]
  | succ k ih =>
    have hstep : ExtendedMantissa.ofMantissaAndAccuracy mantissa .exact >>> (k + 1) =
        (ExtendedMantissa.ofMantissaAndAccuracy mantissa .exact >>> k).shiftRightOne := rfl
    have hlt : mantissa % 2 ^ k < 2 ^ k := Nat.mod_lt _ (Nat.two_pow_pos k)
    -- the bits shifted out are one more, in front of those before
    have hmod : mantissa % 2 ^ (k + 1) = mantissa % 2 ^ k + 2 ^ k * (mantissa / 2 ^ k % 2) := by
      rw [Nat.pow_succ, Nat.mod_mul]
    have hpow : 2 ^ (k + 1) = 2 * 2 ^ k := Nat.pow_succ'
    have hdouble : 2 * (mantissa % 2 ^ (k + 1)) % 2 ^ (k + 1) = 2 * (mantissa % 2 ^ k) := by
      rw [hpow, Nat.mul_mod_mul_left, ← hpow, Nat.mod_mod_of_dvd _ (Nat.pow_dvd_pow 2 (by omega))]
    rw [hstep, ih, hdouble]
    simp only [ExtendedMantissa.shiftRightOne, ExtendedMantissa.mk.injEq]
    refine ⟨by rw [Nat.div_div_eq_div_mul, Nat.pow_succ], ?_, ?_⟩
    · rw [hmod, hpow]
      rcases Nat.mod_two_eq_zero_or_one (mantissa / 2 ^ k) with hbit | hbit
      · simp [hbit]
        omega
      · simp [hbit]
    · clear hdouble hmod
      generalize mantissa % 2 ^ k = rest at hlt ⊢
      by_cases hhalf : 2 ^ k ≤ 2 * rest
      · simp [hhalf]
        omega
      · simp [hhalf, Nat.mod_eq_of_lt (Nat.lt_of_not_le hhalf)]

/-- Of the two neighbours the nearer one is taken, of two equally near ones that with an even
mantissa. -/
theorem roundedMantissa_eq (kept : Nat) {rest unit : Nat} (h : rest < unit) :
    let rounded := ExtendedMantissa.roundedMantissa
      ⟨kept, decide (unit ≤ 2 * rest), decide (2 * rest % unit ≠ 0)⟩
    (rounded = kept ∧ 2 * rest ≤ unit) ∨ (rounded = kept + 1 ∧ unit ≤ 2 * rest) := by
  intro rounded
  by_cases hhalf : unit ≤ 2 * rest
  · have hexcess : 2 * rest % unit = 2 * rest - unit := by
      rw [Nat.mod_eq_sub_mod hhalf, Nat.mod_eq_of_lt (by omega)]
    by_cases htie : 2 * rest % unit = 0
    · have hrounded : rounded = kept + kept % 2 := by
        simp [rounded, hhalf, htie, ExtendedMantissa.roundedMantissa, ExtendedMantissa.accuracy,
          Accuracy.roundToNearestEven]
      omega
    · have hrounded : rounded = kept + 1 := by
        simp [rounded, hhalf, htie, ExtendedMantissa.roundedMantissa, ExtendedMantissa.accuracy,
          Accuracy.roundToNearestEven]
      exact .inr ⟨hrounded, hhalf⟩
  · refine .inl ⟨?_, by omega⟩
    by_cases hrest : 2 * rest % unit = 0 <;>
      simp [rounded, hhalf, hrest, ExtendedMantissa.roundedMantissa, ExtendedMantissa.accuracy,
        Accuracy.roundToNearestEven]

/-- The mantissa after `k` bits were shifted out and it was rounded. -/
def roundedAfter (mantissa k : Nat) : Nat :=
  (ExtendedMantissa.ofMantissaAndAccuracy mantissa .exact >>> k).roundedMantissa

/-- Rounding is off by no more than half of the last bit. -/
theorem roundedAfter_near (mantissa k : Nat) :
    2 * (roundedAfter mantissa k * 2 ^ k) ≤ 2 * mantissa + 2 ^ k ∧
      2 * mantissa ≤ 2 * (roundedAfter mantissa k * 2 ^ k) + 2 ^ k := by
  have hlt : mantissa % 2 ^ k < 2 ^ k := Nat.mod_lt _ (Nat.two_pow_pos k)
  have hsplit : mantissa / 2 ^ k * 2 ^ k + mantissa % 2 ^ k = mantissa := Nat.div_add_mod' _ _
  rw [roundedAfter, shiftRight_exact]
  rcases roundedMantissa_eq (mantissa / 2 ^ k) hlt with ⟨heq, hrest⟩ | ⟨heq, hrest⟩
  · rw [heq]
    omega
  · rw [heq, Nat.add_one_mul (mantissa / 2 ^ k)]
    omega

/-- When all but 53 bits are shifted out, 53 bits are left, or the next power of two. -/
theorem roundedAfter_bounds {mantissa k : Nat} (h : mantissa.log2 = 52 + k) :
    2 ^ 52 ≤ roundedAfter mantissa k ∧ roundedAfter mantissa k ≤ 2 ^ 53 := by
  obtain ⟨hlow, hhigh⟩ := bounds_of_log2 h
  obtain ⟨hover, hunder⟩ := roundedAfter_near mantissa k
  have hpos := Nat.two_pow_pos k
  rw [Nat.pow_add] at hlow
  rw [show 52 + k + 1 = 53 + k by omega, Nat.pow_add] at hhigh
  generalize 2 ^ k = unit at *
  generalize roundedAfter mantissa k = rounded at *
  constructor
  · by_contra hless
    have : (rounded + 1) * unit ≤ 2 ^ 52 * unit := Nat.mul_le_mul_right _ (by omega)
    rw [Nat.add_one_mul] at this
    omega
  · by_contra hmore
    have : (2 ^ 53 + 1) * unit ≤ rounded * unit := Nat.mul_le_mul_right _ (by omega)
    rw [Nat.add_one_mul] at this
    omega

/-! ## Normal doubles -/

theorem targetExponent_of_log2 {mantissa k : Nat} (h : mantissa.log2 = 52 + k) {exponent : Int}
    (hexponent : -1074 ≤ exponent + k) :
    Format.binary64.targetExponent (totalExponent mantissa exponent) = exponent + k := by
  rw [targetExponent_eq, totalExponent, h]
  omega

/-- A mantissa with too many bits loses the lower ones. -/
theorem shiftToTargetExponent_of_log2 {mantissa k : Nat} (h : mantissa.log2 = 52 + k)
    {exponent : Int} (hexponent : -1074 ≤ exponent + k) :
    shiftToTargetExponent .binary64 mantissa exponent .exact =
      (ExtendedMantissa.ofMantissaAndAccuracy mantissa .exact >>> k, exponent + k) := by
  have hshift : (exponent + k - exponent).toNat = k := by omega
  rw [shiftToTargetExponent, targetExponent_of_log2 h hexponent]
  simp only [shiftToExponent, hshift]

/-- Rounding ends in all 53 bits: in those that were left, or in half of a power of two that they
were rounded up to. -/
theorem roundWithAccuracy_of_log2 {mantissa k : Nat} (h : mantissa.log2 = 52 + k) (exponent : Int)
    (hexponent : -1074 ≤ exponent + k) :
    ∃ rounded carry, ∃ hpos : 0 < rounded,
      roundWithAccuracy .binary64 .positive mantissa exponent .exact =
        .finite .positive rounded (exponent + k + (carry : Nat)) hpos ∧
      rounded.log2 = 52 ∧ carry ≤ 1 ∧ rounded * 2 ^ carry = roundedAfter mantissa k := by
  obtain ⟨hlow, hhigh⟩ := roundedAfter_bounds h
  have hround (carry : Nat) (hlog : (roundedAfter mantissa k).log2 = 52 + carry) :
      ∃ hpos : 0 < roundedAfter mantissa k / 2 ^ carry,
        roundWithAccuracy .binary64 .positive mantissa exponent .exact =
          .finite .positive (roundedAfter mantissa k / 2 ^ carry) (exponent + k + carry) hpos := by
    have hpos : 0 < roundedAfter mantissa k / 2 ^ carry := by
      refine Nat.div_pos ?_ (Nat.two_pow_pos _)
      have := Nat.log2_self_le (n := roundedAfter mantissa k) (by omega)
      rw [hlog] at this
      exact Nat.le_trans (Nat.pow_le_pow_right (by decide) (by omega)) this
    have hsecond : shiftToTargetExponent .binary64
        (ExtendedMantissa.ofMantissaAndAccuracy mantissa .exact >>> k).roundedMantissa
        (exponent + k) .exact =
          (ExtendedMantissa.ofMantissaAndAccuracy (roundedAfter mantissa k) .exact >>> carry,
            exponent + k + carry) :=
      shiftToTargetExponent_of_log2 hlog (by omega)
    rw [shiftRight_exact (roundedAfter mantissa k)] at hsecond
    refine ⟨hpos, ?_⟩
    unfold roundWithAccuracy
    simp only [shiftToTargetExponent_of_log2 h hexponent, hsecond]
    exact dif_neg (Nat.ne_of_gt hpos)
  rcases Nat.lt_or_eq_of_le hhigh with hless | hcarried
  · have hlog : (roundedAfter mantissa k).log2 = 52 :=
      (Nat.log2_eq_iff (by omega)).mpr ⟨hlow, hless⟩
    obtain ⟨hpos, heq⟩ := hround 0 hlog
    simp only [Nat.pow_zero, Nat.div_one] at hpos heq
    exact ⟨_, 0, hpos, heq, hlog, by decide, Nat.mul_one _⟩
  · have hlog : (roundedAfter mantissa k).log2 = 53 := by
      rw [hcarried, Nat.log2_two_pow]
    obtain ⟨hpos, heq⟩ := hround 1 hlog
    refine ⟨_, 1, hpos, heq, ?_, by decide, ?_⟩
    · rw [hcarried]
      decide +kernel
    · rw [hcarried, Nat.div_mul_cancel (Nat.pow_dvd_pow 2 (by decide))]

/-- The double is a mantissa with all 53 bits, divided by a power of two. -/
structure IsNormal (x : Float) (mantissa depth : Nat) : Prop where
  log2 : mantissa.log2 = 52
  unpacked : ∃ hpos, x.toModel.unpack = .finite .positive mantissa (-(depth : Int)) hpos

/-- Nothing is rounded that has no more than 53 bits. -/
theorem roundWithAccuracy_of_normal {mantissa : Nat} (h : mantissa.log2 = 52) {exponent : Int}
    (hexponent : -1074 ≤ exponent) (hpos : 0 < mantissa) :
    roundWithAccuracy .binary64 .positive mantissa exponent .exact =
      .finite .positive mantissa exponent hpos := by
  obtain ⟨rounded, carry, _, heq, hlog, _, hvalue⟩ :=
    roundWithAccuracy_of_log2 (k := 0) h exponent (by simpa using hexponent)
  have hvalue : rounded * 2 ^ carry = mantissa := hvalue
  have hnone : carry = 0 := by
    have hrounded := (bounds_of_log2 (k := 0) hlog).1
    have hmantissa := (bounds_of_log2 (k := 0) h).2
    by_contra hcarried
    have hfactor : 2 ^ 1 ≤ 2 ^ carry := Nat.pow_le_pow_right (by decide) (by omega)
    have : 2 ^ 52 * 2 ^ 1 ≤ rounded * 2 ^ carry := Nat.mul_le_mul hrounded hfactor
    omega
  subst hnone
  rw [Nat.pow_zero, Nat.mul_one] at hvalue
  subst hvalue
  simpa using heq

/-- A double that was packed with all its bits. -/
theorem IsNormal.of_pack {x : Float} {u : UnpackedFloat} {mantissa depth : Nat}
    (hx : x.toModel.unpack = unpack .binary64 (pack .binary64 u)) (hpos : 0 < mantissa)
    (hu : u = .finite .positive mantissa (-(depth : Int)) hpos) (hlog : mantissa.log2 = 52)
    (hdepth : depth ≤ 1074) : IsNormal x mantissa depth := by
  refine ⟨hlog, hpos, ?_⟩
  rw [hx, hu]
  exact unpack_pack_of_normal hpos hlog (by omega) (by omega)

/-- Counts of up to 53 bits are doubles. -/
theorem isNormal_num {count depth : Nat} (hpos : 0 < count) (hlog : count.log2 + depth = 52) :
    IsNormal (num count) (count * 2 ^ depth) depth := by
  have hcount := (Nat.log2_eq_iff (Nat.ne_of_gt hpos)).mp (show count.log2 = 52 - depth by omega)
  have hlog' : (count * 2 ^ depth).log2 = 52 := by
    rw [Nat.log2_eq_iff (Nat.ne_of_gt (Nat.mul_pos hpos (Nat.two_pow_pos depth)))]
    constructor
    · calc 2 ^ 52 = 2 ^ (52 - depth) * 2 ^ depth := by rw [← Nat.pow_add]; congr 1; omega
        _ ≤ count * 2 ^ depth := Nat.mul_le_mul_right _ hcount.1
    · calc count * 2 ^ depth < 2 ^ (52 - depth + 1) * 2 ^ depth :=
          Nat.mul_lt_mul_of_pos_right hcount.2 (Nat.two_pow_pos depth)
        _ = 2 ^ (52 + 1) := by rw [← Nat.pow_add]; congr 1; omega
  have hword : count.toUInt64.toNat = count := by
    rw [Nat.toUInt64, UInt64.toNat_ofNat']
    refine Nat.mod_eq_of_lt (Nat.lt_of_lt_of_le hcount.2 ?_)
    exact Nat.pow_le_pow_right (by decide) (by omega)
  have hpos' : 0 < count * 2 ^ depth := Nat.mul_pos hpos (Nat.two_pow_pos depth)
  refine IsNormal.of_pack (u := UnpackedFloat.ofNat Format.binary64 count.toUInt64.toNat) rfl hpos'
    ?_ hlog' (by omega)
  have htarget : Format.binary64.targetExponent (totalExponent count 0) = -(depth : Int) := by
    rw [targetExponent_eq, totalExponent]
    omega
  have hshift : ((0 : Int) - -(depth : Int)).toNat = depth := by omega
  have hcompare : compare (count : Int) 0 = .gt := Int.compare_eq_gt.mpr (by omega)
  rw [hword, UnpackedFloat.ofNat, UnpackedFloat.ofInt, UnpackedFloat.normalize, hcompare]
  simp only [UnpackedFloat.round, Int.toNat_natCast, htarget, decreaseExponent, hshift,
    Nat.shiftLeft_eq]
  rw [zero_sub]
  exact roundWithAccuracy_of_normal hlog' (by omega) hpos'

/-! ## Products -/

/-- The value is on a grid on which the exact one has 53 bits before the point, and no more than
half a step away from it. -/
def Nearest (value exact : ℚ) : Prop :=
  ∃ depth steps : Nat, value * 2 ^ depth = steps ∧
    2 ^ 52 ≤ exact * 2 ^ depth ∧ exact * 2 ^ depth < 2 ^ 53 ∧
    |value * 2 ^ depth - exact * 2 ^ depth| ≤ 1 / 2

/-- The error is half of the last bit at most, so small next to the exact value. -/
theorem Nearest.abs_sub_le {value exact : ℚ} (h : Nearest value exact) :
    |value - exact| ≤ exact / 2 ^ 53 := by
  obtain ⟨depth, _, _, hlow, _, hnear⟩ := h
  have hpow : (0 : ℚ) < 2 ^ depth := by positivity
  rw [← sub_mul, abs_mul, abs_of_pos hpow] at hnear
  refine le_of_mul_le_mul_right ?_ hpow
  calc |value - exact| * 2 ^ depth
      ≤ 1 / 2 := hnear
    _ = 2 ^ 52 / 2 ^ 53 := by norm_num
    _ ≤ exact * 2 ^ depth / 2 ^ 53 := by gcongr
    _ = exact / 2 ^ 53 * 2 ^ depth := by ring

/-- Counts are on every grid, so one that the exact value exceeds by less than half a step is not
crossed. -/
theorem Nearest.le_of_le {value exact : ℚ} (h : Nearest value exact) {count : Nat}
    (hle : exact ≤ count * (1 + 1 / 2 ^ 54)) : value ≤ count := by
  obtain ⟨depth, steps, hsteps, _, hhigh, hnear⟩ := h
  have hpow : (0 : ℚ) < 2 ^ depth := by positivity
  by_contra hcrossed
  have hover : count * 2 ^ depth + 1 ≤ steps := by
    have : (count * 2 ^ depth : ℚ) < steps := by
      rw [← hsteps]
      exact mul_lt_mul_of_pos_right (not_le.mp hcrossed) hpow
    exact_mod_cast this
  have hover : (count * 2 ^ depth + 1 : ℚ) ≤ value * 2 ^ depth := by
    rw [hsteps]
    exact_mod_cast hover
  have hexact : exact * 2 ^ depth ≤ count * 2 ^ depth * (1 + 1 / 2 ^ 54) :=
    calc exact * 2 ^ depth ≤ count * (1 + 1 / 2 ^ 54) * 2 ^ depth :=
          mul_le_mul_of_nonneg_right hle hpow.le
      _ = count * 2 ^ depth * (1 + 1 / 2 ^ 54) := by ring
  obtain ⟨_, hnear⟩ := abs_le.mp hnear
  -- the count itself would need more than 53 bits on the grid
  generalize (count * 2 ^ depth : ℚ) = whole at hover hexact
  linarith

/-- The error in units of the last bit that is left. -/
theorem abs_roundedAfter_sub_le (mantissa k : Nat) :
    |(roundedAfter mantissa k : ℚ) - mantissa / 2 ^ k| ≤ 1 / 2 := by
  have hpow : (0 : ℚ) < 2 ^ k := by positivity
  obtain ⟨hover, hunder⟩ := roundedAfter_near mantissa k
  have hover : (2 * (roundedAfter mantissa k * 2 ^ k) : ℚ) ≤ 2 * mantissa + 2 ^ k := by
    exact_mod_cast hover
  have hunder : (2 * mantissa : ℚ) ≤ 2 * (roundedAfter mantissa k * 2 ^ k) + 2 ^ k := by
    exact_mod_cast hunder
  refine le_of_mul_le_mul_right ?_ hpow
  rw [← abs_of_pos hpow, ← abs_mul, abs_of_pos hpow, sub_mul, div_mul_cancel₀ _ hpow.ne', abs_le]
  constructor <;> linarith

/-- What is left of a mantissa after rounding is nearest to it, on the grid of the last bit before
the carry. -/
theorem nearest_of_log2 {mantissa k rounded carry depth : Nat} (h : mantissa.log2 = 52 + k)
    (hvalue : rounded * 2 ^ carry = roundedAfter mantissa k) (hdepth : k + carry ≤ depth) :
    Nearest (rounded / 2 ^ (depth - (k + carry))) (mantissa / 2 ^ depth) := by
  have hpow : (0 : ℚ) < 2 ^ k := by positivity
  have hexact : (mantissa / 2 ^ depth : ℚ) * 2 ^ (depth - k) = mantissa / 2 ^ k := by
    have hgrid : depth - k + k = depth := by omega
    rw [← hgrid, pow_add, Nat.add_sub_cancel]
    field_simp
  have hsteps : (rounded / 2 ^ (depth - (k + carry)) : ℚ) * 2 ^ (depth - k) =
      roundedAfter mantissa k := by
    have hgrid : depth - (k + carry) + carry = depth - k := by omega
    rw [← hgrid, pow_add, ← hvalue]
    push_cast
    field_simp
  obtain ⟨hlow, hhigh⟩ := bounds_of_log2 h
  refine ⟨depth - k, roundedAfter mantissa k, hsteps, ?_, ?_, ?_⟩
  · rw [hexact, le_div_iff₀ hpow, ← pow_add]
    exact_mod_cast hlow
  · rw [hexact, div_lt_iff₀ hpow, ← pow_add, show 53 + k = 52 + k + 1 by omega]
    exact_mod_cast hhigh
  · rw [hsteps, hexact]
    exact abs_roundedAfter_sub_le mantissa k

theorem log2_mul {m₁ m₂ : Nat} (h₁ : m₁.log2 = 52) (h₂ : m₂.log2 = 52) :
    104 ≤ (m₁ * m₂).log2 ∧ (m₁ * m₂).log2 < 106 := by
  obtain ⟨hlow₁, hhigh₁⟩ := bounds_of_log2 (k := 0) h₁
  obtain ⟨hlow₂, hhigh₂⟩ := bounds_of_log2 (k := 0) h₂
  have hne : m₁ * m₂ ≠ 0 := Nat.mul_ne_zero (by omega) (by omega)
  rw [Nat.le_log2 hne, Nat.log2_lt hne, show 104 = 52 + 52 from rfl, show 106 = 53 + 53 from rfl,
    Nat.pow_add, Nat.pow_add]
  exact ⟨Nat.mul_le_mul hlow₁ hlow₂, Nat.mul_lt_mul'' hhigh₁ hhigh₂⟩

/-- The product of normal doubles is the normal double nearest to the exact product. -/
theorem IsNormal.mul {x y : Float} {m₁ d₁ m₂ d₂ : Nat} (hx : IsNormal x m₁ d₁)
    (hy : IsNormal y m₂ d₂) (hdeep : 54 ≤ d₁ + d₂) (hshallow : d₁ + d₂ ≤ 1000) :
    ∃ mantissa depth, IsNormal (x * y) mantissa depth ∧
      Nearest (mantissa / 2 ^ depth) (m₁ / 2 ^ d₁ * (m₂ / 2 ^ d₂)) := by
  obtain ⟨hlog₁, hpos₁, hunpack₁⟩ := hx
  obtain ⟨hlog₂, hpos₂, hunpack₂⟩ := hy
  obtain ⟨hlow, hhigh⟩ := log2_mul hlog₁ hlog₂
  obtain ⟨k, hk⟩ := Nat.exists_eq_add_of_le (show 52 ≤ (m₁ * m₂).log2 by omega)
  obtain ⟨rounded, carry, hpos, heq, hlog, hcarry, hvalue⟩ :=
    roundWithAccuracy_of_log2 hk (-(d₁ : Int) + -(d₂ : Int)) (by omega)
  have hdepth : -(d₁ : Int) + -(d₂ : Int) + k + carry =
      -((d₁ + d₂ - (k + carry) : Nat) : Int) := by omega
  have hexact : (m₁ / 2 ^ d₁ * (m₂ / 2 ^ d₂) : ℚ) = (m₁ * m₂ : Nat) / 2 ^ (d₁ + d₂) := by
    rw [div_mul_div_comm, ← pow_add, Nat.cast_mul]
  rw [hdepth] at heq
  refine ⟨rounded, d₁ + d₂ - (k + carry), .of_pack (unpack_mul x y) hpos ?_ hlog (by omega), ?_⟩
  · rw [hunpack₁, hunpack₂]
    exact heq
  · rw [hexact]
    exact nearest_of_log2 hk hvalue (by omega)

theorem IsNormal.mul_zero {x y : Float} {mantissa depth : Nat} (hx : IsNormal x mantissa depth)
    (hy : y.toModel.unpack = .zero .positive) : (x * y).toModel.unpack = .zero .positive := by
  obtain ⟨_, _, hunpack⟩ := hx
  have hzero : UnpackedFloat.mul .binary64 x.toModel.unpack y.toModel.unpack = .zero .positive := by
    rw [hunpack, hy]
    rfl
  rw [unpack_mul, hzero]
  rfl

theorem product_comm (x y : Float) : x * y = y * x := by
  have hsign (s t : Sign) : s * t = t * s := by cases s <;> cases t <;> rfl
  have hunpacked (u v : UnpackedFloat) :
      UnpackedFloat.mul .binary64 u v = UnpackedFloat.mul .binary64 v u := by
    cases u <;> cases v <;>
      simp only [UnpackedFloat.mul, hsign, Nat.mul_comm, Int.add_comm]
  exact congrArg (fun u => Float.ofModel (Float.Model.pack u))
    (hunpacked x.toModel.unpack y.toModel.unpack)

/-! ## Back to counts -/

theorem unpack_num_zero : (num 0 : Float).toModel.unpack = .zero .positive := rfl

/-- Zero comes to no count but zero. -/
theorem ceil_eq_zero {x : Float} (h : x.toModel.unpack = .zero .positive) : Scalar.ceil x = 0 := by
  have htruncate : Scalar.truncate x = 0 := by
    rw [truncate_eq_unpack, h]
    rfl
  have hnot : ¬ (num 0 : Float) < x := by
    rw [lt_iff_unpack, unpack_num_zero, h]
    exact nofun
  unfold Scalar.ceil
  rw [htruncate, if_neg hnot]

theorem IsNormal.truncate_eq {x : Float} {mantissa depth : Nat} (h : IsNormal x mantissa depth) :
    Scalar.truncate x = mantissa / 2 ^ depth := by
  obtain ⟨hlog, hpos, hunpack⟩ := h
  have hint : (x.toModel.unpack.toInt 0 (UInt64.size - 1)).toNat = mantissa / 2 ^ depth := by
    have hshift : ((0 : Int) - -(depth : Int)).toNat = depth := by omega
    have hnone : (-(depth : Int)).toNat = 0 := by omega
    rw [hunpack]
    simp only [UnpackedFloat.toInt, roundToInt, decreaseExponent, shiftToExponent, Sign.apply,
      Int.toNat_natCast, sub_zero, hnone, Nat.shiftLeft_zero, Int.natCast_zero, hshift,
      shiftRight_exact]
  have hsmall : mantissa / 2 ^ depth < UInt64.size :=
    (Nat.div_le_self _ _).trans_lt ((bounds_of_log2 (k := 0) hlog).2.trans (by decide))
  rw [truncate_eq_unpack, hint, UInt64.ofNatClamp, dif_pos hsmall]
  rfl

theorem IsNormal.lt_iff {x y : Float} {m₁ m₂ depth : Nat} (hx : IsNormal x m₁ depth)
    (hy : IsNormal y m₂ depth) : x < y ↔ m₁ < m₂ := by
  obtain ⟨_, _, hx⟩ := hx
  obtain ⟨_, _, hy⟩ := hy
  rw [lt_iff_unpack, hx, hy]
  simp [UnpackedFloat.lt, UnpackedFloat.compare, Nat.compare_eq_lt]

theorem IsNormal.zero_lt {x : Float} {mantissa depth : Nat} (h : IsNormal x mantissa depth) :
    (num 0 : Float) < x := by
  obtain ⟨_, _, hunpack⟩ := h
  rw [lt_iff_unpack, unpack_num_zero, hunpack]
  rfl

/-- The whole part of a double is a double on the same grid. -/
theorem IsNormal.num_lt_iff {x : Float} {mantissa depth : Nat} (h : IsNormal x mantissa depth) :
    (num (mantissa / 2 ^ depth) : Float) < x ↔ mantissa / 2 ^ depth * 2 ^ depth < mantissa := by
  have hmantissa := bounds_of_log2 (k := 0) h.log2
  have hpos : 0 < mantissa := by omega
  rcases Nat.eq_zero_or_pos (mantissa / 2 ^ depth) with hzero | hwhole
  · rw [hzero, Nat.zero_mul]
    exact iff_of_true h.zero_lt hpos
  · have hdepth : depth ≤ 52 := by
      have hlt : 2 ^ depth < 2 ^ 53 := (Nat.div_pos_iff.mp hwhole).2.trans_lt hmantissa.2
      exact Nat.lt_succ_iff.mp ((Nat.pow_lt_pow_iff_right (by decide)).mp hlt)
    have hlog : (mantissa / 2 ^ depth).log2 + depth = 52 := by
      have : (mantissa / 2 ^ depth).log2 = 52 - depth := by
        rw [Nat.log2_eq_iff (by omega), Nat.le_div_iff_mul_le (Nat.two_pow_pos depth),
          Nat.div_lt_iff_lt_mul (Nat.two_pow_pos depth), ← Nat.pow_add, ← Nat.pow_add,
          show 52 - depth + depth = 52 by omega, show 52 - depth + 1 + depth = 53 by omega]
        exact hmantissa
      omega
    exact (isNormal_num hwhole hlog).lt_iff h

/-- Rounded up, a double is the least count that is not below it. -/
theorem IsNormal.ceil_eq {x : Float} {mantissa depth : Nat} (h : IsNormal x mantissa depth) :
    Scalar.ceil x = ⌈(mantissa / 2 ^ depth : ℚ)⌉₊ := by
  have hpow : (0 : ℚ) < 2 ^ depth := by positivity
  have hsplit : mantissa / 2 ^ depth * 2 ^ depth + mantissa % 2 ^ depth = mantissa :=
    Nat.div_add_mod' _ _
  have hrest : mantissa % 2 ^ depth < 2 ^ depth := Nat.mod_lt _ (Nat.two_pow_pos depth)
  unfold Scalar.ceil
  rw [h.truncate_eq, if_congr h.num_lt_iff rfl rfl]
  generalize mantissa / 2 ^ depth = whole at *
  split
  · next hmore =>
    have hsmall : whole + 1 ≤ wordBound - 1 := by
      have : whole ≤ whole * 2 ^ depth := Nat.le_mul_of_pos_right _ (Nat.two_pow_pos depth)
      have := (bounds_of_log2 (k := 0) h.log2).2
      simp only [wordBound]
      omega
    have hclamp : Nat.min (whole + 1) (wordBound - 1) = whole + 1 := Nat.min_eq_left hsmall
    rw [hclamp, eq_comm, Nat.ceil_eq_iff (Nat.succ_ne_zero whole),
      lt_div_iff₀ hpow, div_le_iff₀ hpow]
    constructor
    · exact_mod_cast hmore
    · have : mantissa ≤ (whole + 1) * 2 ^ depth := by
        rw [Nat.add_one_mul]
        omega
      exact_mod_cast this
  · next hsame =>
    have hwhole : mantissa = whole * 2 ^ depth := by omega
    rw [hwhole, Nat.cast_mul, Nat.cast_pow, Nat.cast_ofNat, mul_div_cancel_right₀ _ hpow.ne',
      Nat.ceil_natCast]

end PauseGoal.Double
