import PauseGoal.Percent
import PauseGoal.Proofs.DoubleRounding
import PauseGoal.Proofs.SizerResizes
import PauseGoal.Proofs.Startup
import PauseGoal.Proofs.YoungRuns

/-!
# Percentages of counts, rounded up in doubles

The reserve and the room for the expansion of the young generation are percentages of counts that
are rounded up after they were computed in doubles: the percentage is made a share first, and the
share is multiplied with the count. Both steps round. For counts below `2 ^ 40` the errors are far
below a hundredth, so they matter only where the exact percentage is a whole number: there an error
upwards makes the result one more than it has to be. Of the percentages up to a hundred, the shares
of twelve are so far above that this happens.
-/

namespace PauseGoal

/-! ## Exact percentages -/

/-- A percentage of a count, rounded up. -/
def roundedUp (percent count : Nat) : Nat := ⌈(count * percent / 100 : ℚ)⌉₊

theorem roundedUp_eq (percent count : Nat) :
    roundedUp percent count = (count * percent + 99) / 100 := by
  refine eq_of_forall_ge_iff fun n => ?_
  have hscaled : (count * percent / 100 : ℚ) ≤ n ↔ count * percent ≤ n * 100 := by
    rw [div_le_iff₀ (by norm_num)]
    exact_mod_cast Iff.rfl
  rw [roundedUp, Nat.ceil_le, hscaled]
  omega

theorem ceilPercent_eq {α : Type} {percent count : Nat} (h : count * percent < wordBound) :
    (ceilPercent count percent : Checked α Nat) = .ok (roundedUp percent count) := by
  have hproduct : (Word.mul count percent : Checked α Nat) = .ok (count * percent) :=
    Word.mul_eq_ok_iff.mpr ⟨h, rfl⟩
  rw [ceilPercent, hproduct, roundedUp_eq]
  generalize count * percent = scaled at h
  show (if 100 * (scaled / 100) < scaled then Word.add (scaled / 100) 1
    else .ok (scaled / 100) : Checked α Nat) = _
  split
  · have hword : scaled / 100 + 1 < wordBound := by
      simp only [wordBound] at h ⊢
      omega
    rw [Word.add_eq_ok_iff.mpr ⟨hword, rfl⟩]
    congr 1
    omega
  · congr 1
    omega

/-- A number that is less than a hundredth away from a number of hundredths is rounded up as that
is, but for a whole number that it is above. -/
theorem ceil_of_near {value : ℚ} {hundredths : Nat} (hpos : 0 < hundredths)
    (hnear : |value - hundredths / 100| < 1 / 100) :
    ⌈value⌉₊ = (hundredths + 99) / 100 ∨
      100 ∣ hundredths ∧ (hundredths / 100 : Nat) < value ∧
        ⌈value⌉₊ = (hundredths + 99) / 100 + 1 := by
  obtain ⟨habove, hbelow⟩ := abs_lt.mp hnear
  have hsplit : (hundredths : ℚ) = 100 * (hundredths / 100 : Nat) + (hundredths % 100 : Nat) := by
    exact_mod_cast (Nat.div_add_mod hundredths 100).symm
  have hrest : hundredths % 100 < 100 := Nat.mod_lt _ (by decide)
  by_cases hwhole : 100 ∣ hundredths
  · obtain ⟨whole, rfl⟩ := hwhole
    rw [Nat.mul_mod_right, Nat.cast_zero, add_zero] at hsplit
    rw [Nat.mul_div_cancel_left _ (by decide)] at hsplit ⊢
    rw [hsplit] at habove hbelow
    have hup : (100 * whole + 99) / 100 = whole := by omega
    rw [hup]
    by_cases hle : value ≤ whole
    · left
      rw [Nat.ceil_eq_iff (by omega), Nat.cast_sub (by omega), Nat.cast_one]
      exact ⟨by linarith, hle⟩
    · right
      refine ⟨Nat.dvd_mul_right 100 whole, not_le.mp hle, ?_⟩
      rw [Nat.ceil_eq_iff (Nat.succ_ne_zero whole), Nat.succ_sub_one]
      push_cast
      exact ⟨not_le.mp hle, by linarith⟩
  · left
    have hup : (hundredths + 99) / 100 = hundredths / 100 + 1 := by omega
    have hlow : (1 : ℚ) ≤ (hundredths % 100 : Nat) := by
      exact_mod_cast Nat.pos_of_ne_zero fun hzero => hwhole (Nat.dvd_of_mod_eq_zero hzero)
    have hhigh : ((hundredths % 100 : Nat) : ℚ) ≤ 99 := by
      exact_mod_cast Nat.le_of_lt_succ hrest
    rw [hup, Nat.ceil_eq_iff (Nat.succ_ne_zero _), Nat.succ_sub_one]
    push_cast
    exact ⟨by linarith, by linarith⟩

/-! ## Percentages in doubles -/

/-- A percentage of a count, rounded up in doubles. -/
def shareUp (percent count : Nat) : Nat :=
  Scalar.ceil (num count * (num percent / num 100 : Float))

/-- Percentages with a count at which doubles come to one more. -/
def crossings : List (Nat × Nat) :=
  [(7, 100), (14, 50), (17, 300), (27, 900), (28, 25), (34, 150), (54, 450), (55, 100), (56, 25),
    (67, 1500), (68, 75), (81, 300)]

theorem shareUp_of_crossing :
    ∀ c ∈ crossings, c.2 < 2 ^ 40 ∧ shareUp c.1 c.2 = roundedUp c.1 c.2 + 1 := by
  decide +kernel

/-- The percentages that may come to one more. -/
def crossingPercents : List Nat := crossings.map Prod.fst

/-- The share is the percentage up to half of its last bit. If the percentage is not listed above,
the share is above it by a quarter of its last bit at most. -/
structure IsShare (percent : Nat) (share : ℚ) : Prop where
  near : |share - percent / 100| ≤ percent / 100 / 2 ^ 53
  below : percent ∉ crossingPercents → share ≤ percent / 100 * (1 + 1 / 2 ^ 54)

instance IsShare.decidable (percent : Nat) (share : ℚ) : Decidable (IsShare percent share) :=
  decidable_of_iff
    (|share - percent / 100| ≤ percent / 100 / 2 ^ 53 ∧
      (percent ∉ crossingPercents → share ≤ percent / 100 * (1 + 1 / 2 ^ 54)))
    ⟨fun h => ⟨h.1, h.2⟩, fun h => ⟨h.near, h.below⟩⟩

/-- The double is a share with all bits of the mantissa in use. -/
def UnpacksToShare (percent : Nat) : Float.Model.UnpackedFloat → Prop
  | .finite .positive mantissa exponent _ =>
    mantissa.log2 = 52 ∧ -100 ≤ exponent ∧ exponent ≤ -52 ∧
      IsShare percent (mantissa / 2 ^ (-exponent).toNat)
  | _ => False

instance UnpacksToShare.decidable (percent : Nat) : DecidablePred (UnpacksToShare percent)
  | .finite .positive mantissa exponent _ =>
    inferInstanceAs (Decidable (mantissa.log2 = 52 ∧ -100 ≤ exponent ∧ exponent ≤ -52 ∧
      IsShare percent (mantissa / 2 ^ (-exponent).toNat)))
  | .finite .negative _ _ _ => .isFalse id
  | .zero _ => .isFalse id
  | .infinity _ => .isFalse id
  | .notANumber => .isFalse id

theorem exists_share {percent : Nat} (h : percent ≤ 100) (hpos : 0 < percent) :
    ∃ mantissa depth, Double.IsNormal (num percent / num 100) mantissa depth ∧
      52 ≤ depth ∧ depth ≤ 100 ∧ IsShare percent (mantissa / 2 ^ depth) := by
  have hall : ∀ n ≤ 100, 0 < n →
      UnpacksToShare n (num n / num 100 : Float).toModel.unpack := by decide +kernel
  have hshare := hall percent h hpos
  revert hshare
  generalize hunpack : (num percent / num 100 : Float).toModel.unpack = u
  intro hshare
  match u, hshare with
  | .finite .positive mantissa exponent hmantissa, ⟨hlog, hshallow, hdeep, hshare⟩ =>
    refine ⟨mantissa, (-exponent).toNat, ⟨hlog, hmantissa, ?_⟩, by omega, by omega, hshare⟩
    rw [hunpack]
    congr 1
    omega

/-- Both errors together are far below a hundredth. -/
theorem IsShare.near_hundredths {percent count : Nat} {share value : ℚ} (h : IsShare percent share)
    (hpercent : percent ≤ 100) (hcount : count < 2 ^ 40)
    (hvalue : Double.Nearest value (count * share)) :
    |value - (count * percent : Nat) / 100| < 1 / 100 := by
  have hcount : (count : ℚ) ≤ 2 ^ 40 := by exact_mod_cast hcount.le
  have hpercent : (percent / 100 : ℚ) ≤ 1 := by
    rw [div_le_one (by norm_num)]
    exact_mod_cast hpercent
  have hshare : share ≤ 2 := by
    have := (abs_le.mp h.near).2
    linarith
  have hproduct : (count * percent : Nat) / 100 = (count * (percent / 100) : ℚ) := by
    push_cast
    ring
  have hfirst : |(count * share : ℚ) - count * (percent / 100)| ≤ 2 ^ 40 * (1 / 2 ^ 53) := by
    rw [← mul_sub, abs_mul, Nat.abs_cast]
    refine mul_le_mul hcount (h.near.trans ?_) (abs_nonneg _) (by norm_num)
    exact div_le_div_of_nonneg_right hpercent (by norm_num)
  have hsecond : |value - count * share| ≤ 2 ^ 40 * 2 / 2 ^ 53 :=
    hvalue.abs_sub_le.trans <| div_le_div_of_nonneg_right
      (mul_le_mul_of_nonneg hcount hshare (Nat.cast_nonneg count) (by norm_num)) (by norm_num)
  rw [hproduct]
  calc |value - count * (percent / 100)|
      ≤ |value - count * share| + |(count * share : ℚ) - count * (percent / 100)| :=
        abs_sub_le _ _ _
    _ ≤ 2 ^ 40 * 2 / 2 ^ 53 + 2 ^ 40 * (1 / 2 ^ 53) := add_le_add hsecond hfirst
    _ < 1 / 100 := by norm_num

/-- A whole percentage is not crossed by the shares that are not listed. -/
theorem IsShare.le_of_dvd {percent count : Nat} {share value : ℚ} (h : IsShare percent share)
    (hlisted : percent ∉ crossingPercents) (hwhole : 100 ∣ count * percent)
    (hvalue : Double.Nearest value (count * share)) : value ≤ (count * percent / 100 : Nat) := by
  refine hvalue.le_of_le ?_
  have hproduct : ((count * percent / 100 : Nat) : ℚ) = count * (percent / 100) := by
    rw [Nat.cast_div hwhole (by norm_num)]
    push_cast
    ring
  rw [hproduct, mul_assoc]
  exact mul_le_mul_of_nonneg_left (h.below hlisted) (Nat.cast_nonneg count)

/-- What doubles come to when they round up a percentage of a count, next to what integers do. -/
structure RoundsUp (percent count share : Nat) : Prop where
  integer : (ceilPercent count percent : Checked Float Nat) = .ok (roundedUp percent count)
  exact : percent ∉ crossingPercents ∨ ¬ 100 ∣ count * percent →
    share = roundedUp percent count
  le : roundedUp percent count ≤ share
  le_succ : share ≤ roundedUp percent count + 1

theorem exists_isNormal_num {count : Nat} (hpos : 0 < count) (hcount : count < 2 ^ 40) :
    ∃ depth, 12 < depth ∧ depth ≤ 52 ∧ Double.IsNormal (num count) (count * 2 ^ depth) depth := by
  have hbits : count.log2 < 40 := (Nat.log2_lt (Nat.ne_of_gt hpos)).mpr hcount
  exact ⟨52 - count.log2, by omega, by omega, Double.isNormal_num hpos (by omega)⟩

theorem shareUp_zero_percent {count : Nat} (hcount : count < 2 ^ 40) : shareUp 0 count = 0 := by
  have hzero : (num 0 / num 100 : Float).toModel.unpack = .zero .positive := rfl
  rcases Nat.eq_zero_or_pos count with rfl | hpos
  · exact Double.ceil_eq_zero rfl
  · obtain ⟨_, _, _, hnormal⟩ := exists_isNormal_num hpos hcount
    exact Double.ceil_eq_zero (hnormal.mul_zero hzero)

theorem shareUp_zero_count {percent : Nat} (h : percent ≤ 100) (hpos : 0 < percent) :
    shareUp percent 0 = 0 := by
  obtain ⟨_, _, hnormal, _⟩ := exists_share h hpos
  rw [shareUp, Double.product_comm]
  exact Double.ceil_eq_zero (hnormal.mul_zero Double.unpack_num_zero)

theorem shareUp_eq_or {percent count : Nat} (hpercent : percent ≤ 100) (hcount : count < 2 ^ 40) :
    shareUp percent count = roundedUp percent count ∨
      percent ∈ crossingPercents ∧ 100 ∣ count * percent ∧
        shareUp percent count = roundedUp percent count + 1 := by
  rw [roundedUp_eq]
  rcases Nat.eq_zero_or_pos percent with rfl | hpercent_pos
  · left
    rw [shareUp_zero_percent hcount, Nat.mul_zero]
  rcases Nat.eq_zero_or_pos count with rfl | hcount_pos
  · left
    rw [shareUp_zero_count hpercent hpercent_pos, Nat.zero_mul]
  obtain ⟨mantissa, depth, hshared, hdeep, hshallow, hshare⟩ := exists_share hpercent hpercent_pos
  obtain ⟨depth', hdeep', hshallow', hcounted⟩ := exists_isNormal_num hcount_pos hcount
  obtain ⟨rounded, depth'', hproduct, hnearest⟩ := hcounted.mul hshared (by omega) (by omega)
  have hexact : ((count * 2 ^ depth' : Nat) / 2 ^ depth' : ℚ) = count := by
    push_cast
    field_simp
  rw [hexact] at hnearest
  rw [shareUp, hproduct.ceil_eq]
  rcases ceil_of_near (Nat.mul_pos hcount_pos hpercent_pos)
    (hshare.near_hundredths hpercent hcount hnearest) with heq | ⟨hwhole, habove, heq⟩
  · exact .inl heq
  · right
    refine ⟨?_, hwhole, heq⟩
    by_contra hlisted
    exact absurd (hshare.le_of_dvd hlisted hwhole hnearest) (not_le.mpr habove)

theorem roundsUp {percent count : Nat} (hpercent : percent ≤ 100) (hcount : count < 2 ^ 40) :
    RoundsUp percent count (shareUp percent count) := by
  have hword : count * percent < wordBound :=
    (Nat.mul_le_mul hcount.le hpercent).trans_lt (by decide)
  refine ⟨ceilPercent_eq hword, fun hexact => ?_, ?_, ?_⟩
  all_goals rcases shareUp_eq_or hpercent hcount with heq | ⟨hlisted, hwhole, heq⟩
  · exact heq
  · exact absurd hexact (not_or.mpr ⟨not_not.mpr hlisted, not_not.mpr hwhole⟩)
  all_goals omega

/-- The percentages listed above are those that are not always rounded up exactly. -/
theorem shareUp_exact_iff {percent : Nat} (h : percent ≤ 100) :
    (∀ count < 2 ^ 40, shareUp percent count = roundedUp percent count) ↔
      percent ∉ crossingPercents := by
  constructor
  · rintro hexact hlisted
    obtain ⟨⟨_, count⟩, hmem, rfl⟩ := List.mem_map.mp hlisted
    obtain ⟨hcount, habove⟩ := shareUp_of_crossing _ hmem
    exact Nat.succ_ne_self _ (habove.symm.trans (hexact count hcount))
  · intro hlisted count hcount
    exact (roundsUp h hcount).exact (.inl hlisted)

/-! ## The reserve and the maximum over runs -/

open Young (Sizer)

/-- The maximum leaves room for the expansion of the target. -/
def Plan.Expanded (plan : Plan Float) : Prop :=
  plan.youngMaximum =
    plan.youngTarget + shareUp plan.settings.expansionPercent plan.youngTarget

theorem Policy.Sized.expanded {p : Policy Float} {heap : Heap Float} {now : Float}
    {estimate unbounded : Nat} (h : p.Sized heap now estimate unbounded) : p.plan.Expanded := by
  have hexpansion : p.youngExpansion p.youngTarget =
      shareUp p.settings.expansionPercent p.youngTarget := by
    rw [shareUp, Double.product_comm]
    rfl
  exact h.maximum.trans (congrArg (p.youngTarget + ·) hexpansion)

theorem Policy.exists_resize {p : Policy Float} {regions : Nat} (hordered : p.sizer.Ordered)
    (hregions : 0 < regions) (hproduct : regions * p.sizer.largestPercent < wordBound)
    (hbytes : regions * p.settings.regionSize < wordBound) : ∃ q, p.resize regions = .ok q := by
  have hmeets : Checked.Meets (p.resize regions) (fun _ => True) fun _ => False := by
    refine (hordered.resize_meets hregions hproduct).bind ?_
    rintro _ rfl
    refine (Word.meets_mul fun hover => absurd hbytes (Nat.not_lt.mpr hover)).bind fun _ _ => ?_
    exact Checked.meets_pure trivial
  obtain ⟨q, hq, _⟩ := hmeets.exists_eq_ok
  exact ⟨q, hq⟩

namespace Collector

section

variable {s : Settings Float} {z : Sizer} {free regions : Nat} {w w' : World Float} {c : Call Float}
  {calls : List (Call Float)}

theorem Planned.expanded (h : Planned w c w') (hw : w.policy.plan.Expanded) :
    w'.policy.plan.Expanded := by
  cases h with
  | kept _ _ _ hplan =>
    rw [hplan]
    exact hw
  | resized _ _ _ hplan =>
    rw [hplan]
    exact hw
  | chosen _ _ hchosen =>
    obtain ⟨_, hsized⟩ := hchosen.sized
    exact hsized.expanded

theorem expanded_of_run (h : w.run calls = .ok w') (hw : w.policy.plan.Expanded) :
    w'.policy.plan.Expanded := by
  induction calls generalizing w with
  | nil =>
    cases h
    exact hw
  | cons c rest ih =>
    obtain ⟨w₁, hcall, hrest⟩ := Checked.exists_of_bind_eq_ok h
    exact ih hrest ((World.planned_of_call hcall).expanded hw)

/-- A heap size whose bytes can be counted is taken note of. -/
theorem exists_resized (hcurrent : w.policy.plan.Current s z free regions) (hvalid : s.Valid)
    (hchosen : Sizer.Chosen s (.ok z)) {count : Nat} (hpos : 0 < count) (hcount : count < 2 ^ 40)
    (hbytes : count * s.regionSize < wordBound) :
    ∃ w', w.call (.chore (.resize count)) = .ok w' := by
  have hsizer : w.policy.sizer = z.forHeap regions := hcurrent.sizer
  have hsettings : w.policy.settings = s := hcurrent.settings
  have hlargest : w.policy.sizer.largestPercent ≤ 100 := by
    have hpercent : z.largestPercent = s.largestYoungPercent := by
      cases hchosen <;> rfl
    rw [hsizer]
    exact hpercent ▸ hvalid.percentages ("max_new_size_percent", _) (by simp [Settings.percentages])
  have hproduct : count * w.policy.sizer.largestPercent < wordBound :=
    (Nat.mul_le_mul hcount.le hlargest).trans_lt (by decide)
  have hordered : w.policy.sizer.Ordered :=
    hsizer ▸ (hchosen.ordered hvalid.youngPercents).forHeap regions
  obtain ⟨q, hq⟩ := Policy.exists_resize hordered hpos hproduct (hsettings.symm ▸ hbytes)
  have hperform : w.perform (.chore (.resize count)) = .ok { w with policy := q } := by
    show (do return { w with policy := ← w.policy.resize count } : Checked Float _) = _
    rw [hq]
    rfl
  rw [World.call, hperform]
  exact ⟨_, rfl⟩

end

/-- Over every run from a start the reserve is the percentage of the heap size that was told last,
and the maximum is the target and the percentage of it, each rounded up. For counts below `2 ^ 40`
the rounding is that of the integers if the percentage is not among the listed ones or the exact
percentage is no whole number, and at most one more otherwise. A heap size whose bytes can be
counted is never refused. Each of the listed percentages does come to one more. -/
theorem shares_rounded_up (s : Settings Float) (heap : Heap Float) (now : Float)
    (fullCauses : List Cause) {before after : Journal Float} {policy : Policy Float}
    (hstart : (Policy.start s heap now fullCauses).outcome before = (.ok (.ok policy), after)) :
    (∀ calls w, (World.opened policy after).run calls = .ok w →
      (regionsAfter heap.regions calls < 2 ^ 40 →
        RoundsUp s.reservePercent (regionsAfter heap.regions calls) w.policy.reserve) ∧
      (w.policy.youngTarget < 2 ^ 40 → ∃ expansion,
        w.policy.youngMaximum = w.policy.youngTarget + expansion ∧
          RoundsUp s.expansionPercent w.policy.youngTarget expansion) ∧
      ∀ count, 0 < count → count < 2 ^ 40 → count * s.regionSize < wordBound →
        ∃ w', w.call (.chore (.resize count)) = .ok w' ∧
          RoundsUp s.reservePercent count w'.policy.reserve) ∧
    ∀ percent ≤ 100, (∀ count < 2 ^ 40, shareUp percent count = roundedUp percent count) ↔
      percent ∉ crossingPercents := by
  obtain ⟨_, _, hopening⟩ :=
    (Policy.start_meets_opening s heap now fullCauses).reports _ _ _ hstart
  obtain ⟨z, unbounded, _, hopening⟩ := hopening policy rfl
  have hvalid := hopening.valid
  have hreserve : s.reservePercent ≤ 100 :=
    hvalid.percentages ("reserve_percent", _) (by simp [Settings.percentages])
  have hexpansion : s.expansionPercent ≤ 100 :=
    hvalid.percentages ("gc_locker_eden_expansion_percent", _) (by simp [Settings.percentages])
  obtain ⟨_, hsized⟩ := hopening.sized
  refine ⟨fun calls w hrun => ?_, fun percent h => shareUp_exact_iff h⟩
  have hcurrent := current_of_run hrun hopening.current
  have hexpanded := expanded_of_run hrun hsized.expanded
  refine ⟨fun hregions => ?_, fun htarget => ?_, fun count hpos hcount hbytes => ?_⟩
  · have hw : w.policy.reserve = shareUp s.reservePercent (regionsAfter heap.regions calls) :=
      hcurrent.reserve
    rw [hw]
    exact roundsUp hreserve hregions
  · have hsettings : w.policy.plan.settings = s := hcurrent.settings
    rw [Plan.Expanded, hsettings] at hexpanded
    exact ⟨_, hexpanded, roundsUp hexpansion htarget⟩
  · obtain ⟨w', hcall⟩ := exists_resized hcurrent hvalid hopening.chosen hpos hcount hbytes
    have hcurrent' := (World.planned_of_call hcall).current hcurrent
    have hw' : w'.policy.reserve = shareUp s.reservePercent count := hcurrent'.reserve
    refine ⟨w', hcall, ?_⟩
    rw [hw']
    exact roundsUp hreserve hcount

/-- A reserve of seven percent, which doubles cannot represent. -/
def sevenPercent : Settings Float :=
  { (Settings.default : Settings Float) with reservePercent := 7 }

/-- Seven percent of 101 regions are eight regions, also in doubles, and the target grows by five
percent. -/
theorem shares_of_seven_percent_of_101 :
    ∃ (policy : Policy Float) (after : Journal Float) (w w' : World Float),
      (Policy.start sevenPercent Policy.newHeap (num 1) []).outcome {} =
          (.ok (.ok policy), after) ∧
        (World.opened policy after).run [.chore (.resize 101)] = .ok w ∧
        w.policy.reserve = 8 ∧ w.policy.youngMaximum = w.policy.youngTarget + 1 ∧
        w.call (.chore (.resize 1000)) = .ok w' ∧ w'.policy.reserve ≤ 71 := by
  obtain ⟨policy, after, w, hstart, hrun, hends⟩ :=
    exists_openedRun sevenPercent Policy.newHeap (num 1) [.chore (.resize 101)]
      (P := fun _ w => decide (w.policy.youngTarget = 14))
      (by decide +kernel)
  have htarget := of_decide_eq_true hends
  obtain ⟨hruns, _⟩ := shares_rounded_up sevenPercent Policy.newHeap (num 1) [] hstart
  obtain ⟨hreserve, hmaximum, hresizes⟩ := hruns _ w hrun
  obtain ⟨w', hcall, hshare⟩ := hresizes 1000 (by decide) (by decide) (by decide)
  obtain ⟨expansion, hmaximum, hexpansion⟩ := hmaximum (htarget ▸ by decide)
  have hone : expansion = 1 := by
    rw [hexpansion.exact (.inl (by decide)), htarget]
    decide +kernel
  refine ⟨policy, after, w, w', hstart, hrun, ?_, hone ▸ hmaximum, hcall, ?_⟩
  · rw [(hreserve (by decide)).exact (.inr (by decide))]
    decide +kernel
  · exact hshare.le_succ.trans (by decide +kernel)

/-- Seven percent of 100 regions are seven regions in integers, and eight in doubles. -/
theorem reserve_of_seven_percent_of_100 :
    ∃ (policy : Policy Float) (after : Journal Float) (w : World Float),
      (Policy.start sevenPercent Policy.newHeap (num 1) []).outcome {} =
          (.ok (.ok policy), after) ∧
        (World.opened policy after).run [.chore (.resize 100)] = .ok w ∧
        (ceilPercent 100 sevenPercent.reservePercent : Checked Float Nat) = .ok 7 ∧
        w.policy.reserve = 8 := by
  obtain ⟨policy, after, w, hstart, hrun, hends⟩ :=
    exists_openedRun sevenPercent Policy.newHeap (num 1) [.chore (.resize 100)]
      (P := fun _ w => decide (w.policy.reserve = 8))
      (by decide +kernel)
  exact ⟨policy, after, w, hstart, hrun, rfl, of_decide_eq_true hends⟩

end Collector

end PauseGoal
