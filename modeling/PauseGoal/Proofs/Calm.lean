import PauseGoal.Policy.Start
import PauseGoal.Policy.FullCollection
import PauseGoal.Policy.Concurrent
import PauseGoal.Proofs.Outcome

/-!
# Computations that leave the marking cycle alone

Sizing, prediction and accounting can end in many faults: counts overflow, ages come from the
future, bounds cross. None of these faults is about the marking cycle. The lemmas say so of each
computation, in the order in which they build on one another.
-/

namespace PauseGoal

open Checked (Calm calm_ok calm_pure calm_ite gives_demand calm_mapM)

variable {α : Type}

/-! ## Counts -/

namespace Word

theorem gives_add (a b : Nat) : Checked.Gives (add a b : Checked α Nat) fun c => c = a + b := by
  unfold add
  split
  · exact rfl
  · exact rfl

theorem calm_add (a b : Nat) : Calm (add a b : Checked α Nat) := (gives_add a b).calm

theorem calm_sub (a b : Nat) : Calm (sub a b : Checked α Nat) := by
  unfold sub
  exact calm_ite (calm_ok _) rfl

theorem calm_mul (a b : Nat) : Calm (mul a b : Checked α Nat) := by
  unfold mul
  exact calm_ite (calm_ok _) rfl

theorem calm_div (a b : Nat) : Calm (div a b : Checked α Nat) := by
  unfold div
  exact calm_ite rfl (calm_ok _)

end Word

theorem calm_ceilPercent (value percent : Nat) : Calm (ceilPercent value percent : Checked α Nat) :=
  (Word.calm_mul _ _).bind fun _ => calm_ite (Word.calm_add _ _) (calm_pure _)

/-! ## Survivors -/

namespace SurvivorAges

theorem calm_firstExceeding (desired : Nat) (sizes : List Nat) (age sum : Nat) :
    Calm (firstExceeding desired sizes age sum : Checked α (Option Nat)) := by
  induction sizes generalizing age sum with
  | nil => exact calm_ok _
  | cons size older ih =>
    exact (Word.calm_add _ _).bind fun _ => calm_ite (calm_pure _) (ih _ _)

theorem calm_threshold (ages : SurvivorAges) (desired maximum : Nat) :
    Calm (ages.threshold desired maximum : Checked α Nat) := by
  refine calm_ite (calm_ok _) ((calm_firstExceeding _ _ _ _).bind fun found => ?_)
  cases found with
  | none => exact calm_pure _
  | some age => exact calm_pure _

theorem calm_merge (ages other : SurvivorAges) :
    Calm (ages.merge other : Checked α SurvivorAges) := by
  unfold merge
  dsimp only
  split
  · exact calm_ok _
  · exact rfl

theorem calm_logSizes (sizes : List Nat) (age sum : Nat) :
    Logged.Calm (logSizes sizes age sum : Logged α Unit) := by
  induction sizes generalizing age sum with
  | nil => exact Logged.calm_pure _
  | cons size older ih =>
    unfold logSizes
    split
    · exact ih _ _
    · exact (Logged.calm_ofChecked (Word.calm_add _ _)).bind fun _ =>
        (Logged.calm_write _ _ _).bind fun _ => ih _ _

theorem calm_log (ages : SurvivorAges) (desired threshold maximum : Nat) :
    Logged.Calm (ages.log desired threshold maximum : Logged α Unit) := by
  refine (Logged.calm_write _ _ _).bind fun _ => (Logged.calm_keeps _).bind fun keeps => ?_
  cases keeps with
  | false => exact Logged.calm_pure _
  | true => exact calm_logSizes _ _ _

end SurvivorAges

variable [Scalar α]

namespace SurvivalGroup

omit [Scalar α] in
theorem calm_ageOf (g : SurvivalGroup α) (index : Nat) : Calm (g.ageOf index) := by
  unfold ageOf
  exact calm_ite (calm_ok _) rfl

theorem calm_record (g : SurvivalGroup α) (age bytes regionSize : Nat) :
    Calm (g.record age bytes regionSize) := by
  unfold record
  exact calm_ite (calm_ok _) rfl

end SurvivalGroup

/-! ## Utilization, accounting and the marking threshold -/

namespace Utilization.Tracker

theorem calm_create (slice limit : α) : Calm (create slice limit) :=
  (gives_demand rfl).calm.bind fun _ => calm_pure _

theorem calm_add (t : Tracker α) (start finish : α) : Logged.Calm (t.add start finish) := by
  unfold add
  dsimp only
  split
  · exact (Logged.calm_write _ _ _).bind fun _ => Logged.calm_pure _
  · exact Logged.calm_pure _

theorem calm_releaseMoment (moment : α) (pauses : List (Span α)) (excess : α) :
    Calm (releaseMoment moment pauses excess) := by
  induction pauses generalizing excess with
  | nil => exact rfl
  | cons s rest ih => exact calm_ite (calm_ok _) (ih _)

theorem calm_delay (t : Tracker α) (now pause : α) : Calm (t.delay now pause) :=
  calm_ite (calm_pure _) ((calm_releaseMoment _ _ _).bind fun _ => calm_pure _)

end Utilization.Tracker

theorem Pause.Record.calm_create (kind : Pause.Kind) (start finish : α) :
    Calm (Record.create kind start finish) :=
  (gives_demand rfl).calm.bind fun _ => calm_pure _

theorem Pause.Breakdown.calm_log (b : Breakdown α) (pause : α) : Logged.Calm (b.log pause) :=
  (Logged.calm_write _ _ _).bind fun _ => (Logged.calm_write _ _ _).bind fun _ =>
    (Logged.calm_write _ _ _).bind fun _ => Logged.calm_write _ _ _

theorem CostModel.calm_entryCount (m : CostModel α) : Calm m.entryCount := Word.calm_add _ _

namespace Marking

theorem Forecast.calm_safeOccupancy (f : Forecast α) (target : Nat) :
    Calm (f.safeOccupancy target) :=
  (gives_demand rfl).calm.bind fun _ => (Word.calm_add _ _).bind fun _ => calm_pure _

theorem Forecast.calm_threshold (f : Forecast α) (target : Nat) : Calm (f.threshold target) :=
  (Word.calm_add _ _).bind fun _ => (f.calm_safeOccupancy target).bind fun _ => calm_pure _

namespace Threshold

theorem calm_create (percent : α) (forecast : Option (Forecast α)) :
    Calm (create percent forecast) :=
  (gives_demand rfl).calm.bind fun _ => calm_pure _

theorem calm_byPercentage (t : Threshold α) : Calm t.byPercentage :=
  (gives_demand rfl).calm.bind fun _ => calm_pure _

theorem calm_bytes (t : Threshold α) : Calm t.bytes := by
  unfold bytes
  split
  · exact t.calm_byPercentage
  · next f _ => exact f.calm_threshold t.target

theorem calm_addAllocation (t : Threshold α) (time : α) (bytes youngSize : Nat) :
    Calm (t.addAllocation time bytes youngSize) :=
  (gives_demand rfl).calm.bind fun _ => calm_pure _

theorem calm_addMarking (t : Threshold α) (length : α) : Calm (t.addMarking length) := by
  unfold addMarking
  split
  · exact (gives_demand rfl).calm.bind fun _ => calm_pure _
  · exact (gives_demand rfl).calm.bind fun _ => calm_pure _

theorem calm_report (t : Threshold α) (current : Nat) : Calm (t.report current) :=
  t.calm_bytes.bind fun _ => calm_pure _

end Threshold

theorem Report.calm_log (r : Report α) : Logged.Calm r.log := by
  refine (Logged.calm_write _ _ _).bind fun _ => ?_
  split
  · exact Logged.calm_write _ _ _
  · exact Logged.calm_pure _

end Marking

/-! ## The young generation -/

namespace Young

omit [Scalar α] in
theorem Sizer.calm_regionsOf (size regionSize : Nat) :
    Calm (Sizer.regionsOf size regionSize : Checked α Nat) :=
  (Word.calm_div _ _).bind fun _ => calm_pure _

omit [Scalar α] in
theorem Sizer.calm_bySizes (settings : Settings α) : Calm (Sizer.bySizes settings) := by
  unfold Sizer.bySizes
  split
  · exact calm_ite (calm_pure _) <| (Sizer.calm_regionsOf _ _).bind fun _ =>
      (Sizer.calm_regionsOf _ _).bind fun _ => calm_pure _
  · exact (Sizer.calm_regionsOf _ _).bind fun _ => calm_pure _
  · exact (Sizer.calm_regionsOf _ _).bind fun _ => calm_pure _
  · exact calm_pure _

omit [Scalar α] in
theorem Sizer.calm_ofSettings (settings : Settings α) :
    Logged.Calm (Sizer.ofSettings settings) := by
  unfold Sizer.ofSettings
  split
  · exact Logged.calm_ofChecked (Sizer.calm_bySizes settings)
  · split
    · exact (Logged.calm_write _ _ _).bind fun _ =>
        Logged.calm_ofChecked (Sizer.calm_bySizes settings)
    · exact Logged.calm_pure _

omit [Scalar α] in
theorem Sizer.calm_regionsOfPercent (heapRegions percent : Nat) :
    Calm (Sizer.regionsOfPercent heapRegions percent : Checked α Nat) := by
  unfold Sizer.regionsOfPercent
  exact (Word.calm_mul _ _).bind fun _ => calm_pure _

omit [Scalar α] in
theorem Sizer.calm_boundsFor (z : Sizer) (heapRegions : Nat) :
    Calm (z.boundsFor heapRegions : Checked α (Nat × Nat)) := by
  unfold Sizer.boundsFor
  split
  · exact (Sizer.calm_regionsOfPercent _ _).bind fun _ =>
      (Sizer.calm_regionsOfPercent _ _).bind fun _ => calm_pure _
  · exact (Sizer.calm_regionsOfPercent _ _).bind fun _ => calm_pure _
  · exact (Sizer.calm_regionsOfPercent _ _).bind fun _ => calm_pure _
  · exact calm_pure _
  · exact calm_pure _

omit [Scalar α] in
theorem Sizer.calm_resize (z : Sizer) (heapRegions : Nat) :
    Calm (z.resize heapRegions : Checked α Sizer) :=
  (gives_demand rfl).calm.bind fun _ => (z.calm_boundsFor heapRegions).bind fun _ =>
    (gives_demand rfl).calm.bind fun _ => calm_pure _

theorem Forecast.calm_fits (f : Forecast α) (length : Nat) : Calm (f.fits length) :=
  calm_ite (calm_ok _) (calm_ite (calm_ok _) ((Word.calm_mul _ _).bind fun _ => calm_pure _))

variable {fits : Nat → Checked α Bool}

omit [Scalar α] in
theorem calm_bisect (hfits : ∀ length, Calm (fits length)) (low high : Nat) :
    Calm (bisect fits low high) := by
  induction low, high using bisect.induct with
  | case1 low high h =>
    rw [bisect, dif_pos h]
    exact calm_ok _
  | case2 low high h ih_low ih_high =>
    rw [bisect, dif_neg h]
    exact (hfits _).bind fun _ => calm_ite ih_low ih_high

omit [Scalar α] in
theorem calm_largestFitting (hfits : ∀ length, Calm (fits length)) (low high : Nat) :
    Calm (largestFitting low high fits) :=
  (gives_demand rfl).calm.bind fun _ => (hfits _).bind fun _ =>
    calm_ite ((hfits _).bind fun _ => calm_ite (calm_pure _) (calm_bisect hfits _ _)) (calm_pure _)

omit [Scalar α] in
theorem Bounds.calm_search (hfits : ∀ length, Calm (fits length)) (b : Bounds) (survivors : Nat) :
    Calm (b.search survivors fits) :=
  calm_ite (calm_ok _) <| (gives_demand rfl).calm.bind fun _ =>
    (Word.calm_sub _ _).bind fun _ => (Word.calm_sub _ _).bind fun _ =>
      (calm_largestFitting hfits _ _).bind fun _ => calm_pure _

omit [Scalar α] in
theorem Bounds.calm_target (hfits : ∀ length, Calm (fits length)) (b : Bounds) (survivors : Nat)
    (searching : Bool) : Calm (b.target survivors searching fits) := by
  unfold Bounds.target
  dsimp only
  split
  · exact (calm_pure _).bind fun _ => calm_pure _
  · split
    · exact (b.calm_search hfits survivors).bind fun _ => calm_pure _
    · exact (calm_pure _).bind fun _ => calm_pure _

end Young

/-! ## Old regions -/

namespace OldRegions

omit [Scalar α] in
theorem Stop.calm_log (limits : Limits α) (stop : Stop α) : Logged.Calm (stop.log limits) := by
  cases stop with
  | exhausted => exact Logged.calm_pure _
  | atMost => exact Logged.calm_write _ _ _
  | atLeast => exact Logged.calm_write _ _ _
  | waste reclaimable percent => exact Logged.calm_write _ _ _
  | time => exact Logged.calm_write _ _ _

theorem calm_takeOptional (regions : List OldRegion) (most : Nat) (available : α)
    (cost : OldRegion → α) : Logged.Calm (takeOptional regions most available cost) := by
  unfold takeOptional
  split
  · exact Logged.calm_pure _
  · exact (Logged.calm_write _ _ _).bind fun _ => Logged.calm_pure _

theorem calm_chooseOptional (candidates : Candidates) (most : Nat) (timeLeft : α)
    (cost : OldRegion → α) : Logged.Calm (chooseOptional candidates most timeLeft cost) :=
  (calm_takeOptional _ _ _ _).bind fun _ => (Logged.calm_write _ _ _).bind fun _ =>
    Logged.calm_pure _

end OldRegions

end PauseGoal
