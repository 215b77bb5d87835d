import PauseGoal.Proofs.AgeTables
import PauseGoal.Proofs.Exact
import PauseGoal.Proofs.Traces

/-!
# What the tenuring threshold follows from

The threshold of a pause is chosen at its start from the table of the survivors of the last pause.
Workers fill tables of their own, which arrive one by one in any order; at the start of a pause the
table of the policy holds all that arrived since the start of the pause before, nothing else and
nothing twice. So it is the table of all additions, however they were split. Until the next start
only an exhausted survivor space changes the threshold, and only to zero.
-/

namespace PauseGoal

variable {α : Type} [Scalar α]

/-! ## The desired size -/

/-- The two parts of the percentage add up to the percentage of the whole. -/
theorem percent_in_parts (capacity percent : Nat) :
    capacity / 100 * percent + capacity % 100 * percent / 100 = capacity * percent / 100 := by
  have hsplit : capacity * percent =
      100 * (capacity / 100 * percent) + capacity % 100 * percent := by
    rw [← Nat.mul_assoc, ← Nat.add_mul, Nat.div_add_mod]
  omega

namespace Policy

omit [Scalar α] in
/-- The desired size is the exact percentage of the capacity, rounded down, whenever the capacity is
a word. -/
theorem desiredSurvivorBytes_eq_ok_iff {p : Policy α} (hfill : p.settings.survivorFillPercent ≤ 100)
    {regions desired : Nat} :
    p.desiredSurvivorBytes regions = .ok desired ↔
      regions * p.settings.regionSize < wordBound ∧
        desired = regions * p.settings.regionSize * p.settings.survivorFillPercent / 100 := by
  unfold desiredSurvivorBytes
  by_cases hword : regions * p.settings.regionSize < wordBound
  · rw [Word.mul_eq_ok_iff.mpr ⟨hword, rfl⟩]
    generalize regions * p.settings.regionSize = capacity at hword
    generalize p.settings.survivorFillPercent = percent at hfill
    have hhundreds : capacity / 100 * percent ≤ capacity :=
      Nat.le_trans (Nat.mul_le_mul_left _ hfill) (Nat.div_mul_le_self _ _)
    have hrest : capacity % 100 * percent ≤ 100 * 100 :=
      Nat.mul_le_mul (Nat.le_of_lt (Nat.mod_lt capacity (by decide))) hfill
    have hparts := percent_in_parts capacity percent
    have hpercent : capacity * percent / 100 ≤ capacity := by
      refine Nat.div_le_of_le_mul ?_
      rw [Nat.mul_comm 100]
      exact Nat.mul_le_mul_left _ hfill
    have hbound : (100 * 100 : Nat) < wordBound := by decide
    simp only [bind, Except.bind]
    rw [Word.mul_eq_ok_iff.mpr ⟨(by omega : capacity / 100 * percent < wordBound), rfl⟩]
    simp only
    rw [Word.mul_eq_ok_iff.mpr ⟨(by omega : capacity % 100 * percent < wordBound), rfl⟩]
    simp only
    rw [Word.add_eq_ok_iff, hparts]
    constructor
    · rintro ⟨_, rfl⟩
      exact ⟨hword, rfl⟩
    · rintro ⟨_, rfl⟩
      exact ⟨by omega, rfl⟩
  · constructor
    · intro h
      obtain ⟨capacity, hcapacity, _⟩ := Checked.exists_of_bind_eq_ok h
      exact absurd (Word.mul_eq_ok_iff.mp hcapacity).1 hword
    · exact fun h => absurd h.1 hword

/-- A threshold is chosen without a fault if capacity, survivors and available regions are words. -/
theorem chooseTenuring_succeeds {p : Policy α} {heap : Heap α}
    (hfill : p.settings.survivorFillPercent ≤ 100)
    (hcapacity : p.desiredSurvivorRegions * p.settings.regionSize < wordBound)
    (hages : p.ages.sizes.sum < wordBound) (havailable : heap.free + heap.expandable < wordBound) :
    (p.chooseTenuring heap).Succeeds := by
  obtain ⟨threshold, hthreshold⟩ := SurvivorAges.threshold_of_words (α := α) hages
    (p.desiredSurvivorRegions * p.settings.regionSize * p.settings.survivorFillPercent / 100)
    p.settings.maxTenuring
  have hdesired := (desiredSurvivorBytes_eq_ok_iff hfill).mpr ⟨hcapacity, rfl⟩
  refine Act.succeeds_bind_ofChecked hdesired (Act.succeeds_bind_ofChecked hthreshold ?_)
  refine (Act.succeeds_ofLogged (SurvivorAges.log_succeeds hages _ _ _)).bind fun _ => ?_
  refine Act.succeeds_bind_ofChecked (Word.add_eq_ok_iff.mpr ⟨havailable, rfl⟩) ?_
  exact (Act.succeeds_report _).bind fun _ => Act.succeeds_pure _

end Policy

namespace Collector

/-! ## Tables since the last start -/

omit [Scalar α] in
/-- The table that a worker hands over. -/
def Call.table? : Call α → Option SurvivorAges
  | .chore (.recordAges ages) => some ages
  | _ => none

omit [Scalar α] in
def Call.exhausts : Call α → Bool
  | .chore .exhaustSurvivorSpace => true
  | _ => false

omit [Scalar α] in
/-- The tables handed over since the last start of a pause. -/
def tablesSince (t : List (Moment α)) : List SurvivorAges :=
  (sinceLast (fun m => m.call.startsPause) t).filterMap fun m => m.call.table?

omit [Scalar α] in
theorem tablesSince_concat (t : List (Moment α)) (w : World α) (c : Call α) :
    tablesSince (t ++ [⟨w, c⟩]) =
      if c.startsPause then [] else tablesSince t ++ c.table?.toList := by
  unfold tablesSince
  rw [sinceLast_concat]
  split
  · rfl
  · rw [List.filterMap_append]
    cases htable : c.table? <;> simp [htable]

/-- Age by age, a table is the sum of others, and all sums are words. -/
def IsSumOf (table : SurvivorAges) (tables : List SurvivorAges) : Prop :=
  ∀ i < ageCount, table.bytesAt i = (tables.map fun t => t.bytesAt i).sum ∧
    table.bytesAt i < wordBound

/-- What a call does to the table and the threshold. -/
theorem RegisterStep.tenuring {w : World α} {c : Call α} {r : Register α}
    (h : RegisterStep w c r) :
    (if c.startsPause then r.ages = .empty
      else match c.table? with
        | none => r.ages = w.policy.ages
        | some table => w.policy.ages.merge table = (.ok r.ages : Checked α SurvivorAges)) ∧
      (c.startsPause = false →
        r.tenuring = if c.exhausts then 0 else w.policy.tenuring) := by
  cases h with
  | @kept c hkeeps =>
    cases c with
    | chore chore => cases chore <;> first | exact ⟨rfl, fun _ => rfl⟩ | cases hkeeps
    | _ => first | exact ⟨rfl, fun _ => rfl⟩ | cases hkeeps
  | @recordSurvivors tag => cases tag.population <;> exact ⟨rfl, fun _ => rfl⟩
  | recordAges hmerge => exact ⟨hmerge, fun _ => rfl⟩
  | startPause => exact ⟨rfl, nofun⟩
  | _ => exact ⟨rfl, fun _ => rfl⟩

/-- The table of the policy is the sum of the tables handed over since the last start. -/
theorem Traces.isSumOf {allowed : List (Moment α) → Call α → Bool} {w₀ w : World α}
    {t : List (Moment α)} (hrun : Traces allowed w₀ t w)
    (hempty : w₀.policy.ages = .empty) :
    IsSumOf w.policy.ages (tablesSince t) := by
  have nothing : IsSumOf .empty [] := fun i _ => ⟨SurvivorAges.bytesAt_empty i, by
    rw [SurvivorAges.bytesAt_empty]; decide⟩
  induction hrun with
  | start =>
    rw [hempty]
    exact nothing
  | @call t w w' c _ _ hcall ih =>
    have hages := (World.registered_of_call hcall).tenuring.1
    rw [tablesSince_concat]
    split at hages
    · next hstarts =>
      rw [show w'.policy.ages = .empty from hages, if_pos hstarts]
      exact nothing
    · next hstarts =>
      rw [if_neg hstarts]
      cases htable : c.table? with
      | none =>
        rw [htable] at hages
        rw [show w'.policy.ages = w.policy.ages from hages, Option.toList_none, List.append_nil]
        exact ih
      | some table =>
        rw [htable] at hages
        intro i hi
        obtain ⟨hsum, hword⟩ := SurvivorAges.merge_eq_ok_iff.mp hages i hi
        refine ⟨?_, hword⟩
        rw [List.map_append, List.sum_append, ← (ih i hi).1]
        exact hsum.trans (by simp)

omit [Scalar α] in
/-- Each of the tables holds the additions of one list. -/
def FilledBy (α : Type) (tables : List SurvivorAges) (counts : List (List (Nat × Nat))) : Prop :=
  List.Forall₂
    (fun t additions => SurvivorAges.empty.addAll additions = (.ok t : Checked α SurvivorAges))
    tables counts

omit [Scalar α] in
/-- A sum of tables is the table of all that was added to them, in any order. -/
theorem IsSumOf.addAll {table : SurvivorAges} {tables : List SurvivorAges}
    (h : IsSumOf table tables) {counts : List (List (Nat × Nat))}
    (hcounts : FilledBy α tables counts) {all : List (Nat × Nat)} (hall : all.Perm counts.flatten) :
    SurvivorAges.empty.addAll all = (.ok table : Checked α SurvivorAges) := by
  have hsums (i : Nat) (hi : i < ageCount) :
      (tables.map fun t => t.bytesAt i).sum = SurvivorAges.counted counts.flatten i := by
    clear h hall
    induction hcounts with
    | nil => rfl
    | cons hadd _ ih =>
      rw [List.map_cons, List.sum_cons, List.flatten_cons, SurvivorAges.counted_append, ih,
        (SurvivorAges.addAll_empty_eq_ok_iff.mp hadd i hi).1]
  refine SurvivorAges.addAll_empty_eq_ok_iff.mpr fun i hi => ?_
  obtain ⟨hsum, hword⟩ := h i hi
  exact ⟨by rw [hsum, hsums i hi, SurvivorAges.counted_perm hall], hword⟩

/-! ## The threshold between two starts -/

/-- As long as no pause starts, only an exhausted survivor space changes the threshold. -/
theorem Traces.tenuring_eq {allowed : List (Moment α) → Call α → Bool} {w w' : World α}
    {between : List (Moment α)} (hrun : Traces allowed w between w')
    (hnone : ∀ m ∈ between, m.call.startsPause = false) :
    w'.policy.tenuring =
      if between.any fun m => m.call.exhausts then 0 else w.policy.tenuring := by
  induction hrun with
  | start => rfl
  | @call t w₁ w₂ c _ _ hcall ih =>
    have htenuring := (World.registered_of_call hcall).tenuring.2
      (hnone ⟨w₁, c⟩ (List.mem_append_right _ List.mem_cons_self))
    have ih := ih fun m hm => hnone m (List.mem_append_left _ hm)
    rw [show w₂.policy.tenuring = _ from htenuring, ih, List.any_append, List.any_cons,
      List.any_nil, Bool.or_false]
    cases c.exhausts <;> cases t.any fun m => m.call.exhausts <;> rfl

/-! ## The starts of pauses -/

/-- The start of a pause reports the threshold that it chooses and nothing else. -/
theorem World.tenured_of_call {w w' : World α} {heap : Heap α} {start : α}
    (h : w.call (.startPause heap start) = .ok w') :
    ∃ desired, w.policy.desiredSurvivorBytes w.policy.desiredSurvivorRegions = .ok desired ∧
      w.policy.ages.threshold desired w.policy.settings.maxTenuring =
        (.ok w'.policy.tenuring : Checked α Nat) ∧
      w'.journal.events =
        w.journal.events ++ [.tenuring w'.policy.tenuring desired w'.policy.maxSurvivors] := by
  obtain ⟨w₁, hperform, hpolicy, hjournal⟩ := exists_perform_of_call h
  obtain ⟨p, journal, hout, rfl⟩ := exists_of_act_eq_ok hperform
  obtain ⟨events, happend, ⟨desired, hdesired, hthreshold, rfl⟩, _⟩ :=
    w.policy.startPause_reports (w.view heap) start _ _ _ hout
  rw [hpolicy, hjournal]
  exact ⟨desired, hdesired, hthreshold, happend⟩

/-- At every start of a pause, in whatever order a run without faults makes its calls, the threshold
is the one of the table of all additions to the tables handed over since the last start, in any
order and however they were split, for the exact percentage of the survivor regions wanted; and so
it is reported. At each age the table holds the bytes added there, and at the oldest one also those
added above it. The percentage is a word whenever the regions are. It is found without a fault if
the capacity, all additions and the available regions are words. Up to the next start only an
exhausted survivor space changes the threshold, to zero. -/
theorem tenuring_follows_survivors {w₀ w : World α} {t : List (Moment α)} (hfresh : w₀.Fresh)
    (hrun : Traces anyCall w₀ t w) :
    let capacity := w.policy.desiredSurvivorRegions * w.policy.settings.regionSize
    let desired := capacity * w.policy.settings.survivorFillPercent / 100
    (∀ counts all, FilledBy α (tablesSince t) counts → all.Perm counts.flatten →
      ∃ table, SurvivorAges.empty.addAll all = (.ok table : Checked α SurvivorAges) ∧
        (∀ i < ageCount, table.bytesAt i = SurvivorAges.counted all i) ∧
        (∀ heap start w', w.call (.startPause heap start) = .ok w' →
          table.threshold desired w.policy.settings.maxTenuring =
            (.ok w'.policy.tenuring : Checked α Nat) ∧
          w'.journal.events =
            w.journal.events ++ [.tenuring w'.policy.tenuring desired w'.policy.maxSurvivors]) ∧
        ∀ heap, capacity < wordBound → (all.map Prod.snd).sum < wordBound →
          heap.free + heap.expandable < wordBound → (w.policy.chooseTenuring heap).Succeeds) ∧
    (∀ regions, regions * w.policy.settings.regionSize < wordBound →
      w.policy.desiredSurvivorBytes regions =
        .ok (regions * w.policy.settings.regionSize * w.policy.settings.survivorFillPercent /
          100)) ∧
    ∀ between w', Traces anyCall w between w' →
      (∀ m ∈ between, m.call.startsPause = false) →
      w'.policy.tenuring =
        if between.any fun m => m.call.exhausts then 0 else w.policy.tenuring := by
  intro capacity desired
  have hfill : w.policy.settings.survivorFillPercent ≤ 100 := by
    rw [hrun.constants.1]
    exact hfresh.valid.percentages
      ("target_survivor_ratio", w₀.policy.settings.survivorFillPercent)
      (by simp [Settings.percentages])
  have hempty : w₀.policy.ages = .empty := congrArg Register.ages hfresh.register_eq
  refine ⟨?_, ?_, ?_⟩
  · intro counts all hcounts hall
    have hadded := (hrun.isSumOf hempty).addAll hcounts hall
    refine ⟨w.policy.ages, hadded, ?_, ?_, ?_⟩
    · intro i hi
      exact (SurvivorAges.addAll_empty_eq_ok_iff.mp hadded i hi).1
    · intro heap start w' hcall
      obtain ⟨bytes, hbytes, hthreshold, hevents⟩ := World.tenured_of_call hcall
      obtain ⟨_, rfl⟩ := (Policy.desiredSurvivorBytes_eq_ok_iff hfill).mp hbytes
      exact ⟨hthreshold, hevents⟩
    · intro heap hcapacity htotal havailable
      refine Policy.chooseTenuring_succeeds hfill hcapacity ?_ havailable
      rw [SurvivorAges.sum_sizes_addAll hadded]
      simpa [SurvivorAges.empty] using htotal
  · intro regions hword
    exact (Policy.desiredSurvivorBytes_eq_ok_iff hfill).mpr ⟨hword, rfl⟩
  · intro between w' hbetween hnone
    exact hbetween.tenuring_eq hnone

/-- Two workers hand over tables in a pause; what one of them added at age 20 counts at the oldest
age. Of the two regions wanted, half should be in use; up to age 2 the survivors take more. -/
theorem tenuring_follows_two_workers :
    let first : SurvivorAges := ⟨0 :: 600000 :: List.replicate 14 0, rfl⟩
    let second : SurvivorAges := ⟨0 :: 0 :: 500000 :: List.replicate 12 0 ++ [7], rfl⟩
    let calls :=
      plainPause plainHeap 10 [.chore (.recordAges first), .chore (.recordAges second)] ++
        [.beginPause, .decide plainHeap]
    ∃ policy after t w w' table,
      (Policy.start plainSettings plainHeap 1 []).outcome {} = (.ok (.ok policy), after) ∧
        Traces anyCall (.opened policy after) t w ∧ t.map Moment.call = calls ∧
        SurvivorAges.empty.addAll [(2, 500000), (1, 600000), (20, 7)] =
          (.ok table : Checked Rat SurvivorAges) ∧ table.bytesAt 15 = 7 ∧
        w.call (.startPause plainHeap 20) = .ok w' ∧ w'.policy.tenuring = 2 ∧
        w'.journal.events =
          w.journal.events ++ [.tenuring 2 1048576 w'.policy.maxSurvivors] := by
  intro first second calls
  obtain ⟨policy, after, t, w, hstart, hrun, hcalls, hends⟩ :=
    exists_trace anyCall plainSettings plainHeap 1 calls
      (P := fun t w => decide (tablesSince t = [first, second]) &&
        decide (w.policy.settings = plainSettings) &&
        decide (w.policy.desiredSurvivorRegions = 2) && (w.call (.startPause plainHeap 20)).toBool)
      (by decide +kernel)
  simp only [Bool.and_eq_true, decide_eq_true_eq] at hends
  obtain ⟨⟨⟨htables, hsettings⟩, hregions⟩, hcalled⟩ := hends
  obtain ⟨w', hcall⟩ := Checked.exists_of_toBool hcalled
  have hfilled : FilledBy Rat (tablesSince t) [[(1, 600000)], [(20, 7), (2, 500000)]] := by
    rw [htables]
    exact .cons (by decide) (.cons (by decide) .nil)
  -- the additions of both workers, mixed
  obtain ⟨table, hadded, hbytes, hstarts, _⟩ :=
    (tenuring_follows_survivors (.intro hstart) hrun).1 _ [(2, 500000), (1, 600000), (20, 7)]
      hfilled (by decide)
  obtain ⟨hthreshold, hevents⟩ := hstarts plainHeap 20 w' hcall
  rw [hregions, hsettings] at hthreshold hevents
  have htenuring : w'.policy.tenuring = 2 := by
    have htable : SurvivorAges.empty.addAll [(2, 500000), (1, 600000), (20, 7)] =
        (.ok ⟨0 :: 600000 :: 500000 :: List.replicate 12 0 ++ [7], rfl⟩ :
          Checked Rat SurvivorAges) := by decide
    obtain rfl := Except.ok.inj (htable.symm.trans hadded)
    have htwo : (.ok 2 : Checked Rat Nat) = .ok w'.policy.tenuring :=
      Eq.trans (by decide) hthreshold
    exact (Except.ok.inj htwo).symm
  rw [htenuring] at hevents
  exact ⟨policy, after, t, w, w', table, hstart, hrun, hcalls, hadded,
    hbytes 15 (by decide), hcall, htenuring, hevents⟩

end Collector

end PauseGoal
