import PauseGoal.Proofs.CandidateBytes
import PauseGoal.Proofs.Exact

/-!
# How the old part is sized

Both parts of a selection are prefixes that grow region by region until a test fails or their
maximum is reached. `Greedy` says this of a number, and `Selected` of a budget: of its initial part
against the minimum, the reclaimable space and the initial share of the time, and of its optional
part against the optional share. No arithmetic law is used, so that the sums and comparisons are
those of doubles, in the order of the program.

Main statement: from all candidates, after any removals too, and with limits made for some, a
selection always ends in a budget, and the budget is `Sized`. This spells out what `Selected` comes
to when the minimum does not exceed the maximum.
-/

namespace PauseGoal

variable {α β γ : Type}

/-! ## Logged values -/

namespace Logged

/-- Whatever was written before, the value is `b`. -/
def Yields (x : Logged α β) (b : β) : Prop := ∀ log, (x.run.run log).1 = .ok b

theorem yields_pure (b : β) : (pure b : Logged α β).Yields b := fun _ => rfl

theorem yields_ofChecked {x : Checked α β} {b : β} (h : x = .ok b) : (ofChecked x).Yields b :=
  fun _ => h

theorem yields_write (severity : Severity) (topic : Topic) (pieces : List (Piece α)) :
    (write severity topic pieces).Yields () := fun _ => rfl

theorem Yields.bind {x : Logged α β} {f : β → Logged α γ} {b : β} {c : γ} (hx : x.Yields b)
    (hf : (f b).Yields c) : (x >>= f).Yields c := by
  intro log
  have hvalue := hx log
  rw [run_bind]
  revert hvalue
  cases x.run.run log with
  | mk result log' =>
    intro hvalue
    cases hvalue
    exact hf log'

end Logged

namespace OldRegions

open Logged (yields_pure yields_ofChecked yields_write)

/-! ## Prefixes that grow while a test passes -/

/-- Counting from `start`, the test passes below `count` and fails at `count`, unless `count` is the
most that is allowed. -/
structure Greedy (start most : Nat) (test : Nat → Prop) (count : Nat) : Prop where
  start_le : start ≤ count
  le_most : count ≤ most
  passes : ∀ n, start ≤ n → n < count → test n
  stops : count < most → ¬ test count

namespace Greedy

variable {start most count : Nat} {test test' : Nat → Prop}

theorem at_most (most : Nat) (test : Nat → Prop) : Greedy most most test most where
  start_le := Nat.le_refl _
  le_most := Nat.le_refl _
  passes _ hstart hlt := absurd hlt (Nat.not_lt_of_le hstart)
  stops hlt := absurd hlt (Nat.lt_irrefl _)

theorem stop (hmost : start ≤ most) (h : ¬ test start) : Greedy start most test start where
  start_le := Nat.le_refl _
  le_most := hmost
  passes _ hstart hlt := absurd hlt (Nat.not_lt_of_le hstart)
  stops _ := h

theorem step (h : Greedy (start + 1) most test count) (hstart : test start) :
    Greedy start most test count where
  start_le := Nat.le_of_succ_le h.start_le
  le_most := h.le_most
  passes n hle hlt := by
    rcases Nat.eq_or_lt_of_le hle with rfl | hlater
    · exact hstart
    · exact h.passes n hlater hlt
  stops := h.stops

/-- Only the tests below the most that is allowed matter. -/
theorem congr (h : Greedy start most test count) (hsame : ∀ n, n < most → (test n ↔ test' n)) :
    Greedy start most test' count where
  start_le := h.start_le
  le_most := h.le_most
  passes n hle hlt := (hsame n (Nat.lt_of_lt_of_le hlt h.le_most)).mp (h.passes n hle hlt)
  stops hlt htest := h.stops hlt ((hsame count hlt).mpr htest)

/-- As far as the test passes, the count goes. -/
theorem le_count (h : Greedy start most test count) {n : Nat} (hmost : n ≤ most)
    (hpasses : ∀ k, start ≤ k → k < n → test k) : n ≤ count := by
  rcases Nat.lt_or_ge count n with hlt | hle
  · exact absurd (hpasses count h.start_le hlt) (h.stops (Nat.lt_of_lt_of_le hlt hmost))
  · exact hle

end Greedy

variable [Scalar α]

/-- The predicted time of some regions, added up in their order. -/
def timeOf (cost : OldRegion → α) (rs : List OldRegion) : α := Scalar.sum (rs.map cost)

theorem timeOf_append_singleton (cost : OldRegion → α) (rs : List OldRegion) (r : OldRegion) :
    timeOf cost (rs ++ [r]) = timeOf cost rs + cost r := by
  rw [timeOf, List.map_append]
  exact Scalar.sum_append_singleton _ _

/-- With the region after the first `n` the time is not above the available one. -/
def Fits (cost : OldRegion → α) (available : α) (rs : List OldRegion) (n : Nat) : Prop :=
  ¬ available < timeOf cost (rs.take (n + 1))

/-- What can be reclaimed when the first `n` regions are taken is not yet waste. -/
def Limits.Worthwhile (limits : Limits α) (rs : List OldRegion) (n : Nat) : Prop :=
  ¬ (percentOf (reclaimableIn (rs.drop n)) limits.capacity : α) ≤ limits.wastePercent

/-- The region after the first `n` goes into the initial part. -/
def Limits.TakesInitial (limits : Limits α) (cost : OldRegion → α) (available : α)
    (rs : List OldRegion) (n : Nat) : Prop :=
  n < limits.least ∨ limits.timed = true ∧ limits.Worthwhile rs n ∧ Fits cost available rs n

/-- The region after the first `n` goes into the optional part. -/
def Limits.TakesOptional (limits : Limits α) (cost : OldRegion → α) (available : α)
    (rs : List OldRegion) (n : Nat) : Prop :=
  limits.timed = true ∧ Fits cost available rs n

/-! ## The two loops -/

theorem fits_append {cost : OldRegion → α} {available : α} {done rest : List OldRegion}
    {r : OldRegion} :
    Fits cost available (done ++ r :: rest) done.length ↔
      ¬ available < timeOf cost done + cost r := by
  have htake : (done ++ r :: rest).take (done.length + 1) = done ++ [r] := by
    rw [List.take_length_add_append]
    rfl
  rw [Fits, htake, timeOf_append_singleton]

/-- The region is taken exactly if the loop finds no reason to stop before it. -/
theorem takesInitial_append {limits : Limits α} {cost : OldRegion → α} {available : α}
    {done rest : List OldRegion} {r : OldRegion} :
    limits.TakesInitial cost available (done ++ r :: rest) done.length ↔
      ¬ (limits.least ≤ done.length ∧ limits.timed = false) ∧
      ¬ (limits.least ≤ done.length ∧
        (percentOf (reclaimableIn (r :: rest)) limits.capacity : α) ≤ limits.wastePercent) ∧
      ¬ (limits.least ≤ done.length ∧ available < timeOf cost done + cost r) := by
  rw [Limits.TakesInitial, Limits.Worthwhile, fits_append, List.drop_left]
  rcases Nat.lt_or_ge done.length limits.least with hlt | hleast
  · simp [hlt, Nat.not_le_of_lt hlt]
  · simp [hleast, Nat.not_lt_of_le hleast]

/-- What the rest would free is carried along exactly, so that no difference is negative. -/
theorem initialPart_of_takes {limits : Limits α} {cost : OldRegion → α} {available : α}
    {done rest : List OldRegion} {r : OldRegion} (hroom : done.length < limits.most)
    (htakes : limits.TakesInitial cost available (done ++ r :: rest) done.length) :
    initialPart limits cost available (r :: rest) ⟨done.length, timeOf cost done⟩
        (reclaimableIn (r :: rest)) =
      initialPart limits cost available rest ⟨(done ++ [r]).length, timeOf cost (done ++ [r])⟩
        (reclaimableIn rest) := by
  have hleft : (Word.sub (reclaimableIn (r :: rest)) r.reclaimable : Checked α Nat) =
      .ok (reclaimableIn rest) := by
    rw [reclaimableIn_cons]
    exact Word.sub_eq_ok_iff.mpr ⟨Nat.le_add_right _ _, Nat.add_sub_cancel_left _ _⟩
  obtain ⟨hmore, hworth, hfits⟩ := takesInitial_append.mp htakes
  rw [initialPart, if_neg (Nat.not_le_of_lt hroom), if_neg hmore, if_neg hworth, if_neg hfits,
    hleft, timeOf_append_singleton, List.length_append]
  rfl

theorem exists_initialPart_of_stops {limits : Limits α} {cost : OldRegion → α} {available : α}
    {done rest : List OldRegion} {r : OldRegion}
    (h : done.length < limits.most →
      ¬ limits.TakesInitial cost available (done ++ r :: rest) done.length) :
    ∃ stop, initialPart limits cost available (r :: rest) ⟨done.length, timeOf cost done⟩
      (reclaimableIn (r :: rest)) = .ok (⟨done.length, timeOf cost done⟩, stop) := by
  unfold initialPart
  split
  · exact ⟨_, rfl⟩
  next hroom =>
  split
  · exact ⟨_, rfl⟩
  next hmore =>
  split
  · exact ⟨_, rfl⟩
  next hworth =>
  split
  · exact ⟨_, rfl⟩
  next hfits =>
  exact absurd (takesInitial_append.mpr ⟨hmore, hworth, hfits⟩) (h (Nat.lt_of_not_le hroom))

/-- The initial part goes on from the regions in `done`. -/
theorem initialPart_greedy (limits : Limits α) (cost : OldRegion → α) (available : α)
    (done rest : List OldRegion) (hmost : done.length ≤ limits.most) :
    ∃ count stop,
      initialPart limits cost available rest ⟨done.length, timeOf cost done⟩
          (reclaimableIn rest) =
        .ok (⟨count, timeOf cost ((done ++ rest).take count)⟩, stop) ∧
      Greedy done.length (min limits.most (done ++ rest).length)
        (limits.TakesInitial cost available (done ++ rest)) count := by
  -- on the regions that are left; those taken so far are in `done`
  induction rest generalizing done with
  | nil =>
    rw [List.append_nil, Nat.min_eq_right hmost]
    exact ⟨done.length, .exhausted, by rw [List.take_length]; rfl, Greedy.at_most _ _⟩
  | cons r rest ih =>
    have hlength : done.length < (done ++ r :: rest).length := by simp
    rcases Nat.lt_or_ge done.length limits.most with hroom | hfull
    · by_cases htakes : limits.TakesInitial cost available (done ++ r :: rest) done.length
      · have happend : done ++ [r] ++ rest = done ++ r :: rest := by simp
        have hnext : (done ++ [r]).length = done.length + 1 := by simp
        obtain ⟨count, stop, hpart, hgreedy⟩ := ih (done ++ [r]) (hnext ▸ hroom)
        rw [happend, hnext] at hgreedy
        rw [happend, ← initialPart_of_takes hroom htakes] at hpart
        exact ⟨count, stop, hpart, hgreedy.step htakes⟩
      · obtain ⟨stop, hpart⟩ := exists_initialPart_of_stops fun _ => htakes
        refine ⟨done.length, stop, by rw [List.take_left, hpart], Greedy.stop ?_ htakes⟩
        exact Nat.le_min.mpr ⟨hmost, Nat.le_of_lt hlength⟩
    · have hstops : done.length < limits.most →
          ¬ limits.TakesInitial cost available (done ++ r :: rest) done.length :=
        fun hroom => absurd hroom (Nat.not_lt_of_le hfull)
      obtain ⟨stop, hpart⟩ := exists_initialPart_of_stops hstops
      have hlast : min limits.most (done ++ r :: rest).length = done.length := by omega
      rw [hlast]
      exact ⟨done.length, stop, by rw [List.take_left, hpart], Greedy.at_most _ _⟩

theorem fittingPart_greedy (cost : OldRegion → α) (available : α) (done rest : List OldRegion) :
    ∃ count skipped,
      fittingPart cost available rest ⟨done.length, timeOf cost done⟩ =
        (⟨count, timeOf cost ((done ++ rest).take count)⟩, skipped) ∧
      Greedy done.length (done ++ rest).length (Fits cost available (done ++ rest)) count := by
  induction rest generalizing done with
  | nil =>
    refine ⟨done.length, none, ?_, ?_⟩
    · rw [List.take_left]
      rfl
    · rw [List.append_nil]
      exact Greedy.at_most _ _
  | cons r rest ih =>
    unfold fittingPart
    split
    · next hlong =>
      refine ⟨done.length, _, by rw [List.take_left], Greedy.stop ?_ ?_⟩
      · rw [List.length_append]
        exact Nat.le_add_right _ _
      · exact fun h => fits_append.mp h hlong
    · next hshort =>
      have happend : done ++ [r] ++ rest = done ++ r :: rest := by simp
      obtain ⟨count, skipped, hpart, hgreedy⟩ := ih (done ++ [r])
      rw [happend, List.length_append] at hgreedy
      rw [happend, List.length_append, timeOf_append_singleton] at hpart
      exact ⟨count, skipped, hpart, hgreedy.step (fits_append.mpr hshort)⟩

theorem Part.none_eq (cost : OldRegion → α) :
    (Part.none : Part α) = ⟨([] : List OldRegion).length, timeOf cost []⟩ := rfl

theorem takeOptional_greedy (regions : List OldRegion) (most : Nat) (available : α)
    (cost : OldRegion → α) :
    ∃ count,
      (takeOptional regions most available cost).Yields
        ⟨count, timeOf cost (regions.take count)⟩ ∧
      Greedy 0 (min most regions.length) (Fits cost available regions) count := by
  obtain ⟨count, skipped, hpart, hgreedy⟩ :=
    fittingPart_greedy cost available [] (regions.take most)
  rw [List.nil_append, List.length_take] at hgreedy
  have hcount : count ≤ most := Nat.le_trans hgreedy.le_most (Nat.min_le_left _ _)
  rw [List.nil_append, List.take_take, Nat.min_eq_left hcount, ← Part.none_eq] at hpart
  refine ⟨count, ?_, hgreedy.congr fun n hn => ?_⟩
  · unfold takeOptional
    rw [hpart]
    cases skipped with
    | none => exact yields_pure _
    | some skip => exact (yields_write _ _ _).bind (yields_pure _)
  · have hn' : n + 1 ≤ most := Nat.lt_of_lt_of_le hn (Nat.min_le_left _ _)
    rw [Fits, Fits, List.take_take, Nat.min_eq_left hn']

/-- An optional round of a pause takes what fits all of the time left. -/
theorem chooseOptional_greedy (candidates : Candidates) (most : Nat) (timeLeft : α)
    (cost : OldRegion → α) :
    ∃ count, (chooseOptional candidates most timeLeft cost).Yields count ∧
      Greedy 0 (min most candidates.remaining.length)
        (Fits cost (Scalar.max timeLeft (num 0)) candidates.remaining) count := by
  obtain ⟨count, hyields, hgreedy⟩ :=
    takeOptional_greedy candidates.remaining most (Scalar.max timeLeft (num 0)) cost
  refine ⟨count, ?_, hgreedy⟩
  unfold chooseOptional
  exact hyields.bind ((yields_write _ _ _).bind (yields_pure _))

/-- Without a look at the time there is no optional part. -/
theorem exists_optional (limits : Limits α) (rs : List OldRegion) (most : Nat) (available : α)
    (cost : OldRegion → α) :
    ∃ count,
      (limits.timed = true →
        (takeOptional rs most available cost).Yields ⟨count, timeOf cost (rs.take count)⟩) ∧
      (limits.timed = false → count = 0) ∧
      Greedy 0 (min most rs.length) (limits.TakesOptional cost available rs) count := by
  cases htimed : limits.timed with
  | false =>
    refine ⟨0, nofun, fun _ => rfl, Greedy.stop (Nat.zero_le _) ?_⟩
    intro htakes
    rw [htakes.1] at htimed
    cases htimed
  | true =>
    obtain ⟨count, hyields, hgreedy⟩ := takeOptional_greedy rs most available cost
    refine ⟨count, fun _ => hyields, nofun, hgreedy.congr fun n _ => ?_⟩
    exact ⟨fun hfits => ⟨htimed, hfits⟩, And.right⟩

/-! ## The selection -/

/-- What a budget selects from the regions `rs` when `time` is left: both parts are as long as the
limits let them grow. -/
structure Selected (limits : Limits α) (rs : List OldRegion) (time : α) (cost : OldRegion → α)
    (budget : Budget α) : Prop where
  timeLeft : budget.timeLeft = time
  initial : Greedy 0 (min limits.most rs.length)
    (limits.TakesInitial cost (time * initialShare) rs) budget.initial
  initialTime : budget.initialTime = timeOf cost (rs.take budget.initial)
  mostOptional : budget.mostOptional = limits.most - budget.initial
  optional : Greedy 0 (min budget.mostOptional (rs.drop budget.initial).length)
    (limits.TakesOptional cost (time * optionalShare) (rs.drop budget.initial)) budget.optional
  optionalTime : budget.optionalTime = timeOf cost ((rs.drop budget.initial).take budget.optional)

omit [Scalar α] in
theorem Stop.yields_log (limits : Limits α) (stop : Stop α) : (stop.log limits).Yields () := by
  cases stop with
  | exhausted => exact yields_pure ()
  | atMost => exact yields_write _ _ _
  | atLeast => exact yields_write _ _ _
  | waste reclaimable percent => exact yields_write _ _ _
  | time => exact yields_write _ _ _

/-- Nothing in a selection can fail, since the candidates carry the right number of bytes. -/
theorem choose_selects (candidates : Candidates) (timeLeft : α) (limits : Limits α)
    (cost : OldRegion → α) :
    ∃ budget, (choose candidates timeLeft limits cost).Yields budget ∧
      Selected limits candidates.remaining (Scalar.max timeLeft (num 0)) cost budget := by
  obtain ⟨initial, stop, hpart, hinitial⟩ := initialPart_greedy limits cost
    (Scalar.max timeLeft (num 0) * initialShare) [] candidates.remaining (Nat.zero_le _)
  rw [List.nil_append, ← Part.none_eq, ← candidates.reclaimable_eq] at hpart
  rw [List.nil_append] at hinitial
  have hmost : (Word.sub limits.most initial : Checked α Nat) = .ok (limits.most - initial) :=
    Word.sub_eq_ok_iff.mpr ⟨Nat.le_trans hinitial.le_most (Nat.min_le_left _ _), rfl⟩
  obtain ⟨optional, hyields, hnone, hoptional⟩ := exists_optional limits
    (candidates.remaining.drop initial) (limits.most - initial)
    (Scalar.max timeLeft (num 0) * optionalShare) cost
  refine ⟨{
    timeLeft := Scalar.max timeLeft (num 0)
    initial := initial
    optional := optional
    mostOptional := limits.most - initial
    initialTime := timeOf cost (candidates.remaining.take initial)
    optionalTime := timeOf cost ((candidates.remaining.drop initial).take optional) },
    ?_, ⟨rfl, hinitial, rfl, rfl, hoptional, rfl⟩⟩
  unfold choose
  extract_lets time
  refine (yields_write _ _ _).bind ?_
  refine (yields_ofChecked hpart).bind ?_
  refine (stop.yields_log limits).bind ?_
  refine (yields_ofChecked hmost).bind ?_
  extract_lets finish
  have finishes (part : Part α) : (finish part).Yields _ :=
    (yields_write _ _ _).bind (yields_pure _)
  split
  · next htimed => exact (hyields htimed).bind (finishes _)
  · next hfree =>
    obtain rfl := hnone (Bool.not_eq_true _ ▸ hfree)
    exact finishes Part.none

/-! ## What the limits ask for -/

/-- A selection from the regions `rs` with `time` left, as the limits ask for it. -/
structure Sized (limits : Limits α) (rs : List OldRegion) (time : α) (cost : OldRegion → α)
    (budget : Budget α) : Prop where
  timeLeft : budget.timeLeft = time
  least_le_initial : min limits.least rs.length ≤ budget.initial
  initial_le_most : budget.initial ≤ min limits.most rs.length
  mostOptional : budget.mostOptional = limits.most - budget.initial
  optional_le : budget.optional ≤ budget.mostOptional
  total_le : budget.initial + budget.optional ≤ rs.length
  initialTime : budget.initialTime = timeOf cost (rs.take budget.initial)
  optionalTime : budget.optionalTime = timeOf cost ((rs.drop budget.initial).take budget.optional)
  /-- Without a look at the time the minimum is taken. -/
  untimed : limits.timed = false → budget.initial = min limits.least rs.length ∧ budget.optional = 0
  /-- Past the minimum each region was worthwhile and did not exceed the initial share. -/
  initial_fits : limits.timed = true → ∀ n, limits.least ≤ n → n < budget.initial →
    limits.Worthwhile rs n ∧ Fits cost (time * initialShare) rs n
  /-- The next region, if there is one and there is room for it, was not worthwhile or would have
  exceeded the initial share. -/
  initial_ends : limits.timed = true → budget.initial < min limits.most rs.length →
    ¬ (limits.Worthwhile rs budget.initial ∧ Fits cost (time * initialShare) rs budget.initial)
  optional_fits : limits.timed = true → ∀ n < budget.optional,
    Fits cost (time * optionalShare) (rs.drop budget.initial) n
  optional_ends : limits.timed = true → budget.optional < budget.mostOptional →
    budget.initial + budget.optional < rs.length →
      ¬ Fits cost (time * optionalShare) (rs.drop budget.initial) budget.optional

namespace Selected

variable {limits : Limits α} {rs : List OldRegion} {time : α} {cost : OldRegion → α}
  {budget : Budget α}

theorem total_le (h : Selected limits rs time cost budget) :
    budget.initial + budget.optional ≤ rs.length := by
  have hinitial := Nat.le_trans h.initial.le_most (Nat.min_le_right _ _)
  have hoptional := Nat.le_trans h.optional.le_most (Nat.min_le_right _ _)
  rw [List.length_drop] at hoptional
  omega

theorem least_le_initial (h : Selected limits rs time cost budget)
    (hlimits : limits.least ≤ limits.most) : min limits.least rs.length ≤ budget.initial := by
  refine h.initial.le_count ?_ ?_
  · exact Nat.le_min.mpr ⟨Nat.le_trans (Nat.min_le_left _ _) hlimits, Nat.min_le_right _ _⟩
  · intro n _ hn
    exact .inl (Nat.lt_of_lt_of_le hn (Nat.min_le_left _ _))

/-- Beyond the minimum a region is taken only after a look at the time. -/
theorem initial_le_least (h : Selected limits rs time cost budget)
    (huntimed : limits.timed = false) : budget.initial ≤ min limits.least rs.length := by
  have hlength := Nat.le_trans h.initial.le_most (Nat.min_le_right _ _)
  refine Nat.le_min.mpr ⟨Nat.le_of_not_lt fun hlt => ?_, hlength⟩
  rcases h.initial.passes limits.least (Nat.zero_le _) hlt with hless | ⟨htimed, _⟩
  · exact absurd hless (Nat.lt_irrefl _)
  · rw [huntimed] at htimed
    cases htimed

theorem optional_eq_zero (h : Selected limits rs time cost budget)
    (huntimed : limits.timed = false) : budget.optional = 0 := by
  refine Nat.eq_zero_of_not_pos fun hpos => ?_
  have htakes := h.optional.passes 0 (Nat.le_refl 0) hpos
  exact absurd htakes.1 (huntimed ▸ Bool.false_ne_true)

theorem sized (h : Selected limits rs time cost budget) (hlimits : limits.least ≤ limits.most) :
    Sized limits rs time cost budget where
  timeLeft := h.timeLeft
  least_le_initial := h.least_le_initial hlimits
  initial_le_most := h.initial.le_most
  mostOptional := h.mostOptional
  optional_le := Nat.le_trans h.optional.le_most (Nat.min_le_left _ _)
  total_le := h.total_le
  initialTime := h.initialTime
  optionalTime := h.optionalTime
  untimed huntimed := by
    have hleast := h.least_le_initial hlimits
    exact ⟨Nat.le_antisymm (h.initial_le_least huntimed) hleast, h.optional_eq_zero huntimed⟩
  initial_fits _ n hleast hn := by
    rcases h.initial.passes n (Nat.zero_le n) hn with hlt | ⟨_, hpasses⟩
    · exact absurd hlt (Nat.not_lt_of_le hleast)
    · exact hpasses
  initial_ends htimed hroom hpasses := h.initial.stops hroom (.inr ⟨htimed, hpasses⟩)
  optional_fits _ n hn := (h.optional.passes n (Nat.zero_le n) hn).2
  optional_ends htimed hmost hlength hfits := by
    refine h.optional.stops ?_ ⟨htimed, hfits⟩
    rw [List.length_drop]
    exact Nat.lt_min.mpr ⟨hmost, Nat.lt_sub_iff_add_lt'.mpr hlength⟩

end Selected

/-- From all candidates, of which any number may have been taken, with limits that were made for
some candidates, the old part is always chosen, and it is as long as the limits, the reclaimable
space and the time allow. -/
theorem old_part_is_sized (candidates : Candidates) {offered : Candidates}
    {heapRegions capacity collections regionPercent wastePercent : Nat} {timed : Bool}
    {limits : Limits α}
    (hlimits : Limits.create offered heapRegions capacity collections regionPercent wastePercent
      timed = .ok limits)
    (timeLeft : α) (cost : OldRegion → α) :
    ∃ budget, (choose candidates timeLeft limits cost).Yields budget ∧
      Sized limits candidates.remaining (Scalar.max timeLeft (num 0)) cost budget := by
  have hordered := (Limits.gives_create offered heapRegions capacity collections regionPercent
    wastePercent timed).of_eq_ok hlimits
  obtain ⟨budget, hyields, hselected⟩ := choose_selects candidates timeLeft limits cost
  exact ⟨budget, hyields, hselected.sized hordered.2⟩

/-- Seven old regions of garbage, numbered from zero. -/
def sevenRegions : List OldRegion :=
  (List.range 7).map fun index => ⟨index, 1000, 0, 0, Nat.zero_le _⟩

/-- None of the regions were taken. -/
def allOfSeven : Candidates where
  regions := sevenRegions
  taken := 0
  reclaimable := 7000
  taken_le := Nat.zero_le _
  reclaimable_eq := by decide

/-- Two of the regions were taken. -/
def fiveOfSeven : Candidates where
  regions := sevenRegions
  taken := 2
  reclaimable := 5000
  taken_le := by decide
  reclaimable_eq := by decide

/-- At least one region and at most six, while more than a twentieth of the heap can be reclaimed. -/
def oneToSix : Limits Rat where
  least := 1
  most := 6
  wastePercent := 5
  capacity := 20000
  timed := true

/-- The regions cost 2, 3, 4, 5 and 6 milliseconds. Of 12 milliseconds the first three fit the
initial share, and one more the optional share. -/
theorem old_part_is_sized_for_five :
    (Candidates.ofRegions (sevenRegions.map .old) : Checked Rat Candidates) = .ok allOfSeven ∧
    (allOfSeven.takeEach [1, 1] : Checked Rat Candidates) = .ok fiveOfSeven ∧
    Limits.create fiveOfSeven 8 20000 7 75 5 true = .ok oneToSix ∧
    ∃ budget, (choose fiveOfSeven 12 oneToSix fun r => num r.index).Yields budget ∧
      Sized oneToSix fiveOfSeven.remaining 12 (fun r => num r.index) budget ∧
      budget.initial = 3 ∧ budget.optional = 1 := by
  have hlimits : (Limits.create fiveOfSeven 8 20000 7 75 5 true : Checked Rat (Limits Rat)) =
      .ok oneToSix := rfl
  obtain ⟨budget, hyields, hsized⟩ :=
    old_part_is_sized fiveOfSeven hlimits 12 fun r => num r.index
  have hcounts : ((choose fiveOfSeven 12 oneToSix fun r => num r.index).run.run {}).1.toOption.map
      (fun budget => (budget.initial, budget.optional)) = some (3, 1) := by
    decide +kernel
  rw [hyields {}] at hcounts
  obtain ⟨hinitial, hoptional⟩ := Prod.mk.inj (Option.some.inj hcounts)
  exact ⟨rfl, rfl, hlimits, budget, hyields, hsized, hinitial, hoptional⟩

end OldRegions

end PauseGoal
