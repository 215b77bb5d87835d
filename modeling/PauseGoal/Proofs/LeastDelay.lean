import PauseGoal.Proofs.Exact
import PauseGoal.Utilization
import Mathlib.Algebra.Order.Ring.Rat
import Mathlib.Data.List.Chain
import Mathlib.Tactic.Linarith
import Mathlib.Tactic.SplitIfs

/-!
# The least delay

The tracker looks for a delay by letting pauses leave the slice one after the other, from the oldest
one on, until the excess over the limit is gone. The answer is about a later slice than the one it
looked at: the one that ends when the delayed pause does. On exact numbers, and for pauses in
chronological order, it is right all the same:

* there always is an answer, and it is not negative;
* with that delay the slice holds no more than the limit, up to the tolerance of the search;
* with any shorter one it holds more.

The moment at which the slice begins decides everything, so the lemmas speak of moments. Once a
slice begins after `moment`, a pause counts for the part that lies after it.
-/

namespace PauseGoal.Utilization

/-- The pauses follow one another: each one ends before the next one starts. -/
structure Chronological (pauses : List (Span Rat)) : Prop where
  forward : ∀ s ∈ pauses, s.start ≤ s.finish
  apart : pauses.IsChain fun s s' => s.finish ≤ s'.start

theorem exact_sum (xs : List Rat) : Scalar.sum xs = xs.sum := by
  unfold Scalar.sum
  rw [List.sum_eq_foldl]
  rfl

/-- The part of a pause after a moment, whether or not it ends after it. -/
def Span.timeAfter (s : Span Rat) (moment : Rat) : Rat :=
  if moment < s.finish then s.durationAfter moment else 0

/-- The pause time after a moment. -/
def timeAfter (moment : Rat) (pauses : List (Span Rat)) : Rat :=
  (pauses.map fun s => s.timeAfter moment).sum

/-! ## One pause -/

namespace Span

variable {s : Span Rat} {moment later : Rat}

theorem timeAfter_of_le_start (h : s.start ≤ s.finish) (hmoment : moment ≤ s.start) :
    s.timeAfter moment = s.finish - s.start := by
  unfold timeAfter durationAfter duration
  split_ifs <;> linarith

theorem timeAfter_of_start_le (hstart : s.start ≤ moment) (hfinish : moment ≤ s.finish) :
    s.timeAfter moment = s.finish - moment := by
  unfold timeAfter durationAfter duration
  split_ifs <;> linarith

theorem timeAfter_of_finish_le (h : s.finish ≤ moment) : s.timeAfter moment = 0 :=
  if_neg (not_lt.mpr h)

theorem timeAfter_of_lt_finish (h : moment < s.finish) :
    s.timeAfter moment = s.durationAfter moment := if_pos h

theorem timeAfter_antitone (h : s.start ≤ s.finish) (hlater : moment ≤ later) :
    s.timeAfter later ≤ s.timeAfter moment := by
  unfold timeAfter durationAfter duration
  split_ifs <;> linarith

end Span

/-! ## Pauses in order -/

theorem timeAfter_cons (moment : Rat) (s : Span Rat) (rest : List (Span Rat)) :
    timeAfter moment (s :: rest) = s.timeAfter moment + timeAfter moment rest :=
  List.sum_cons

namespace Chronological

variable {s : Span Rat} {rest : List (Span Rat)} {moment : Rat}

theorem tail (h : Chronological (s :: rest)) : Chronological rest :=
  ⟨fun s' hs' => h.forward s' (List.mem_cons_of_mem _ hs'), h.apart.tail⟩

theorem head (h : Chronological (s :: rest)) : s.start ≤ s.finish :=
  h.forward s List.mem_cons_self

/-- All later pauses start after the first one. -/
theorem finish_le_start (h : Chronological (s :: rest)) : ∀ s' ∈ rest, s.finish ≤ s'.start := by
  induction rest generalizing s with
  | nil => nofun
  | cons s₁ rest ih =>
    have hfirst : s.finish ≤ s₁.start := (List.isChain_cons_cons.mp h.apart).1
    intro s' hs'
    rcases List.mem_cons.mp hs' with rfl | hs'
    · exact hfirst
    · have hlater := ih h.tail s' hs'
      linarith [h.tail.head]

theorem pairwise {pauses : List (Span Rat)} (h : Chronological pauses) :
    pauses.Pairwise fun s s' => s.finish ≤ s'.start := by
  induction pauses with
  | nil => exact .nil
  | cons s rest ih => exact .cons h.finish_le_start (ih h.tail)

theorem filter {pauses : List (Span Rat)} (h : Chronological pauses) (keep : Span Rat → Bool) :
    Chronological (pauses.filter keep) :=
  ⟨fun s hs => h.forward s (List.mem_filter.mp hs).1, (h.pairwise.filter keep).isChain⟩

/-- While the first pause is not over, the later ones count in full. -/
theorem timeAfter_rest_eq {moment' : Rat} (h : Chronological (s :: rest))
    (hmoment : moment ≤ s.finish) (hmoment' : moment' ≤ s.finish) :
    timeAfter moment rest = timeAfter moment' rest := by
  unfold timeAfter
  congr 1
  refine List.map_congr_left fun s' hs' => ?_
  have hstart := h.finish_le_start s' hs'
  have hforward := h.tail.forward s' hs'
  rw [Span.timeAfter_of_le_start hforward (hmoment.trans hstart),
    Span.timeAfter_of_le_start hforward (hmoment'.trans hstart)]

theorem timeAfter_antitone {pauses : List (Span Rat)} {later : Rat} (h : Chronological pauses)
    (hlater : moment ≤ later) : timeAfter later pauses ≤ timeAfter moment pauses := by
  induction pauses with
  | nil => exact le_refl _
  | cons s rest ih =>
    rw [timeAfter_cons, timeAfter_cons]
    exact add_le_add (Span.timeAfter_antitone h.head hlater) (ih h.tail)

/-- No more pause time leaves the slice than time goes by. -/
theorem timeAfter_le_add {pauses : List (Span Rat)} {later : Rat} (h : Chronological pauses)
    (hmoment : ∀ s ∈ pauses, moment ≤ s.start) (hlater : moment ≤ later) :
    timeAfter moment pauses ≤ timeAfter later pauses + (later - moment) := by
  induction pauses generalizing moment with
  | nil =>
    simp only [timeAfter, List.map_nil, List.sum_nil]
    linarith
  | cons s rest ih =>
    have hstart := hmoment s List.mem_cons_self
    have hfirst := Span.timeAfter_of_le_start h.head hstart
    rw [timeAfter_cons, timeAfter_cons, hfirst]
    rcases le_total later s.finish with hopen | hover
    · -- only the first pause can have begun to leave
      have hrest := h.timeAfter_rest_eq (hlater.trans hopen) hopen
      rcases le_total later s.start with hbefore | hinside
      · rw [Span.timeAfter_of_le_start h.head hbefore]
        linarith
      · rw [Span.timeAfter_of_start_le hinside hopen]
        linarith
    · have hrest := h.timeAfter_rest_eq (hstart.trans h.head) (le_refl _)
      have hleft := ih h.tail h.finish_le_start hover
      rw [Span.timeAfter_of_finish_le hover]
      linarith [h.head]

end Chronological

/-! ## The search -/

/-- What the search finds, if pauses leave the slice until nothing of the excess is left. -/
structure Releases (moment : Rat) (pauses : List (Span Rat)) (excess release : Rat) : Prop where
  after : moment < release
  /-- It is after the start of the first pause. -/
  afterStart : ∀ m, (∀ s ∈ pauses, m ≤ s.start) → m < release
  enough : timeAfter release pauses + excess ≤ timeAfter moment pauses + tolerance
  least : ∀ m, moment ≤ m → m < release →
    timeAfter moment pauses < timeAfter m pauses + excess

theorem tolerance_pos : (0 : Rat) < tolerance := by
  have h : (tolerance : Rat) = 1 / 10000000 := rfl
  rw [h]
  norm_num

/-- The pause whose leaving ends the search. -/
theorem releases_here {s : Span Rat} {rest : List (Span Rat)} {moment excess : Rat}
    (h : Chronological (s :: rest)) (hmoment : moment < s.finish) (hexcess : 0 < excess)
    (hleft : excess - s.timeAfter moment < tolerance) :
    Releases moment (s :: rest) excess (s.finish + (excess - s.timeAfter moment)) := by
  have hforward := h.head
  have hstart : s.start < s.finish + (excess - s.timeAfter moment) ∧
      moment < s.finish + (excess - s.timeAfter moment) := by
    rcases le_total moment s.start with hbefore | hinside
    · rw [Span.timeAfter_of_le_start hforward hbefore]
      constructor <;> linarith
    · rw [Span.timeAfter_of_start_le hinside hmoment.le]
      constructor <;> linarith
  have hrest := h.tail.timeAfter_antitone hstart.2.le
  refine ⟨hstart.2, fun m hm => (hm s List.mem_cons_self).trans_lt hstart.1, ?_, fun m hm hlt => ?_⟩
  · rw [timeAfter_cons, timeAfter_cons]
    rcases le_total (s.finish + (excess - s.timeAfter moment)) s.finish with hopen | hover
    · rw [Span.timeAfter_of_start_le hstart.1.le hopen]
      linarith [tolerance_pos]
    · rw [Span.timeAfter_of_finish_le hover]
      linarith
  · rw [timeAfter_cons, timeAfter_cons]
    rcases le_total m s.finish with hopen | hover
    · rw [h.timeAfter_rest_eq hmoment.le hopen]
      rcases le_total m s.start with hbefore | hinside
      · rw [Span.timeAfter_of_le_start hforward hbefore,
          Span.timeAfter_of_le_start hforward (hm.trans hbefore)]
        linarith
      · rw [Span.timeAfter_of_start_le hinside hopen]
        linarith
    · -- what is left of the excess is more than what can have left since the pause was over
      have hgone := h.tail.timeAfter_le_add h.finish_le_start hover
      rw [h.timeAfter_rest_eq hmoment.le (le_refl _), Span.timeAfter_of_finish_le hover]
      linarith

/-- A search that goes on finds its answer after the pause that did not end it. -/
theorem releases_later {s : Span Rat} {rest : List (Span Rat)} {moment excess release : Rat}
    (h : Chronological (s :: rest)) (hmoment : moment < s.finish)
    (hleft : tolerance ≤ excess - s.timeAfter moment)
    (hrest : Releases moment rest (excess - s.timeAfter moment) release) :
    Releases moment (s :: rest) excess release := by
  have hfinish : s.finish < release := hrest.afterStart _ h.finish_le_start
  refine ⟨hrest.after, fun m hm => ?_, ?_, fun m hm hlt => ?_⟩
  · linarith [hm s List.mem_cons_self, h.head]
  · rw [timeAfter_cons, timeAfter_cons, Span.timeAfter_of_finish_le hfinish.le]
    linarith [hrest.enough]
  · rw [timeAfter_cons, timeAfter_cons]
    rcases le_total m s.finish with hopen | hover
    · have hcount := Span.timeAfter_antitone h.head hopen
      rw [Span.timeAfter_of_finish_le (le_refl _)] at hcount
      rw [h.timeAfter_rest_eq hmoment.le hopen]
      linarith [tolerance_pos]
    · rw [Span.timeAfter_of_finish_le hover]
      linarith [hrest.least m hm hlt]

/-- The search ends at a moment that releases the excess, unless all pauses together are too short
for that. -/
theorem exists_releaseMoment {moment : Rat} {pauses : List (Span Rat)} (h : Chronological pauses)
    (hopen : ∀ s ∈ pauses, moment < s.finish) {excess : Rat} (hexcess : tolerance ≤ excess)
    (hfits : excess - timeAfter moment pauses < tolerance) :
    ∃ release, Tracker.releaseMoment moment pauses excess = .ok release ∧
      Releases moment pauses excess release := by
  induction pauses generalizing excess with
  | nil =>
    simp only [timeAfter, List.map_nil, List.sum_nil] at hfits
    linarith
  | cons s rest ih =>
    have hmoment := hopen s List.mem_cons_self
    have hcount : s.durationAfter moment = s.timeAfter moment :=
      (Span.timeAfter_of_lt_finish hmoment).symm
    unfold Tracker.releaseMoment
    simp only [hcount]
    rcases lt_or_ge (excess - s.timeAfter moment) tolerance with hleft | hleft
    · rw [if_pos hleft]
      exact ⟨_, rfl, releases_here h hmoment (tolerance_pos.trans_le hexcess) hleft⟩
    · rw [if_neg (not_lt.mpr hleft)]
      rw [timeAfter_cons] at hfits
      obtain ⟨release, hfound, hreleases⟩ :=
        ih h.tail (fun s' hs' => hopen s' (List.mem_cons_of_mem _ hs')) hleft (by linarith)
      exact ⟨release, hfound, releases_later h hmoment hleft hreleases⟩

/-! ## The tracker -/

theorem exact_min (a b : Rat) : Scalar.min a b = min a b := by
  unfold Scalar.min
  grind

namespace Tracker

variable {t : Tracker Rat}

/-- Pauses that are over by a moment have no part after it or any later one. -/
theorem timeAfter_pausesAfter {moment later : Rat} (h : moment ≤ later) :
    timeAfter later (t.pausesAfter moment) = timeAfter later t.pauses := by
  unfold pausesAfter
  induction t.pauses with
  | nil => rfl
  | cons s rest ih =>
    rw [timeAfter_cons, ← ih, List.filter_cons]
    split_ifs with hopen
    · exact timeAfter_cons _ _ _
    · have hover : s.finish ≤ moment := not_lt.mp (mt decide_eq_true hopen)
      rw [Span.timeAfter_of_finish_le (hover.trans h), zero_add]

theorem pauseTime_eq (now : Rat) : t.pauseTime now = timeAfter (now - t.slice) t.pauses := by
  rw [← timeAfter_pausesAfter (le_refl _), pauseTime, exact_sum, timeAfter]
  refine congrArg List.sum (List.map_congr_left fun s hs => ?_)
  exact (Span.timeAfter_of_lt_finish (of_decide_eq_true (List.mem_filter.mp hs).2)).symm

/-- Three pauses, two of them one right after the other; the last one is over after 4/5 seconds. -/
def busyTracker : Tracker Rat where
  slice := 1
  limit := 1 / 2
  pauses := [⟨2 / 5, 1 / 2⟩, ⟨1 / 2, 3 / 5⟩, ⟨7 / 10, 4 / 5⟩]

/-- The tracker always has an answer, and it is the least safe delay: with it the slice that ends
with the pause holds no more than the limit, up to the tolerance of the search, and with any shorter
one it holds more. A pause longer than the limit is treated as one that uses it up. -/
theorem delay_isLeast (h : Chronological t.pauses) (now pause : Rat) :
    ∃ delay, t.delay now pause = .ok delay ∧ 0 ≤ delay ∧
      t.pauseTime (now + delay + min pause t.limit) + min pause t.limit ≤
        t.limit + 1 / 10000000 ∧
      ∀ shorter, 0 ≤ shorter → shorter < delay →
        t.limit < t.pauseTime (now + shorter + min pause t.limit) + min pause t.limit := by
  have htolerance : (1 : Rat) / 10000000 = tolerance := rfl
  have hlength : Scalar.min pause t.limit = min pause t.limit := exact_min _ _
  have hlimit : min pause t.limit ≤ t.limit := min_le_right _ _
  unfold delay
  simp only [hlength, htolerance]
  generalize min pause t.limit = length at hlimit
  split_ifs with hfits
  · -- there is room right away
    refine ⟨0, rfl, le_refl _, ?_, fun shorter hnonneg hlt => ?_⟩
    · rw [add_zero]
      linarith
    · linarith
  · have hpaused := t.pauseTime_eq (now + length)
    generalize hmoment : now + length - t.slice = moment at hpaused
    have hcounted : timeAfter moment (t.pausesAfter moment) = timeAfter moment t.pauses :=
      timeAfter_pausesAfter (le_refl _)
    have hordered : Chronological (t.pausesAfter moment) := h.filter _
    have hopen : ∀ s ∈ t.pausesAfter moment, moment < s.finish :=
      fun s hs => of_decide_eq_true (List.mem_filter.mp hs).2
    obtain ⟨release, hfound, hreleases⟩ :=
      exists_releaseMoment hordered hopen (not_lt.mp hfits) (by linarith [tolerance_pos])
    have hafter := hreleases.after
    -- the slice of a pause that waits as long begins when enough has left
    have hslice {delay m : Rat} (hm : delay = m + t.slice - length - now) :
        t.pauseTime (now + delay + length) = timeAfter m t.pauses := by
      rw [pauseTime_eq]
      congr 1
      linarith
    refine ⟨release + t.slice - length - now, ?_, ?_, ?_, fun shorter hnonneg hlt => ?_⟩
    · rw [hfound]
      rfl
    · linarith
    · rw [hslice rfl, ← timeAfter_pausesAfter hafter.le]
      linarith [hreleases.enough]
    · have hlater : moment ≤ now + shorter + length - t.slice := by linarith
      have hleast := hreleases.least _ hlater (by linarith)
      rw [hcounted, timeAfter_pausesAfter hlater, ← pauseTime_eq] at hleast
      linarith

/-- Two of the pauses and a half of the third one have to leave the slice. -/
theorem delay_isLeast_after_three_pauses :
    Chronological busyTracker.pauses ∧
      ∃ delay, busyTracker.delay (4 / 5) (9 / 20) = .ok delay ∧ 0 ≤ delay ∧
        busyTracker.pauseTime (4 / 5 + delay + min (9 / 20) (1 / 2)) + min (9 / 20) (1 / 2) ≤
          1 / 2 + 1 / 10000000 ∧
        ∀ shorter, 0 ≤ shorter → shorter < delay →
          1 / 2 <
            busyTracker.pauseTime (4 / 5 + shorter + min (9 / 20) (1 / 2)) +
              min (9 / 20) (1 / 2) := by
  have h : Chronological busyTracker.pauses := by
    refine ⟨fun s hs => ?_, ?_⟩
    · simp only [busyTracker, List.mem_cons, List.not_mem_nil, or_false] at hs
      rcases hs with rfl | rfl | rfl <;> norm_num
    · simp only [busyTracker, List.isChain_cons_cons, List.isChain_singleton]
      norm_num
  exact ⟨h, delay_isLeast h (4 / 5) (9 / 20)⟩

example : busyTracker.delay (4 / 5) (9 / 20) = .ok (1 / 2) := by decide +kernel

end Tracker

end PauseGoal.Utilization
