import PauseGoal.Proofs.LeastDelay
import PauseGoal.Proofs.Returns
import Mathlib.Data.List.TakeWhile

/-!
# The pruned queue

The tracker drops pauses for two reasons: they ended before the slice that ends with the newest one,
or the queue is full. The first reason is never noticed. On exact numbers, and for pauses in
chronological order, those of the latest pauses that the queue has dropped reach into no slice that
is still to be asked for. The queue therefore answers as the latest pauses of the whole history
would (`answers_like_history`).

The invariant is `Pruned`: the latest pauses are some expired ones, followed by the queue.
-/

namespace PauseGoal.Utilization

/-! ## What a history says -/

/-- The part of a pause between two moments. -/
def Span.timeWithin (s : Span Rat) (lower upper : Rat) : Rat :=
  max 0 (min s.finish upper - max s.start lower)

/-- The pause time between two moments. -/
def timeWithin (lower upper : Rat) (pauses : List (Span Rat)) : Rat :=
  (pauses.map fun s => s.timeWithin lower upper).sum

/-- The last pauses of a history, as many as a queue has room for. -/
def latest (history : List (Span Rat)) : List (Span Rat) :=
  history.drop (history.length - queueLength)

/-- A queue in which there is room for one more. -/
def withRoom (queue : List (Span Rat)) : List (Span Rat) :=
  if queue.length = queueLength then queue.tail else queue

namespace Span

variable {s : Span Rat} {lower upper : Rat}

theorem timeWithin_eq_zero (h : s.finish ≤ lower) : s.timeWithin lower upper = 0 := by
  have hfinish : min s.finish upper ≤ s.finish := min_le_left _ _
  have hstart : lower ≤ max s.start lower := le_max_right _ _
  exact max_eq_left (by linarith)

/-- Of a pause that is over the slice holds all after its beginning. -/
theorem timeWithin_eq_timeAfter (h : s.start ≤ s.finish) (hover : s.finish ≤ upper) :
    s.timeWithin lower upper = s.timeAfter lower := by
  rw [timeWithin, min_eq_left hover]
  rcases le_total lower s.start with hbefore | hinside
  · rw [timeAfter_of_le_start h hbefore, max_eq_left hbefore, max_eq_right (by linarith)]
  · rw [max_eq_right hinside]
    rcases le_total lower s.finish with hopen | hgone
    · rw [timeAfter_of_start_le hinside hopen, max_eq_right (by linarith)]
    · rw [timeAfter_of_finish_le hgone, max_eq_left (by linarith)]

end Span

section

variable {lower upper : Rat} {pauses : List (Span Rat)}

theorem timeWithin_append (more : List (Span Rat)) :
    timeWithin lower upper (pauses ++ more) =
      timeWithin lower upper pauses + timeWithin lower upper more := by
  simp only [timeWithin, List.map_append, List.sum_append]

theorem timeWithin_eq_zero (h : ∀ s ∈ pauses, s.finish ≤ lower) :
    timeWithin lower upper pauses = 0 := by
  induction pauses with
  | nil => rfl
  | cons s pauses ih =>
    obtain ⟨hfirst, hrest⟩ := List.forall_mem_cons.mp h
    rw [timeWithin, List.map_cons, List.sum_cons, Span.timeWithin_eq_zero hfirst, zero_add]
    exact ih hrest

theorem timeWithin_eq_timeAfter (h : ∀ s ∈ pauses, s.start ≤ s.finish)
    (hover : ∀ s ∈ pauses, s.finish ≤ upper) :
    timeWithin lower upper pauses = timeAfter lower pauses :=
  congrArg List.sum
    (List.map_congr_left fun s hs => Span.timeWithin_eq_timeAfter (h s hs) (hover s hs))

end

namespace Chronological

variable {history : List (Span Rat)} {last : Span Rat}

/-- The last pause is the last one to end. -/
theorem finish_le_last (h : Chronological history) (hlast : last ∈ history.getLast?) :
    ∀ s ∈ history, s.finish ≤ last.finish := by
  obtain ⟨earlier, rfl⟩ := List.getLast?_eq_some_iff.mp hlast
  have hforward : last.start ≤ last.finish :=
    h.forward last (List.mem_append_right _ (List.mem_singleton_self _))
  intro s hs
  rcases List.mem_append.mp hs with hs | hs
  · have hbefore : s.finish ≤ last.start :=
      (List.pairwise_append.mp h.pairwise).2.2 s hs last (List.mem_singleton_self _)
    linarith
  · rw [List.mem_singleton.mp hs]

end Chronological

/-! ## The latest pauses -/

theorem length_latest_le (history : List (Span Rat)) : (latest history).length ≤ queueLength := by
  rw [latest, List.length_drop]
  omega

theorem latest_append_singleton (history : List (Span Rat)) (s : Span Rat) :
    latest (history ++ [s]) = withRoom (latest history) ++ [s] := by
  have hlatest : (latest history).length = history.length - (history.length - queueLength) :=
    List.length_drop
  rw [latest, List.length_append, List.length_singleton, List.drop_append_of_le_length
    (show history.length + 1 - queueLength ≤ history.length by rw [queueLength]; omega), withRoom]
  congr 1
  rw [hlatest]
  split
  · rw [latest, List.tail_drop]
    congr 1
    omega
  · rw [latest]
    congr 1
    omega

/-- Making room takes away some of the front, and from the back only if there is no front. -/
theorem exists_withRoom_append {front back : List (Span Rat)}
    (h : (front ++ back).length ≤ queueLength) :
    ∃ front', front' ⊆ front ∧ withRoom (front ++ back) = front' ++ withRoom back := by
  cases front with
  | nil => exact ⟨[], List.Subset.refl _, rfl⟩
  | cons s front =>
    have hback : back.length ≠ queueLength := by
      rw [List.cons_append, List.length_cons, List.length_append] at h
      omega
    rw [withRoom, withRoom, if_neg hback]
    split
    · exact ⟨front, List.subset_cons_self _ _, rfl⟩
    · exact ⟨s :: front, List.Subset.refl _, rfl⟩

/-! ## The queue -/

namespace Tracker

variable {t : Tracker Rat} {history : List (Span Rat)} {next : Span Rat}

/-- Adds pauses one after the other. -/
def addAll {α : Type} [Scalar α] (t : Tracker α) (pauses : List (Span α)) : Logged α (Tracker α) :=
  pauses.foldlM (fun t s => t.add s.start s.finish) t

/-- The tracker after one more pause. -/
def append (t : Tracker Rat) (s : Span Rat) : Tracker Rat :=
  { t with pauses := withRoom (t.unexpired (s.finish - t.slice)) ++ [s] }

theorem exists_run_add (t : Tracker Rat) (s : Span Rat) (log : Log Rat) :
    ∃ log', (t.add s.start s.finish).run.run log = (.ok (t.append s), log') := by
  by_cases hfull : (t.unexpired (s.finish - t.slice)).length = queueLength
  · rw [add, append, withRoom, if_pos hfull, if_pos hfull]
    exact ⟨_, rfl⟩
  · rw [add, append, withRoom, if_neg hfull, if_neg hfull]
    exact ⟨_, rfl⟩

theorem exists_run_addAll (t : Tracker Rat) (pauses : List (Span Rat)) (log : Log Rat) :
    ∃ log', (t.addAll pauses).run.run log = (.ok (pauses.foldl append t), log') := by
  induction pauses generalizing t log with
  | nil => exact ⟨log, rfl⟩
  | cons s pauses ih =>
    obtain ⟨log₁, hfirst⟩ := t.exists_run_add s log
    obtain ⟨log₂, hrest⟩ := ih (t.append s) log₁
    refine ⟨log₂, ?_⟩
    rw [addAll, List.foldlM_cons, ExceptT.run_bind, StateT.run_bind, hfirst]
    exact hrest

/-- What an added pause finds expired. -/
theorem exists_expired (t : Tracker Rat) (moment : Rat) :
    ∃ expired, t.pauses = expired ++ t.unexpired moment ∧ ∀ s ∈ expired, s.finish < moment := by
  refine ⟨_, List.takeWhile_append_dropWhile.symm, fun s hs => ?_⟩
  have hends := List.mem_takeWhile_imp hs
  simpa only [Bool.not_eq_true', decide_eq_false_iff_not, not_le] using hends

/-- The latest pauses of a history are the queue, but for some that expired: each of them was over
before the slice of a later pause began. -/
def Pruned (history : List (Span Rat)) (t : Tracker Rat) : Prop :=
  ∃ expired, latest history = expired ++ t.pauses ∧
    ∀ s ∈ expired, ∃ later ∈ history, s.finish < later.finish - t.slice

theorem Pruned.append (h : Pruned history t) (next : Span Rat) :
    Pruned (history ++ [next]) (t.append next) := by
  obtain ⟨expired, hlatest, hexpired⟩ := h
  obtain ⟨dropped, hpauses, hdropped⟩ := t.exists_expired (next.finish - t.slice)
  have hsplit : latest history =
      (expired ++ dropped) ++ t.unexpired (next.finish - t.slice) := by
    rw [List.append_assoc, ← hpauses, hlatest]
  obtain ⟨left, hleft, hroom⟩ := exists_withRoom_append (hsplit ▸ length_latest_le history)
  refine ⟨left, ?_, fun s hs => ?_⟩
  · rw [latest_append_singleton, hsplit, hroom, List.append_assoc]
    rfl
  · rcases List.mem_append.mp (hleft hs) with hs | hs
    · obtain ⟨later, hlater, hfinish⟩ := hexpired s hs
      exact ⟨later, List.mem_append_left _ hlater, hfinish⟩
    · exact ⟨next, List.mem_append_right _ (List.mem_singleton_self _), hdropped s hs⟩

theorem Pruned.foldl_append (h : Pruned history t) (more : List (Span Rat)) :
    Pruned (history ++ more) (more.foldl Tracker.append t) := by
  -- on the pauses that are still to be added
  induction more generalizing history t with
  | nil => exact (List.append_nil history).symm ▸ h
  | cons next more ih =>
    rw [List.append_cons]
    exact ih (h.append next)

theorem slice_foldl_append (t : Tracker Rat) (pauses : List (Span Rat)) :
    (pauses.foldl append t).slice = t.slice := by
  induction pauses generalizing t with
  | nil => rfl
  | cons s pauses ih => exact ih _

namespace Pruned

variable {last : Span Rat}

theorem suffix (h : Pruned history t) : t.pauses <:+ history := by
  obtain ⟨expired, hlatest, _⟩ := h
  exact (hlatest ▸ List.suffix_append expired t.pauses).trans (List.drop_suffix _ _)

theorem length_le (h : Pruned history t) : t.pauses.length ≤ queueLength := by
  obtain ⟨expired, hlatest, _⟩ := h
  have hlength := length_latest_le history
  rw [hlatest, List.length_append] at hlength
  omega

/-- In order, the last pause is the one before whose slice all the others were over. -/
theorem exists_over (h : Pruned history t) (hordered : Chronological history)
    (hlast : last ∈ history.getLast?) :
    ∃ expired, latest history = expired ++ t.pauses ∧
      ∀ s ∈ expired, s.finish < last.finish - t.slice := by
  obtain ⟨expired, hlatest, hexpired⟩ := h
  refine ⟨expired, hlatest, fun s hs => ?_⟩
  obtain ⟨later, hlater, hfinish⟩ := hexpired s hs
  linarith [hordered.finish_le_last hlast later hlater]

theorem pauseTime_eq (h : Pruned history t) (hordered : Chronological history) {now : Rat}
    (hnow : ∀ s ∈ history, s.finish ≤ now) :
    t.pauseTime now = timeWithin (now - t.slice) now (latest history) := by
  have hqueue : timeWithin (now - t.slice) now t.pauses = timeAfter (now - t.slice) t.pauses :=
    timeWithin_eq_timeAfter (fun s hs => hordered.forward s (h.suffix.subset hs))
      fun s hs => hnow s (h.suffix.subset hs)
  obtain ⟨expired, hlatest, hexpired⟩ := h
  have hnone : timeWithin (now - t.slice) now expired = 0 := by
    refine timeWithin_eq_zero fun s hs => ?_
    obtain ⟨later, hlater, hfinish⟩ := hexpired s hs
    linarith [hnow later hlater]
  rw [t.pauseTime_eq, hlatest, timeWithin_append, hnone, zero_add, hqueue]

end Pruned

/-- Let a new tracker be told a history of pauses in chronological order.

* The queue is the end of the history, and no longer than its length allows.
* Of the latest pauses it misses some at the front, each of which was over before the slice that
  ends with the last pause. Those that end in this slice are all there.
* From the end of the last pause on it answers as the latest pauses of the whole history do.
* Another pause takes pauses away for two reasons. Those that expired reach into no slice that ends
  with it or later; beside them only the oldest one of a full queue goes. -/
theorem answers_like_history {slice limit : Rat} {new : Tracker Rat}
    (hnew : create slice limit = .ok new) (hordered : Chronological history) (log : Log Rat) :
    ∃ t log', (new.addAll history).run.run log = (.ok t, log') ∧
      t.pauses <:+ history ∧ t.pauses.length ≤ queueLength ∧
      (∀ last ∈ history.getLast?,
        (∃ expired, latest history = expired ++ t.pauses ∧
          ∀ s ∈ expired, s.finish < last.finish - slice) ∧
        ∀ s ∈ latest history, last.finish - slice ≤ s.finish → s ∈ t.pauses) ∧
      (∀ now, (∀ last ∈ history.getLast?, last.finish ≤ now) →
        t.pauseTime now = timeWithin (now - slice) now (latest history)) ∧
      ∀ next : Span Rat, ∃ expired kept after log'', t.pauses = expired ++ kept ∧
        (t.add next.start next.finish).run.run log' = (.ok after, log'') ∧
        after.pauses = (if kept.length = queueLength then kept.tail else kept) ++ [next] ∧
        ∀ now, next.finish ≤ now → timeWithin (now - slice) now expired = 0 := by
  obtain ⟨_, _, hnew⟩ := Checked.exists_of_bind_eq_ok hnew
  obtain rfl : { slice, limit, pauses := [] } = new := Except.ok.inj hnew
  obtain ⟨log', hrun⟩ := exists_run_addAll { slice, limit, pauses := [] } history log
  have hslice := slice_foldl_append { slice, limit, pauses := [] } history
  have hempty : Pruned [] { slice, limit, pauses := [] } := ⟨[], rfl, nofun⟩
  have hpruned : Pruned history (history.foldl append { slice, limit, pauses := [] }) :=
    hempty.foldl_append history
  generalize history.foldl append { slice, limit, pauses := [] } = t at hrun hslice hpruned
  obtain rfl : t.slice = slice := hslice
  refine ⟨t, log', hrun, hpruned.suffix, hpruned.length_le, fun last hlast => ?_,
    fun now hnow => ?_, fun next => ?_⟩
  · obtain ⟨expired, hlatest, hexpired⟩ := hpruned.exists_over hordered hlast
    refine ⟨⟨expired, hlatest, hexpired⟩, fun s hs hwithin => ?_⟩
    rcases List.mem_append.mp (hlatest ▸ hs) with hs | hs
    · exact absurd (hexpired s hs) (not_lt.mpr hwithin)
    · exact hs
  · refine hpruned.pauseTime_eq hordered fun s hs => ?_
    obtain ⟨last, hlast⟩ := Option.ne_none_iff_exists'.mp
      (mt List.getLast?_eq_none_iff.mp (List.ne_nil_of_mem hs))
    exact (hordered.finish_le_last hlast s hs).trans (hnow last hlast)
  · obtain ⟨expired, hpauses, hexpired⟩ := t.exists_expired (next.finish - t.slice)
    obtain ⟨log'', hadd⟩ := t.exists_run_add next log'
    refine ⟨expired, _, _, log'', hpauses, hadd, rfl, fun now hnow => ?_⟩
    refine timeWithin_eq_zero fun s hs => ?_
    linarith [hexpired s hs]

/-- A pause, and two more five seconds later. -/
def lateHistory : List (Span Rat) := [⟨0, 1 / 10⟩, ⟨5, 51 / 10⟩, ⟨57 / 10, 59 / 10⟩]

/-- Of three pauses the first one is over, and the second one is half in the slice of a second that
ends when it has been asked for. -/
theorem answers_like_late_history :
    ∃ t log', (Tracker.addAll ⟨1, 1 / 2, []⟩ lateHistory).run.run {} = (.ok t, log') ∧
      t.pauses <:+ lateHistory ∧ ⟨5, 51 / 10⟩ ∈ t.pauses ∧
      t.pauseTime (121 / 20) = 1 / 4 := by
  have hordered : Chronological lateHistory :=
    ⟨by decide +kernel, by decide +kernel⟩
  obtain ⟨t, log', hrun, hsuffix, -, hkept, hanswers, -⟩ :=
    @answers_like_history lateHistory 1 (1 / 2) ⟨1, 1 / 2, []⟩ (by decide +kernel) hordered {}
  have hlast : (⟨57 / 10, 59 / 10⟩ : Span Rat) ∈ lateHistory.getLast? := rfl
  have hanswer := hanswers (121 / 20) fun last hmem => by
    obtain rfl := Option.some.inj (hlast.symm.trans hmem)
    decide +kernel
  refine ⟨t, log', hrun, hsuffix, (hkept _ hlast).2 _ (by decide +kernel) (by decide +kernel), ?_⟩
  rw [hanswer]
  decide +kernel

end Tracker

end PauseGoal.Utilization
