import PauseGoal.OldRegions.Candidates
import Mathlib.Algebra.Ring.Nat

/-!
# The bytes that candidates carry along

A list of candidates carries what evacuating its remaining regions would free, and corrects that
number whenever regions are taken from it. The selection of old regions and the end of the mixed
phase rely on it. The number is exact in all `Candidates`; here it is seen from outside: making and
taking succeed exactly when they should, and then no difference is negative.

Main statement: the candidates after any portions depend on their total alone
(`candidates_never_drift`). A portion that is too large is refused before anything changes, which a
value cannot show; `removal` is the same operation on a list in place, where the bytes are corrected
region by region and the front moves last.
-/

namespace PauseGoal

variable {α : Type}

namespace OldRegions

namespace Candidates

/-- Takes regions from the front in several portions. -/
def takeEach (c : Candidates) (counts : List Nat) : Checked α Candidates :=
  counts.foldlM take c

variable {c c' : Candidates}

/-! ## What is made and what is taken -/

theorem create_of_words {regions : List OldRegion} (h : reclaimableIn regions < wordBound) :
    ∃ c : Candidates, (create regions : Checked α Candidates) = .ok c ∧
      c.regions = regions ∧ c.taken = 0 := by
  have hsum : (Word.sum (regions.map OldRegion.reclaimable) : Checked α Nat) =
      .ok (reclaimableIn regions) := sum_eq_ok_iff.mpr ⟨h, rfl⟩
  unfold create
  split
  · exact ⟨_, rfl, rfl, rfl⟩
  · next htotal => exact nomatch htotal.symm.trans hsum

theorem oldRegions_map_old (regions : List OldRegion) :
    (oldRegions (regions.map .old) : Checked α (List OldRegion)) = .ok regions := by
  induction regions with
  | nil => rfl
  | cons r rest ih =>
    rw [List.map_cons, oldRegions, ih]
    rfl

/-- Old regions whose reclaimable bytes add up to a word are candidates. -/
theorem ofRegions_of_words {regions : List OldRegion} (h : reclaimableIn regions < wordBound) :
    ∃ c : Candidates, (ofRegions (regions.map .old) : Checked α Candidates) = .ok c ∧
      c.regions = regions ∧ c.taken = 0 := by
  rw [ofRegions, oldRegions_map_old]
  exact create_of_words h

/-- Regions at the front never weigh more than what is carried. -/
theorem front_le (c : Candidates) (count : Nat) :
    reclaimableIn (c.remaining.take count) ≤ c.reclaimable := by
  rw [c.reclaimable_eq, ← reclaimableIn_take_add_drop c.remaining count]
  exact Nat.le_add_right _ _

theorem without_front (c : Candidates) (count : Nat) :
    (without c.reclaimable (c.remaining.take count) : Checked α Nat) =
      .ok (c.reclaimable - reclaimableIn (c.remaining.take count)) :=
  without_eq_ok_iff.mpr ⟨c.front_le count, rfl⟩

/-- No difference is negative while regions are taken. -/
theorem take_of_le {count : Nat} (h : count ≤ c.size) :
    ∃ c' : Candidates, (c.take count : Checked α Candidates) = .ok c' ∧
      c'.regions = c.regions ∧ c'.taken = c.taken + count := by
  unfold take
  rw [dif_pos h]
  split
  · exact ⟨_, rfl, rfl, rfl⟩
  · next hleft => exact nomatch hleft.symm.trans (c.without_front count)

theorem take_of_too_many {count : Nat} (h : c.size < count) :
    (c.take count : Checked α Candidates) = .error (.removalExceedsRemaining count c.size) :=
  dif_neg (Nat.not_le_of_lt h)

/-- Regions are taken exactly when that many are left, and only the front moves. -/
theorem take_eq_ok_iff {count : Nat} :
    (c.take count : Checked α Candidates) = .ok c' ↔
      count ≤ c.size ∧ c'.regions = c.regions ∧ c'.taken = c.taken + count := by
  rcases Nat.lt_or_ge c.size count with hover | hcount
  · rw [take_of_too_many hover]
    exact ⟨nofun, fun h => absurd h.1 (Nat.not_le_of_lt hover)⟩
  · obtain ⟨rest, htake, hregions, htaken⟩ := take_of_le (α := α) hcount
    rw [htake]
    constructor
    · rintro ⟨⟩
      exact ⟨hcount, hregions, htaken⟩
    · rintro ⟨_, hregions', htaken'⟩
      exact congrArg Except.ok (ext (hregions.trans hregions'.symm) (htaken.trans htaken'.symm))

theorem size_eq (c : Candidates) : c.size = c.regions.length - c.taken := List.length_drop

theorem size_of_take {count : Nat} (h : (c.take count : Checked α Candidates) = .ok c') :
    c'.size = c.size - count := by
  obtain ⟨_, hregions, htaken⟩ := take_eq_ok_iff.mp h
  rw [size_eq, size_eq, hregions, htaken, Nat.sub_sub]

/-! ## Several portions -/

/-- Two portions are one portion of both. -/
theorem take_take {a b : Nat} (hfit : a + b ≤ c.size) :
    (do (← c.take a).take b : Checked α Candidates) = c.take (a + b) := by
  obtain ⟨both, hboth, hregions, htaken⟩ := take_of_le (α := α) hfit
  have ha : a ≤ c.size := Nat.le_trans (Nat.le_add_right a b) hfit
  obtain ⟨next, hnext, hregions', htaken'⟩ := take_of_le (α := α) ha
  have hb : b ≤ next.size := by
    rw [size_of_take hnext]
    exact Nat.le_sub_of_add_le' hfit
  rw [hnext, hboth]
  refine take_eq_ok_iff.mpr ⟨hb, hregions.trans hregions'.symm, ?_⟩
  rw [htaken, htaken', Nat.add_assoc]

/-- Portions that do not add up to more than there is are one portion of them all. -/
theorem takeEach_eq {counts : List Nat} (hfit : counts.sum ≤ c.size) :
    (c.takeEach counts : Checked α Candidates) = c.take counts.sum := by
  induction counts generalizing c with
  | nil => exact (take_eq_ok_iff.mpr ⟨Nat.zero_le _, rfl, rfl⟩).symm
  | cons count rest ih =>
    rw [List.sum_cons] at hfit ⊢
    have hcount : count ≤ c.size := Nat.le_trans (Nat.le_add_right _ _) hfit
    obtain ⟨next, hnext, _⟩ := take_of_le (α := α) hcount
    have hrest : rest.sum ≤ next.size := by
      rw [size_of_take hnext]
      exact Nat.le_sub_of_add_le' hfit
    rw [← take_take hfit, hnext]
    show (c.take count >>= fun next => next.takeEach rest) = next.take rest.sum
    rw [hnext]
    exact ih hrest

/-- Portions that add up to more than there is end in the refusal of one of them. -/
theorem takeEach_of_too_many {counts : List Nat} (hmore : c.size < counts.sum) :
    ∃ count left, left < count ∧
      (c.takeEach counts : Checked α Candidates) =
        .error (.removalExceedsRemaining count left) := by
  induction counts generalizing c with
  | nil => exact absurd hmore (Nat.not_lt_zero _)
  | cons count rest ih =>
    show ∃ n left, left < n ∧ (c.take count >>= fun next => next.takeEach rest) = _
    rcases Nat.lt_or_ge c.size count with hover | hcount
    · exact ⟨count, c.size, hover, by rw [take_of_too_many hover]; rfl⟩
    · obtain ⟨next, hnext, _⟩ := take_of_le (α := α) hcount
      have hrest : next.size < rest.sum := by
        rw [List.sum_cons] at hmore
        rw [size_of_take hnext]
        exact Nat.sub_lt_left_of_lt_add hcount hmore
      rw [hnext]
      exact ih hrest

/-! ## In place -/

/-- A region that was taken is no longer among the reclaimable bytes of the list. -/
def forget (r : OldRegion) : ExceptT (Fault α) (StateM Stock) Unit := do
  let bytes ← ExceptT.mk (pure (Word.sub (← get).reclaimable r.reclaimable))
  modify fun s => { s with reclaimable := bytes }

/-- Takes regions from the front of the list in place. What is carried is corrected region by
region, and a fault leaves everything that was done before it. -/
def removal (count : Nat) : ExceptT (Fault α) (StateM Stock) Unit := do
  let s ← get
  ExceptT.mk (pure (demand (count ≤ s.size) (.removalExceedsRemaining count s.size)))
  (s.remaining.take count).forM forget
  modify fun s => { s with taken := s.taken + count }

/-- The regions taken are forgotten one by one. -/
theorem run_forM_forget {s : Stock} {rs : List OldRegion} (h : reclaimableIn rs ≤ s.reclaimable) :
    ((rs.forM forget).run.run s : Checked α Unit × Stock) =
      (.ok (), { s with reclaimable := s.reclaimable - reclaimableIn rs }) := by
  induction rs generalizing s with
  | nil => rfl
  | cons r rest ih =>
    rw [reclaimableIn_cons] at h
    have hsub : (Word.sub s.reclaimable r.reclaimable : Checked α Nat) =
        .ok (s.reclaimable - r.reclaimable) :=
      Word.sub_eq_ok_iff.mpr ⟨Nat.le_trans (Nat.le_add_right _ _) h, rfl⟩
    have hforget : ((forget r).run.run s : Checked α Unit × Stock) =
        (.ok (), { s with reclaimable := s.reclaimable - r.reclaimable }) := by
      show ((ExceptT.mk (pure (Word.sub s.reclaimable r.reclaimable)) >>= fun bytes =>
        modify fun s => { s with reclaimable := bytes } :
          ExceptT (Fault α) (StateM Stock) Unit).run.run s) = _
      rw [hsub]
      rfl
    show ((forget r >>= fun _ => rest.forM forget :
      ExceptT (Fault α) (StateM Stock) Unit).run.run s) = _
    rw [ExceptT.run_bind, StateT.run_bind, hforget]
    show (rest.forM forget).run.run
      { s with reclaimable := s.reclaimable - r.reclaimable } = _
    rw [ih (Nat.le_sub_of_add_le' h), reclaimableIn_cons, Nat.sub_sub]

/-- A portion that is not there is refused before anything is forgotten. -/
theorem run_removal (s : Stock) (count : Nat) :
    ((removal count).run.run s : Checked α Unit × Stock) =
      if count ≤ s.size then
        ((s.remaining.take count).forM forget >>= fun _ =>
          modify fun s => { s with taken := s.taken + count } :
            ExceptT (Fault α) (StateM Stock) Unit).run.run s
      else (.error (.removalExceedsRemaining count s.size), s) := by
  show ((ExceptT.mk (pure (demand (count ≤ s.size) (.removalExceedsRemaining count s.size))) >>=
    fun _ => _ : ExceptT (Fault α) (StateM Stock) Unit).run.run s) = _
  unfold demand
  split
  · rfl
  · rfl

theorem removal_of_lt {count : Nat} (h : c.size < count) :
    ((removal count).run.run c.toStock : Checked α Unit × Stock) =
      (.error (.removalExceedsRemaining count c.size), c.toStock) := by
  rw [run_removal, if_neg (Nat.not_le_of_lt h)]

/-- The front moves, and the bytes of the regions taken are gone. -/
theorem toStock_of_take {count : Nat} (h : (c.take count : Checked α Candidates) = .ok c') :
    c'.toStock = { c.toStock with
      taken := c.taken + count
      reclaimable := c.reclaimable - reclaimableIn (c.remaining.take count) } := by
  obtain ⟨_, hregions, htaken⟩ := take_eq_ok_iff.mp h
  have hleft : c'.reclaimable = c.reclaimable - reclaimableIn (c.remaining.take count) := by
    rw [c'.reclaimable_eq, Stock.remaining, hregions, htaken]
    exact (eq_of_without (c.without_front (α := α) count)).symm
  show (⟨c'.regions, c'.taken, c'.reclaimable⟩ : Stock) = _
  rw [hregions, htaken, hleft]

/-- Taking in place does what taking from a value does. -/
theorem removal_of_take {count : Nat} (h : (c.take count : Checked α Candidates) = .ok c') :
    ((removal count).run.run c.toStock : Checked α Unit × Stock) = (.ok (), c'.toStock) := by
  rw [run_removal, if_pos (take_eq_ok_iff.mp h).1, ExceptT.run_bind, StateT.run_bind,
    run_forM_forget (c.front_le count), toStock_of_take h]
  rfl

/-! ## The candidates after any portions -/

/-- The candidates when `total` of `regions` were taken from the front. -/
structure Left (c : Candidates) (regions : List OldRegion) (total : Nat) : Prop where
  regions_eq : c.regions = regions
  remaining_eq : c.remaining = regions.drop total
  reclaimable_eq : c.reclaimable = reclaimableIn c.remaining

/-- Candidates whose reclaimable bytes add up to a word can be made, and after any portions that are
there they are the regions behind those, with the exact sum of what these would free. No difference
is negative, and two more portions are one portion of both. One portion too many is refused in every
sequence that asks for more than there is, and leaves the candidates as they were. -/
theorem candidates_never_drift {regions : List OldRegion}
    (hwords : reclaimableIn regions < wordBound) :
    ∃ c₀ : Candidates, (ofRegions (regions.map .old) : Checked α Candidates) = .ok c₀ ∧
      ∀ counts : List Nat,
        (counts.sum ≤ regions.length →
          ∃ c, (c₀.takeEach counts : Checked α Candidates) = .ok c ∧
            c.Left regions counts.sum ∧
            (∀ a b, a + b ≤ c.size →
              (c.takeEach [a, b] : Checked α Candidates) = c.take (a + b)) ∧
            (∀ count, count ≤ c.size →
              ∃ c', (c.take count : Checked α Candidates) = .ok c' ∧
                ((removal count).run.run c.toStock : Checked α Unit × Stock) =
                  (.ok (), c'.toStock)) ∧
            ∀ count, c.size < count →
              ((removal count).run.run c.toStock : Checked α Unit × Stock) =
                (.error (.removalExceedsRemaining count c.size), c.toStock)) ∧
        (regions.length < counts.sum →
          ∃ count left, left < count ∧
            (c₀.takeEach counts : Checked α Candidates) =
              .error (.removalExceedsRemaining count left)) := by
  obtain ⟨c₀, hmade, hregions, htaken⟩ := ofRegions_of_words (α := α) hwords
  have hsize : c₀.size = regions.length := by rw [size_eq, hregions, htaken, Nat.sub_zero]
  refine ⟨c₀, hmade, fun counts => ⟨fun hfit => ?_, fun hmore => ?_⟩⟩
  · rw [← hsize] at hfit
    obtain ⟨c, htake, hregions', htaken'⟩ := take_of_le (α := α) hfit
    rw [takeEach_eq hfit]
    rw [hregions] at hregions'
    rw [htaken, Nat.zero_add] at htaken'
    have hremaining : c.remaining = regions.drop counts.sum := by
      rw [Stock.remaining, hregions', htaken']
    refine ⟨c, htake, ⟨hregions', hremaining, c.reclaimable_eq⟩, ?_, ?_, ?_⟩
    · intro a b hab
      rw [takeEach_eq (by simpa using hab)]
      simp
    · intro count hcount
      obtain ⟨c', htake', _⟩ := take_of_le (α := α) hcount
      exact ⟨c', htake', removal_of_take htake'⟩
    · intro count hcount
      exact removal_of_lt hcount
  · exact takeEach_of_too_many (hsize ▸ hmore)

/-- Three regions of which one and then two are taken. -/
theorem candidates_never_drift_of_three :
    reclaimableIn [⟨4, 10, 3, 0, by decide⟩, ⟨7, 8, 8, 2, by decide⟩, ⟨9, 5, 1, 6, by decide⟩] <
        wordBound ∧
      ∃ c₀ : Candidates,
        (ofRegions [.old ⟨4, 10, 3, 0, by decide⟩, .old ⟨7, 8, 8, 2, by decide⟩,
          .old ⟨9, 5, 1, 6, by decide⟩] : Checked Rat Candidates) = .ok c₀ ∧
        ∃ c, (c₀.takeEach [1, 2] : Checked Rat Candidates) = .ok c ∧ c.remaining = [] ∧
          c.reclaimable = 0 := by
  have hwords : reclaimableIn [⟨4, 10, 3, 0, by decide⟩, ⟨7, 8, 8, 2, by decide⟩,
      ⟨9, 5, 1, 6, by decide⟩] < wordBound := by decide
  obtain ⟨c₀, hmade, hportions⟩ := candidates_never_drift (α := Rat) hwords
  obtain ⟨c, htake, hleft, -⟩ := (hportions [1, 2]).1 (by decide)
  refine ⟨hwords, c₀, hmade, c, htake, hleft.remaining_eq, ?_⟩
  rw [hleft.reclaimable_eq, hleft.remaining_eq]
  rfl

end Candidates

end OldRegions

end PauseGoal
