import PauseGoal.Region

/-!
# Candidates

Marking leaves a list of old regions that are worth evacuating, the best first. Mixed collections
take regions from its front until none are left. The bytes that the remaining ones would free are
carried along. No more regions are taken than there are, and the bytes are the exact sum: both are
part of what `Candidates` are.
-/

namespace PauseGoal.OldRegions

variable {α : Type}

/-- The bytes that evacuating some regions frees. -/
def reclaimableIn : List OldRegion → Nat
  | [] => 0
  | r :: rest => r.reclaimable + reclaimableIn rest

@[simp]
theorem reclaimableIn_nil : reclaimableIn [] = 0 := rfl

@[simp]
theorem reclaimableIn_cons (r : OldRegion) (rs : List OldRegion) :
    reclaimableIn (r :: rs) = r.reclaimable + reclaimableIn rs := rfl

theorem reclaimableIn_take_add_drop (rs : List OldRegion) (count : Nat) :
    reclaimableIn (rs.take count) + reclaimableIn (rs.drop count) = reclaimableIn rs := by
  induction rs generalizing count with
  | nil => simp
  | cons r rest ih =>
    cases count with
    | zero => simp
    | succ count =>
      rw [List.take_succ_cons, List.drop_succ_cons, reclaimableIn_cons, reclaimableIn_cons,
        Nat.add_assoc, ih]

theorem foldlM_add_eq_ok_iff {rs : List OldRegion} {start total : Nat}
    (hstart : start < wordBound) :
    ((rs.map OldRegion.reclaimable).foldlM Word.add start : Checked α Nat) = .ok total ↔
      start + reclaimableIn rs < wordBound ∧ start + reclaimableIn rs = total := by
  induction rs generalizing start with
  | nil => simp [hstart, pure, Except.pure]
  | cons r rest ih =>
    rw [List.map_cons, List.foldlM_cons, reclaimableIn_cons, ← Nat.add_assoc]
    by_cases hword : start + r.reclaimable < wordBound
    · rw [Word.add_eq_ok_iff.mpr ⟨hword, rfl⟩]
      exact ih hword
    · have hover : (Word.add start r.reclaimable : Checked α Nat) = .error .additionOverflow :=
        if_neg hword
      rw [hover]
      refine ⟨nofun, fun h => ?_⟩
      exact absurd (Nat.lt_of_le_of_lt (Nat.le_add_right _ _) h.1) hword

/-- The bytes of some regions add up exactly, if their sum is a word. -/
theorem sum_eq_ok_iff {rs : List OldRegion} {total : Nat} :
    (Word.sum (rs.map OldRegion.reclaimable) : Checked α Nat) = .ok total ↔
      reclaimableIn rs < wordBound ∧ reclaimableIn rs = total := by
  rw [Word.sum, foldlM_add_eq_ok_iff (by decide), Nat.zero_add]

/-- A number of bytes without those of some regions, which are taken off one by one. -/
def without (bytes : Nat) (rs : List OldRegion) : Checked α Nat :=
  rs.foldlM (fun bytes r => Word.sub bytes r.reclaimable) bytes

theorem without_eq_ok_iff {bytes left : Nat} {rs : List OldRegion} :
    (without bytes rs : Checked α Nat) = .ok left ↔
      reclaimableIn rs ≤ bytes ∧ bytes - reclaimableIn rs = left := by
  unfold without
  induction rs generalizing bytes with
  | nil => simp [pure, Except.pure]
  | cons r rest ih =>
    rw [List.foldlM_cons, reclaimableIn_cons]
    by_cases hcovered : r.reclaimable ≤ bytes
    · rw [Word.sub_eq_ok_iff.mpr ⟨hcovered, rfl⟩]
      refine ih.trans ?_
      rw [Nat.le_sub_iff_add_le' hcovered, Nat.sub_sub]
    · have hover : (Word.sub bytes r.reclaimable : Checked α Nat) = .error .subtractionOverflow :=
        if_neg hcovered
      rw [hover]
      refine ⟨nofun, fun h => ?_⟩
      exact absurd (Nat.le_trans (Nat.le_add_right _ _) h.1) hcovered

/-- A list of old regions, how many were taken from its front, and the bytes carried along. Nothing
is said yet about the three. -/
structure Stock where
  /-- All regions selected, collected ones included. -/
  regions : List OldRegion
  /-- How many were taken from the front. -/
  taken : Nat
  /-- What evacuating the remaining ones should free. -/
  reclaimable : Nat
deriving DecidableEq, Repr

namespace Stock

def remaining (s : Stock) : List OldRegion := s.regions.drop s.taken

def size (s : Stock) : Nat := s.remaining.length

end Stock

/-- The old regions that marking selected. No more were taken than there are, and the bytes carried
along are exactly what the remaining ones free. -/
structure Candidates extends Stock where
  taken_le : taken ≤ regions.length
  reclaimable_eq : reclaimable = reclaimableIn toStock.remaining
deriving DecidableEq, Repr

namespace Candidates

variable {c c' : Candidates}

/-- Candidates are what the list is and how many were taken. -/
theorem ext (hregions : c.regions = c'.regions) (htaken : c.taken = c'.taken) : c = c' := by
  obtain ⟨⟨regions, taken, reclaimable⟩, _, hreclaimable⟩ := c
  obtain ⟨⟨regions', taken', reclaimable'⟩, _, hreclaimable'⟩ := c'
  obtain rfl : regions = regions' := hregions
  obtain rfl : taken = taken' := htaken
  obtain rfl : reclaimable = reclaimable' := hreclaimable.trans hreclaimable'.symm
  rfl

/-- The old regions of a list; a young region is no candidate. -/
def oldRegions : List Region → Checked α (List OldRegion)
  | [] => .ok []
  | .old r :: rest => do return r :: (← oldRegions rest)
  | .young r :: _ => .error (.youngCandidate r.index)

/-- Candidates none of which were taken. -/
def create (regions : List OldRegion) : Checked α Candidates :=
  match htotal : (Word.sum (regions.map OldRegion.reclaimable) : Checked α Nat) with
  | .ok total => .ok {
      regions
      taken := 0
      reclaimable := total
      taken_le := Nat.zero_le _
      reclaimable_eq := (sum_eq_ok_iff.mp htotal).2.symm }
  | .error fault => .error fault

/-- Candidates from regions of any generation. -/
def ofRegions (regions : List Region) : Checked α Candidates := do
  create (← oldRegions regions)

def isEmpty (c : Candidates) : Bool := c.remaining.isEmpty

theorem taken_add_le {count : Nat} (h : count ≤ c.size) : c.taken + count ≤ c.regions.length := by
  have htaken := c.taken_le
  rw [Stock.size, Stock.remaining, List.length_drop] at h
  omega

/-- Without the regions at the front the bytes of those behind are left. -/
theorem eq_of_without {count left : Nat}
    (h : (without c.reclaimable (c.remaining.take count) : Checked α Nat) = .ok left) :
    left = reclaimableIn (c.regions.drop (c.taken + count)) := by
  rw [← (without_eq_ok_iff.mp h).2, c.reclaimable_eq, ← reclaimableIn_take_add_drop _ count,
    Nat.add_sub_cancel_left, Stock.remaining, List.drop_drop]

/-- Takes regions from the front. -/
def take (c : Candidates) (count : Nat) : Checked α Candidates :=
  if hcount : count ≤ c.size then
    match hleft : (without c.reclaimable (c.remaining.take count) : Checked α Nat) with
    | .ok left => .ok {
        regions := c.regions
        taken := c.taken + count
        reclaimable := left
        taken_le := taken_add_le hcount
        reclaimable_eq := eq_of_without hleft }
    | .error fault => .error fault
  else .error (.removalExceedsRemaining count c.size)

end Candidates

end PauseGoal.OldRegions
