import PauseGoal.Proofs.Contracts
import Mathlib.Algebra.BigOperators.Group.List.Basic
import Mathlib.Tactic.Ring

/-!
# Tables of survivor ages

Every worker counts its survivors in a table of its own, and the tables of a pause are merged. Seen
age by age, a table is the sum of what was added to it: `addAll` and `merge` succeed exactly when
all these sums are words, and then they are exact. So neither the order of the additions nor their
split into tables matters.

The tenuring threshold is found from any table whose bytes add up to a word.
-/

namespace PauseGoal.SurvivorAges

variable {α : Type}

theorem slot_lt (age : Nat) : slot age < ageCount :=
  Nat.lt_of_le_of_lt (Nat.min_le_right _ _) (by decide)

/-- The bytes counted at one of the ages told apart. -/
def bytesAt (ages : SurvivorAges) (age : Nat) : Nat := ages.sizes.getD age 0

/-- The bytes that additions put at an age. -/
def counted (additions : List (Nat × Nat)) (age : Nat) : Nat :=
  (additions.map fun a => if slot a.1 = age then a.2 else 0).sum

theorem eq_of_bytesAt {ages other : SurvivorAges}
    (h : ∀ age < ageCount, ages.bytesAt age = other.bytesAt age) : ages = other := by
  obtain ⟨sizes, hsizes⟩ := ages
  obtain ⟨sizes', hsizes'⟩ := other
  obtain rfl : sizes = sizes' := by
    refine List.ext_getElem (hsizes.trans hsizes'.symm) fun age hage hage' => ?_
    have hsame := h age (hsizes ▸ hage)
    simpa [bytesAt, List.getD_eq_getElem?_getD, hage, hage'] using hsame
  rfl

@[simp]
theorem bytesAt_empty (age : Nat) : empty.bytesAt age = 0 := by
  unfold bytesAt empty
  rw [List.getD_eq_getElem?_getD, List.getElem?_replicate]
  split <;> rfl

@[simp]
theorem counted_cons (a : Nat × Nat) (additions : List (Nat × Nat)) (age : Nat) :
    counted (a :: additions) age =
      (if slot a.1 = age then a.2 else 0) + counted additions age := by
  simp [counted]

theorem counted_perm {additions additions' : List (Nat × Nat)} (h : additions.Perm additions')
    (age : Nat) : counted additions age = counted additions' age :=
  (h.map _).sum_eq

theorem counted_append (additions more : List (Nat × Nat)) (age : Nat) :
    counted (additions ++ more) age = counted additions age + counted more age := by
  simp [counted]

/-! ## Sums, age by age -/

theorem add_eq_ok_iff {ages table : SurvivorAges} {age bytes : Nat} :
    (ages.add age bytes : Checked α SurvivorAges) = .ok table ↔
      ages.bytesAt (slot age) + bytes < wordBound ∧
        ∀ i < ageCount, table.bytesAt i = ages.bytesAt i + if slot age = i then bytes else 0 := by
  have hset (size : Nat) (i : Nat) (hi : i < ageCount) :
      (ages.sizes.set (slot age) size).getD i 0 =
        if slot age = i then size else ages.sizes.getD i 0 := by
    have hlength : i < ages.sizes.length := ages.length_sizes ▸ hi
    rw [List.getD_eq_getElem?_getD, List.getElem?_set]
    split
    · next hslot => simp [hslot, hlength]
    · rw [List.getD_eq_getElem?_getD]
  constructor
  · intro h
    obtain ⟨size, hsize, htable⟩ := Checked.exists_of_bind_eq_ok h
    obtain ⟨hword, rfl⟩ := Word.add_eq_ok_iff.mp hsize
    cases htable
    refine ⟨hword, fun i hi => (hset _ i hi).trans ?_⟩
    split
    · next hslot => rw [← hslot]; rfl
    · rfl
  · rintro ⟨hword, htable⟩
    have hsize : (Word.add (ages.sizes.getD (slot age) 0) bytes : Checked α Nat) =
        .ok (ages.sizes.getD (slot age) 0 + bytes) := Word.add_eq_ok_iff.mpr ⟨hword, rfl⟩
    unfold add
    rw [hsize]
    refine congrArg Except.ok (eq_of_bytesAt fun i hi => ?_)
    rw [htable i hi]
    refine (hset _ i hi).trans ?_
    split
    · next hslot => rw [← hslot]; rfl
    · rfl

/-- A table of words counts additions exactly when all its sums stay words. -/
theorem addAll_eq_ok_iff {ages table : SurvivorAges} {additions : List (Nat × Nat)}
    (hwords : ∀ i < ageCount, ages.bytesAt i < wordBound) :
    (ages.addAll additions : Checked α SurvivorAges) = .ok table ↔
      ∀ i < ageCount, table.bytesAt i = ages.bytesAt i + counted additions i ∧
        table.bytesAt i < wordBound := by
  induction additions generalizing ages with
  | nil =>
    constructor
    · intro h
      cases h
      exact fun i hi => ⟨rfl, hwords i hi⟩
    · intro h
      exact congrArg Except.ok (eq_of_bytesAt fun i hi => ((h i hi).1).symm)
  | cons a rest ih =>
    constructor
    · intro h
      obtain ⟨middle, hadd, hrest⟩ := Checked.exists_of_bind_eq_ok h
      obtain ⟨hword, hmiddle⟩ := add_eq_ok_iff.mp hadd
      have hwords' : ∀ i < ageCount, middle.bytesAt i < wordBound := by
        intro i hi
        rw [hmiddle i hi]
        split
        · next hslot => rw [← hslot]; exact hword
        · exact hwords i hi
      intro i hi
      obtain ⟨hsum, htable⟩ := (ih hwords').mp hrest i hi
      refine ⟨?_, htable⟩
      rw [hsum, hmiddle i hi, counted_cons, Nat.add_assoc]
    · intro h
      have hword : ages.bytesAt (slot a.1) + a.2 < wordBound := by
        have hslot := h (slot a.1) (slot_lt a.1)
        rw [counted_cons, if_pos rfl] at hslot
        omega
      obtain ⟨middle, hadd⟩ :
          ∃ middle, (ages.add a.1 a.2 : Checked α SurvivorAges) = .ok middle := by
        unfold add
        rw [show ages.sizes.getD (slot a.1) 0 = ages.bytesAt (slot a.1) from rfl,
          Word.add_eq_ok_iff.mpr ⟨hword, rfl⟩]
        exact ⟨_, rfl⟩
      obtain ⟨_, hmiddle⟩ := add_eq_ok_iff.mp hadd
      have hsums : ∀ i < ageCount, table.bytesAt i = middle.bytesAt i + counted rest i := by
        intro i hi
        rw [(h i hi).1, hmiddle i hi, counted_cons, Nat.add_assoc]
      have hrest : (middle.addAll rest : Checked α SurvivorAges) = .ok table := by
        refine (ih fun i hi => ?_).mpr fun i hi => ⟨hsums i hi, (h i hi).2⟩
        have hsum := hsums i hi
        have htable := (h i hi).2
        omega
      show (ages.add a.1 a.2 >>= fun t => t.addAll rest) = _
      rw [hadd]
      exact hrest

theorem addAll_empty_eq_ok_iff {table : SurvivorAges} {additions : List (Nat × Nat)} :
    (empty.addAll additions : Checked α SurvivorAges) = .ok table ↔
      ∀ i < ageCount, table.bytesAt i = counted additions i ∧ table.bytesAt i < wordBound := by
  have hwords : ∀ i < ageCount, empty.bytesAt i < wordBound := fun i _ => by
    rw [bytesAt_empty]
    decide
  rw [addAll_eq_ok_iff hwords]
  simp

/-- Tables merge exactly when all sums are words. -/
theorem merge_eq_ok_iff {ages other table : SurvivorAges} :
    (ages.merge other : Checked α SurvivorAges) = .ok table ↔
      ∀ i < ageCount, table.bytesAt i = ages.bytesAt i + other.bytesAt i ∧
        table.bytesAt i < wordBound := by
  have hsums (i : Nat) (hi : i < ageCount) :
      (ages.sizes.zipWith (· + ·) other.sizes)[i]? =
        some (ages.bytesAt i + other.bytesAt i) := by
    have hages : i < ages.sizes.length := ages.length_sizes ▸ hi
    have hother : i < other.sizes.length := other.length_sizes ▸ hi
    simp [bytesAt, hages, hother]
  unfold merge
  extract_lets sums
  split
  · next hall =>
    have hword : ∀ i < ageCount, ages.bytesAt i + other.bytesAt i < wordBound := by
      intro i hi
      have hmem := List.mem_of_getElem? (hsums i hi)
      exact of_decide_eq_true (List.all_eq_true.mp hall _ hmem)
    have hbytes (i : Nat) (hi : i < ageCount) :
        sums.getD i 0 = ages.bytesAt i + other.bytesAt i := by
      rw [List.getD_eq_getElem?_getD]
      exact congrArg (Option.getD · 0) (hsums i hi)
    constructor
    · intro h
      cases h
      intro i hi
      rw [bytesAt, hbytes i hi]
      exact ⟨rfl, hword i hi⟩
    · intro h
      refine congrArg Except.ok (eq_of_bytesAt fun i hi => ?_)
      rw [(h i hi).1]
      exact hbytes i hi
  · next hall =>
    constructor
    · intro h
      cases h
    · intro h
      refine absurd (List.all_eq_true.mpr fun sum hsum => ?_) hall
      obtain ⟨i, hi, rfl⟩ := List.getElem_of_mem hsum
      have hi' : i < ageCount := by
        rw [List.length_zipWith, ages.length_sizes, other.length_sizes, Nat.min_self] at hi
        exact hi
      have hvalue := (List.getElem?_eq_getElem hi).symm.trans (hsums i hi')
      rw [Option.some.inj hvalue]
      have hword := h i hi'
      exact decide_eq_true (by omega)

/-! ## The threshold of a table -/

theorem firstExceeding_of_words {desired : Nat} {sizes : List Nat} {age sum : Nat}
    (h : sum + sizes.sum < wordBound) :
    ∃ found, (firstExceeding desired sizes age sum : Checked α (Option Nat)) = .ok found := by
  induction sizes generalizing age sum with
  | nil => exact ⟨none, rfl⟩
  | cons size older ih =>
    rw [List.sum_cons] at h
    unfold firstExceeding
    rw [Word.add_eq_ok_iff.mpr ⟨(by omega : sum + size < wordBound), rfl⟩]
    simp only [bind, Except.bind]
    split
    · exact ⟨some age, rfl⟩
    · exact ih (by omega)

/-- The threshold is found from a table whose bytes add up to a word. -/
theorem threshold_of_words {ages : SurvivorAges} (h : ages.sizes.sum < wordBound)
    (desired maximum : Nat) :
    ∃ threshold, (ages.threshold desired maximum : Checked α Nat) = .ok threshold := by
  unfold threshold
  split
  · exact ⟨0, rfl⟩
  · obtain ⟨found, hfound⟩ : ∃ found,
        (firstExceeding desired ages.sizes 0 0 : Checked α (Option Nat)) = .ok found :=
      firstExceeding_of_words (by omega)
    rw [hfound]
    cases found with
    | none => exact ⟨maximum, rfl⟩
    | some age => exact ⟨Nat.min age maximum, rfl⟩

theorem logSizes_succeeds {sizes : List Nat} {age sum : Nat} (h : sum + sizes.sum < wordBound) :
    (logSizes sizes age sum : Logged α Unit).Succeeds := by
  induction sizes generalizing age sum with
  | nil => exact Logged.succeeds_pure ()
  | cons size older ih =>
    rw [List.sum_cons] at h
    unfold logSizes
    split
    · exact ih (by omega)
    · rw [Word.add_eq_ok_iff.mpr ⟨(by omega : sum + size < wordBound), rfl⟩]
      exact (Logged.succeeds_write _ _ _).bind fun _ => ih (by omega)

theorem log_succeeds {ages : SurvivorAges} (h : ages.sizes.sum < wordBound)
    (desired threshold maximum : Nat) :
    (ages.log desired threshold maximum : Logged α Unit).Succeeds := by
  refine (Logged.succeeds_write _ _ _).bind fun _ => ?_
  refine (Logged.succeeds_keeps _).bind fun keeps => ?_
  cases keeps with
  | false => exact Logged.succeeds_pure ()
  | true => exact logSizes_succeeds (by omega)

/-! ## The bytes of all ages -/

theorem sum_sizes_add {ages table : SurvivorAges} {age bytes : Nat}
    (h : (ages.add age bytes : Checked α SurvivorAges) = .ok table) :
    table.sizes.sum = ages.sizes.sum + bytes := by
  obtain ⟨size, hsize, htable⟩ := Checked.exists_of_bind_eq_ok h
  obtain ⟨_, rfl⟩ := Word.add_eq_ok_iff.mp hsize
  cases htable
  have hslot : slot age < ages.sizes.length := ages.length_sizes ▸ slot_lt age
  have hsplit := List.sum_take_add_sum_drop ages.sizes (slot age)
  rw [List.drop_eq_getElem_cons hslot, List.sum_cons] at hsplit
  show (ages.sizes.set (slot age) (ages.sizes.getD (slot age) 0 + bytes)).sum = _
  rw [List.sum_set, if_pos hslot, List.getD_eq_getElem?_getD, List.getElem?_eq_getElem hslot,
    Option.getD_some]
  omega

theorem sum_sizes_addAll {ages table : SurvivorAges} {additions : List (Nat × Nat)}
    (h : (ages.addAll additions : Checked α SurvivorAges) = .ok table) :
    table.sizes.sum = ages.sizes.sum + (additions.map Prod.snd).sum := by
  induction additions generalizing ages with
  | nil =>
    cases h
    rfl
  | cons a rest ih =>
    obtain ⟨middle, hadd, hrest⟩ := Checked.exists_of_bind_eq_ok h
    rw [ih hrest, sum_sizes_add hadd, List.map_cons, List.sum_cons, Nat.add_assoc]

end PauseGoal.SurvivorAges
