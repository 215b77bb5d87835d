import PauseGoal.Sample.Window

/-!
# What a sample does to a window

A window grows until it is full. Its latest sample is the one just added, and the first sample is
the mean. After any number of samples it holds the last ones, as many as there is room for.
-/

namespace PauseGoal.Sample.Window

variable {α : Type} [Scalar α]

/-- No sample changes how much the window holds. -/
theorem capacity_foldl_add (w : Window α) (xs : List α) :
    (xs.foldl add w).capacity = w.capacity := by
  induction xs generalizing w with
  | nil => rfl
  | cons x xs ih => exact ih (w.add x)

/-- A sample is one more until the window is full. -/
theorem size_add {w : Window α} (h : w.size ≤ w.capacity) (x : α) :
    (w.add x).size = min (w.size + 1) w.capacity := by
  have hpos := w.capacity_pos
  have hsamples : (w.add x).size =
      (if w.size < w.capacity then w.samples ++ [x] else w.samples.tail ++ [x]).length := rfl
  have hlength : w.samples.length = w.size := rfl
  rw [hsamples]
  split
  · rw [List.length_append, List.length_singleton]
    omega
  · rw [List.length_append, List.length_tail, List.length_singleton]
    omega

theorem size_foldl_add {w : Window α} (h : w.size ≤ w.capacity) (xs : List α) :
    (xs.foldl add w).size = min (w.size + xs.length) w.capacity := by
  induction xs generalizing w with
  | nil => exact (Nat.min_eq_left h).symm
  | cons x xs ih =>
    have hsize := size_add h x
    have hcapacity : (w.add x).capacity = w.capacity := rfl
    rw [List.foldl_cons, ih (by omega), hsize, hcapacity, List.length_cons]
    omega

/-- Of all samples the window holds the last ones. -/
theorem samples_foldl_add {w : Window α} (h : w.size ≤ w.capacity) (xs : List α) :
    (xs.foldl add w).samples = (w.samples ++ xs).drop (w.size + xs.length - w.capacity) := by
  induction xs generalizing w with
  | nil =>
    rw [List.length_nil, Nat.add_zero, Nat.sub_eq_zero_of_le h, List.drop_zero, List.append_nil]
    rfl
  | cons x xs ih =>
    have hsize := size_add h x
    have hcapacity : (w.add x).capacity = w.capacity := rfl
    have hsamples : (w.add x).samples =
        if w.size < w.capacity then w.samples ++ [x] else w.samples.tail ++ [x] := rfl
    have hlength : w.samples.length = w.size := rfl
    have hpos := w.capacity_pos
    rw [List.foldl_cons, ih (by omega), hsamples, hcapacity, List.length_cons]
    split
    · next hroom =>
      rw [List.append_assoc, List.singleton_append]
      congr 1
      omega
    · next hfull =>
      -- one sample more is dropped, and it is the one that the tail lacks
      cases hcases : w.samples with
      | nil =>
        rw [hcases] at hlength
        rw [← hlength] at hfull
        exact absurd hpos hfull
      | cons oldest rest =>
        rw [List.tail_cons, List.append_assoc, List.singleton_append, List.cons_append,
          ← List.drop_succ_cons]
        congr 1
        omega

/-! ## All samples of a window

What a window holds and shows after the samples `xs`, when it was empty before. -/

section

variable {capacity : Nat} (h : 0 < capacity) (weight : α) (xs : List α)

theorem create_of_pos : create capacity weight = .ok (empty capacity weight h) := dif_pos h

theorem size_foldl_add_empty :
    (xs.foldl add (empty capacity weight h)).size = min xs.length capacity := by
  have hsize := size_foldl_add (w := empty capacity weight h) (Nat.zero_le capacity) xs
  rwa [show (empty capacity weight h).size = 0 from rfl, Nat.zero_add] at hsize

theorem samples_foldl_add_empty :
    (xs.foldl add (empty capacity weight h)).samples = xs.drop (xs.length - capacity) := by
  have hsamples := samples_foldl_add (w := empty capacity weight h) (Nat.zero_le capacity) xs
  rwa [show (empty capacity weight h).size = 0 from rfl, Nat.zero_add] at hsamples

theorem oldest_foldl_add_empty :
    (xs.foldl add (empty capacity weight h)).oldest =
      xs[xs.length - capacity]?.getD (num 0) := by
  rw [oldest, samples_foldl_add_empty, List.head?_drop]

theorem latest_foldl_add_empty :
    (xs.foldl add (empty capacity weight h)).latest = xs.getLast?.getD (num 0) := by
  rw [latest, samples_foldl_add_empty, List.getLast?_drop]
  split
  · next hnone =>
    have hnil : xs = [] := List.length_eq_zero_iff.mp (by omega)
    rw [hnil]
    rfl
  · rfl

end

/-! ## One sample -/

theorem isEmpty_add (w : Window α) (x : α) : (w.add x).isEmpty = false := by
  unfold isEmpty add
  simp only
  split <;> simp

theorem latest_add (w : Window α) (x : α) : (w.add x).latest = x := by
  unfold latest add
  simp only
  split <;> simp

theorem mean_add_of_isEmpty {w : Window α} (h : w.isEmpty = true) (x : α) :
    (w.add x).mean = x := if_pos h

end PauseGoal.Sample.Window
