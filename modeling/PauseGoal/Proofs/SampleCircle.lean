import PauseGoal.Proofs.SampleWindows

/-!
# Samples kept in a circle

A window lists its samples, and they fit a fixed number of slots. Each sample goes into the slot
after that of the sample before it, and after the last slot comes the first again. What a sample
overwrites is what leaves the window: the oldest sample once the circle is full, and before that the
zero that was in the slot from the start. The oldest sample is found in the first slot until the
circle is full, and from then on in the slot of the next sample.

After any samples the circle reads like the window (`readsLike_foldl_add`). The invariant says where
the samples are that were not overwritten yet (`Keeps`): each at its number modulo the capacity.
-/

namespace PauseGoal.Sample

/-- As many slots as a window has room for samples. -/
structure Circle (α : Type) (capacity : Nat) where
  slots : Vector α capacity
  /-- The slot that the next sample goes into. -/
  next : Nat
  /-- How many samples the circle holds. -/
  size : Nat
  next_lt : next < capacity

namespace Circle

variable {α : Type} [Scalar α] {capacity : Nat}

def empty (capacity_pos : 0 < capacity) : Circle α capacity where
  slots := Vector.replicate capacity (num 0)
  next := 0
  size := 0
  next_lt := capacity_pos

omit [Scalar α] in
theorem capacity_pos (c : Circle α capacity) : 0 < capacity := Nat.zero_lt_of_lt c.next_lt

def add (c : Circle α capacity) (x : α) : Circle α capacity where
  slots := c.slots.set c.next x c.next_lt
  next := (c.next + 1) % capacity
  size := if c.size < capacity then c.size + 1 else c.size
  next_lt := Nat.mod_lt _ c.capacity_pos

/-- The oldest sample in the circle; zero if there is none. -/
def oldest (c : Circle α capacity) : α :=
  if c.size < capacity then c.slots.get ⟨0, c.capacity_pos⟩ else c.slots.get ⟨c.next, c.next_lt⟩

/-- The latest sample; zero if there is none. -/
def latest (c : Circle α capacity) : α :=
  c.slots.get ⟨(c.next + capacity - 1) % capacity, Nat.mod_lt _ c.capacity_pos⟩

/-- What the next sample overwrites. -/
def evicted (c : Circle α capacity) : α := c.slots.get ⟨c.next, c.next_lt⟩

/-! ## Where the samples are -/

/-- The circle after the samples `xs`. -/
structure Keeps (c : Circle α capacity) (xs : List α) : Prop where
  next_eq : c.next = xs.length % capacity
  size_eq : c.size = min xs.length capacity
  /-- A sample that was not overwritten yet is in the slot of its number. -/
  kept : ∀ i, i < xs.length → xs.length ≤ i + capacity → c.slots[i % capacity]? = xs[i]?
  /-- No sample has gone into the slots beyond them yet. -/
  fresh : ∀ j, xs.length ≤ j → j < capacity → c.slots[j]? = some (num 0)

theorem keeps_empty (h : 0 < capacity) : (empty h : Circle α capacity).Keeps [] where
  next_eq := (Nat.zero_mod capacity).symm
  size_eq := (Nat.zero_min capacity).symm
  kept i hi _ := absurd hi (Nat.not_lt_zero i)
  fresh j _ hj := by simp [empty, hj]

/-- Within one turn of the circle no slot comes twice. -/
theorem mod_ne_mod {i n : Nat} (hlt : i < n) (hturn : n < i + capacity) :
    i % capacity ≠ n % capacity := by
  intro heq
  have hdvd : capacity ∣ n - i := Nat.dvd_of_mod_eq_zero (Nat.sub_mod_eq_zero_of_mod_eq heq.symm)
  have hzero : n - i = 0 := Nat.eq_zero_of_dvd_of_lt hdvd (by omega)
  omega

variable {c : Circle α capacity} {xs : List α}

theorem Keeps.add (h : c.Keeps xs) (x : α) : (c.add x).Keeps (xs ++ [x]) := by
  have hpos := c.capacity_pos
  have hlength : (xs ++ [x]).length = xs.length + 1 := List.length_append
  have hnext : (c.add x).next = (c.next + 1) % capacity := rfl
  have hsize : (c.add x).size = if c.size < capacity then c.size + 1 else c.size := rfl
  have hslots (j : Nat) : (c.add x).slots[j]? =
      if xs.length % capacity = j then some x else c.slots[j]? := by
    rw [← h.next_eq, Circle.add, Vector.getElem?_set]
  refine ⟨?_, ?_, fun i hi hturn => ?_, fun j hlow hhigh => ?_⟩
  · rw [hnext, hlength, h.next_eq, Nat.mod_add_mod]
  · rw [hsize, hlength, h.size_eq]
    split <;> omega
  · -- of the samples of the last turn only the new one is in the slot just written
    rw [hlength] at hi hturn
    rw [hslots]
    rcases Nat.lt_succ_iff_lt_or_eq.mp hi with hearlier | rfl
    · rw [if_neg (mod_ne_mod hearlier (by omega)).symm, List.getElem?_append_left hearlier]
      exact h.kept i hearlier (by omega)
    · rw [if_pos rfl, List.getElem?_concat_length]
  · rw [hlength] at hlow
    rw [hslots, if_neg (by rw [Nat.mod_eq_of_lt] <;> omega)]
    exact h.fresh j (by omega) hhigh

theorem Keeps.foldl_add (h : c.Keeps xs) (ys : List α) :
    (ys.foldl Circle.add c).Keeps (xs ++ ys) := by
  induction ys generalizing c xs with
  | nil => rwa [List.append_nil]
  | cons y ys ih => simpa using ih (h.add y)

/-! ## What is read -/

/-- What is read of the circle is what is read of the window. -/
structure ReadsLike (c : Circle α capacity) (w : Window α) : Prop where
  size : c.size = w.size
  oldest : c.oldest = w.oldest
  latest : c.latest = w.latest
  evicted : c.evicted = w.evicted

omit [Scalar α] in
theorem get_eq_getD {j : Nat} (hj : j < capacity) (zero : α) :
    c.slots.get ⟨j, hj⟩ = c.slots[j]?.getD zero := by
  rw [Vector.getElem?_eq_getElem hj]
  rfl

/-- Once the circle is full, the slot of the next sample has the oldest one in it. -/
theorem Keeps.evicted_eq (h : c.Keeps xs) :
    c.evicted = if xs.length < capacity then num 0 else xs[xs.length - capacity]?.getD (num 0) := by
  rw [evicted, get_eq_getD c.next_lt (num 0), h.next_eq]
  split
  · next hroom => rw [Nat.mod_eq_of_lt hroom, h.fresh _ (Nat.le_refl _) hroom, Option.getD_some]
  · next hfull =>
    have hpos := c.capacity_pos
    rw [Nat.mod_eq_sub_mod (Nat.le_of_not_lt hfull), h.kept _ (by omega) (by omega)]

theorem Keeps.oldest_eq (h : c.Keeps xs) :
    c.oldest = xs[xs.length - capacity]?.getD (num 0) := by
  have hpos := c.capacity_pos
  have hevicted := h.evicted_eq
  rw [oldest, h.size_eq]
  by_cases hroom : xs.length < capacity
  · rw [if_pos (by omega), get_eq_getD hpos (num 0), Nat.sub_eq_zero_of_le (Nat.le_of_lt hroom)]
    cases xs with
    | nil => rw [h.fresh 0 (Nat.le_refl 0) hpos]; rfl
    | cons x rest =>
      rw [← h.kept 0 (Nat.succ_pos _) (by omega), Nat.zero_mod]
  · rw [if_neg (by omega)]
    rwa [if_neg hroom] at hevicted

theorem Keeps.latest_eq (h : c.Keeps xs) : c.latest = xs.getLast?.getD (num 0) := by
  have hpos := c.capacity_pos
  rw [latest, get_eq_getD (Nat.mod_lt _ hpos) (num 0), h.next_eq, List.getLast?_eq_getElem?]
  cases hlength : xs.length with
  | zero =>
    rw [Nat.zero_mod, Nat.zero_add, Nat.mod_eq_of_lt (by omega), h.fresh _ (by omega) (by omega)]
    simp [List.length_eq_zero_iff.mp hlength]
  | succ n =>
    -- one slot back is a whole turn on, less one slot
    have hturn : n + 1 + (capacity - 1) = n + capacity := by omega
    have hback : ((n + 1) % capacity + capacity - 1) % capacity = n % capacity := by
      rw [Nat.add_sub_assoc hpos, Nat.mod_add_mod, hturn, Nat.add_mod_right]
    rw [hback, h.kept n (by omega) (by omega), Nat.add_sub_cancel]

/-- After any samples the circle reads like the window. -/
theorem readsLike_foldl_add (h : 0 < capacity) (weight : α) (xs : List α) :
    (xs.foldl Circle.add (empty h)).ReadsLike
      (xs.foldl Window.add (Window.empty capacity weight h)) := by
  have hkeeps : (xs.foldl Circle.add (empty h)).Keeps xs := (keeps_empty h).foldl_add xs
  have hsize := Window.size_foldl_add_empty h weight xs
  refine ⟨?_, ?_, ?_, ?_⟩
  · rw [hkeeps.size_eq, hsize]
  · rw [hkeeps.oldest_eq, Window.oldest_foldl_add_empty]
  · rw [hkeeps.latest_eq, Window.latest_foldl_add_empty]
  · have hroom : min xs.length capacity < capacity ↔ xs.length < capacity := by omega
    have hcapacity := Window.capacity_foldl_add (Window.empty capacity weight h) xs
    rw [show (Window.empty capacity weight h).capacity = capacity from rfl] at hcapacity
    rw [hkeeps.evicted_eq, Window.evicted, hsize, Window.oldest_foldl_add_empty, hcapacity]
    simp only [hroom]

end Circle

end PauseGoal.Sample
