import Mathlib.Algebra.BigOperators.Group.List.Basic
import Mathlib.Algebra.GroupWithZero.Nat

/-!
# Tallies: the table of a counting sort

`tally idx n xs` counts, for each position `i < n`, the elements of `xs` that `idx` sends to
`i`.  It is the table that a counting sort or a bucketed histogram keeps in place of the
elements themselves.  The lemmas say how the table changes when an element comes in (one entry
goes up by one, or none when the element falls past the table), when two lists are joined (the
tables add up entry by entry), and what its prefix sums count (the elements sent below a
position).  Two lists whose elements land at the same positions have the same table, so a table
determines its list only up to what `idx` sees.
-/

namespace Tally

universe u

variable {α : Type u} (idx : α → ℕ)

/-- The number of elements of `xs` at each position `i < n`. -/
def tally (n : ℕ) (xs : List α) : List ℕ :=
  (List.range n).map fun i => xs.countP (idx · = i)

variable {idx} {n : ℕ} {xs ys : List α}

@[simp]
theorem length_tally : (tally idx n xs).length = n := by
  simp [tally]

@[simp]
theorem getElem_tally {i : ℕ} (lt : i < (tally idx n xs).length) :
    (tally idx n xs)[i] = xs.countP (idx · = i) := by
  simp [tally]

@[simp]
theorem tally_nil : tally idx n ([] : List α) = List.replicate n 0 := by
  apply List.ext_getElem (by simp)
  intro i _ _
  simp

/-- An element adds one to its own entry, and to none when it falls past the table. -/
theorem tally_cons (x : α) (xs : List α) :
    tally idx n (x :: xs) = (tally idx n xs).modify (idx x) (· + 1) := by
  apply List.ext_getElem (by simp)
  intro i _ _
  rw [List.getElem_modify, getElem_tally, getElem_tally, List.countP_cons]
  by_cases same : idx x = i <;> simp [same]

/-- Modifying one entry commutes with a map that commutes with the modification. -/
theorem map_modify {β γ : Type*} (l : List β) (i : ℕ) {f : β → β} {f' : γ → γ} {g : β → γ}
    (commutes : ∀ b, g (f b) = f' (g b)) : (l.modify i f).map g = (l.map g).modify i f' := by
  apply List.ext_getElem (by simp)
  intro j _ _
  rw [List.getElem_map, List.getElem_modify, List.getElem_modify, List.getElem_map]
  split_ifs <;> simp [commutes]

/-- The table of a join is the entrywise sum of the tables. -/
theorem tally_append :
    tally idx n (xs ++ ys) = List.zipWith (· + ·) (tally idx n xs) (tally idx n ys) := by
  apply List.ext_getElem (by simp)
  intro i _ _
  simp [List.countP_append]

/-- The elements below `j + 1` are those below `j` and those at `j`. -/
theorem countP_lt_succ (xs : List α) (j : ℕ) :
    xs.countP (idx · < j + 1) = xs.countP (idx · < j) + xs.countP (idx · = j) := by
  induction xs with
  | nil => rfl
  | cons x xs ih =>
      rw [List.countP_cons, List.countP_cons, List.countP_cons, ih]
      rcases Nat.lt_trichotomy (idx x) j with less | same | greater
      · have : idx x ≠ j := Nat.ne_of_lt less
        simp [less, Nat.lt_succ_of_lt less, this]
        omega
      · simp [same]
        omega
      · have : ¬ idx x < j + 1 := by omega
        simp [Nat.not_lt_of_gt greater, Nat.ne_of_gt greater, this]

/-- The counts of the first `j` positions add up to the number of elements below `j`. -/
theorem sum_take_tally {j : ℕ} (le : j ≤ n) :
    ((tally idx n xs).take j).sum = xs.countP (idx · < j) := by
  induction j with
  | zero => simp
  | succ j ih =>
      have below : j < (tally idx n xs).length := by
        rw [length_tally]
        omega
      rw [List.sum_take_succ _ _ below, ih (Nat.le_of_succ_le le), getElem_tally, countP_lt_succ]

/-- When every element lies inside the table, the table adds up to the number of elements. -/
theorem sum_tally (inside : ∀ x ∈ xs, idx x < n) : (tally idx n xs).sum = xs.length := by
  have whole : ((tally idx n xs).take n).sum = xs.countP (idx · < n) :=
    sum_take_tally (Nat.le_refl n)
  rw [List.take_of_length_le (Nat.le_of_eq length_tally)] at whole
  rw [whole, List.countP_eq_length]
  intro x mem
  simpa using inside x mem

end Tally
