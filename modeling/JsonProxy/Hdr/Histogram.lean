import JsonProxy.Hdr.Index
import JsonProxy.Lib.Tally
import JsonProxy.Go.Bytes
import Mathlib.Algebra.BigOperators.Ring.Finset
import Mathlib.Algebra.Order.BigOperators.Group.List

/-!
# `hdrhistogram.Histogram`: recording, the walk, quantiles and merging

A histogram keeps its layout, one `int64` count per range and the total of the counts.  Every
operation of `hdr.go` keeps the counts as long as the layout and their total equal to their sum,
so these two facts are fields of `Histogram`.

All reading goes through the iterator of `hdr.go`: it walks the ranges in the order of their
index, adding each count to `countToIdx`, and stops once that reaches `totalCount` or the
buckets run out.  `walkAt j` is the iterator once the ranges below index `j` have been walked;
`next_walkAt` says what one call of `next` does from there, and every loop over the iterator is
proved from it by induction on the loop's fuel.

`Represents h xs` relates a histogram to the values it has recorded: each count is the number of
values in its range (`Tally.tally` over `indexOf`).  Recording a value in range, resetting and
merging keep the relation; `ValueAtQuantile` answers with the top of a range whose position
among the recorded values is the one asked for (`valueAtQuantile_rank`).

The counts and the total are integers where `hdr.go` has `int64`: they agree while fewer than
`2 ^ 63` values are recorded, since the total is then the number of values and bounds every count
(`Represents.counts_le_totalCount`).  The rank `countAtPercentile` is computed exactly in `ℚ`
where `hdr.go` rounds `q / 100`, its product with `float64(totalCount)` and the added `0.5` to
`float64`.  For totals below `2 ^ 51` and the quantiles `50` and `75`, whose `q / 100` are short
binary fractions, every step is exact and the two agree; for the other quantiles of the metrics
(`90`, `95`, `99`, `99.9`) they can differ by one, and only when the exact value of
`q / 100 * totalCount + 1 / 2` lies within a few units of the last place of an integer.
-/

namespace JsonProxy.Hdr

open Go Tally

/-- `hdrhistogram.Histogram`: the layout `New` fixes, the total and the counts. -/
structure Histogram extends Layout where
  totalCount : ℤ
  counts : List ℤ
  counts_length : counts.length = countsLen
  totalCount_eq : totalCount = counts.sum

/-- `hdrhistogram.iterator`, without its pointer to the histogram. -/
structure Iterator where
  bucketIdx : ℤ
  subBucketIdx : ℤ
  countAtIdx : ℤ
  countToIdx : ℤ
  valueFromIdx : ℤ
  highestEquivalentValue : ℤ

/-- `hdrhistogram.rIterator`: the iterator that stops only at non-empty ranges. -/
structure RIterator extends Iterator where
  countAddedThisStep : ℤ

/-- Adding to one entry of a list adds to its sum. -/
theorem sum_modify_add (l : List ℤ) {i : ℕ} (inside : i < l.length) (n : ℤ) :
    (l.modify i (· + n)).sum = l.sum + n := by
  induction l generalizing i with
  | nil => simp at inside
  | cons x l ih =>
      cases i with
      | zero =>
          simp only [List.modify_zero_cons, List.sum_cons]
          ring
      | succ i =>
          rw [List.modify_succ_cons, List.sum_cons, List.sum_cons,
            ih (by simpa using inside)]
          ring

/-- Adding to one entry of a list, read back at any index. -/
theorem getD_modify_add (l : List ℤ) {k : ℕ} (inside : k < l.length) (n : ℤ) (i : ℕ) :
    (l.modify k (· + n)).getD i 0 = l.getD i 0 + if k = i then n else 0 := by
  rw [List.getD_eq_getElem?_getD, List.getD_eq_getElem?_getD, List.getElem?_modify]
  by_cases same : k = i
  · subst same
    rw [List.getElem?_eq_getElem inside]
    simp
  · cases l[i]? <;> simp [same]

namespace Histogram

variable (h : Histogram)

/-! ## Recording and resetting -/

/-- The error of `RecordValues` for a value outside the counts. -/
def tooLarge (v : ℤ) : Error :=
  ⟨utf8 ("value " ++ toString v ++ " is too large to be recorded")⟩

/-- `h.RecordValues(v, n)`: `n` more values in the range of `v`. -/
def recordValues (v n : ℤ) : Except Error Histogram :=
  if outside : h.countsIndexFor v < 0 ∨ (h.countsLen : ℤ) ≤ h.countsIndexFor v then
    .error (tooLarge v)
  else
    .ok { h with
      counts := h.counts.modify (h.countsIndexFor v).toNat (· + n)
      totalCount := h.totalCount + n
      counts_length := by rw [List.length_modify, h.counts_length]
      totalCount_eq := by
        rw [sum_modify_add _ (by rw [h.counts_length]; omega), h.totalCount_eq] }

/-- `h.RecordValue(v)`. -/
def recordValue (v : ℤ) : Except Error Histogram :=
  h.recordValues v 1

/-- `h.Reset()`. -/
def reset : Histogram :=
  { h with
    totalCount := 0
    counts := h.counts.map fun _ => 0
    counts_length := by rw [List.length_map, h.counts_length]
    totalCount_eq := by simp }

/-! ## The iterators -/

/-- `h.getCountAtIndex(bucketIdx, subBucketIdx)`.  Go panics at an index outside the counts;
the walk never reaches one (`next_walkAt`). -/
def getCountAtIndex (bucketIdx subBucketIdx : ℤ) : ℤ :=
  h.counts.getD (h.countsIndex bucketIdx subBucketIdx).toNat 0

/-- `h.iterator()`: the walk before its first range.  The model hands the histogram to `next`
rather than keeping a pointer to it in the iterator. -/
def iterator (_ : Histogram) : Iterator :=
  ⟨0, -1, 0, 0, 0, 0⟩

/-- `h.rIterator()`. -/
def rIterator : RIterator :=
  { toIterator := h.iterator, countAddedThisStep := 0 }

end Histogram

/-- `i.next()` on an iterator of `h`: the next range of the walk, or `none` where Go returns
`false`. -/
def Iterator.next (h : Histogram) (i : Iterator) : Option Iterator :=
  if h.totalCount ≤ i.countToIdx then none
  else
    -- `i.subBucketIdx++`, and past the last sub-bucket the upper half of the next bucket
    let wrapped := (h.subBucketCount : ℤ) ≤ i.subBucketIdx + 1
    let bucketIdx := if wrapped then i.bucketIdx + 1 else i.bucketIdx
    let subBucketIdx := if wrapped then (h.subBucketHalfCount : ℤ) else i.subBucketIdx + 1
    if (h.bucketCount : ℤ) ≤ bucketIdx then none
    else
      let countAtIdx := h.getCountAtIndex bucketIdx subBucketIdx
      let valueFromIdx := h.valueFromIndex bucketIdx subBucketIdx
      some ⟨bucketIdx, subBucketIdx, countAtIdx, i.countToIdx + countAtIdx, valueFromIdx,
        h.highestEquivalentValue valueFromIdx⟩

/-- The loop of `r.next()`: `for r.iterator.next() { if r.countAtIdx != 0 { ... } }`. -/
def RIterator.nextLoop (h : Histogram) : ℕ → RIterator → Option RIterator
  | 0, _ => none
  | fuel + 1, r =>
    match r.toIterator.next h with
    | none => none
    | some i =>
      if i.countAtIdx ≠ 0 then some { toIterator := i, countAddedThisStep := i.countAtIdx }
      else RIterator.nextLoop h fuel { r with toIterator := i }

/-- `r.next()`: the walk has at most `countsLen` ranges, so `countsLen + 1` calls of the plain
`next` always end the loop. -/
def RIterator.next (h : Histogram) (r : RIterator) : Option RIterator :=
  r.nextLoop h (h.countsLen + 1)

namespace Histogram

variable (h : Histogram)

/-! ## Merging and quantiles -/

/-- The loop of `h.Merge(from)`, over the non-empty ranges of `other`. -/
def mergeLoop (other : Histogram) : ℕ → RIterator → Histogram → ℤ → Histogram × ℤ
  | 0, _, h, dropped => (h, dropped)
  | fuel + 1, r, h, dropped =>
    match r.next other with
    | none => (h, dropped)
    | some r =>
      match h.recordValues r.valueFromIdx r.countAtIdx with
      | .ok h => mergeLoop other fuel r h dropped
      | .error _ => mergeLoop other fuel r h (dropped + r.countAtIdx)

/-- `h.Merge(from)`: the merged histogram and the number of values dropped. -/
def merge (other : Histogram) : Histogram × ℤ :=
  mergeLoop other (other.countsLen + 1) other.rIterator h 0

/-- `countAtPercentile` of `h.ValueAtQuantile(q)`: the rank asked for, rounded half up, with `q`
capped at `100`.  The float64 arithmetic is taken exactly; the module's introduction says when
that is what `hdr.go` computes. -/
def countAtPercentile (q : ℚ) (totalCount : ℤ) : ℤ :=
  truncate (min q 100 / 100 * totalCount + 1 / 2)

/-- The loop of `h.ValueAtQuantile(q)`. -/
def valueAtQuantileLoop (countAtPercentile : ℤ) : ℕ → Iterator → ℤ → ℤ
  | 0, _, _ => 0
  | fuel + 1, i, total =>
    match i.next h with
    | none => 0
    | some i =>
      if countAtPercentile ≤ total + i.countAtIdx then h.highestEquivalentValue i.valueFromIdx
      else valueAtQuantileLoop countAtPercentile fuel i (total + i.countAtIdx)

/-- `h.ValueAtQuantile(q)`. -/
def valueAtQuantile (q : ℚ) : ℤ :=
  h.valueAtQuantileLoop (countAtPercentile q h.totalCount) (h.countsLen + 1) h.iterator 0

/-! ## The walk -/

/-- What the walk has counted before index `j`: the sum of the first `j` counts. -/
def countBefore (j : ℕ) : ℤ :=
  (h.counts.take j).sum

/-- The iterator once the walk has passed the ranges below index `j`. -/
def walkAt : ℕ → Iterator
  | 0 => h.iterator
  | j + 1 => ⟨(h.positionOf j).1, (h.positionOf j).2, h.counts.getD j 0, h.countBefore (j + 1),
      h.valueAt j, h.highestEquivalentValue (h.valueAt j)⟩

@[simp]
theorem countBefore_zero : h.countBefore 0 = 0 := by
  simp [countBefore]

theorem countBefore_succ (j : ℕ) : h.countBefore (j + 1) = h.countBefore j + h.counts.getD j 0 := by
  rw [countBefore, countBefore, List.take_add_one, List.sum_append, List.getD_eq_getElem?_getD]
  cases h.counts[j]? <;> simp

/-- Past the counts the walk has counted everything. -/
theorem countBefore_of_le {j : ℕ} (past : h.countsLen ≤ j) : h.countBefore j = h.totalCount := by
  rw [countBefore, List.take_of_length_le (by rw [h.counts_length]; exact past), h.totalCount_eq]

theorem getCountAtIndex_positionOf (j : ℕ) :
    h.getCountAtIndex (h.positionOf j).1 (h.positionOf j).2 = h.counts.getD j 0 := by
  rw [getCountAtIndex, h.countsIndex_natCast, ← Nat.cast_mul, ← Nat.cast_add, h.index_positionOf,
    Int.toNat_natCast]

theorem valueFromIndex_positionOf (j : ℕ) :
    h.valueFromIndex (h.positionOf j).1 (h.positionOf j).2 = h.valueAt j :=
  h.valueFromIndex_natCast _ _

/-- One call of `next` from any iterator that is about to step to the range at index `j`
with the counts below `j` counted. -/
theorem next_eq_of_advance (i : Iterator) {j : ℕ} (counted : i.countToIdx = h.countBefore j)
    (bucket : (if (h.subBucketCount : ℤ) ≤ i.subBucketIdx + 1 then i.bucketIdx + 1 else i.bucketIdx)
      = (h.positionOf j).1)
    (sub : (if (h.subBucketCount : ℤ) ≤ i.subBucketIdx + 1 then (h.subBucketHalfCount : ℤ)
      else i.subBucketIdx + 1) = (h.positionOf j).2) :
    i.next h = if h.totalCount ≤ h.countBefore j ∨ h.countsLen ≤ j then none
      else some (h.walkAt (j + 1)) := by
  have inBuckets : (h.bucketCount : ℤ) ≤ (h.positionOf j).1 ↔ h.countsLen ≤ j := by
    have := h.positionOf_fst_lt_iff j
    omega
  simp only [Iterator.next, counted, bucket, sub]
  by_cases done : h.totalCount ≤ h.countBefore j
  · simp [done]
  · by_cases past : h.countsLen ≤ j
    · simp [done, past, inBuckets]
    · simp only [done, past, inBuckets, if_false, or_self, walkAt, getCountAtIndex_positionOf,
        valueFromIndex_positionOf, countBefore_succ]

/-- The walk's advance from the range at index `j`, as `next` computes it on `int32`s. -/
theorem advance_positionOf (j : ℕ) :
    (if (h.subBucketCount : ℤ) ≤ ((h.positionOf j).2 : ℤ) + 1 then ((h.positionOf j).1 : ℤ) + 1
      else ((h.positionOf j).1 : ℤ)) = (h.positionOf (j + 1)).1 ∧
    (if (h.subBucketCount : ℤ) ≤ ((h.positionOf j).2 : ℤ) + 1 then (h.subBucketHalfCount : ℤ)
      else ((h.positionOf j).2 : ℤ) + 1) = (h.positionOf (j + 1)).2 := by
  rw [h.positionOf_succ j]
  by_cases full : h.subBucketCount ≤ (h.positionOf j).2 + 1
  · have cast : (h.subBucketCount : ℤ) ≤ ((h.positionOf j).2 : ℤ) + 1 := by exact_mod_cast full
    simp [full, cast]
  · have cast : ¬ (h.subBucketCount : ℤ) ≤ ((h.positionOf j).2 : ℤ) + 1 := by exact_mod_cast full
    simp [full, cast]

/-- The step of the walk: `next` moves to the range at the next index while the counts have not
all been counted and the index is still inside the counts. -/
theorem next_walkAt (j : ℕ) :
    (h.walkAt j).next h = if h.totalCount ≤ h.countBefore j ∨ h.countsLen ≤ j then none
      else some (h.walkAt (j + 1)) := by
  cases j with
  | zero =>
      have first : h.positionOf 0 = (0, 0) := h.positionOf_eq ⟨by
        rw [h.subBucketCount_eq]; have := h.subBucketHalfCount_pos; omega, Or.inl rfl⟩ (by simp)
      have nonEmpty : h.subBucketCount ≠ 0 := by
        rw [h.subBucketCount_eq]; have := h.subBucketHalfCount_pos; omega
      apply h.next_eq_of_advance
      · simp [walkAt, iterator]
      · simp [walkAt, iterator, first, nonEmpty]
      · simp [walkAt, iterator, first, nonEmpty]
  | succ j =>
      obtain ⟨bucket, sub⟩ := h.advance_positionOf j
      exact h.next_eq_of_advance _ rfl bucket sub

/-! ## The quantile loop -/

/-- The quantile loop, started anywhere on the walk below the rank `k`, stops at the first range
whose counts reach `k` and answers with the top of that range.  Enough fuel is one call of
`next` per range left, and one more. -/
theorem valueAtQuantileLoop_walkAt {k : ℤ} (reach : k ≤ h.totalCount) (fuel : ℕ) :
    ∀ j, h.countsLen + 1 ≤ j + fuel → h.countBefore j < k →
      ∃ j', j ≤ j' ∧ j' < h.countsLen ∧ h.countBefore j' < k ∧ k ≤ h.countBefore (j' + 1) ∧
        h.valueAtQuantileLoop k fuel (h.walkAt j) (h.countBefore j) =
          h.highestEquivalentValue (h.valueAt j') := by
  induction fuel with
  | zero =>
      intro j enough below
      rw [h.countBefore_of_le (by omega)] at below
      omega
  | succ fuel ih =>
      intro j enough below
      -- the counts below `j` stay under `k`, so the walk is not over and `j` is inside
      have inside : j < h.countsLen := by
        by_contra past
        rw [h.countBefore_of_le (by omega)] at below
        omega
      have going : ¬ (h.totalCount ≤ h.countBefore j ∨ h.countsLen ≤ j) := by omega
      rw [valueAtQuantileLoop, h.next_walkAt, if_neg going]
      simp only [walkAt, ← countBefore_succ]
      by_cases hit : k ≤ h.countBefore (j + 1)
      · exact ⟨j, Nat.le_refl j, inside, below, hit, by rw [if_pos hit]⟩
      · obtain ⟨j', later, inside', below', hit', loop⟩ := ih (j + 1) (by omega) (by omega)
        refine ⟨j', by omega, inside', below', hit', ?_⟩
        rw [if_neg hit]
        exact loop

/-- The rank `ValueAtQuantile` asks for is at most the number of values. -/
theorem countAtPercentile_le (q : ℚ) {totalCount : ℤ} (nonneg : 0 ≤ totalCount) :
    countAtPercentile q totalCount ≤ totalCount := by
  have share : min q 100 / 100 * totalCount ≤ totalCount := by
    have : min q 100 / 100 ≤ 1 := by
      rw [div_le_one (by norm_num)]
      exact min_le_right q 100
    calc min q 100 / 100 * totalCount ≤ 1 * totalCount :=
          mul_le_mul_of_nonneg_right this (by exact_mod_cast nonneg)
      _ = totalCount := one_mul _
  unfold countAtPercentile truncate
  split_ifs with positive
  · rw [Int.floor_le_iff]
    linarith
  · have : ⌈min q 100 / 100 * (totalCount : ℚ) + 1 / 2⌉ ≤ 0 :=
      Int.ceil_le.mpr (by push_cast; linarith)
    omega

/-- `ValueAtQuantile` answers with the top of the first range whose counts, with those below
it, reach the rank asked for. -/
theorem valueAtQuantile_eq {q : ℚ} (nonneg : 0 ≤ h.totalCount)
    (ranked : 1 ≤ countAtPercentile q h.totalCount) :
    ∃ j, j < h.countsLen ∧ h.countBefore j < countAtPercentile q h.totalCount ∧
      countAtPercentile q h.totalCount ≤ h.countBefore (j + 1) ∧
      h.valueAtQuantile q = h.highestEquivalentValue (h.valueAt j) := by
  obtain ⟨j, -, inside, below, hit, loop⟩ :=
    h.valueAtQuantileLoop_walkAt (countAtPercentile_le q nonneg) (h.countsLen + 1) 0
      (by omega) (by rw [countBefore_zero]; omega)
  exact ⟨j, inside, below, hit, loop⟩

/-! ## Recording, resetting and the values a histogram holds -/

theorem recordValues_of_neg {v : ℤ} (negative : v < 0) (n : ℤ) :
    h.recordValues v n = .error (tooLarge v) := by
  rw [recordValues, dif_pos (Or.inl (h.countsIndexFor_neg negative))]

theorem recordValues_of_le {v : ℕ} (outside : h.countsLen ≤ h.indexOf v) (n : ℤ) :
    h.recordValues v n = .error (tooLarge v) := by
  rw [recordValues, dif_pos (Or.inr (by rw [h.countsIndexFor_natCast]; exact_mod_cast outside))]

/-- A value inside the counts adds `n` to the count of its range, and changes nothing else. -/
theorem recordValues_of_lt {v : ℕ} (inside : h.indexOf v < h.countsLen) (n : ℤ) :
    ∃ recorded, h.recordValues v n = .ok recorded ∧ recorded.toLayout = h.toLayout ∧
      recorded.counts = h.counts.modify (h.indexOf v) (· + n) := by
  have notOutside : ¬ (h.countsIndexFor v < 0 ∨ (h.countsLen : ℤ) ≤ h.countsIndexFor v) := by
    rw [h.countsIndexFor_natCast]
    omega
  rw [recordValues, dif_neg notOutside]
  refine ⟨_, rfl, rfl, ?_⟩
  show h.counts.modify (h.countsIndexFor v).toNat (· + n) = _
  rw [h.countsIndexFor_natCast, Int.toNat_natCast]

/-- The only error of `RecordValues` is the one for a value outside the counts. -/
theorem eq_tooLarge_of_recordValues {v n : ℤ} {err : Error} (failed : h.recordValues v n = .error err) :
    err = tooLarge v := by
  unfold recordValues at failed
  split at failed
  · cases failed
    rfl
  · cases failed

/-- `RecordValue` accepts exactly the values from `0` up to the top of the last bucket. -/
theorem recordValue_ok_iff (v : ℤ) :
    (∃ recorded, h.recordValue v = .ok recorded) ↔
      0 ≤ v ∧ v < 2 ^ (h.maskBits + h.bucketCount - 1) := by
  rcases Int.lt_or_le v 0 with negative | nonneg
  · rw [recordValue, h.recordValues_of_neg negative]
    simp only [reduceCtorEq, exists_false, false_iff, not_and, not_lt]
    omega
  · obtain ⟨n, rfl⟩ := Int.eq_ofNat_of_zero_le nonneg
    have range := h.indexOf_lt_countsLen_iff n
    by_cases inside : h.indexOf n < h.countsLen
    · obtain ⟨recorded, ok, -, -⟩ := h.recordValues_of_lt inside 1
      refine iff_of_true ⟨recorded, ok⟩ ⟨nonneg, ?_⟩
      exact_mod_cast range.mp inside
    · rw [recordValue, h.recordValues_of_le (Nat.le_of_not_lt inside)]
      simp only [reduceCtorEq, exists_false, false_iff, not_and, not_lt]
      intro _
      have : ¬ n < 2 ^ (h.maskBits + h.bucketCount - 1) := fun below => inside (range.mpr below)
      exact_mod_cast Nat.le_of_not_lt this

/-- The histogram holds the values `xs`: each of them falls in a range of the counts, and each
count is the number of them in its range. -/
def Represents (xs : List ℕ) : Prop :=
  (∀ x ∈ xs, h.indexOf x < h.countsLen) ∧ h.counts = (tally h.indexOf h.countsLen xs).map (↑)

variable {h}

theorem Represents.totalCount {xs : List ℕ} (holds : h.Represents xs) :
    h.totalCount = xs.length := by
  rw [h.totalCount_eq, holds.2, ← Nat.cast_list_sum, sum_tally holds.1]

/-- The walk counts, before index `j`, the values of the ranges below `j`. -/
theorem Represents.countBefore {xs : List ℕ} (holds : h.Represents xs) {j : ℕ}
    (le : j ≤ h.countsLen) : h.countBefore j = xs.countP (h.indexOf · < j) := by
  rw [Histogram.countBefore, holds.2, ← List.map_take, ← Nat.cast_list_sum, sum_take_tally le]

/-- Only which values are held matters, not their order. -/
theorem Represents.perm {xs ys : List ℕ} (holds : h.Represents xs) (same : xs.Perm ys) :
    h.Represents ys := by
  refine ⟨fun y mem => holds.1 y (same.mem_iff.mpr mem), ?_⟩
  rw [holds.2]
  congr 1
  apply List.ext_getElem (by simp)
  intro i _ _
  rw [getElem_tally, getElem_tally]
  exact same.countP_eq _

theorem Represents.nonneg {xs : List ℕ} (holds : h.Represents xs) : ∀ c ∈ h.counts, 0 ≤ c := by
  rw [holds.2]
  intro c mem
  obtain ⟨n, -, rfl⟩ := List.mem_map.mp mem
  exact Int.natCast_nonneg n

/-- What `int64` has to hold: the total is the number of values recorded, and each count lies
between `0` and it.  While fewer than `2 ^ 63` values are recorded the counts and the total of
`hdr.go` are these integers, with no overflow. -/
theorem Represents.counts_le_totalCount {xs : List ℕ} (holds : h.Represents xs) :
    h.totalCount = xs.length ∧ ∀ c ∈ h.counts, 0 ≤ c ∧ c ≤ h.totalCount := by
  refine ⟨holds.totalCount, fun c mem => ⟨holds.nonneg c mem, ?_⟩⟩
  rw [h.totalCount_eq]
  exact List.single_le_sum holds.nonneg c mem

/-- Recording a value inside the counts adds it to the values held. -/
theorem Represents.recordValue {xs : List ℕ} (holds : h.Represents xs) {v : ℕ}
    (inside : h.indexOf v < h.countsLen) :
    ∃ recorded, h.recordValue v = .ok recorded ∧ recorded.toLayout = h.toLayout ∧
      recorded.Represents (v :: xs) := by
  obtain ⟨recorded, ok, layout, counts⟩ := h.recordValues_of_lt inside 1
  refine ⟨recorded, ok, layout, ?_, ?_⟩
  · rw [layout]
    intro x mem
    rcases List.mem_cons.mp mem with rfl | old
    · exact inside
    · exact holds.1 x old
  · rw [counts, layout, tally_cons, holds.2, map_modify]
    intro c
    push_cast
    rfl

variable (h)

/-- After `Reset` the histogram holds no value. -/
theorem reset_represents : h.reset.Represents [] ∧ h.reset.toLayout = h.toLayout := by
  refine ⟨⟨by simp, ?_⟩, rfl⟩
  apply List.ext_getElem (by simp [reset, h.counts_length])
  intro i _ _
  simp [reset]

/-! ## What `ValueAtQuantile` answers -/

/-- The values up to the top of the range at index `j` are those of the ranges up to `j`. -/
theorem le_highest_valueAt_iff (j x : ℕ) :
    (x : ℤ) ≤ h.highestEquivalentValue (h.valueAt j) ↔ h.indexOf x < j + 1 := by
  have key := h.indexOf_le_iff (w := x) (n := h.valueAt j)
  rw [h.indexOf_valueAt, h.lowestOf_valueAt] at key
  rw [h.highestEquivalentValue_natCast, h.lowestOf_valueAt, Nat.lt_succ_iff, key]
  have := h.widthOf_pos (h.valueAt j)
  omega

/-- The first value of the range at index `j` is the first value of its top. -/
theorem lowest_highest_valueAt (j : ℕ) :
    h.lowestEquivalentValue (h.highestEquivalentValue (h.valueAt j)) = h.valueAt j := by
  have width := h.widthOf_pos (h.valueAt j)
  have top : h.highestEquivalentValue (h.valueAt j) =
      ((h.valueAt j + h.widthOf (h.valueAt j) - 1 : ℕ) : ℤ) := by
    rw [h.highestEquivalentValue_natCast, h.lowestOf_valueAt]
    omega
  have sameRange : h.indexOf (h.valueAt j + h.widthOf (h.valueAt j) - 1) = h.indexOf (h.valueAt j) :=
    h.indexOf_eq_of_mem_range (by rw [h.lowestOf_valueAt]; omega)
      (by rw [h.lowestOf_valueAt]; omega)
  rw [top, h.lowestEquivalentValue_natCast, (h.lowestOf_eq_of_indexOf_eq sameRange).1,
    h.lowestOf_valueAt]

/-- The rank of `ValueAtQuantile(q)` among the values held: at least `countAtPercentile` of them
are at most the answer, and fewer lie below the first value of the answer's range.  So the
answer is within one range of the value of that rank. -/
theorem valueAtQuantile_rank {xs : List ℕ} (holds : h.Represents xs) {q : ℚ}
    (ranked : 1 ≤ countAtPercentile q h.totalCount) :
    countAtPercentile q h.totalCount ≤ xs.countP (fun (x : ℕ) => (x : ℤ) ≤ h.valueAtQuantile q) ∧
      (xs.countP (fun (x : ℕ) => (x : ℤ) < h.lowestEquivalentValue (h.valueAtQuantile q)) : ℤ) <
        countAtPercentile q h.totalCount := by
  obtain ⟨j, inside, below, hit, answer⟩ :=
    h.valueAtQuantile_eq (by rw [holds.totalCount]; omega) ranked
  rw [holds.countBefore (Nat.le_of_lt inside)] at below
  rw [holds.countBefore inside] at hit
  rw [answer, h.lowest_highest_valueAt]
  constructor
  · have atMost : xs.countP (fun (x : ℕ) => (x : ℤ) ≤ h.highestEquivalentValue (h.valueAt j)) =
        xs.countP (h.indexOf · < j + 1) := by
      apply List.countP_congr
      intro x _
      simpa using h.le_highest_valueAt_iff j x
    rw [atMost]
    exact hit
  · have under : xs.countP (fun (x : ℕ) => (x : ℤ) < h.valueAt j) =
        xs.countP (h.indexOf · < j) := by
      apply List.countP_congr
      intro x _
      have := h.indexOf_lt_iff (w := x) (n := h.valueAt j)
      rw [h.lowestOf_valueAt, h.indexOf_valueAt] at this
      simp [this]
    rw [under]
    exact below

/-! ## Merging -/

variable {h}

theorem getD_counts_nonneg (nonneg : ∀ c ∈ h.counts, 0 ≤ c) (i : ℕ) : 0 ≤ h.counts.getD i 0 := by
  rw [List.getD_eq_getElem?_getD]
  cases found : h.counts[i]? with
  | none => exact Int.le_refl 0
  | some c => exact nonneg c (List.mem_of_getElem? found)

theorem getD_counts_of_le {i : ℕ} (past : h.countsLen ≤ i) : h.counts.getD i 0 = 0 := by
  rw [List.getD_eq_getElem?_getD, List.getElem?_eq_none (by rw [h.counts_length]; exact past)]
  rfl

/-- With no negative count, the walk's running count only grows. -/
theorem countBefore_mono (nonneg : ∀ c ∈ h.counts, 0 ≤ c) {i j : ℕ} (le : i ≤ j) :
    h.countBefore i ≤ h.countBefore j := by
  induction j, le using Nat.le_induction with
  | base => exact Int.le_refl _
  | succ j _ ih =>
      rw [countBefore_succ]
      have := getD_counts_nonneg nonneg j
      omega

/-- With no negative count, once the walk has counted everything every later count is `0`:
the walk stops only after the last non-empty range. -/
theorem getD_counts_of_done (nonneg : ∀ c ∈ h.counts, 0 ≤ c) {i j : ℕ}
    (done : h.totalCount ≤ h.countBefore j) (le : j ≤ i) : h.counts.getD i 0 = 0 := by
  have upTo : h.countBefore (i + 1) ≤ h.totalCount := by
    rw [← h.countBefore_of_le (Nat.le_max_right (i + 1) h.countsLen)]
    exact countBefore_mono nonneg (Nat.le_max_left _ _)
  have before := countBefore_mono nonneg le
  have := getD_counts_nonneg nonneg i
  rw [countBefore_succ] at upTo
  omega

/-- `r.next()` from anywhere on the walk: either every later count is `0` and it ends, or it
stops at the next non-empty range. -/
theorem nextLoop_walkAt (nonneg : ∀ c ∈ h.counts, 0 ≤ c) (fuel : ℕ) :
    ∀ j (r : RIterator), r.toIterator = h.walkAt j → h.countsLen + 1 ≤ j + fuel →
      (r.nextLoop h fuel = none ∧ ∀ i, j ≤ i → h.counts.getD i 0 = 0) ∨
      ∃ j', j ≤ j' ∧ (∀ i, j ≤ i → i < j' → h.counts.getD i 0 = 0) ∧ h.counts.getD j' 0 ≠ 0 ∧
        r.nextLoop h fuel = some ⟨h.walkAt (j' + 1), h.counts.getD j' 0⟩ := by
  induction fuel with
  | zero =>
      intro j r _ enough
      exact Or.inl ⟨rfl, fun i le => getD_counts_of_le (by omega)⟩
  | succ fuel ih =>
      intro j r onWalk enough
      rw [RIterator.nextLoop, onWalk, h.next_walkAt]
      by_cases stop : h.totalCount ≤ h.countBefore j ∨ h.countsLen ≤ j
      · rw [if_pos stop]
        refine Or.inl ⟨rfl, fun i le => ?_⟩
        rcases stop with done | past
        · exact getD_counts_of_done nonneg done le
        · exact getD_counts_of_le (by omega)
      · rw [if_neg stop]
        dsimp only
        by_cases empty : h.counts.getD j 0 = 0
        · -- an empty range: the loop goes on from the next index
          have skip : ¬ (h.walkAt (j + 1)).countAtIdx ≠ 0 := not_not.mpr empty
          rw [if_neg skip]
          rcases ih (j + 1) { r with toIterator := h.walkAt (j + 1) } rfl (by omega) with
            ⟨ended, zeros⟩ | ⟨j', later, zeros, found, stops⟩
          · refine Or.inl ⟨ended, fun i le => ?_⟩
            rcases Nat.eq_or_lt_of_le le with rfl | after
            · exact empty
            · exact zeros i after
          · refine Or.inr ⟨j', by omega, fun i le lt => ?_, found, stops⟩
            rcases Nat.eq_or_lt_of_le le with rfl | after
            · exact empty
            · exact zeros i after lt
        · have stopHere : (h.walkAt (j + 1)).countAtIdx ≠ 0 := empty
          rw [if_pos stopHere]
          exact Or.inr ⟨j, Nat.le_refl j, fun i le lt => absurd lt (by omega), empty, rfl⟩

/-- The merge loop from anywhere on the walk of `other` adds the counts of `other` from that
index on, range by range, to a histogram of the same layout, and drops nothing. -/
theorem mergeLoop_walkAt {other : Histogram} (nonneg : ∀ c ∈ other.counts, 0 ≤ c) (fuel : ℕ) :
    ∀ j (r : RIterator) (acc : Histogram) (dropped : ℤ), r.toIterator = other.walkAt j →
      other.countsLen + 1 ≤ j + fuel → acc.toLayout = other.toLayout →
      (mergeLoop other fuel r acc dropped).2 = dropped ∧
      (mergeLoop other fuel r acc dropped).1.toLayout = acc.toLayout ∧
      ∀ i, (mergeLoop other fuel r acc dropped).1.counts.getD i 0 =
        acc.counts.getD i 0 + if j ≤ i then other.counts.getD i 0 else 0 := by
  induction fuel with
  | zero =>
      intro j r acc dropped _ enough _
      refine ⟨rfl, rfl, fun i => ?_⟩
      show acc.counts.getD i 0 = acc.counts.getD i 0 + if j ≤ i then other.counts.getD i 0 else 0
      split_ifs with after
      · rw [getD_counts_of_le (h := other) (by omega), Int.add_zero]
      · rw [Int.add_zero]
  | succ fuel ih =>
      intro j r acc dropped onWalk enough layout
      rw [mergeLoop, RIterator.next]
      rcases nextLoop_walkAt nonneg (other.countsLen + 1) j r onWalk (by omega) with
        ⟨ended, zeros⟩ | ⟨j', later, zeros, found, stops⟩
      · rw [ended]
        refine ⟨rfl, rfl, fun i => ?_⟩
        split_ifs with after
        · rw [zeros i after, Int.add_zero]
        · rw [Int.add_zero]
      · rw [stops]
        dsimp only
        -- the first value of range `j'` of `other` lands in range `j'` of `acc`
        have inside : acc.indexOf (other.valueAt j') < acc.countsLen := by
          rw [layout, other.indexOf_valueAt]
          by_contra past
          exact found (getD_counts_of_le (by omega))
        obtain ⟨recorded, ok, recordedLayout, counts⟩ :=
          acc.recordValues_of_lt inside (other.counts.getD j' 0)
        have value : (other.walkAt (j' + 1)).valueFromIdx = (other.valueAt j' : ℤ) := rfl
        have count : (other.walkAt (j' + 1)).countAtIdx = other.counts.getD j' 0 := rfl
        rw [value, count, ok]
        dsimp only
        obtain ⟨kept, sameLayout, added⟩ :=
          ih (j' + 1) ⟨other.walkAt (j' + 1), other.counts.getD j' 0⟩ recorded dropped rfl
            (by omega) (recordedLayout.trans layout)
        refine ⟨kept, sameLayout.trans recordedLayout, fun i => ?_⟩
        have atJ' : acc.indexOf (other.valueAt j') = j' := by
          rw [layout, other.indexOf_valueAt]
        have length : j' < acc.counts.length := by
          rw [acc.counts_length, ← atJ']
          exact inside
        rw [added i, counts, atJ', getD_modify_add _ length]
        by_cases early : i < j'
        · have notHere : j' ≠ i := by omega
          rw [if_neg notHere, if_neg (by omega)]
          by_cases started : j ≤ i
          · rw [if_pos started, zeros i started early]
            omega
          · rw [if_neg started]
            omega
        · by_cases here : j' = i
          · subst here
            rw [if_pos rfl, if_neg (by omega), if_pos later]
            omega
          · rw [if_neg here, if_pos (by omega), if_pos (by omega)]
            omega

variable (h)

/-- Merging a histogram of the same layout with no negative count adds its counts to the
receiver's, range by range, and drops nothing. -/
theorem merge_eq {other : Histogram} (same : other.toLayout = h.toLayout)
    (nonneg : ∀ c ∈ other.counts, 0 ≤ c) :
    (h.merge other).2 = 0 ∧ (h.merge other).1.toLayout = h.toLayout ∧
      (h.merge other).1.counts = List.zipWith (· + ·) h.counts other.counts := by
  unfold Histogram.merge
  obtain ⟨kept, layout, added⟩ :=
    mergeLoop_walkAt nonneg (other.countsLen + 1) 0 other.rIterator h 0 rfl (by omega) same.symm
  refine ⟨kept, layout, ?_⟩
  have lengths : other.counts.length = h.counts.length := by
    rw [other.counts_length, h.counts_length, same]
  apply List.ext_getElem
  · rw [Histogram.counts_length, List.length_zipWith, lengths, Nat.min_self, h.counts_length,
      ← layout]
  · intro i inMerged inSum
    have inH : i < h.counts.length := by simp at inSum; omega
    have inOther : i < other.counts.length := by omega
    have := added i
    rw [List.getD_eq_getElem _ _ inMerged, List.getD_eq_getElem _ _ inH,
      List.getD_eq_getElem _ _ inOther, if_pos (Nat.zero_le i)] at this
    rw [this, List.getElem_zipWith]

variable {h}

/-- Merging a histogram of the same layout holds the values of both. -/
theorem Represents.merge {xs ys : List ℕ} (holds : h.Represents xs) {other : Histogram}
    (holdsOther : other.Represents ys) (same : other.toLayout = h.toLayout) :
    (h.merge other).2 = 0 ∧ (h.merge other).1.toLayout = h.toLayout ∧
      (h.merge other).1.Represents (xs ++ ys) := by
  obtain ⟨kept, layout, counts⟩ := h.merge_eq same holdsOther.nonneg
  have insideOther := holdsOther.1
  have countsOther := holdsOther.2
  rw [same] at insideOther countsOther
  refine ⟨kept, layout, ?_, ?_⟩
  · rw [layout]
    intro x mem
    rcases List.mem_append.mp mem with old | new
    · exact holds.1 x old
    · exact insideOther x new
  · rw [counts, layout, tally_append, holds.2, countsOther, List.zipWith_map, List.map_zipWith]
    congr 1

end Histogram

end JsonProxy.Hdr
