import JsonProxy.Hdr.Histogram
import Mathlib.Data.Nat.Log

/-!
# `hdrhistogram.New`: sizing a histogram

`New` picks the layout from its three arguments: the sub-bucket count from the number of
significant figures, the unit from the lowest trackable value, and then as many buckets as it
takes for the first untrackable value to reach `maxValue`, doubling it once per bucket.

The floating-point logarithms of `New` are modelled by `Nat.clog 2` and `Nat.log 2`.  For the
five accepted `sigfigs` the float32 quotient of logarithms lies more than `0.03` away from every
integer, so its ceiling is the exact one; `math.Floor` of the float64 quotient agrees with
`Nat.log 2` below `2^48 - 1`.  A `minValue` of `0` or less has no logarithm, and the conversion of
the infinite or undefined result to `int32` gives the least `int32` on amd64, which `New` then
raises to `0`.

The doubling is a shift of an `int64`: from `2^62` it wraps to `-2^63` and then to `0`, which
stays below a larger `maxValue` forever, and `New` never returns (`new_eq_none_iff`).  Where it
returns, the histogram records exactly the values below the last doubling, the first doubling
of the first untrackable value that reaches `maxValue` (`new_recordValue_iff`).  So `maxValue`
itself is dropped when it is such a doubling.
-/

namespace JsonProxy.Hdr

open Go

/-- `power(base, exp)`: `base` multiplied in once for each round of the loop, `exp` rounds when
`exp` is positive and none otherwise. -/
def power (base exp : ℤ) : ℤ :=
  base ^ exp.toNat

/-- The sizing loop of `New`,
`for smallestUntrackableValue < maxValue { smallestUntrackableValue <<= 1; bucketsNeeded++ }`,
on an `int64` that the shift wraps: the number of buckets, or `none` where the loop runs out of
rounds.  From any start the values it takes are at most 64 powers of two and then `0` for ever,
so 64 rounds decide whether it ends (`bucketsNeededLoop_of_le`, `bucketsNeededLoop_of_lt`). -/
def bucketsNeededLoop (maxValue : ℤ) : ℕ → ℤ → ℕ → Option ℕ
  | 0, _, _ => none
  | fuel + 1, smallestUntrackableValue, bucketsNeeded =>
    if smallestUntrackableValue < maxValue then
      bucketsNeededLoop maxValue fuel (Int.bmod (smallestUntrackableValue * 2) (2 ^ 64))
        (bucketsNeeded + 1)
    else some bucketsNeeded

/-- `subBucketHalfCountMagnitude` of `New`, from `sigfigs`. -/
def subBucketHalfCountMagnitudeFor (sigfigs : ℤ) : ℕ :=
  let largestValueWithSingleUnitResolution := 2 * power 10 sigfigs
  let subBucketCountMagnitude := Nat.clog 2 largestValueWithSingleUnitResolution.toNat
  max subBucketCountMagnitude 1 - 1

/-- `unitMagnitude` of `New`, from `minValue`. -/
def unitMagnitudeFor (minValue : ℤ) : ℕ :=
  if minValue ≤ 0 then 0 else Nat.log 2 minValue.toNat

/-- The bit length of the first untrackable value, `subBucketCount << unitMagnitude`, from which
the sizing loop starts doubling. -/
def firstUntrackableBits (minValue sigfigs : ℤ) : ℕ :=
  subBucketHalfCountMagnitudeFor sigfigs + 1 + unitMagnitudeFor minValue

/-- The loop only ever adds buckets. -/
theorem le_of_bucketsNeededLoop {maxValue : ℤ} :
    ∀ {fuel : ℕ} {smallest : ℤ} {buckets count : ℕ},
      bucketsNeededLoop maxValue fuel smallest buckets = some count → buckets ≤ count
  | 0, _, _, _, found => by cases found
  | fuel + 1, smallest, buckets, count, found => by
      rw [bucketsNeededLoop] at found
      split_ifs at found
      · exact Nat.le_of_succ_le (le_of_bucketsNeededLoop found)
      · exact Nat.le_of_eq (Option.some.inj found)

/-! ## The wrapping doubling -/

/-- Below `2^63` a power of two is its own `int64`. -/
theorem bmod_two_pow_of_le {k : ℕ} (small : k ≤ 62) : Int.bmod (2 ^ k) (2 ^ 64) = 2 ^ k := by
  have bound : (2 : ℤ) ^ k ≤ 2 ^ 62 := pow_le_pow_right₀ (by norm_num) small
  apply Int.bmod_eq_of_le
  · have : (0 : ℤ) < 2 ^ k := by positivity
    push_cast
    omega
  · push_cast
    omega

/-- As an `int64`, no power of two exceeds `2^62`: `2^63` wraps to `-2^63` and the higher ones
to `0`. -/
theorem bmod_two_pow_le (k : ℕ) : Int.bmod (2 ^ k) (2 ^ 64) ≤ 2 ^ 62 := by
  rcases Nat.lt_or_ge k 63 with small | large
  · rw [bmod_two_pow_of_le (by omega)]
    exact pow_le_pow_right₀ (by norm_num) (by omega)
  · rcases Nat.eq_or_lt_of_le large with rfl | larger
    · rw [Int.bmod_eq_neg (by norm_num) (by norm_num)]
      norm_num
    · have divides : ((2 ^ 64 : ℕ) : ℤ) ∣ 2 ^ k := by
        have : (2 : ℤ) ^ 64 ∣ 2 ^ k := pow_dvd_pow 2 (by omega)
        exact_mod_cast this
      rw [Int.bmod_eq_zero_of_dvd divides]
      norm_num

/-- One round of the loop doubles the `int64`. -/
theorem bmod_two_pow_mul_two (k : ℕ) :
    Int.bmod (Int.bmod (2 ^ k) (2 ^ 64) * 2) (2 ^ 64) = Int.bmod (2 ^ (k + 1)) (2 ^ 64) := by
  rw [Int.bmod_mul_bmod, ← pow_succ]

/-- Up to `maxValue ≤ 2^62` the loop ends at the first doubling that reaches `maxValue`. -/
theorem bucketsNeededLoop_of_le {maxValue : ℤ} (bounded : maxValue ≤ 2 ^ 62) :
    ∀ (fuel k buckets : ℕ), k ≤ 62 → 62 < k + fuel →
      ∃ d, bucketsNeededLoop maxValue fuel (Int.bmod (2 ^ k) (2 ^ 64)) buckets = some (buckets + d) ∧
        maxValue ≤ 2 ^ (k + d) ∧ (d = 0 ∨ 2 ^ (k + d - 1) < maxValue)
  | 0, k, _, small, enough => absurd enough (by omega)
  | fuel + 1, k, buckets, small, enough => by
      rw [bucketsNeededLoop, bmod_two_pow_of_le small]
      by_cases below : (2 : ℤ) ^ k < maxValue
      · -- a doubling below `maxValue` is below `2^62`, so the next one does not wrap
        have further : k < 62 := by
          have := lt_of_lt_of_le below bounded
          exact (pow_lt_pow_iff_right₀ (by norm_num)).mp this
        rw [if_pos below, ← bmod_two_pow_of_le small, bmod_two_pow_mul_two]
        obtain ⟨d, loop, covers, tight⟩ :=
          bucketsNeededLoop_of_le bounded fuel (k + 1) (buckets + 1) (by omega) (by omega)
        refine ⟨d + 1, by rw [loop]; congr 1; omega, by rw [← Nat.add_assoc, Nat.add_right_comm]; exact covers, ?_⟩
        right
        rcases tight with rfl | tight
        · simpa using below
        · rw [show k + (d + 1) - 1 = k + 1 + d - 1 by omega]
          exact tight
      · rw [if_neg below]
        exact ⟨0, rfl, by simpa using not_lt.mp below, Or.inl rfl⟩

/-- Past `maxValue > 2^62` the loop never ends: no number of rounds gets it out. -/
theorem bucketsNeededLoop_of_lt {maxValue : ℤ} (large : 2 ^ 62 < maxValue) :
    ∀ (fuel k buckets : ℕ), bucketsNeededLoop maxValue fuel (Int.bmod (2 ^ k) (2 ^ 64)) buckets = none
  | 0, _, _ => rfl
  | fuel + 1, k, buckets => by
      rw [bucketsNeededLoop, if_pos (lt_of_le_of_lt (bmod_two_pow_le k) large), bmod_two_pow_mul_two]
      exact bucketsNeededLoop_of_lt large fuel (k + 1) (buckets + 1)

/-- The histogram `New` returns once its sizes are known, with every count `0`. -/
def sized (minValue maxValue sigfigs : ℤ) (unitMagnitude subBucketHalfCountMagnitude bucketCount : ℕ)
    (buckets : 0 < bucketCount) : Histogram where
  lowestTrackableValue := minValue
  highestTrackableValue := maxValue
  unitMagnitude := unitMagnitude
  significantFigures := sigfigs.toNat
  subBucketHalfCountMagnitude := subBucketHalfCountMagnitude
  subBucketHalfCount := 2 ^ (subBucketHalfCountMagnitude + 1) / 2
  subBucketMask := ((2 ^ (subBucketHalfCountMagnitude + 1) - 1 : ℕ) : ℤ) * 2 ^ unitMagnitude
  subBucketCount := 2 ^ (subBucketHalfCountMagnitude + 1)
  bucketCount := bucketCount
  countsLen := (bucketCount + 1) * (2 ^ (subBucketHalfCountMagnitude + 1) / 2)
  totalCount := 0
  counts := List.replicate ((bucketCount + 1) * (2 ^ (subBucketHalfCountMagnitude + 1) / 2)) 0
  subBucketHalfCount_eq := by rw [Nat.pow_succ, Nat.mul_div_cancel _ (by norm_num)]
  subBucketCount_eq := by rw [Nat.pow_succ, Nat.mul_div_cancel _ (by norm_num), Nat.mul_comm]
  subBucketMask_eq := rfl
  countsLen_eq := rfl
  bucketCount_pos := buckets
  counts_length := List.length_replicate
  totalCount_eq := by simp

/-- `New(minValue, maxValue, sigfigs)`: an error where `New` panics, `none` where its sizing loop
never ends. -/
def new (minValue maxValue sigfigs : ℤ) : Option (Except Error Histogram) :=
  if sigfigs < 1 ∨ 5 < sigfigs then
    some (.error ⟨utf8 ("sigfigs must be [1,5] (was " ++ toString sigfigs ++ ")")⟩)
  else
    let subBucketHalfCountMagnitude := subBucketHalfCountMagnitudeFor sigfigs
    let unitMagnitude := unitMagnitudeFor minValue
    let subBucketCount : ℤ := 2 ^ (subBucketHalfCountMagnitude + 1)
    let smallestUntrackableValue := Int.bmod (subBucketCount * 2 ^ unitMagnitude) (2 ^ 64)
    match found : bucketsNeededLoop maxValue 64 smallestUntrackableValue 1 with
    | none => none
    | some bucketCount =>
      some (.ok (sized minValue maxValue sigfigs unitMagnitude subBucketHalfCountMagnitude
        bucketCount (le_of_bucketsNeededLoop found)))

/-! ## What `New` returns -/

/-- For the accepted `sigfigs` and a `minValue` below `2^44`, the first untrackable value is
below `2^62`: the loop starts without wrapping. -/
theorem firstUntrackableBits_le {minValue sigfigs : ℤ} (figures : 1 ≤ sigfigs ∧ sigfigs ≤ 5)
    (small : minValue < 2 ^ 44) : firstUntrackableBits minValue sigfigs ≤ 61 := by
  have half : subBucketHalfCountMagnitudeFor sigfigs ≤ 17 := by
    obtain rfl | rfl | rfl | rfl | rfl :
        sigfigs = 1 ∨ sigfigs = 2 ∨ sigfigs = 3 ∨ sigfigs = 4 ∨ sigfigs = 5 := by omega
    all_goals decide
  have unit : unitMagnitudeFor minValue ≤ 43 := by
    unfold unitMagnitudeFor
    split_ifs with nonpositive
    · exact Nat.zero_le _
    · have below : minValue.toNat < 2 ^ 44 := by omega
      have := Nat.log_lt_of_lt_pow (b := 2) (by omega) below
      omega
  unfold firstUntrackableBits
  omega

/-- The start of the loop in `New`: `int64(subBucketCount) << uint(unitMagnitude)`. -/
theorem smallestUntrackableValue_eq (minValue sigfigs : ℤ) :
    (2 : ℤ) ^ (subBucketHalfCountMagnitudeFor sigfigs + 1) * 2 ^ unitMagnitudeFor minValue =
      2 ^ firstUntrackableBits minValue sigfigs :=
  (pow_add 2 _ _).symm

/-- What `New` returns when its loop ends: the sized histogram. -/
theorem new_of_loop_some {minValue maxValue sigfigs : ℤ} (figures : 1 ≤ sigfigs ∧ sigfigs ≤ 5)
    {bucketCount : ℕ} (ends : bucketsNeededLoop maxValue 64
      (Int.bmod (2 ^ firstUntrackableBits minValue sigfigs) (2 ^ 64)) 1 = some bucketCount) :
    ∃ buckets, new minValue maxValue sigfigs = some (.ok (sized minValue maxValue sigfigs
      (unitMagnitudeFor minValue) (subBucketHalfCountMagnitudeFor sigfigs) bucketCount buckets)) := by
  unfold new
  rw [if_neg (by omega)]
  dsimp only
  split
  · rename_i never
    rw [smallestUntrackableValue_eq, ends] at never
    cases never
  · rename_i count found
    rw [smallestUntrackableValue_eq, ends] at found
    cases found
    exact ⟨le_of_bucketsNeededLoop ends, rfl⟩

/-- `New` does not return when its loop does not end. -/
theorem new_of_loop_none {minValue maxValue sigfigs : ℤ} (figures : 1 ≤ sigfigs ∧ sigfigs ≤ 5)
    (never : bucketsNeededLoop maxValue 64
      (Int.bmod (2 ^ firstUntrackableBits minValue sigfigs) (2 ^ 64)) 1 = none) :
    new minValue maxValue sigfigs = none := by
  unfold new
  rw [if_neg (by omega)]
  dsimp only
  split
  · rfl
  · rename_i count found
    rw [smallestUntrackableValue_eq, never] at found
    cases found

/-- Whatever it is sized to, the histogram of `New` holds no value. -/
theorem new_represents {minValue maxValue sigfigs : ℤ} {h : Histogram}
    (returns : new minValue maxValue sigfigs = some (.ok h)) : h.Represents [] := by
  unfold new at returns
  split_ifs at returns with invalid
  · cases returns
  · dsimp only at returns
    split at returns
    · cases returns
    · cases returns
      exact ⟨by simp, by simp [sized]⟩

/-- `New` never returns exactly when `maxValue` is above `2^62`: the doubling then wraps to `0`
before it reaches `maxValue`. -/
theorem new_eq_none_iff {minValue maxValue sigfigs : ℤ} (figures : 1 ≤ sigfigs ∧ sigfigs ≤ 5)
    (small : minValue < 2 ^ 44) : new minValue maxValue sigfigs = none ↔ 2 ^ 62 < maxValue := by
  have bits := firstUntrackableBits_le figures small
  constructor
  · intro never
    by_contra bounded
    obtain ⟨d, ends, -, -⟩ := bucketsNeededLoop_of_le (le_of_not_gt bounded) 64
      (firstUntrackableBits minValue sigfigs) 1 (by omega) (by omega)
    obtain ⟨_, returns⟩ := new_of_loop_some figures ends
    rw [returns] at never
    cases never
  · intro large
    exact new_of_loop_none figures (bucketsNeededLoop_of_lt large _ _ _)

theorem new_eq_none_iff_large : new 1 (2 ^ 62 + 1) 3 = none :=
  (new_eq_none_iff (by decide) (by norm_num)).mpr (by norm_num)

/-- Where `New` returns, its histogram holds no value and records exactly the values from `0`
up to the first doubling of the first untrackable value that reaches `maxValue`. -/
theorem new_recordValue_iff {minValue maxValue sigfigs : ℤ} (figures : 1 ≤ sigfigs ∧ sigfigs ≤ 5)
    (small : minValue < 2 ^ 44) (bounded : maxValue ≤ 2 ^ 62) :
    ∃ h d, new minValue maxValue sigfigs = some (.ok h) ∧ h.Represents [] ∧
      maxValue ≤ 2 ^ (firstUntrackableBits minValue sigfigs + d) ∧
      (d = 0 ∨ 2 ^ (firstUntrackableBits minValue sigfigs + d - 1) < maxValue) ∧
      ∀ v : ℤ, (∃ recorded, h.recordValue v = .ok recorded) ↔
        0 ≤ v ∧ v < 2 ^ (firstUntrackableBits minValue sigfigs + d) := by
  have bits := firstUntrackableBits_le figures small
  obtain ⟨d, ends, covers, tight⟩ := bucketsNeededLoop_of_le bounded 64
    (firstUntrackableBits minValue sigfigs) 1 (by omega) (by omega)
  obtain ⟨buckets, returns⟩ := new_of_loop_some figures ends
  refine ⟨_, d, returns, ⟨by simp, ?_⟩, covers, tight, fun v => ?_⟩
  · simp [sized]
  · rw [Histogram.recordValue_ok_iff]
    have top : Layout.maskBits (sized minValue maxValue sigfigs (unitMagnitudeFor minValue)
        (subBucketHalfCountMagnitudeFor sigfigs) (1 + d) buckets).toLayout + (1 + d) - 1 =
        firstUntrackableBits minValue sigfigs + d := by
      simp only [Layout.maskBits, sized, firstUntrackableBits]
      omega
    rw [show (sized minValue maxValue sigfigs (unitMagnitudeFor minValue)
        (subBucketHalfCountMagnitudeFor sigfigs) (1 + d) buckets).bucketCount = 1 + d from rfl, top]

/-- `New(1, 2048, 3)` cannot record `2048`: its `maxValue` is the first untrackable value. -/
theorem new_recordValue_iff_maxValue :
    ∃ h, new 1 2048 3 = some (.ok h) ∧ ¬ ∃ recorded, h.recordValue 2048 = .ok recorded := by
  obtain ⟨h, d, returns, -, -, tight, recordable⟩ :=
    @new_recordValue_iff 1 2048 3 (by decide) (by norm_num) (by norm_num)
  have bits : firstUntrackableBits 1 3 = 11 := by decide
  rw [bits] at tight recordable
  have first : d = 0 := by
    rcases tight with first | below
    · exact first
    · have : 11 + d - 1 < 11 := (pow_lt_pow_iff_right₀ (by norm_num : (1 : ℤ) < 2)).mp
        (by norm_num at below ⊢; exact below)
      omega
  refine ⟨h, returns, fun accepted => ?_⟩
  rw [recordable, first] at accepted
  norm_num at accepted

end JsonProxy.Hdr
