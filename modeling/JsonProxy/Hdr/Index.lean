import JsonProxy.Go.Int

/-!
# The value ranges of an HDR histogram

`codahale/hdrhistogram`, which `metrics.Wrap` feeds with the latency of every request, keeps one
counter for each of a fixed set of value ranges.  With `u` the `unitMagnitude` and `m` the
`subBucketHalfCountMagnitude`, bucket `0` splits `[0, 2^(u+m+1))` into `2^(m+1)` ranges of
width `2^u`, and bucket `b > 0` splits `[2^(u+m+b), 2^(u+m+b+1))` into `2^m` ranges of width
`2^(u+b)`.  A range is therefore never wider than a `2^-m` part of the values in it.

`getBucketIndex` finds a value's bucket from the bit length of `v | subBucketMask`, computed by
the unrolled loop `bitLen` (`bitLen_natCast`), and `countsIndex` lays the ranges out in one
array, bucket after bucket.  For a value `n ≥ 0` the whole computation is `indexOf n`
(`countsIndexFor_natCast`): the ranges are in increasing order (`indexOf_le_indexOf`), each
value lies in its own range (`lowestEquivalentValue_le`, `lt_nextNonEquivalentValue`), and the
first value of a range indexes back to it (`indexOf_valueAt`).
-/

namespace JsonProxy.Hdr

open Go

/-! ## `bitLen` -/

/-- One `if x >= bound { x >>= bits; n += bits }` of `bitLen`. -/
def bitLenStep (bound : ℤ) (bits : ℕ) (state : ℤ × ℕ) : ℤ × ℕ :=
  if bound ≤ state.1 then (state.1 >>> bits, state.2 + bits) else state

/-- The steps of `bitLen` after its loop, for `x < 0x8000`. -/
def bitLenTail (x : ℤ) (n : ℕ) : ℕ :=
  let state := bitLenStep 0x2 2 (bitLenStep 0x8 4 (bitLenStep 0x80 8 (x, n)))
  if 0x1 ≤ state.1 then state.2 + 1 else state.2

/-- The loop of `bitLen`, 16 bits at a time; `fuel` bounds its iterations. -/
def bitLenLoop : ℕ → ℤ → ℕ → ℕ
  | 0, x, n => bitLenTail x n
  | fuel + 1, x, n =>
    if 0x8000 ≤ x then bitLenLoop fuel (x >>> (16 : ℕ)) (n + 16) else bitLenTail x n

/-- `bitLen(x)`: the number of bits of `x`, and `0` for `x ≤ 0`. -/
def bitLen (x : ℤ) : ℕ :=
  bitLenLoop x.toNat x 0

/-- A step of `bitLen` on `x < 2^(2j-1)` with the bound `2^(j-1)`: it leaves a value below the
bound, and the count plus the bit length of the value is what it was. -/
theorem bitLenStep_natCast {j x : ℕ} (n : ℕ) (small : x < 2 ^ (2 * j - 1)) (wide : 1 ≤ j) :
    ∃ x' n' : ℕ, bitLenStep (2 ^ (j - 1) : ℕ) j (x, n) = ((x' : ℤ), n') ∧
      n' + x'.size = n + x.size ∧ x' < 2 ^ (j - 1) := by
  by_cases large : 2 ^ (j - 1) ≤ x
  · have long : j ≤ x.size := by
      have := Nat.lt_size.mpr large
      omega
    refine ⟨x / 2 ^ j, n + j, ?_, ?_, ?_⟩
    · simp only [bitLenStep, Nat.cast_le.mpr large, if_true, Prod.mk.injEq, and_true]
      rw [← Nat.shiftRight_eq_div_pow, Int.natCast_shiftRight]
    · rw [Nat.size_div_two_pow]
      omega
    · rw [Nat.div_lt_iff_lt_mul (Nat.two_pow_pos j), ← Nat.pow_add]
      calc x < 2 ^ (2 * j - 1) := small
        _ = 2 ^ (j - 1 + j) := by congr 1; omega
  · refine ⟨x, n, ?_, rfl, by omega⟩
    have notLarge : ¬((2 ^ (j - 1) : ℕ) : ℤ) ≤ x := by exact_mod_cast large
    rw [bitLenStep, if_neg notLarge]

/-- The tail of `bitLen` adds the bit length of a value below `0x8000`. -/
theorem bitLenTail_natCast {x : ℕ} (n : ℕ) (small : x < 0x8000) :
    bitLenTail x n = n + x.size := by
  obtain ⟨x₁, n₁, step₁, kept₁, small₁⟩ :=
    bitLenStep_natCast (j := 8) n (by simpa using small) (by norm_num)
  obtain ⟨x₂, n₂, step₂, kept₂, small₂⟩ :=
    bitLenStep_natCast (j := 4) n₁ (by simpa using small₁) (by norm_num)
  obtain ⟨x₃, n₃, step₃, kept₃, small₃⟩ :=
    bitLenStep_natCast (j := 2) n₂ (by simpa using small₂) (by norm_num)
  norm_num at step₁ step₂ step₃ small₃
  simp only [bitLenTail, step₁, step₂, step₃]
  -- what is left is below `2`, and its bit length is whether it is `1`
  obtain rfl | rfl : x₃ = 0 ∨ x₃ = 1 := by omega
  · simp only [Nat.cast_zero, Nat.size_zero] at kept₃ ⊢
    norm_num
    omega
  · simp only [Nat.cast_one, Nat.size_one] at kept₃ ⊢
    norm_num
    omega

/-- `bitLen` of a natural number is its bit length. -/
theorem bitLen_natCast (x : ℕ) : bitLen x = x.size := by
  -- the loop keeps `count + bit length` and has fuel at least its value
  have loop : ∀ fuel (x n : ℕ), x ≤ fuel → bitLenLoop fuel x n = n + x.size := by
    intro fuel
    induction fuel with
    | zero =>
        intro x n small
        rw [bitLenLoop, bitLenTail_natCast n (by omega)]
    | succ fuel ih =>
        intro x n bounded
        by_cases large : 0x8000 ≤ x
        · have long : 16 ≤ x.size := by
            have := Nat.lt_size.mpr (le_trans (by norm_num) large : 2 ^ 15 ≤ x)
            omega
          have shifted : (x : ℤ) >>> (16 : ℕ) = ((x / 2 ^ 16 : ℕ) : ℤ) := by
            rw [← Nat.shiftRight_eq_div_pow, Int.natCast_shiftRight]
          rw [bitLenLoop, if_pos (by exact_mod_cast large), shifted, ih _ _ (by omega),
            Nat.size_div_two_pow]
          omega
        · rw [bitLenLoop, if_neg (by exact_mod_cast large), bitLenTail_natCast n (by omega)]
  rw [bitLen, Int.toNat_natCast, loop x x 0 le_rfl, Nat.zero_add]

/-- `bitLen` of a negative number is `0`: no step of it applies. -/
theorem bitLen_of_neg {x : ℤ} (negative : x < 0) : bitLen x = 0 := by
  have fuel : x.toNat = 0 := by omega
  simp [bitLen, fuel, bitLenLoop, bitLenTail, bitLenStep, show ¬(0x80 : ℤ) ≤ x by omega,
    show ¬(0x8 : ℤ) ≤ x by omega, show ¬(0x2 : ℤ) ≤ x by omega, show ¬(0x1 : ℤ) ≤ x by omega]

/-! ## The layout -/

/-- The fields of `Histogram` that `New` fixes, with the relations `New` gives them. -/
structure Layout where
  lowestTrackableValue : ℤ
  highestTrackableValue : ℤ
  unitMagnitude : ℕ
  significantFigures : ℕ
  subBucketHalfCountMagnitude : ℕ
  subBucketHalfCount : ℕ
  subBucketMask : ℤ
  subBucketCount : ℕ
  bucketCount : ℕ
  countsLen : ℕ
  subBucketHalfCount_eq : subBucketHalfCount = 2 ^ subBucketHalfCountMagnitude
  subBucketCount_eq : subBucketCount = 2 * subBucketHalfCount
  subBucketMask_eq : subBucketMask = ((subBucketCount - 1 : ℕ) : ℤ) * 2 ^ unitMagnitude
  countsLen_eq : countsLen = (bucketCount + 1) * subBucketHalfCount
  bucketCount_pos : 0 < bucketCount

namespace Layout

variable (L : Layout)

/-- `h.getBucketIndex(v)`. -/
def getBucketIndex (v : ℤ) : ℤ :=
  bitLen (v.lor L.subBucketMask) - L.unitMagnitude - (L.subBucketHalfCountMagnitude + 1)

/-- `h.getSubBucketIdx(v, idx)`. -/
def getSubBucketIdx (v idx : ℤ) : ℤ :=
  shiftRight v (idx + L.unitMagnitude)

/-- `h.countsIndex(bucketIdx, subBucketIdx)`. -/
def countsIndex (bucketIdx subBucketIdx : ℤ) : ℤ :=
  shiftLeft (bucketIdx + 1) L.subBucketHalfCountMagnitude + (subBucketIdx - L.subBucketHalfCount)

/-- `h.countsIndexFor(v)`. -/
def countsIndexFor (v : ℤ) : ℤ :=
  L.countsIndex (L.getBucketIndex v) (L.getSubBucketIdx v (L.getBucketIndex v))

/-- `h.valueFromIndex(bucketIdx, subBucketIdx)`. -/
def valueFromIndex (bucketIdx subBucketIdx : ℤ) : ℤ :=
  shiftLeft subBucketIdx (bucketIdx + L.unitMagnitude)

/-- `h.sizeOfEquivalentValueRange(v)`. -/
def sizeOfEquivalentValueRange (v : ℤ) : ℤ :=
  let bucketIdx := L.getBucketIndex v
  let subBucketIdx := L.getSubBucketIdx v bucketIdx
  let adjustedBucket := if (L.subBucketCount : ℤ) ≤ subBucketIdx then bucketIdx + 1 else bucketIdx
  shiftLeft 1 (L.unitMagnitude + adjustedBucket)

/-- `h.lowestEquivalentValue(v)`. -/
def lowestEquivalentValue (v : ℤ) : ℤ :=
  L.valueFromIndex (L.getBucketIndex v) (L.getSubBucketIdx v (L.getBucketIndex v))

/-- `h.nextNonEquivalentValue(v)`. -/
def nextNonEquivalentValue (v : ℤ) : ℤ :=
  L.lowestEquivalentValue v + L.sizeOfEquivalentValueRange v

/-- `h.highestEquivalentValue(v)`. -/
def highestEquivalentValue (v : ℤ) : ℤ :=
  L.nextNonEquivalentValue v - 1

/-! ## The ranges of natural numbers -/

/-- The bit length of `subBucketMask`: bucket `0` holds the values with no more bits. -/
def maskBits : ℕ :=
  L.unitMagnitude + L.subBucketHalfCountMagnitude + 1

/-- The bucket of a value. -/
def bucketOf (n : ℕ) : ℕ :=
  n.size - L.maskBits

/-- The width of the ranges in the bucket of a value. -/
def widthOf (n : ℕ) : ℕ :=
  2 ^ (L.bucketOf n + L.unitMagnitude)

/-- The sub-bucket of a value: which range of its bucket it falls in. -/
def subBucketOf (n : ℕ) : ℕ :=
  n / L.widthOf n

/-- The position of a value's range in the array of counts. -/
def indexOf (n : ℕ) : ℕ :=
  L.bucketOf n * L.subBucketHalfCount + L.subBucketOf n

/-- The first value of a value's range. -/
def lowestOf (n : ℕ) : ℕ :=
  L.subBucketOf n * L.widthOf n

theorem subBucketCount_eq_two_pow : L.subBucketCount = 2 ^ (L.subBucketHalfCountMagnitude + 1) := by
  rw [L.subBucketCount_eq, L.subBucketHalfCount_eq, Nat.pow_succ, Nat.mul_comm]

theorem subBucketHalfCount_pos : 0 < L.subBucketHalfCount := by
  rw [L.subBucketHalfCount_eq]
  exact Nat.two_pow_pos _

theorem widthOf_pos (n : ℕ) : 0 < L.widthOf n :=
  Nat.two_pow_pos _

/-- `subBucketMask` is a natural number `maskBits` bits long. -/
theorem subBucketMask_natCast :
    L.subBucketMask = (((2 ^ (L.subBucketHalfCountMagnitude + 1) - 1) * 2 ^ L.unitMagnitude : ℕ) : ℤ) := by
  rw [L.subBucketMask_eq, L.subBucketCount_eq_two_pow]
  push_cast
  rfl

theorem size_subBucketMask :
    ((2 ^ (L.subBucketHalfCountMagnitude + 1) - 1) * 2 ^ L.unitMagnitude).size = L.maskBits := by
  have ones : 2 ^ (L.subBucketHalfCountMagnitude + 1) - 1 ≠ 0 := by
    have := Nat.one_lt_two_pow (Nat.succ_ne_zero L.subBucketHalfCountMagnitude)
    omega
  rw [← Nat.shiftLeft_eq, Nat.size_shiftLeft ones, Nat.size_two_pow_sub_one, maskBits]
  omega

/-- A value is below `2` to the power of its bucket's top bit. -/
theorem lt_widthOf_mul_subBucketCount (n : ℕ) : n < L.widthOf n * L.subBucketCount := by
  rw [widthOf, L.subBucketCount_eq_two_pow, ← Nat.pow_add]
  calc n < 2 ^ n.size := Nat.lt_size_self n
    _ ≤ 2 ^ (L.bucketOf n + L.unitMagnitude + (L.subBucketHalfCountMagnitude + 1)) :=
      Nat.pow_le_pow_right (by norm_num) (by simp only [bucketOf, maskBits]; omega)

theorem subBucketOf_lt (n : ℕ) : L.subBucketOf n < L.subBucketCount := by
  rw [subBucketOf, Nat.div_lt_iff_lt_mul (L.widthOf_pos n), Nat.mul_comm]
  exact L.lt_widthOf_mul_subBucketCount n

/-- Past bucket `0` a value has its top bit at the top of its bucket, so its sub-bucket is in
the upper half. -/
theorem subBucketHalfCount_le_subBucketOf {n : ℕ} (upper : 0 < L.bucketOf n) :
    L.subBucketHalfCount ≤ L.subBucketOf n := by
  have long : L.maskBits < n.size := by
    simp only [bucketOf] at upper
    omega
  have top : 2 ^ (n.size - 1) ≤ n := Nat.lt_size.mp (by omega)
  rw [subBucketOf, Nat.le_div_iff_mul_le (L.widthOf_pos n), L.subBucketHalfCount_eq, widthOf,
    ← Nat.pow_add]
  calc 2 ^ (L.subBucketHalfCountMagnitude + (L.bucketOf n + L.unitMagnitude))
      = 2 ^ (n.size - 1) := by congr 1; simp only [bucketOf, maskBits] at *; omega
    _ ≤ n := top

theorem lowestOf_le (n : ℕ) : L.lowestOf n ≤ n :=
  Nat.div_mul_le_self n _

theorem lt_lowestOf_add_widthOf (n : ℕ) : n < L.lowestOf n + L.widthOf n := by
  rw [lowestOf, subBucketOf]
  have := Nat.lt_div_mul_add (L.widthOf_pos n) (a := n)
  simpa [Nat.mul_comm] using this

/-- The ranges of the walk: sub-bucket `s` of bucket `b`, with every sub-bucket in bucket `0` and
the upper half in the others (the lower half of bucket `b + 1` is the whole of bucket `b`). -/
def ValidRange (b s : ℕ) : Prop :=
  s < L.subBucketCount ∧ (b = 0 ∨ L.subBucketHalfCount ≤ s)

theorem validRange_of (n : ℕ) : L.ValidRange (L.bucketOf n) (L.subBucketOf n) := by
  refine ⟨L.subBucketOf_lt n, ?_⟩
  rcases Nat.eq_zero_or_pos (L.bucketOf n) with first | upper
  · exact Or.inl first
  · exact Or.inr (L.subBucketHalfCount_le_subBucketOf upper)

/-- A value between the bounds of a valid range lies in that range: its bucket and sub-bucket
are the range's. -/
theorem of_mem_range {b s x : ℕ} (valid : L.ValidRange b s)
    (low : s * 2 ^ (b + L.unitMagnitude) ≤ x) (high : x < (s + 1) * 2 ^ (b + L.unitMagnitude)) :
    L.bucketOf x = b ∧ L.subBucketOf x = s := by
  obtain ⟨lt, upper⟩ := valid
  have sizeLe : x.size ≤ b + L.maskBits := by
    rw [Nat.size_le]
    calc x < (s + 1) * 2 ^ (b + L.unitMagnitude) := high
      _ ≤ L.subBucketCount * 2 ^ (b + L.unitMagnitude) := Nat.mul_le_mul_right _ lt
      _ = 2 ^ (b + L.maskBits) := by
        rw [L.subBucketCount_eq_two_pow, ← Nat.pow_add, maskBits]
        congr 1
        omega
  have sizeGe : b = 0 ∨ b + L.maskBits ≤ x.size := by
    rcases upper with first | half
    · exact Or.inl first
    · right
      have top : 2 ^ (b + L.maskBits - 1) ≤ x :=
        calc 2 ^ (b + L.maskBits - 1)
            = L.subBucketHalfCount * 2 ^ (b + L.unitMagnitude) := by
              rw [L.subBucketHalfCount_eq, ← Nat.pow_add, maskBits]
              congr 1
              omega
          _ ≤ s * 2 ^ (b + L.unitMagnitude) := Nat.mul_le_mul_right _ half
          _ ≤ x := low
      have := Nat.lt_size.mpr top
      omega
  have bucket : L.bucketOf x = b := by
    simp only [bucketOf]
    omega
  refine ⟨bucket, ?_⟩
  rw [subBucketOf, widthOf, bucket]
  exact Nat.div_eq_of_lt_le low high

theorem bucketOf_le_bucketOf {w n : ℕ} (le : w ≤ n) : L.bucketOf w ≤ L.bucketOf n :=
  Nat.sub_le_sub_right (Nat.size_le_size le) _

/-- A value in a lower bucket has a lower index: the highest index of bucket `b` is
`b * half + count - 1`, the lowest of bucket `b + 1` is `(b + 1) * half + half`. -/
theorem indexOf_lt_of_bucketOf_lt {w n : ℕ} (lt : L.bucketOf w < L.bucketOf n) :
    L.indexOf w < L.indexOf n := by
  have below := L.subBucketOf_lt w
  have above := L.subBucketHalfCount_le_subBucketOf (Nat.zero_lt_of_lt lt)
  have twice := L.subBucketCount_eq
  have step : (L.bucketOf w + 1) * L.subBucketHalfCount ≤ L.bucketOf n * L.subBucketHalfCount :=
    Nat.mul_le_mul_right _ lt
  rw [indexOf, indexOf]
  rw [Nat.add_mul, Nat.one_mul] at step
  omega

/-- The index is monotone in the value. -/
theorem indexOf_le_indexOf {w n : ℕ} (le : w ≤ n) : L.indexOf w ≤ L.indexOf n := by
  rcases Nat.lt_or_eq_of_le (L.bucketOf_le_bucketOf le) with lt | same
  · exact Nat.le_of_lt (L.indexOf_lt_of_bucketOf_lt lt)
  · have sub : L.subBucketOf w ≤ L.subBucketOf n := by
      rw [subBucketOf, subBucketOf, widthOf, widthOf, same]
      exact Nat.div_le_div_right le
    rw [indexOf, indexOf, same]
    omega

/-- Two values with one index share their bucket and sub-bucket. -/
theorem eq_of_indexOf_eq {w n : ℕ} (same : L.indexOf w = L.indexOf n) :
    L.bucketOf w = L.bucketOf n ∧ L.subBucketOf w = L.subBucketOf n := by
  have bucket : L.bucketOf w = L.bucketOf n := by
    rcases Nat.lt_trichotomy (L.bucketOf w) (L.bucketOf n) with lt | eq | gt
    · exact absurd same (Nat.ne_of_lt (L.indexOf_lt_of_bucketOf_lt lt))
    · exact eq
    · exact absurd same (Nat.ne_of_gt (L.indexOf_lt_of_bucketOf_lt gt))
  refine ⟨bucket, ?_⟩
  rw [indexOf, indexOf, bucket] at same
  omega

/-- The values of a value's range are the values with its index. -/
theorem indexOf_eq_of_mem_range {x n : ℕ} (low : L.lowestOf n ≤ x)
    (high : x < L.lowestOf n + L.widthOf n) : L.indexOf x = L.indexOf n := by
  have inRange := L.of_mem_range (L.validRange_of n) (x := x)
    (by rw [← widthOf]; exact low) (by rw [← widthOf, Nat.add_mul, Nat.one_mul]; exact high)
  rw [indexOf, indexOf, inRange.1, inRange.2]

theorem lowestOf_eq_of_indexOf_eq {w n : ℕ} (same : L.indexOf w = L.indexOf n) :
    L.lowestOf w = L.lowestOf n ∧ L.widthOf w = L.widthOf n := by
  obtain ⟨bucket, sub⟩ := L.eq_of_indexOf_eq same
  rw [lowestOf, lowestOf, widthOf, widthOf, bucket, sub]
  exact ⟨rfl, rfl⟩

/-- A value has a lower index exactly when it is below the range of the other. -/
theorem indexOf_lt_iff {w n : ℕ} : L.indexOf w < L.indexOf n ↔ w < L.lowestOf n := by
  constructor
  · intro lt
    by_contra notBelow
    have atLowest : L.indexOf (L.lowestOf n) = L.indexOf n :=
      L.indexOf_eq_of_mem_range (Nat.le_refl _)
        (Nat.lt_add_of_pos_right (L.widthOf_pos n))
    have := L.indexOf_le_indexOf (Nat.le_of_not_lt notBelow)
    omega
  · intro below
    have le := L.indexOf_le_indexOf (Nat.le_trans (Nat.le_of_lt below) (L.lowestOf_le n))
    rcases Nat.lt_or_eq_of_le le with lt | same
    · exact lt
    · have := (L.lowestOf_eq_of_indexOf_eq same).1
      have := L.lowestOf_le w
      omega

/-- A value has at most the index of another exactly when it is below the end of the other's
range. -/
theorem indexOf_le_iff {w n : ℕ} :
    L.indexOf w ≤ L.indexOf n ↔ w < L.lowestOf n + L.widthOf n := by
  constructor
  · intro le
    rcases Nat.lt_or_eq_of_le le with lt | same
    · have := L.indexOf_lt_iff.mp lt
      omega
    · obtain ⟨lowest, width⟩ := L.lowestOf_eq_of_indexOf_eq same
      rw [← lowest, ← width]
      exact L.lt_lowestOf_add_widthOf w
  · intro high
    by_cases below : w < L.lowestOf n
    · exact Nat.le_of_lt (L.indexOf_lt_iff.mpr below)
    · exact Nat.le_of_eq (L.indexOf_eq_of_mem_range (Nat.le_of_not_lt below) high)

/-- The first value of a valid range goes back to that range. -/
theorem of_valueFromIndex {b s : ℕ} (valid : L.ValidRange b s) :
    L.bucketOf (s * 2 ^ (b + L.unitMagnitude)) = b ∧
      L.subBucketOf (s * 2 ^ (b + L.unitMagnitude)) = s :=
  L.of_mem_range valid (Nat.le_refl _)
    (by rw [Nat.add_mul, Nat.one_mul]; exact Nat.lt_add_of_pos_right (Nat.two_pow_pos _))

/-- A value has a place in the counts exactly when its bucket is one of the `bucketCount`. -/
theorem indexOf_lt_countsLen_iff_bucketOf (n : ℕ) :
    L.indexOf n < L.countsLen ↔ L.bucketOf n < L.bucketCount := by
  have below := L.subBucketOf_lt n
  have twice := L.subBucketCount_eq
  rw [indexOf, L.countsLen_eq, Nat.add_mul, Nat.one_mul]
  constructor
  · intro inside
    by_contra outside
    have upper := L.subBucketHalfCount_le_subBucketOf (n := n) (by have := L.bucketCount_pos; omega)
    have : L.bucketCount * L.subBucketHalfCount ≤ L.bucketOf n * L.subBucketHalfCount :=
      Nat.mul_le_mul_right _ (Nat.le_of_not_lt outside)
    omega
  · intro inside
    have : (L.bucketOf n + 1) * L.subBucketHalfCount ≤ L.bucketCount * L.subBucketHalfCount :=
      Nat.mul_le_mul_right _ inside
    rw [Nat.add_mul, Nat.one_mul] at this
    omega

/-- The values with a place in the counts are those below `2` to the power of the top bit of
the last bucket. -/
theorem indexOf_lt_countsLen_iff (n : ℕ) :
    L.indexOf n < L.countsLen ↔ n < 2 ^ (L.maskBits + L.bucketCount - 1) := by
  have := L.bucketCount_pos
  rw [L.indexOf_lt_countsLen_iff_bucketOf, bucketOf, ← Nat.size_le]
  omega

/-! ## The walk over the counts

The iterators of `hdr.go` walk the ranges in the order of their index: all of bucket `0`, then
the upper half of each bucket after it.  `positionOf j` is the bucket and sub-bucket of the
`j`-th range of that walk.
-/

/-- The bucket and sub-bucket of the range at index `j`. -/
def positionOf (j : ℕ) : ℕ × ℕ :=
  if j < L.subBucketCount then (0, j)
  else (j / L.subBucketHalfCount - 1, j % L.subBucketHalfCount + L.subBucketHalfCount)

/-- A valid range is the range of its own index. -/
theorem positionOf_eq {b s j : ℕ} (valid : L.ValidRange b s)
    (index : b * L.subBucketHalfCount + s = j) : L.positionOf j = (b, s) := by
  obtain ⟨lt, upper⟩ := valid
  have half := L.subBucketHalfCount_pos
  have twice := L.subBucketCount_eq
  rcases Nat.eq_zero_or_pos b with first | pos
  · subst first
    rw [positionOf, if_pos (by omega)]
    simp only [Nat.zero_mul, Nat.zero_add] at index
    rw [index]
  · -- past bucket `0`, the index is `(b + 1) * half` plus the offset in the upper half
    have upperHalf : L.subBucketHalfCount ≤ s := upper.resolve_left (Nat.ne_of_gt pos)
    have split : j = (s - L.subBucketHalfCount) + (b + 1) * L.subBucketHalfCount := by
      rw [Nat.add_mul, Nat.one_mul]
      omega
    have offset : s - L.subBucketHalfCount < L.subBucketHalfCount := by omega
    have quotient : j / L.subBucketHalfCount = b + 1 := by
      rw [split, Nat.add_mul_div_right _ _ half, Nat.div_eq_of_lt offset, Nat.zero_add]
    have remainder : j % L.subBucketHalfCount = s - L.subBucketHalfCount := by
      rw [split, Nat.add_mul_mod_self_right, Nat.mod_eq_of_lt offset]
    have notFirst : ¬ j < L.subBucketCount := by
      have : L.subBucketHalfCount ≤ b * L.subBucketHalfCount := Nat.le_mul_of_pos_left _ pos
      omega
    rw [positionOf, if_neg notFirst, quotient, remainder]
    congr 1
    omega

theorem validRange_positionOf (j : ℕ) :
    L.ValidRange (L.positionOf j).1 (L.positionOf j).2 := by
  have half := L.subBucketHalfCount_pos
  have twice := L.subBucketCount_eq
  unfold positionOf
  split_ifs with first
  · exact ⟨first, Or.inl rfl⟩
  · have := Nat.mod_lt j half
    exact ⟨by omega, Or.inr (Nat.le_add_left _ _)⟩

theorem index_positionOf (j : ℕ) :
    (L.positionOf j).1 * L.subBucketHalfCount + (L.positionOf j).2 = j := by
  have half := L.subBucketHalfCount_pos
  have twice := L.subBucketCount_eq
  unfold positionOf
  split_ifs with first
  · simp
  · have atLeastTwo : 2 ≤ j / L.subBucketHalfCount := by
      rw [Nat.le_div_iff_mul_le half]
      omega
    have := Nat.div_add_mod j L.subBucketHalfCount
    have back : (j / L.subBucketHalfCount - 1) * L.subBucketHalfCount + L.subBucketHalfCount =
        L.subBucketHalfCount * (j / L.subBucketHalfCount) := by
      rw [Nat.mul_comm L.subBucketHalfCount, ← Nat.succ_mul, Nat.succ_eq_add_one,
        Nat.sub_add_cancel (by omega)]
    simp only
    omega

/-- One step of the walk: the next sub-bucket, or the upper half of the next bucket once the
sub-buckets run out. -/
theorem positionOf_succ (j : ℕ) :
    L.positionOf (j + 1) =
      if L.subBucketCount ≤ (L.positionOf j).2 + 1 then ((L.positionOf j).1 + 1, L.subBucketHalfCount)
      else ((L.positionOf j).1, (L.positionOf j).2 + 1) := by
  obtain ⟨lt, upper⟩ := L.validRange_positionOf j
  have index := L.index_positionOf j
  have twice := L.subBucketCount_eq
  split_ifs with full
  · apply L.positionOf_eq ⟨by omega, Or.inr (Nat.le_refl _)⟩
    rw [Nat.add_mul, Nat.one_mul]
    omega
  · apply L.positionOf_eq ⟨by omega, ?_⟩
    · omega
    · rcases upper with first | upperHalf
      · exact Or.inl first
      · exact Or.inr (by omega)

/-- The walk stays in the buckets exactly as long as the index stays in the counts. -/
theorem positionOf_fst_lt_iff (j : ℕ) : (L.positionOf j).1 < L.bucketCount ↔ j < L.countsLen := by
  obtain ⟨lt, upper⟩ := L.validRange_positionOf j
  have index := L.index_positionOf j
  have twice := L.subBucketCount_eq
  rw [L.countsLen_eq, Nat.add_mul, Nat.one_mul]
  constructor
  · intro inside
    have : ((L.positionOf j).1 + 1) * L.subBucketHalfCount ≤ L.bucketCount * L.subBucketHalfCount :=
      Nat.mul_le_mul_right _ inside
    rw [Nat.add_mul, Nat.one_mul] at this
    omega
  · intro inside
    by_contra outside
    have : L.bucketCount * L.subBucketHalfCount ≤ (L.positionOf j).1 * L.subBucketHalfCount :=
      Nat.mul_le_mul_right _ (Nat.le_of_not_lt outside)
    rcases upper with first | upperHalf
    · have := L.bucketCount_pos
      omega
    · omega

/-- The first value of the range at index `j`: `valueFromIndex` at its position. -/
def valueAt (j : ℕ) : ℕ :=
  (L.positionOf j).2 * 2 ^ ((L.positionOf j).1 + L.unitMagnitude)

/-- The range at index `j` is the range of its first value. -/
theorem indexOf_valueAt (j : ℕ) : L.indexOf (L.valueAt j) = j := by
  obtain ⟨bucket, sub⟩ := L.of_valueFromIndex (L.validRange_positionOf j)
  rw [valueAt, indexOf, bucket, sub]
  exact L.index_positionOf j

theorem lowestOf_valueAt (j : ℕ) : L.lowestOf (L.valueAt j) = L.valueAt j := by
  obtain ⟨bucket, sub⟩ := L.of_valueFromIndex (L.validRange_positionOf j)
  rw [valueAt, lowestOf, widthOf, bucket, sub]

/-! ## The source's functions on natural numbers -/

@[simp]
theorem getBucketIndex_natCast (n : ℕ) : L.getBucketIndex n = L.bucketOf n := by
  rw [getBucketIndex, L.subBucketMask_natCast, lor_natCast, bitLen_natCast, Nat.size_or,
    L.size_subBucketMask, bucketOf, maskBits]
  omega

@[simp]
theorem getSubBucketIdx_natCast (n : ℕ) : L.getSubBucketIdx n (L.bucketOf n) = L.subBucketOf n := by
  rw [getSubBucketIdx, ← Nat.cast_add, shiftRight_natCast]
  rfl

@[simp]
theorem countsIndex_natCast (b s : ℕ) : L.countsIndex b s = b * L.subBucketHalfCount + s := by
  rw [countsIndex, shiftLeft_natCast, L.subBucketHalfCount_eq]
  push_cast
  ring

theorem countsIndexFor_natCast (n : ℕ) : L.countsIndexFor n = L.indexOf n := by
  simp [countsIndexFor, indexOf]

@[simp]
theorem valueFromIndex_natCast (b s : ℕ) :
    L.valueFromIndex b s = ((s * 2 ^ (b + L.unitMagnitude) : ℕ) : ℤ) := by
  rw [valueFromIndex, ← Nat.cast_add, shiftLeft_natCast]
  push_cast
  rfl

@[simp]
theorem sizeOfEquivalentValueRange_natCast (n : ℕ) :
    L.sizeOfEquivalentValueRange n = L.widthOf n := by
  -- the adjusting branch never runs: a sub-bucket is below `subBucketCount`
  have below : ¬ (L.subBucketCount : ℤ) ≤ L.subBucketOf n := by
    have := L.subBucketOf_lt n
    omega
  simp only [sizeOfEquivalentValueRange, getBucketIndex_natCast, getSubBucketIdx_natCast,
    if_neg below, ← Nat.cast_add, shiftLeft_natCast, widthOf]
  push_cast
  ring_nf

@[simp]
theorem lowestEquivalentValue_natCast (n : ℕ) : L.lowestEquivalentValue n = L.lowestOf n := by
  simp [lowestEquivalentValue, lowestOf, widthOf]

@[simp]
theorem highestEquivalentValue_natCast (n : ℕ) :
    L.highestEquivalentValue n = L.lowestOf n + L.widthOf n - 1 := by
  simp [highestEquivalentValue, nextNonEquivalentValue]

/-- A negative value has a negative index: `bitLen` of it is `0`, and the shift by a negative
count leaves `-1`. -/
theorem countsIndexFor_neg {v : ℤ} (negative : v < 0) : L.countsIndexFor v < 0 := by
  have bucket : L.getBucketIndex v = -(L.unitMagnitude : ℤ) - (L.subBucketHalfCountMagnitude + 1) := by
    rw [getBucketIndex, L.subBucketMask_natCast, bitLen_of_neg (lor_neg negative _)]
    ring
  have sub : L.getSubBucketIdx v (L.getBucketIndex v) = -1 := by
    rw [getSubBucketIdx, bucket, shiftRight, if_pos (by omega), if_pos negative]
  have base : (-(L.unitMagnitude : ℤ) - (L.subBucketHalfCountMagnitude + 1) + 1) *
      2 ^ L.subBucketHalfCountMagnitude ≤ 0 :=
    Int.mul_nonpos_of_nonpos_of_nonneg (by omega) (by positivity)
  rw [countsIndexFor, sub, countsIndex, bucket, shiftLeft_natCast]
  omega

end Layout

end JsonProxy.Hdr
