import Mathlib.Data.Nat.Size
import Mathlib.Data.Int.Bitwise
import Mathlib.Data.Rat.Floor

/-!
# Go's signed integers: shifts, conversions and bit lengths

Go shifts an `int64` by an unsigned count, so code that computes a count as a signed value and
converts it with `uint(...)` shifts by at least 64 whenever that value is negative: a right
shift then leaves only the sign, a left shift clears every bit.  `shiftRight` and `shiftLeft`
model `x >> uint(s)` and `x << uint(s)` on values whose results fit in 64 bits; `truncate` is
the conversion of a floating-point value to an integer, toward zero.

The bit length of a natural number is Mathlib's `Nat.size`.  The lemmas here give it on the
shapes that bucketed arithmetic produces: a quotient by a power of two, a bitwise or, and a block
of ones.
-/

namespace Go

/-- `x >> uint(s)` on an `int64`: an arithmetic shift. -/
def shiftRight (x s : ℤ) : ℤ :=
  if s < 0 then (if x < 0 then -1 else 0) else x >>> s.toNat

/-- `x << uint(s)` on an `int64` whose result fits. -/
def shiftLeft (x s : ℤ) : ℤ :=
  if s < 0 then 0 else x * 2 ^ s.toNat

/-- `int64(x)` for a floating-point `x`: truncation toward zero. -/
def truncate (x : ℚ) : ℤ :=
  if 0 ≤ x then ⌊x⌋ else ⌈x⌉

@[simp]
theorem shiftRight_natCast (x s : ℕ) : shiftRight x s = ((x / 2 ^ s : ℕ) : ℤ) := by
  rw [shiftRight, if_neg (by omega), Int.toNat_natCast, ← Int.natCast_shiftRight,
    Nat.shiftRight_eq_div_pow]

@[simp]
theorem shiftLeft_natCast (x : ℤ) (s : ℕ) : shiftLeft x s = x * 2 ^ s := by
  simp [shiftLeft]

/-- `Int.lor` on naturals is the bitwise or of naturals. -/
@[simp]
theorem lor_natCast (x y : ℕ) : Int.lor x y = ((x ||| y : ℕ) : ℤ) :=
  rfl

/-- A negative value or-ed with a natural stays negative: the sign bit survives. -/
theorem lor_neg {x : ℤ} (negative : x < 0) (y : ℕ) : Int.lor x y < 0 := by
  obtain ⟨k, rfl⟩ := Int.eq_negSucc_of_lt_zero negative
  exact Int.negSucc_lt_zero (Nat.ldiff k y)

end Go

namespace Nat

/-- Dropping `k` low bits drops `k` from the bit length. -/
theorem size_div_two_pow (x k : ℕ) : (x / 2 ^ k).size = x.size - k := by
  apply le_antisymm
  · rw [Nat.size_le, Nat.div_lt_iff_lt_mul (Nat.two_pow_pos k), ← Nat.pow_add]
    calc x < 2 ^ x.size := Nat.lt_size_self x
      _ ≤ 2 ^ (x.size - k + k) := Nat.pow_le_pow_right (by norm_num) (by omega)
  · rcases Nat.eq_zero_or_pos (x.size - k) with zero | pos
    · rw [zero]
      exact Nat.zero_le _
    · -- the top bit of `x` survives the shift
      have top : 2 ^ (x.size - 1) ≤ x := Nat.lt_size.mp (by omega)
      have survives : 2 ^ (x.size - k - 1) ≤ x / 2 ^ k := by
        rw [Nat.le_div_iff_mul_le (Nat.two_pow_pos k), ← Nat.pow_add]
        calc 2 ^ (x.size - k - 1 + k) = 2 ^ (x.size - 1) := by congr 1; omega
          _ ≤ x := top
      have := Nat.lt_size.mpr survives
      omega

/-- The bit length of a bitwise or is the larger bit length. -/
theorem size_or (x y : ℕ) : (x ||| y).size = max x.size y.size := by
  apply le_antisymm
  · rw [Nat.size_le]
    exact Nat.or_lt_two_pow
      (lt_of_lt_of_le (Nat.lt_size_self x) (Nat.pow_le_pow_right (by norm_num) (le_max_left _ _)))
      (lt_of_lt_of_le (Nat.lt_size_self y) (Nat.pow_le_pow_right (by norm_num) (le_max_right _ _)))
  · exact max_le (Nat.size_le_size Nat.left_le_or) (Nat.size_le_size Nat.right_le_or)

/-- A block of `k` ones is `k` bits long. -/
theorem size_two_pow_sub_one (k : ℕ) : (2 ^ k - 1).size = k := by
  apply le_antisymm
  · rw [Nat.size_le]
    have := Nat.two_pow_pos k
    omega
  · rcases Nat.eq_zero_or_pos k with zero | pos
    · rw [zero]
      exact Nat.zero_le _
    · have double : 2 ^ (k - 1) * 2 = 2 ^ k := by rw [← Nat.pow_succ]; congr 1; omega
      have : k - 1 < (2 ^ k - 1).size := Nat.lt_size.mpr (by omega)
      omega

end Nat
