import Mathlib.Data.List.Perm.Basic
import Mathlib.Data.List.Nodup
import Mathlib.Data.List.Range
import Mathlib.Algebra.Order.Group.Int

/-!
# Ring buffers indexed by a counter

A ring buffer of `n` slots driven by a counter `t` writes to slot `t % n` and, when the counter
moves on, clears the slot it moves to.  The slot `i` then holds what was written `age t n i =
(t - i) % n` moves ago.  `Ages t slots periods empty` says that the slots hold the periods
`periods`, the newest first, each in the slot its age points at, with `empty` for a period that
has not happened yet.

Moving on keeps the relation with a new empty period in front (`Ages.moveOn`), writing to the
current slot changes the newest period (`Ages.modifyCurrent`), and as the ages of the `n` slots
are `0, …, n - 1` in some order, the slots are a permutation of the last `n` periods
(`Ages.perm`).
-/

namespace RingBuffer

universe u

/-- How many moves ago slot `i` of `n` was cleared, with the counter at `t`. -/
def age (t : ℤ) (n i : ℕ) : ℕ :=
  ((t - i) % n).toNat

/-- The slot the counter `t` points at. -/
def slot (t : ℤ) (n : ℕ) : ℕ :=
  (t % n).toNat

section Arithmetic

variable {t : ℤ} {n : ℕ}

theorem emod_nonneg_of_pos (x : ℤ) (pos : 0 < n) : 0 ≤ x % n :=
  Int.emod_nonneg x (Int.ofNat_ne_zero.mpr (Nat.pos_iff_ne_zero.mp pos))

theorem emod_lt_of_pos (x : ℤ) (pos : 0 < n) : x % n < n :=
  Int.emod_lt_of_pos x (Int.ofNat_lt.mpr pos)

theorem slot_lt (t : ℤ) (pos : 0 < n) : slot t n < n := by
  have := emod_lt_of_pos t pos
  have := emod_nonneg_of_pos t pos
  unfold slot
  omega

theorem age_lt (t : ℤ) (pos : 0 < n) (i : ℕ) : age t n i < n := by
  have := emod_lt_of_pos (t - i) pos
  have := emod_nonneg_of_pos (t - i) pos
  unfold age
  omega

/-- The slot the counter points at was cleared by the last move. -/
theorem age_slot (t : ℤ) (pos : 0 < n) : age t n (slot t n) = 0 := by
  have cast : ((slot t n : ℕ) : ℤ) = t % n := Int.toNat_of_nonneg (emod_nonneg_of_pos t pos)
  rw [age, cast, Int.emod_def t n]
  simp

/-- Two slots of different ages are different slots: the age tells the slot. -/
theorem age_injective {i j : ℕ} (pos : 0 < n) (inI : i < n) (inJ : j < n)
    (same : age t n i = age t n j) : i = j := by
  have nonnegI := emod_nonneg_of_pos (t - i) pos
  have nonnegJ := emod_nonneg_of_pos (t - j) pos
  have residues : (t - i) % n = (t - j) % n := by
    unfold age at same
    omega
  have divides : (n : ℤ) ∣ (j : ℤ) - i := by
    rw [Int.emod_eq_emod_iff_emod_sub_eq_zero] at residues
    have zero : ((j : ℤ) - i) % n = 0 := by
      rw [show (j : ℤ) - i = (t - i) - (t - j) by omega]
      exact residues
    exact Int.dvd_of_emod_eq_zero zero
  have small : ((j : ℤ) - i).natAbs < (n : ℤ).natAbs := by omega
  have := Int.eq_zero_of_dvd_of_natAbs_lt_natAbs divides small
  omega

/-- Every age below `n` is the age of some slot. -/
theorem exists_age_eq {k : ℕ} (pos : 0 < n) (inK : k < n) : ∃ i < n, age t n i = k := by
  refine ⟨((t - k) % n).toNat, ?_, ?_⟩
  · have := emod_lt_of_pos (t - k) pos
    have := emod_nonneg_of_pos (t - k) pos
    omega
  · have cast : ((((t - k) % n).toNat : ℕ) : ℤ) = (t - k) % n :=
      Int.toNat_of_nonneg (emod_nonneg_of_pos _ pos)
    have back : (t - (t - k) % n) % n = k := by
      rw [Int.sub_emod, Int.emod_emod, ← Int.sub_emod, show t - (t - k) = (k : ℤ) by omega]
      exact Int.emod_eq_of_lt (Int.natCast_nonneg k) (Int.ofNat_lt.mpr inK)
    rw [age, cast, back]
    rfl

/-- When the counter moves on, every slot but the one it moves to gets one move older. -/
theorem age_succ {i : ℕ} (pos : 0 < n) (inI : i < n) (other : i ≠ slot (t + 1) n) :
    age (t + 1) n i = age t n i + 1 := by
  have nonneg := emod_nonneg_of_pos (t - i) pos
  have below := emod_lt_of_pos (t - i) pos
  have shifted : (t + 1 - i) % n = ((t - i) % n + 1) % n := by
    rw [Int.emod_add_emod, show t - i + 1 = t + 1 - i by omega]
  rcases Int.lt_or_le ((t - i) % n + 1) n with inside | wraps
  · rw [age, age, shifted, Int.emod_eq_of_lt (by omega) inside]
    omega
  · -- the slot `i` would be the one the counter moves to
    exfalso
    have full : (t - i) % n + 1 = n := by omega
    have zero : (t + 1 - i) % n = 0 := by rw [shifted, full, Int.emod_self]
    have congruent : (t + 1) % n = (i : ℤ) % n :=
      Int.emod_eq_emod_iff_emod_sub_eq_zero.mpr zero
    rw [Int.emod_eq_of_lt (Int.natCast_nonneg i) (Int.ofNat_lt.mpr inI)] at congruent
    apply other
    rw [slot, congruent]
    rfl

end Arithmetic

/-! ## Slots and periods -/

variable {β : Type u} {empty : β}

/-- The slots hold the periods `periods`, the newest first, each in the slot its age points at. -/
def Ages (t : ℤ) (slots periods : List β) (empty : β) : Prop :=
  ∀ i (inside : i < slots.length), slots.get ⟨i, inside⟩ = periods.getD (age t slots.length i) empty

variable {t : ℤ} {slots periods : List β}

/-- Moving on clears the slot moved to, which starts a new period. -/
theorem Ages.moveOn (ages : Ages t slots periods empty) (pos : 0 < slots.length) :
    Ages (t + 1) (slots.set (slot (t + 1) slots.length) empty) (empty :: periods) empty := by
  intro i inside
  have inSlots : i < slots.length := by simpa using inside
  simp only [List.length_set, List.get_eq_getElem, List.getElem_set]
  by_cases moved : slot (t + 1) slots.length = i
  · subst moved
    rw [if_pos rfl, age_slot (t + 1) pos]
    rfl
  · rw [if_neg moved, age_succ pos inSlots (Ne.symm moved)]
    have := ages i inSlots
    simp only [List.get_eq_getElem] at this
    rw [this]
    rfl

/-- Writing to the current slot changes the newest period and no other. -/
theorem Ages.modifyCurrent {newest : β} (ages : Ages t slots (newest :: periods) empty)
    (pos : 0 < slots.length) (f : β → β) :
    Ages t (slots.modify (slot t slots.length) f) (f newest :: periods) empty := by
  intro i inside
  have inSlots : i < slots.length := by simpa using inside
  have current := ages i inSlots
  simp only [List.get_eq_getElem] at current
  simp only [List.length_modify, List.get_eq_getElem, List.getElem_modify]
  by_cases here : slot t slots.length = i
  · subst here
    rw [if_pos rfl, current, age_slot t pos]
    rfl
  · rw [if_neg here, current]
    -- another slot is older than the current one
    have older : age t slots.length i ≠ 0 := fun young =>
      here (age_injective pos (slot_lt t pos) inSlots (by rw [age_slot t pos, young]))
    obtain ⟨k, hk⟩ := Nat.exists_eq_succ_of_ne_zero older
    rw [hk]
    rfl

/-- The ages of the `n` slots are `0, …, n - 1`, each once. -/
theorem map_age_range_perm (t : ℤ) {n : ℕ} (pos : 0 < n) :
    ((List.range n).map (age t n)).Perm (List.range n) := by
  apply (List.perm_ext_iff_of_nodup _ List.nodup_range).mpr
  · intro k
    simp only [List.mem_map, List.mem_range]
    constructor
    · rintro ⟨i, -, rfl⟩
      exact age_lt t pos i
    · intro inK
      exact exists_age_eq pos inK
  · refine List.Nodup.map_on (fun i inI j inJ same => ?_) List.nodup_range
    exact age_injective pos (List.mem_range.mp inI) (List.mem_range.mp inJ) same

/-- The slots are the last `n` periods in some order. -/
theorem Ages.perm (ages : Ages t slots periods empty) (pos : 0 < slots.length) :
    slots.Perm ((List.range slots.length).map (periods.getD · empty)) := by
  have listed : slots = ((List.range slots.length).map (age t slots.length)).map
      (periods.getD · empty) := by
    apply List.ext_getElem (by simp)
    intro i inSlots _
    have := ages i inSlots
    simp only [List.get_eq_getElem] at this
    simp [this]
  rw [listed, List.length_map, List.length_map, List.length_range]
  exact (map_age_range_perm t pos).map _

/-- The first `n` periods of a list of lists, padded with empty ones, hold what its first `n`
entries hold. -/
theorem flatten_map_getD_range {α : Type u} (periods : List (List α)) (n : ℕ) :
    ((List.range n).map (periods.getD · [])).flatten = (periods.take n).flatten := by
  induction n with
  | zero => simp
  | succ n ih =>
      rw [List.range_succ, List.map_append, List.flatten_append, ih, List.take_add_one,
        List.flatten_append]
      congr 1
      cases found : periods[n]? <;> simp [List.getD_eq_getElem?_getD, found]

end RingBuffer
