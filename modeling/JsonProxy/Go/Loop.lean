import JsonProxy.Go.Bytes
import Mathlib.Data.List.AList

/-!
# Early-exit loops and map iteration

Two shapes of Go loop recur in the proxy.  `firstHit` is the search loop that returns at the
first element whose fallible test succeeds or fails, and otherwise reports that nothing
matched.  Its result depends on the order of the list only through which test it meets first;
`firstHit_eq_of_perm` and `firstHit_ok_unique_of_perm` say exactly how much that matters.

A Go `map` is a finite map with distinct keys, modelled by Mathlib's `AList`.  A `range`
statement over a map visits its entries in an order the language leaves unspecified and the
runtime randomises, possibly differently for each loop of one run.  A `Schedule` fixes, for the
`n`-th such loop of a run, the order it uses; a valid schedule visits every entry exactly once.
Statements quantified over every valid schedule hold for every run.
-/

namespace Go

universe u v w

/-! ## `Except` as the result of a Go call with an `error` -/

section Except

variable {ε : Type u} {α β : Type v}

theorem bind_eq_ok_iff {x : Except ε α} {f : α → Except ε β} {b : β} :
    x >>= f = .ok b ↔ ∃ a, x = .ok a ∧ f a = .ok b := by
  cases x <;> simp [bind, Except.bind]

/-- Two continuations that agree on every success of a call give the same result. -/
theorem bind_congr_of_ok {x : Except ε α} {f g : α → Except ε β}
    (same : ∀ a, x = .ok a → f a = g a) : x >>= f = x >>= g := by
  cases x with
  | error e => rfl
  | ok a => exact same a rfl

/-- A call fails exactly when it does not succeed. -/
theorem exists_error_iff_not_exists_ok {x : Except ε α} :
    (∃ e, x = .error e) ↔ ¬∃ a, x = .ok a := by
  cases x <;> simp

theorem bind_eq_error_iff {x : Except ε α} {f : α → Except ε β} {e : ε} :
    x >>= f = .error e ↔ x = .error e ∨ ∃ a, x = .ok a ∧ f a = .error e := by
  cases x <;> simp [bind, Except.bind]

/-- `pure` in `Except`, read back. -/
theorem pure_eq_ok {a b : α} : (pure a : Except ε α) = .ok b ↔ a = b := by
  simp [pure, Except.pure]

/-- A check that throws when its condition holds and goes on with `a` otherwise. -/
theorem ite_throw_eq_ok {c : Prop} [Decidable c] {e : ε} {a b : α} :
    (if c then throw e else pure a : Except ε α) = .ok b ↔ ¬c ∧ a = b := by
  split_ifs with failed
  · simp [failed]
  · simp [failed, pure, Except.pure]

/-- A successful call followed by `pure`. -/
theorem exists_bind_pure_eq_ok {x : Except ε α} {f : α → β} :
    (∃ r, (x >>= fun a => pure (f a)) = .ok r) ↔ ∃ a, x = .ok a := by
  cases x <;> simp [bind, Except.bind, pure, Except.pure]

theorem exists_bind_eq_ok {x : Except ε α} {f : α → Except ε β} :
    (∃ r, (x >>= f) = .ok r) ↔ ∃ a, x = .ok a ∧ ∃ r, f a = .ok r := by
  simp only [bind_eq_ok_iff]
  constructor
  · rintro ⟨r, a, first, second⟩
    exact ⟨a, first, r, second⟩
  · rintro ⟨a, first, r, second⟩
    exact ⟨r, a, first, second⟩

/-- Relabelling the error of a call changes none of its successes. -/
@[simp]
theorem mapError_eq_ok {ε' : Type u} {x : Except ε α} {f : ε → ε'} {a : α} :
    x.mapError f = .ok a ↔ x = .ok a := by
  cases x <;> simp [Except.mapError]

end Except

/-! ## First hit -/

section FirstHit

variable {α : Type u} {ε : Type v}

/-- The loop `for _, x := range xs { if ok, err := test(x); err != nil { return false, err }
else if ok { return true, nil } }; return false, nil`. -/
def firstHit (test : α → Except ε Bool) : List α → Except ε Bool
  | [] => .ok false
  | x :: xs =>
    match test x with
    | .error e => .error e
    | .ok true => .ok true
    | .ok false => firstHit test xs

variable {test : α → Except ε Bool}

@[simp]
theorem firstHit_nil (test : α → Except ε Bool) : firstHit test [] = .ok false :=
  rfl

theorem firstHit_cons_of_false {x : α} (xs : List α) (miss : test x = .ok false) :
    firstHit test (x :: xs) = firstHit test xs := by
  simp [firstHit, miss]

theorem firstHit_cons_of_true {x : α} (xs : List α) (hit : test x = .ok true) :
    firstHit test (x :: xs) = .ok true := by
  simp [firstHit, hit]

theorem firstHit_cons_of_error {x : α} {e : ε} (xs : List α) (failed : test x = .error e) :
    firstHit test (x :: xs) = .error e := by
  simp [firstHit, failed]

@[simp]
theorem firstHit_singleton (x : α) : firstHit test [x] = test x := by
  cases outcome : test x with
  | error e => exact firstHit_cons_of_error [] outcome
  | ok b =>
      cases b with
      | true => exact firstHit_cons_of_true [] outcome
      | false => exact firstHit_cons_of_false [] outcome

/-- The loop runs to its end with `false` exactly when every test answers `false`. -/
theorem firstHit_eq_ok_false_iff {xs : List α} :
    firstHit test xs = .ok false ↔ ∀ x ∈ xs, test x = .ok false := by
  induction xs with
  | nil => simp
  | cons x xs ih =>
      cases outcome : test x with
      | error e => simp [firstHit_cons_of_error xs outcome, outcome]
      | ok b =>
          cases b with
          | true => simp [firstHit_cons_of_true xs outcome, outcome]
          | false => simp [firstHit_cons_of_false xs outcome, outcome, ih]

/-- The loop returns `true` exactly when some element answers `true` and every element before
it answers `false`. -/
theorem firstHit_eq_ok_true_iff {xs : List α} :
    firstHit test xs = .ok true ↔
      ∃ pre x post, xs = pre ++ x :: post ∧ (∀ y ∈ pre, test y = .ok false) ∧
        test x = .ok true := by
  induction xs with
  | nil => simp
  | cons x xs ih =>
      constructor
      · intro hit
        cases outcome : test x with
        | error e => simp [firstHit_cons_of_error xs outcome] at hit
        | ok b =>
            cases b with
            | true => exact ⟨[], x, xs, rfl, by simp, outcome⟩
            | false =>
                rw [firstHit_cons_of_false xs outcome] at hit
                obtain ⟨pre, y, post, split, misses, found⟩ := ih.mp hit
                refine ⟨x :: pre, y, post, by simp [split], ?_, found⟩
                simpa [outcome] using misses
      · rintro ⟨pre, y, post, split, misses, found⟩
        cases pre with
        | nil =>
            obtain ⟨rfl, rfl⟩ := List.cons.inj split
            exact firstHit_cons_of_true xs found
        | cons z pre =>
            obtain ⟨rfl, rfl⟩ := List.cons.inj split
            rw [firstHit_cons_of_false _ (misses x List.mem_cons_self)]
            exact ih.mpr ⟨pre, y, post, rfl,
              fun w mem => misses w (List.mem_cons_of_mem x mem), found⟩

theorem exists_of_firstHit_eq_ok_true {xs : List α} (hit : firstHit test xs = .ok true) :
    ∃ x ∈ xs, test x = .ok true := by
  obtain ⟨pre, x, post, rfl, -, found⟩ := firstHit_eq_ok_true_iff.mp hit
  exact ⟨x, by simp, found⟩

theorem firstHit_ok_of_ok {xs : List α} (total : ∀ x ∈ xs, ∃ b, test x = .ok b) :
    ∃ b, firstHit test xs = .ok b := by
  induction xs with
  | nil => exact ⟨false, rfl⟩
  | cons x xs ih =>
      obtain ⟨b, outcome⟩ := total x List.mem_cons_self
      cases b with
      | true => exact ⟨true, firstHit_cons_of_true xs outcome⟩
      | false =>
          rw [firstHit_cons_of_false xs outcome]
          exact ih (fun y mem => total y (List.mem_cons_of_mem x mem))

/-- Two orders of one list that both run without error agree on the answer: a `true` is found
by a test that answers `true` in any order, and a `false` means every test answered `false`. -/
theorem firstHit_ok_unique_of_perm {xs ys : List α} (perm : xs.Perm ys) {b b' : Bool}
    (first : firstHit test xs = .ok b) (second : firstHit test ys = .ok b') : b = b' := by
  cases b with
  | false =>
      have misses := firstHit_eq_ok_false_iff.mp first
      have missesYs : ∀ y ∈ ys, test y = .ok false :=
        fun y mem => misses y (perm.mem_iff.mpr mem)
      rw [firstHit_eq_ok_false_iff.mpr missesYs] at second
      exact Except.ok.inj second
  | true =>
      obtain ⟨x, mem, hit⟩ := exists_of_firstHit_eq_ok_true first
      cases b' with
      | true => rfl
      | false =>
          have miss := firstHit_eq_ok_false_iff.mp second x (perm.mem_iff.mp mem)
          rw [hit] at miss
          cases miss

/-- The loop over two lists in a row runs the second only when the first finds nothing. -/
theorem firstHit_append (xs ys : List α) :
    firstHit test (xs ++ ys) =
      firstHit test xs >>= fun hit => if hit then .ok true else firstHit test ys := by
  induction xs with
  | nil => rfl
  | cons x xs ih =>
      cases outcome : test x with
      | error e =>
          rw [List.cons_append, firstHit_cons_of_error _ outcome, firstHit_cons_of_error _ outcome]
          rfl
      | ok b =>
          cases b with
          | true =>
              rw [List.cons_append, firstHit_cons_of_true _ outcome, firstHit_cons_of_true _ outcome]
              rfl
          | false =>
              rw [List.cons_append, firstHit_cons_of_false _ outcome,
                firstHit_cons_of_false _ outcome, ih]

/-- Two nested loops of this shape, where a hit or an error in the inner one returns from both,
are one loop over the inner lists joined. -/
theorem firstHit_firstHit {β : Type w} (inner : β → List α) (bs : List β) :
    firstHit (fun b => firstHit test (inner b)) bs = firstHit test (bs.flatMap inner) := by
  induction bs with
  | nil => rfl
  | cons b bs ih =>
      rw [List.flatMap_cons, firstHit_append, ← ih]
      cases outcome : firstHit test (inner b) with
      | error e => exact firstHit_cons_of_error bs outcome
      | ok hit =>
          cases hit with
          | true => exact firstHit_cons_of_true bs outcome
          | false => exact firstHit_cons_of_false bs outcome

/-- When no test fails, the order of the list does not matter. -/
theorem firstHit_eq_of_perm {xs ys : List α} (perm : xs.Perm ys)
    (total : ∀ x ∈ xs, ∃ b, test x = .ok b) : firstHit test xs = firstHit test ys := by
  have totalYs : ∀ y ∈ ys, ∃ b, test y = .ok b := fun y mem => total y (perm.mem_iff.mpr mem)
  obtain ⟨b, first⟩ := firstHit_ok_of_ok total
  obtain ⟨b', second⟩ := firstHit_ok_of_ok totalYs
  rw [first, second, firstHit_ok_unique_of_perm perm first second]

end FirstHit

/-! ## Maps and the order of `range` -/

section Maps

/-- A Go `map[κ]α`. -/
abbrev Map (κ : Type u) (α : Type v) := AList (fun _ : κ => α)

variable {κ : Type u} {α : Type v}

/-- The entries of a map as key-value pairs, in the order they are stored. -/
def Map.pairs (m : Map κ α) : List (κ × α) :=
  m.entries.map fun entry => (entry.1, entry.2)

theorem Map.mem_pairs_iff [DecidableEq κ] {m : Map κ α} {k : κ} {a : α} :
    (k, a) ∈ m.pairs ↔ m.lookup k = some a := by
  rw [← Option.mem_def, AList.mem_lookup_iff]
  simp only [Map.pairs, List.mem_map]
  constructor
  · rintro ⟨⟨k', a'⟩, mem, eq⟩
    simp only [Prod.mk.injEq] at eq
    obtain ⟨rfl, rfl⟩ := eq
    exact mem
  · intro mem
    exact ⟨⟨k, a⟩, mem, rfl⟩

theorem Map.keys_pairs (m : Map κ α) : m.pairs.map Prod.fst = m.keys := by
  simp [Map.pairs, AList.keys, List.keys]

/-- A map visits each key once. -/
theorem Map.nodup_keys_pairs (m : Map κ α) : (m.pairs.map Prod.fst).Nodup := by
  rw [Map.keys_pairs]
  exact m.keys_nodup

/-- For the `n`-th `range` statement over a map in a run, the order in which it visits the
map's entries. -/
def Schedule (κ : Type u) (α : Type v) := Nat → Map κ α → List (κ × α)

/-- A schedule is one the Go runtime can produce when every loop visits each entry once. -/
def Schedule.Valid (σ : Schedule κ α) : Prop :=
  ∀ n m, (σ n m).Perm m.pairs

/-- The schedule that visits entries in stored order. -/
def Schedule.stored : Schedule κ α := fun _ m => m.pairs

theorem Schedule.stored_valid : (Schedule.stored : Schedule κ α).Valid :=
  fun _ _ => List.Perm.refl _

/-- A valid schedule visits exactly the entries of the map. -/
theorem Schedule.Valid.mem_iff [DecidableEq κ] {σ : Schedule κ α} (valid : σ.Valid) (n : Nat)
    {m : Map κ α} {k : κ} {a : α} : (k, a) ∈ σ n m ↔ m.lookup k = some a := by
  rw [(valid n m).mem_iff, Map.mem_pairs_iff]

/-- A valid schedule visits each key once. -/
theorem Schedule.Valid.nodup_keys {σ : Schedule κ α} (valid : σ.Valid) (n : Nat) (m : Map κ α) :
    ((σ n m).map Prod.fst).Nodup :=
  ((valid n m).map Prod.fst).nodup_iff.mpr m.nodup_keys_pairs

end Maps

end Go
