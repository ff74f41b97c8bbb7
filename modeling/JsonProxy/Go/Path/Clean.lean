import JsonProxy.Go.Bytes

/-!
# `path.Clean` and `path.Join`

`Clean` rewrites a slash-separated path into its shortest equivalent: runs of slashes become
one, `.` elements go, and a `..` element removes the element before it.  go1.4.2 does this in
one pass over the bytes, writing into a buffer it may back up in.  The model keeps that pass: the
buffer is a list with the last byte written first, `backtrack` is the buffer's backing up, and
the inner loop that copies a real element is the `copying` mode of `cleanLoop`.

`Join` cleans the slash-joined elements after the leading empty ones, so it is not a plain
join: `pathJoin_eq_join` shows that it is exactly when no element is empty, `.`, `..` or holds a
slash.
-/

namespace Go

open Ascii

namespace Path

/-- `out.w--` and the loop after it: drop written bytes back past the last `/`, but never
below `dotdot` bytes.  `out` holds the written bytes, last first. -/
def backtrack (dotdot : Nat) : Bytes → Bytes
  | [] => []
  | b :: rest => if dotdot < rest.length ∧ b ≠ slash then backtrack dotdot rest else rest

/-- The separator `Clean` writes before a real element: a slash unless the output holds only
the root. -/
def cleanSep (rooted : Bool) (out : Bytes) : Bytes :=
  if rooted ∧ out.length ≠ 1 ∨ ¬rooted ∧ out.length ≠ 0 then slash :: out else out

/-- A `..` element: back up over the previous element when there is one above `dotdot`;
otherwise keep the `..` in a relative path, and drop it at the root.  The new output and
`dotdot`. -/
def cleanDotDot (rooted : Bool) (out : Bytes) (dotdot : Nat) : Bytes × Nat :=
  if dotdot < out.length then (backtrack dotdot out, dotdot)
  else if ¬rooted then
    let out := if 0 < out.length then slash :: out else out
    (dot :: dot :: out, out.length + 2)
  else (out, dotdot)

/-- The loop of `Clean` over the bytes not yet read.  Outside an element it looks at the next
element: an empty one, `.`, `..`, or the first byte of a real element, which it copies in the
`copying` mode up to the next slash. -/
def cleanLoop (rooted : Bool) : Bool → Bytes → Bytes → Nat → Bytes
  | _, [], out, _ => out
  | true, b :: rest, out, dotdot =>
    if b = slash then cleanLoop rooted false rest out dotdot
    else cleanLoop rooted true rest (b :: out) dotdot
  | false, b :: rest, out, dotdot =>
    if b = slash then cleanLoop rooted false rest out dotdot
    else if b = dot ∧ (rest = [] ∨ rest.head? = some slash) then
      cleanLoop rooted false rest out dotdot
    else if b = dot ∧ rest.head? = some dot ∧ (rest.tail = [] ∨ rest.tail.head? = some slash) then
      -- go1.4.2 steps over both dots; here the second dot, followed by a slash or the end, is
      -- read next as a `.` element, which writes nothing
      let (out, dotdot) := cleanDotDot rooted out dotdot
      cleanLoop rooted false rest out dotdot
    else cleanLoop rooted true rest (b :: cleanSep rooted out) dotdot

end Path

/-- `path.Clean(path)`: the shortest path equivalent to `path`, `.` when nothing is left. -/
def pathClean : Bytes → Bytes
  | [] => [dot]
  | b :: rest =>
    let out :=
      if b = slash then Path.cleanLoop true false rest [slash] 1
      else Path.cleanLoop false false (b :: rest) [] 0
    if out = [] then [dot] else out.reverse

/-- `path.Join(elem...)`: the elements from the first non-empty one, joined with slashes and
cleaned; empty when every element is empty. -/
def pathJoin : List Bytes → Bytes
  | [] => []
  | e :: rest => if e = [] then pathJoin rest else pathClean (join (e :: rest) [slash])

namespace Path

/-! ## Keys that cleaning leaves alone -/

/-- A key `Clean` keeps as it is inside a path: not empty, not `.` or `..`, and without a
slash. -/
def IsPlainKey (k : Bytes) : Prop :=
  k ≠ [] ∧ k ≠ [dot] ∧ k ≠ [dot, dot] ∧ slash ∉ k

instance (k : Bytes) : Decidable (IsPlainKey k) :=
  inferInstanceAs (Decidable (_ ∧ _))

/-- The copying mode writes the bytes of an element unchanged. -/
theorem cleanLoop_copying {w : Bytes} (noSlash : slash ∉ w) (rooted : Bool) (rest out : Bytes)
    (dotdot : Nat) :
    cleanLoop rooted true (w ++ rest) out dotdot = cleanLoop rooted true rest (w.reverse ++ out) dotdot := by
  induction w generalizing out with
  | nil => rfl
  | cons b w ih =>
      have bNe : b ≠ slash := fun eq => noSlash (eq ▸ List.mem_cons_self)
      rw [List.cons_append, cleanLoop, if_neg bNe, ih (fun mem => noSlash (List.mem_cons_of_mem b mem))]
      simp

theorem cleanLoop_copying_nil (rooted : Bool) (out : Bytes) (dotdot : Nat) :
    cleanLoop rooted true [] out dotdot = out :=
  rfl

/-- A plain key, read outside an element, is written after a separator and leaves the loop
copying. -/
theorem cleanLoop_plainKey {k : Bytes} (plain : IsPlainKey k) (rooted : Bool) {rest : Bytes}
    (out : Bytes) (dotdot : Nat) :
    cleanLoop rooted false (k ++ rest) out dotdot =
      cleanLoop rooted true rest (k.reverse ++ cleanSep rooted out) dotdot := by
  obtain ⟨nonEmpty, notDot, notDotDot, noSlash⟩ := plain
  obtain ⟨b, w, rfl⟩ := List.exists_cons_of_ne_nil nonEmpty
  have bNe : b ≠ slash := fun eq => noSlash (eq ▸ List.mem_cons_self)
  have wNoSlash : slash ∉ w := fun mem => noSlash (List.mem_cons_of_mem b mem)
  -- the key is neither `.` nor `..`, so neither test for those elements fires
  have notDotElement : ¬(b = dot ∧ (w ++ rest = [] ∨ (w ++ rest).head? = some slash)) := by
    rintro ⟨rfl, ends⟩
    cases w with
    | nil => exact notDot rfl
    | cons d w =>
        have dNe : d ≠ slash := fun eq => wNoSlash (eq ▸ List.mem_cons_self)
        simp [dNe] at ends
  have notDotDotElement : ¬(b = dot ∧ (w ++ rest).head? = some dot ∧
      ((w ++ rest).tail = [] ∨ (w ++ rest).tail.head? = some slash)) := by
    rintro ⟨rfl, secondDot, ends⟩
    cases w with
    | nil => exact notDot rfl
    | cons d w =>
        simp only [List.cons_append, List.head?_cons, Option.some.injEq] at secondDot
        subst secondDot
        cases w with
        | nil => exact notDotDot rfl
        | cons e w =>
            have eNe : e ≠ slash :=
              fun eq => wNoSlash (eq ▸ List.mem_cons_of_mem dot List.mem_cons_self)
            simp [eNe] at ends
  rw [List.cons_append, cleanLoop, if_neg bNe, if_neg notDotElement, if_neg notDotDotElement,
    cleanLoop_copying wNoSlash]
  simp

/-- Plain keys joined with slashes come out of the relative loop as they went in. -/
theorem cleanLoop_join_plainKeys {ks : List Bytes} (plain : ∀ k ∈ ks, IsPlainKey k)
    (nonEmpty : ks ≠ []) (out : Bytes) :
    cleanLoop false false (join ks [slash]) out 0 = (join ks [slash]).reverse ++ cleanSep false out := by
  induction ks generalizing out with
  | nil => exact absurd rfl nonEmpty
  | cons k ks ih =>
      have kPlain := plain k List.mem_cons_self
      cases ks with
      | nil =>
          have joinOne : join [k] [slash] = k ++ [] := by simp [join]
          rw [joinOne, cleanLoop_plainKey kPlain, cleanLoop_copying_nil]
          simp
      | cons k' ks =>
          have restPlain : ∀ k ∈ k' :: ks, IsPlainKey k := fun k mem => plain k (List.mem_cons_of_mem _ mem)
          rw [join_cons_cons, List.append_assoc, cleanLoop_plainKey kPlain]
          rw [List.singleton_append, cleanLoop, if_pos rfl, ih restPlain (List.cons_ne_nil _ _)]
          have sepNonEmpty : cleanSep false (k.reverse ++ cleanSep false out) =
              slash :: (k.reverse ++ cleanSep false out) := by
            simp [cleanSep, kPlain.1]
          rw [sepNonEmpty]
          simp

end Path

/-- Joining plain keys with `path.Join` is joining them with slashes: cleaning changes nothing. -/
theorem pathJoin_eq_join {ks : List Bytes} (plain : ∀ k ∈ ks, Path.IsPlainKey k) :
    pathJoin ks = join ks [slash] := by
  cases ks with
  | nil => rfl
  | cons k ks =>
      have kPlain := plain k List.mem_cons_self
      obtain ⟨b, w, kEq⟩ := List.exists_cons_of_ne_nil kPlain.1
      have bNe : b ≠ slash := fun eq => kPlain.2.2.2 (kEq ▸ eq ▸ List.mem_cons_self)
      have sepNil : Path.cleanSep false [] = [] := rfl
      have loop := Path.cleanLoop_join_plainKeys plain (List.cons_ne_nil k ks) []
      rw [sepNil, List.append_nil] at loop
      obtain ⟨rest, joinEq⟩ : ∃ rest, join (k :: ks) [slash] = b :: rest := by
        cases ks with
        | nil => exact ⟨w, by simp [join, kEq]⟩
        | cons k' ks => exact ⟨w ++ [slash] ++ join (k' :: ks) [slash], by rw [join_cons_cons, kEq]; simp⟩
      rw [pathJoin, if_neg kPlain.1, joinEq, pathClean]
      simp only [if_neg bNe]
      rw [← joinEq, loop, joinEq]
      simp

end Go
