import JsonProxy.Go.Loop

/-!
# `path.Match`

Go's shell-pattern matcher as go1.4.2 implements it.  A pattern is cut by `scanChunk` into
chunks of single-character operators (literal bytes, `?`, `\`-escapes and `[...]` classes), each
possibly preceded by stars.  `matchChunk` matches one chunk against a prefix of the name;
`pathMatch` strings the chunks together and, after a star, retries a chunk further along the name
without ever skipping a `/`.  A trailing star matches the rest of the name exactly when it holds
no `/`: a star never crosses a separator, so `**` means the same as `*`.

go1.4.2 reports `ErrBadPattern` only when the match reaches the malformed part of the pattern:
whether a pattern is rejected can depend on the name.  The model keeps that order of checks.
The one departure is a chunk that ends right after `[`, where go1.4.2 reads past the chunk and
later releases report `ErrBadPattern`; the model reports the error.

`matchChunk`, the class reader and the chunk loop of `pathMatch` consume a variable number of
bytes per iteration, so each is given the length of what it reads as fuel; `matchClass_fuel`,
`matchChunkAux_fuel` and `matchAux_fuel` show that more fuel changes nothing.
-/

namespace Go

open Ascii

/-- `path.ErrBadPattern`, the only error `path.Match` reports. -/
inductive PathError where
  | errBadPattern
  deriving DecidableEq, Repr

/-- The `error` value: `errors.New("syntax error in pattern")`. -/
def PathError.toError : PathError → Error
  | .errBadPattern => ⟨utf8 "syntax error in pattern"⟩

namespace Path

/-- `scanChunk` after the leading stars: the chunk runs to the first `*` outside a character
class, and a backslash keeps the byte after it in the chunk. -/
def scanChunkBody : Bool → Bytes → Bytes × Bytes
  | _, [] => ([], [])
  | inrange, b :: rest =>
    if b = backslash then
      match rest with
      | [] => ([b], [])
      | c :: rest =>
        let (chunk, tail) := scanChunkBody inrange rest
        (b :: c :: chunk, tail)
    else if b = asterisk ∧ inrange = false then ([], b :: rest)
    else
      let inrange := if b = lbracket then true else if b = rbracket then false else inrange
      let (chunk, tail) := scanChunkBody inrange rest
      (b :: chunk, tail)

/-- The leading stars of a pattern: whether there was one, and what follows them. -/
def skipStars : Bytes → Bool × Bytes
  | [] => (false, [])
  | b :: rest => if b = asterisk then (true, (skipStars rest).2) else (false, b :: rest)

/-- `scanChunk`: whether stars lead, the star-free chunk after them, and the rest. -/
def scanChunk (pattern : Bytes) : Bool × Bytes × Bytes :=
  let (starred, pattern) := skipStars pattern
  let (chunk, rest) := scanChunkBody false pattern
  (starred, chunk, rest)

/-- `getEsc`: a possibly escaped character of a class range, and the chunk after it. -/
def getEsc (chunk : Bytes) : Except PathError (Nat × Bytes) := do
  let chunk ← match chunk with
    | [] => throw .errBadPattern
    | b :: rest =>
      if b = dash ∨ b = rbracket then throw .errBadPattern
      else if b = backslash then
        if rest = [] then throw .errBadPattern else pure rest
      else pure (b :: rest)
  let (r, n) := decodeRuneInString chunk
  let nchunk := chunk.drop n
  if r = runeError ∧ n = 1 ∨ nchunk = [] then throw .errBadPattern
  pure (r, nchunk)

/-- The range loop of a character class, after `[` and an optional `^`: whether rune `r` falls
in one of the ranges read, and the chunk after the closing `]`. -/
def matchClass (r : Nat) : Nat → Bytes → Bool → Nat → Except PathError (Bool × Bytes)
  | 0, _, _, _ => throw .errBadPattern
  | fuel + 1, chunk, matched, nrange =>
    if chunk.head? = some rbracket ∧ 0 < nrange then pure (matched, chunk.tail)
    else do
      let (lo, chunk) ← getEsc chunk
      let (hi, chunk) ← if chunk.head? = some dash then getEsc chunk.tail else pure (lo, chunk)
      matchClass r fuel chunk (matched || decide (lo ≤ r ∧ r ≤ hi)) (nrange + 1)

/-- The loop of `matchChunk` with `fuel` iterations left: `some` of the rest of `s` when the
chunk matches a prefix of `s`, `none` when it does not. -/
def matchChunkAux : Nat → Bytes → Bytes → Except PathError (Option Bytes)
  | _, [], s => pure (some s)
  | 0, _ :: _, _ => throw .errBadPattern
  | fuel + 1, c :: chunk, s =>
    match s with
    | [] => pure none
    | s0 :: s' =>
      if c = lbracket then
        let (r, n) := decodeRuneInString s
        match chunk with
        | [] => throw .errBadPattern
        | c1 :: chunk' => do
          let negated := c1 = caret
          let ranges := if negated then chunk' else c1 :: chunk'
          let (matched, chunk) ← matchClass r ranges.length ranges false 0
          if matched = negated then pure none else matchChunkAux fuel chunk (s.drop n)
      else if c = question then
        if s0 = slash then pure none
        else matchChunkAux fuel chunk (s.drop (decodeRuneInString s).2)
      else if c = backslash then
        match chunk with
        | [] => throw .errBadPattern
        | c1 :: chunk => if c1 = s0 then matchChunkAux fuel chunk s' else pure none
      else if c = s0 then matchChunkAux fuel chunk s' else pure none

/-- `matchChunk`: one chunk against a prefix of `s`. -/
def matchChunk (chunk s : Bytes) : Except PathError (Option Bytes) :=
  matchChunkAux chunk.length chunk s

/-- The `if star` branch of `Match`: after a star, retry the chunk past one more byte of the
name at a time, never past a `/`.  When the chunk is the last one (`last`), a retry counts only
if it exhausts the name. -/
def skipMatch (chunk : Bytes) (last : Bool) : Bytes → Except PathError (Option Bytes)
  | [] => pure none
  | b :: rest =>
    if b = slash then pure none
    else
      match matchChunk chunk rest with
      | .ok (some t) => if last ∧ t ≠ [] then skipMatch chunk last rest else pure (some t)
      | .ok none => skipMatch chunk last rest
      | .error e => .error e

/-- The chunk loop of `Match` with `fuel` iterations left. -/
def matchAux : Nat → Bytes → Bytes → Except PathError Bool
  | _, [], name => pure (name = [])
  | 0, _ :: _, _ => pure false
  | fuel + 1, p :: ps, name =>
    let (starred, chunk, pattern) := scanChunk (p :: ps)
    if starred ∧ chunk = [] then pure (slash ∉ name)
    else
      let retry : Except PathError Bool :=
        if starred then
          match skipMatch chunk (pattern = []) name with
          | .ok (some t) => matchAux fuel pattern t
          | .ok none => pure false
          | .error e => .error e
        else pure false
      match matchChunk chunk name with
      | .ok (some t) => if t = [] ∨ pattern ≠ [] then matchAux fuel pattern t else retry
      | .ok none => retry
      | .error e => .error e

end Path

/-- `path.Match(pattern, name)`: whether the whole of `name` matches the shell pattern. -/
def pathMatch (pattern name : Bytes) : Except PathError Bool :=
  Path.matchAux pattern.length pattern name

namespace Path

/-- A pattern on which `path.Match` reports no error, whatever the name. -/
def Total (pattern : Bytes) : Prop :=
  ∀ name, ∃ matched, pathMatch pattern name = .ok matched

/-! ## Literal chunks -/

/-- Bytes with no meaning to the matcher: no `*`, `?`, `[` or `\`. -/
def IsLiteral (lit : Bytes) : Prop :=
  ∀ b ∈ lit, b ≠ asterisk ∧ b ≠ question ∧ b ≠ lbracket ∧ b ≠ backslash

instance (lit : Bytes) : Decidable (IsLiteral lit) :=
  inferInstanceAs (Decidable (∀ b ∈ lit, _))

theorem IsLiteral.cons {b : UInt8} {lit : Bytes} (literal : IsLiteral (b :: lit)) :
    (b ≠ asterisk ∧ b ≠ question ∧ b ≠ lbracket ∧ b ≠ backslash) ∧ IsLiteral lit :=
  ⟨literal b List.mem_cons_self, fun c mem => literal c (List.mem_cons_of_mem b mem)⟩

theorem isLiteral_append_slash {q : Bytes} (literal : IsLiteral q) : IsLiteral (q ++ [slash]) := by
  intro b mem
  rcases List.mem_append.mp mem with mem | mem
  · exact literal b mem
  · simp only [List.mem_singleton] at mem
    subst mem
    decide

/-- One step of `scanChunkBody` at a byte that is not an escape. -/
theorem scanChunkBody_cons_of_ne_backslash {b : UInt8} (notEscape : b ≠ backslash)
    (inrange : Bool) (rest : Bytes) :
    scanChunkBody inrange (b :: rest) =
      if b = asterisk ∧ inrange = false then ([], b :: rest)
      else
        let inrange := if b = lbracket then true else if b = rbracket then false else inrange
        ((b :: (scanChunkBody inrange rest).1), (scanChunkBody inrange rest).2) := by
  cases rest <;> simp [scanChunkBody, notEscape]

/-- One step of `matchChunkAux` at a literal byte of the chunk. -/
theorem matchChunkAux_cons_literal {c : UInt8} (notAny : c ≠ question)
    (notOpen : c ≠ lbracket) (notEscape : c ≠ backslash) (fuel : Nat) (chunk : Bytes)
    (s0 : UInt8) (s : Bytes) :
    matchChunkAux (fuel + 1) (c :: chunk) (s0 :: s) =
      if c = s0 then matchChunkAux fuel chunk s else .ok none := by
  cases chunk <;> simp [matchChunkAux, notAny, notOpen, notEscape] <;> rfl

/-- A literal run of a pattern belongs to the chunk, up to the next star. -/
theorem scanChunkBody_literal_append {lit : Bytes} (literal : IsLiteral lit) (rest : Bytes) :
    scanChunkBody false (lit ++ asterisk :: rest) = (lit, asterisk :: rest) := by
  induction lit with
  | nil => simp [scanChunkBody_cons_of_ne_backslash (by decide : asterisk ≠ backslash)]
  | cons b lit ih =>
      obtain ⟨⟨notStar, -, notOpen, notEscape⟩, literal⟩ := literal.cons
      simp [scanChunkBody_cons_of_ne_backslash notEscape, notStar, notOpen, ih literal]

/-- A literal chunk matches exactly the names it is a prefix of, and leaves the rest. -/
theorem matchChunkAux_literal_append {lit : Bytes} (literal : IsLiteral lit) {fuel : Nat}
    (enough : lit.length ≤ fuel) (t : Bytes) :
    matchChunkAux fuel lit (lit ++ t) = .ok (some t) := by
  induction lit generalizing fuel with
  | nil => cases fuel <;> rfl
  | cons b lit ih =>
      obtain ⟨⟨-, notAny, notOpen, notEscape⟩, literal⟩ := literal.cons
      obtain ⟨fuel, rfl⟩ : ∃ f, fuel = f + 1 := ⟨fuel - 1, by simp at enough; omega⟩
      rw [List.cons_append, matchChunkAux_cons_literal notAny notOpen notEscape, if_pos rfl]
      exact ih literal (by simpa using enough)

theorem matchChunkAux_literal_of_not_prefix {lit : Bytes} (literal : IsLiteral lit)
    {fuel : Nat} (enough : lit.length ≤ fuel) {s : Bytes} (notPrefix : ¬lit <+: s) :
    matchChunkAux fuel lit s = .ok none := by
  induction lit generalizing fuel s with
  | nil => simp at notPrefix
  | cons b lit ih =>
      obtain ⟨⟨-, notAny, notOpen, notEscape⟩, literal⟩ := literal.cons
      obtain ⟨fuel, rfl⟩ : ∃ f, fuel = f + 1 := ⟨fuel - 1, by simp at enough; omega⟩
      cases s with
      | nil => rfl
      | cons c s =>
          rw [matchChunkAux_cons_literal notAny notOpen notEscape]
          by_cases same : b = c
          · subst same
            rw [if_pos rfl]
            exact ih literal (by simpa using enough) (by simpa using notPrefix)
          · simp [same]

/-- The chunk structure of `q/**` for a literal `q`: no leading star, the chunk `q/`, and the
two stars left over. -/
theorem scanChunk_literal_slash_stars {q : Bytes} (literal : IsLiteral q) :
    scanChunk (q ++ [slash, asterisk, asterisk]) = (false, q ++ [slash], [asterisk, asterisk]) := by
  have body := scanChunkBody_literal_append (isLiteral_append_slash literal) [asterisk]
  simp only [List.append_assoc, List.cons_append, List.nil_append] at body
  cases q with
  | nil => simp [scanChunk, skipStars]; decide
  | cons b q =>
      have notStar : b ≠ asterisk := (literal b List.mem_cons_self).1
      simp only [List.cons_append] at body ⊢
      simp [scanChunk, skipStars, notStar, body]

/-- The first iteration of `Match` on `q/**`: the literal chunk `q/` must lead the name, and
the loop goes on with `**` and the rest. -/
theorem pathMatch_literal_slash_stars_eq {q : Bytes} (literal : IsLiteral q) (name : Bytes) :
    pathMatch (q ++ [slash, asterisk, asterisk]) name =
      match matchChunk (q ++ [slash]) name with
      | .ok (some t) => matchAux (q.length + 2) [asterisk, asterisk] t
      | .ok none => .ok false
      | .error e => .error e := by
  obtain ⟨p, ps, split⟩ : ∃ p ps, q ++ [slash, asterisk, asterisk] = p :: ps := by
    cases q <;> simp
  have fuelEq : (q ++ [slash, asterisk, asterisk]).length = (q.length + 2) + 1 := by simp
  rw [pathMatch, fuelEq, split, matchAux, ← split, scanChunk_literal_slash_stars literal]
  simp only [if_false, List.append_eq_nil_iff, List.cons_ne_nil, and_false,
    ne_eq, not_false_eq_true, or_true, if_true]
  rfl

/-- `q/**` accepts a name that starts with `q/` exactly when the rest holds no `/`: the stars
take one more key, never two. -/
theorem pathMatch_literal_slash_stars_append {q : Bytes} (literal : IsLiteral q) (t : Bytes) :
    pathMatch (q ++ [slash, asterisk, asterisk]) (q ++ slash :: t) = .ok (decide (slash ∉ t)) := by
  have chunkEq : matchChunk (q ++ [slash]) (q ++ [slash] ++ t) = .ok (some t) :=
    matchChunkAux_literal_append (isLiteral_append_slash literal) le_rfl t
  rw [List.append_assoc, List.singleton_append] at chunkEq
  rw [pathMatch_literal_slash_stars_eq literal, chunkEq]
  simp [matchAux, scanChunk, skipStars, scanChunkBody]
  rfl

theorem pathMatch_literal_slash_stars_of_not_prefix {q : Bytes} (literal : IsLiteral q)
    {name : Bytes} (notPrefix : ¬q ++ [slash] <+: name) :
    pathMatch (q ++ [slash, asterisk, asterisk]) name = .ok false := by
  have chunkEq : matchChunk (q ++ [slash]) name = .ok none :=
    matchChunkAux_literal_of_not_prefix (isLiteral_append_slash literal) le_rfl notPrefix
  rw [pathMatch_literal_slash_stars_eq literal, chunkEq]

/-- `**` alone: any name without a `/`. -/
theorem pathMatch_stars (name : Bytes) :
    pathMatch [asterisk, asterisk] name = .ok (decide (slash ∉ name)) := by
  simp [pathMatch, matchAux, scanChunk, skipStars, scanChunkBody]
  rfl

/-! ## Fuel -/

/-- What `getEsc` reads: the bytes after an optional backslash, not empty, of which it takes
one rune. -/
theorem getEsc_ok {chunk nchunk : Bytes} {r : Nat} (ok : getEsc chunk = .ok (r, nchunk)) :
    ∃ body, (body = chunk ∨ backslash :: body = chunk) ∧ body ≠ [] ∧
      nchunk = body.drop (decodeRuneInString body).2 := by
  unfold getEsc at ok
  rcases chunk with _ | ⟨b, rest⟩
  · simp [throw, throwThe, MonadExceptOf.throw, bind, Except.bind] at ok
  · simp only [throw, throwThe, MonadExceptOf.throw, pure, Except.pure, bind, Except.bind] at ok
    split_ifs at ok with bad escape empty
    · -- the escape is cut off
      simp only [Except.ok.injEq, Prod.mk.injEq] at ok
      exact ⟨rest, .inr (by rw [escape]), empty, ok.2.symm⟩
    · simp only [Except.ok.injEq, Prod.mk.injEq] at ok
      exact ⟨b :: rest, .inl rfl, List.cons_ne_nil b rest, ok.2.symm⟩

/-- `getEsc` consumes at least one byte. -/
theorem getEsc_length {chunk nchunk : Bytes} {r : Nat} (ok : getEsc chunk = .ok (r, nchunk)) :
    nchunk.length < chunk.length := by
  obtain ⟨body, stripped, nonEmpty, rfl⟩ := getEsc_ok ok
  obtain ⟨c, rest, rfl⟩ := List.exists_cons_of_ne_nil nonEmpty
  have wide := (@decodeRuneInString_width c rest).1
  have positive : 0 < (c :: rest).length := Nat.succ_pos _
  have shorter : (c :: rest).length ≤ chunk.length := by
    rcases stripped with rfl | rfl <;> simp
  rw [List.length_drop]
  omega

theorem matchClass_length {r : Nat} :
    ∀ {fuel : Nat} {chunk : Bytes} {matched : Bool} {nrange : Nat} {result : Bool} {rest : Bytes},
      matchClass r fuel chunk matched nrange = .ok (result, rest) → rest.length < chunk.length
  | 0, _, _, _, _, _, ok => by simp [matchClass, throw, throwThe, MonadExceptOf.throw] at ok
  | fuel + 1, chunk, matched, nrange, result, rest, ok => by
      rw [matchClass] at ok
      split_ifs at ok with close
      · simp only [pure_eq_ok, Prod.mk.injEq] at ok
        obtain ⟨c, tail, rfl⟩ : ∃ c tail, chunk = c :: tail := by
          cases chunk with
          | nil => simp at close
          | cons c tail => exact ⟨c, tail, rfl⟩
        simp [← ok.2]
      · obtain ⟨⟨lo, c1⟩, low, ok⟩ := bind_eq_ok_iff.mp ok
        have first := getEsc_length low
        dsimp only at ok
        -- the range is `lo-hi` or the single rune `lo`
        split_ifs at ok with dash
        · obtain ⟨⟨hi, c2⟩, high, ok⟩ := bind_eq_ok_iff.mp ok
          have second := getEsc_length high
          have tail : c1.tail.length = c1.length - 1 := List.length_tail
          dsimp only at ok
          have := matchClass_length ok
          omega
        · rw [pure_bind] at ok
          dsimp only at ok
          have := matchClass_length ok
          omega

theorem matchClass_nil (r fuel : Nat) (matched : Bool) (nrange : Nat) :
    matchClass r fuel [] matched nrange = .error .errBadPattern := by
  cases fuel <;> rfl

/-- The range loop reads at least one byte per iteration, so fuel beyond the length of the
chunk changes nothing. -/
theorem matchClass_fuel (r : Nat) {fuel fuel' : Nat} {chunk : Bytes}
    (enough : chunk.length ≤ fuel) (enough' : chunk.length ≤ fuel') (matched : Bool)
    (nrange : Nat) :
    matchClass r fuel chunk matched nrange = matchClass r fuel' chunk matched nrange := by
  induction fuel generalizing fuel' chunk matched nrange with
  | zero =>
      rw [List.eq_nil_of_length_eq_zero (Nat.le_zero.mp enough), matchClass_nil, matchClass_nil]
  | succ fuel ih =>
      rcases fuel' with _ | fuel'
      · rw [List.eq_nil_of_length_eq_zero (Nat.le_zero.mp enough'), matchClass_nil,
          matchClass_nil]
      rw [matchClass, matchClass]
      split_ifs with close
      · rfl
      apply bind_congr_of_ok
      rintro ⟨lo, c1⟩ low
      have first := getEsc_length low
      dsimp only
      split_ifs with dash
      · apply bind_congr_of_ok
        rintro ⟨hi, c2⟩ high
        have second := getEsc_length high
        have tail : c1.tail.length = c1.length - 1 := List.length_tail
        dsimp only
        apply ih <;> omega
      · rw [pure_bind, pure_bind]
        dsimp only
        apply ih <;> omega

theorem matchChunkAux_nil (fuel : Nat) (s : Bytes) : matchChunkAux fuel [] s = .ok (some s) := by
  cases fuel <;> rfl

/-- `matchChunk` reads at least one byte of the chunk per iteration, so fuel beyond the length
of the chunk changes nothing. -/
theorem matchChunkAux_fuel {fuel fuel' : Nat} {chunk : Bytes} (enough : chunk.length ≤ fuel)
    (enough' : chunk.length ≤ fuel') (s : Bytes) :
    matchChunkAux fuel chunk s = matchChunkAux fuel' chunk s := by
  induction fuel generalizing fuel' chunk s with
  | zero =>
      rw [List.eq_nil_of_length_eq_zero (Nat.le_zero.mp enough), matchChunkAux_nil,
        matchChunkAux_nil]
  | succ fuel ih =>
      rcases chunk with _ | ⟨c, chunk⟩
      · rw [matchChunkAux_nil, matchChunkAux_nil]
      rcases fuel' with _ | fuel'
      · simp at enough'
      simp only [List.length_cons, Nat.add_le_add_iff_right] at enough enough'
      rcases s with _ | ⟨s0, s'⟩
      · rfl
      simp only [matchChunkAux]
      split_ifs with isClass isAny isSlash isEscape isSame
      · -- a class: the range loop hands back the chunk after its `]`
        rcases chunk with _ | ⟨c1, ranges⟩
        · rfl
        apply bind_congr_of_ok
        rintro ⟨matched, rest⟩ classed
        have shorter := matchClass_length classed
        have within :
            (if c1 = caret then ranges else c1 :: ranges).length ≤ (c1 :: ranges).length := by
          split_ifs <;> simp
        dsimp only
        split_ifs
        · rfl
        · apply ih <;> omega
      · rfl
      · exact ih enough enough' _
      · -- an escape: the escaped byte must be the next one of the name
        rcases chunk with _ | ⟨c1, chunk⟩
        · rfl
        simp only [List.length_cons] at enough enough'
        dsimp only
        split_ifs
        · exact ih (by omega) (by omega) _
        · rfl
      · exact ih enough enough' _
      · rfl

/-- `scanChunkBody` cuts its input in two. -/
theorem scanChunkBody_append (inrange : Bool) (pattern : Bytes) :
    (scanChunkBody inrange pattern).1 ++ (scanChunkBody inrange pattern).2 = pattern := by
  fun_induction scanChunkBody inrange pattern <;> simp_all

theorem skipStars_length_le (pattern : Bytes) : (skipStars pattern).2.length ≤ pattern.length := by
  induction pattern with
  | nil => rfl
  | cons b rest ih =>
      by_cases star : b = asterisk
      · simp only [skipStars, star, if_true, List.length_cons]
        omega
      · simp [skipStars, star]

/-- A chunk that does not start at a star is not empty. -/
theorem scanChunkBody_ne_nil {p : UInt8} (notStar : p ≠ asterisk) (ps : Bytes) :
    (scanChunkBody false (p :: ps)).1 ≠ [] := by
  by_cases escape : p = backslash
  · cases ps <;> simp [scanChunkBody, escape]
  · rw [scanChunkBody_cons_of_ne_backslash escape]
    simp [notStar]

/-- Each iteration of `Match` consumes a star or a non-empty chunk of the pattern. -/
theorem length_scanChunk_rest_lt (p : UInt8) (ps : Bytes) :
    (scanChunk (p :: ps)).2.2.length < (p :: ps).length := by
  have cut := congrArg List.length (scanChunkBody_append false (skipStars (p :: ps)).2)
  rw [List.length_append] at cut
  have rest : (scanChunk (p :: ps)).2.2 = (scanChunkBody false (skipStars (p :: ps)).2).2 := rfl
  rw [rest]
  by_cases star : p = asterisk
  · -- the stars go
    have stripped : (skipStars (p :: ps)).2 = (skipStars ps).2 := by simp [skipStars, star]
    have := skipStars_length_le ps
    rw [stripped] at cut ⊢
    simp only [List.length_cons]
    omega
  · -- the chunk starts with `p`
    have stripped : (skipStars (p :: ps)).2 = p :: ps := by simp [skipStars, star]
    have nonEmpty := List.length_pos_iff.mpr (scanChunkBody_ne_nil star ps)
    rw [stripped] at cut ⊢
    omega

/-- The chunk loop of `Match` consumes part of the pattern per iteration, so fuel beyond the
length of the pattern changes nothing. -/
theorem matchAux_fuel {fuel fuel' : Nat} {pattern : Bytes} (enough : pattern.length ≤ fuel)
    (enough' : pattern.length ≤ fuel') (name : Bytes) :
    matchAux fuel pattern name = matchAux fuel' pattern name := by
  induction fuel generalizing fuel' pattern name with
  | zero =>
      rw [List.eq_nil_of_length_eq_zero (Nat.le_zero.mp enough)]
      cases fuel' <;> rfl
  | succ fuel ih =>
      rcases pattern with _ | ⟨p, ps⟩
      · cases fuel' <;> rfl
      rcases fuel' with _ | fuel'
      · simp at enough'
      have shorter := length_scanChunk_rest_lt p ps
      rcases scanned : scanChunk (p :: ps) with ⟨starred, chunk, rest⟩
      rw [scanned] at shorter
      simp only [List.length_cons] at enough enough' shorter
      have same : ∀ t, matchAux fuel rest t = matchAux fuel' rest t :=
        fun t => ih (by omega) (by omega) t
      simp only [matchAux, scanned, same]

end Path

end Go
