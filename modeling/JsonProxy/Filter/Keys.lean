import JsonProxy.Filter

/-!
# Key paths as `checkFilter` sees them

`checkFilter` hands `path.Match` the key path as `path.Join` builds it, and `Join` cleans the
joined path: empty keys vanish, `.` keys go, and a `..` key removes the key before it.  For plain
keys (not empty, not `.` or `..`, and without a `/`) cleaning changes nothing, so the patterns
are matched against `k1/.../kn` itself; for other keys the path matched is another one, and a
leaf can be permitted by a pattern that its own key path does not match.

`path.Match`'s `*` never crosses a `/`, and `**` is two such stars, so it never does either:
`q/**` permits exactly the key paths one key below `q`, and `**` those at most one key deep.
-/

namespace JsonProxy

open Go Go.Path Go.Json Go.Json.Value Go.Ascii

/-- For plain keys, `checkFilter` runs its patterns against the plain join of the keys. -/
theorem checkFilter_of_plainKeys (rules : List Rule) {keys : KeyPath}
    (plain : ∀ k ∈ keys, IsPlainKey k) :
    checkFilter rules keys =
      firstHit (fun keyPattern => pathMatch keyPattern (join keys [slash])) (responsePatterns rules) := by
  rw [checkFilter_eq, pathJoin_eq_join plain]

/-- For plain keys, `checkFilter` permits a key path exactly when some response-key pattern
matches `k1/.../kn` and every pattern tried before it, in rule order, reports no match and no
error. -/
theorem checkFilter_plainKeys_iff (rules : List Rule) {keys : KeyPath}
    (plain : ∀ k ∈ keys, IsPlainKey k) :
    checkFilter rules keys = .ok true ↔
      ∃ pre keyPattern post, responsePatterns rules = pre ++ keyPattern :: post ∧
        (∀ earlier ∈ pre, pathMatch earlier (join keys [slash]) = .ok false) ∧
        pathMatch keyPattern (join keys [slash]) = .ok true := by
  rw [checkFilter_of_plainKeys rules plain, firstHit_eq_ok_true_iff]

theorem checkFilter_plainKeys_iff_name_first :
    checkFilter [⟨[utf8 "GET"], [utf8 "id", utf8 "name/*"]⟩] [utf8 "name", utf8 "first"] =
      .ok true :=
  (checkFilter_plainKeys_iff _ (by decide)).mpr
    ⟨[utf8 "id"], utf8 "name/*", [], rfl, by decide, by decide⟩

/-- The key path `a`, `` (an empty key under `a`) is permitted by the pattern `a`: `path.Join`
drops the empty key.  Its plain join `a/` is matched by no pattern of the rules. -/
theorem checkFilter_emptyKey_not_plain :
    ¬(checkFilter [⟨[], [utf8 "a"]⟩] [utf8 "a", []] = .ok true ↔
      ∃ rule ∈ ([⟨[], [utf8 "a"]⟩] : List Rule), ∃ keyPattern ∈ rule.responseKeys,
        pathMatch keyPattern (join [utf8 "a", []] [slash]) = .ok true) := by
  decide

/-! ## Double stars -/

/-- A rule list of one rule with one response-key pattern tries just that pattern. -/
theorem checkFilter_single (methods : List Bytes) (keyPattern : Bytes) (keys : KeyPath) :
    checkFilter [⟨methods, [keyPattern]⟩] keys = pathMatch keyPattern (pathJoin keys) := by
  simp [checkFilter]

theorem isLiteral_join {q : KeyPath} (literal : ∀ k ∈ q, IsLiteral k) :
    IsLiteral (join q [slash]) := by
  intro b mem
  by_cases isSlash : b = slash
  · subst isSlash
    decide
  · have notSep : b ∉ [slash] := by simpa using isSlash
    obtain ⟨k, kMem, bMem⟩ := (mem_join_iff_of_not_mem_sep [slash] notSep).mp mem
    exact literal k kMem b bMem

/-- `**` permits a key path of plain keys exactly when it is at most one key long. -/
theorem checkFilter_stars_of_plainKeys (methods : List Bytes) {keys : KeyPath}
    (plain : ∀ k ∈ keys, IsPlainKey k) :
    checkFilter [⟨methods, [utf8 "**"]⟩] keys = .ok (decide (keys.length ≤ 1)) := by
  have noSlash : ∀ k ∈ keys, slash ∉ k := fun k mem => (plain k mem).2.2.2
  have stars : utf8 "**" = [asterisk, asterisk] := rfl
  have short : ¬2 ≤ keys.length ↔ keys.length ≤ 1 := by omega
  rw [checkFilter_single, stars, pathMatch_stars, pathJoin_eq_join plain]
  simp only [mem_join_self_iff noSlash, short]

/-- `q/**`, for a non-empty sequence `q` of plain keys with no pattern characters, permits a key
path of plain keys below `q` exactly when it is one key longer than `q`. -/
theorem checkFilter_slashStars_of_plainKeys (methods : List Bytes) {q keys : KeyPath}
    (qNonEmpty : q ≠ []) (qPlain : ∀ k ∈ q, IsPlainKey k ∧ IsLiteral k)
    (plain : ∀ k ∈ keys, IsPlainKey k) :
    checkFilter [⟨methods, [join q [slash] ++ utf8 "/**"]⟩] (q ++ keys) =
      .ok (decide (keys.length = 1)) := by
  have literal : IsLiteral (join q [slash]) := isLiteral_join fun k mem => (qPlain k mem).2
  have allPlain : ∀ k ∈ q ++ keys, IsPlainKey k := by
    intro k mem
    rcases List.mem_append.mp mem with mem | mem
    · exact (qPlain k mem).1
    · exact plain k mem
  have pattern : join q [slash] ++ utf8 "/**" = join q [slash] ++ [slash, asterisk, asterisk] :=
    rfl
  rw [checkFilter_single, pattern, pathJoin_eq_join allPlain]
  cases keys with
  | nil =>
      -- the path is `q` itself, which `q/` does not prefix
      rw [List.append_nil]
      apply pathMatch_literal_slash_stars_of_not_prefix literal
      intro isPrefix
      have := isPrefix.length_le
      simp at this
  | cons k keys =>
      have noSlash : ∀ key ∈ k :: keys, slash ∉ key := fun key mem => (plain key mem).2.2.2
      have joined : join (q ++ k :: keys) [slash] = join q [slash] ++ slash :: join (k :: keys) [slash] := by
        rw [join_append qNonEmpty (List.cons_ne_nil _ _)]
        simp
      have one : ¬2 ≤ (k :: keys).length ↔ (k :: keys).length = 1 := by
        simp only [List.length_cons]
        omega
      rw [joined, pathMatch_literal_slash_stars_append literal]
      simp only [mem_join_self_iff noSlash, one]

/-- A `**` rule keeps, of a document whose keys are plain, exactly the leaves at most one key
deep: the walk never fails, and when it reports a permitted leaf, the leaves it returns are the
shallow ones. -/
theorem filterJSON_stars_of_plainKeys (methods : List Bytes) {d : Value}
    (plain : ∀ leaf ∈ d.leaves, ∀ k ∈ leaf.1, IsPlainKey k) :
    ∃ w m, filterJSON [⟨methods, [utf8 "**"]⟩] [] d = .ok (w, m) ∧
      (m = true → w.leaves = d.leaves.filter fun leaf => decide (leaf.1.length ≤ 1)) := by
  have permitsEq : ∀ leaf ∈ d.leaves,
      permits [⟨methods, [utf8 "**"]⟩] ([] ++ leaf.1) = decide (leaf.1.length ≤ 1) := by
    intro leaf mem
    simp [permits, checkFilter_stars_of_plainKeys methods (plain leaf mem)]
  obtain ⟨⟨w, m⟩, ok⟩ := (filterJSON_ok_iff [] d).mpr fun leaf mem =>
    ⟨_, checkFilter_stars_of_plainKeys methods (plain leaf mem)⟩
  obtain ⟨matched, pruned⟩ := filterJSON_ok ok
  refine ⟨w, m, ok, fun hasPermitted => ?_⟩
  rw [pruned hasPermitted, leaves_prune (matched ▸ hasPermitted)]
  exact List.filter_congr permitsEq

/-- The pattern `**`, and `q/**` for every plain key sequence `q` free of pattern characters,
reach exactly one key down, never two: `**` acts as `*`.  A rule listing `**` alone therefore
keeps the leaves of a document at most one key deep. -/
theorem checkFilter_doubleStar (methods : List Bytes) :
    (∀ keys : KeyPath, (∀ k ∈ keys, IsPlainKey k) →
      checkFilter [⟨methods, [utf8 "**"]⟩] keys = .ok (decide (keys.length ≤ 1))) ∧
    (∀ q keys : KeyPath, q ≠ [] → (∀ k ∈ q, IsPlainKey k ∧ IsLiteral k) →
      (∀ k ∈ keys, IsPlainKey k) →
      checkFilter [⟨methods, [join q [slash] ++ utf8 "/**"]⟩] (q ++ keys) =
        .ok (decide (keys.length = 1))) ∧
    (∀ d : Value, (∀ leaf ∈ d.leaves, ∀ k ∈ leaf.1, IsPlainKey k) →
      ∃ w m, filterJSON [⟨methods, [utf8 "**"]⟩] [] d = .ok (w, m) ∧
        (m = true → w.leaves = d.leaves.filter fun leaf => decide (leaf.1.length ≤ 1))) :=
  ⟨fun _ plain => checkFilter_stars_of_plainKeys methods plain,
    fun _ _ qNonEmpty qPlain plain => checkFilter_slashStars_of_plainKeys methods qNonEmpty qPlain plain,
    fun _ plain => filterJSON_stars_of_plainKeys methods plain⟩

/-- `jobs/**` does not reach `jobs`, `name`, `first`: the stars stop at the next `/`. -/
theorem checkFilter_jobs_stars_two_deep :
    checkFilter [⟨[utf8 "GET"], [utf8 "id", utf8 "jobs/**"]⟩]
      [utf8 "jobs", utf8 "name", utf8 "first"] = .ok false := by
  decide

end JsonProxy
