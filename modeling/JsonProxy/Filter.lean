import JsonProxy.Types
import JsonProxy.Go.Json
import JsonProxy.Go.Path.Match
import JsonProxy.Go.Path.Clean

/-!
# Filtering a JSON response by key patterns

`filterBytes` decodes an upstream body, keeps what the matched rules permit, and encodes the
rest.  `filterJSON` walks the decoded value with the key path so far: array positions add
nothing to the path, and a member adds its key.  A scalar, or an array or object with nothing in
it, is a leaf, and `checkFilter` decides it: some response-key pattern of some rule has to match
the key path as `path.Join` builds it.  A container survives when one of its leaves does.

The first results here are one lemma per function, stated so that the later proofs never unfold
the definitions.  They end in `filterJSON_ok_iff` and `filterJSON_ok`, which say, over every
value, when the walk succeeds and that what it returns is the value pruned to its permitted
leaves.
-/

namespace JsonProxy

open Go Go.Json Go.Json.Value

/-- `checkFilter(rules, keys)`: whether some response-key pattern of some rule matches
`path.Join(keys...)`.  The first match or the first pattern error returns from both loops. -/
def checkFilter (rules : List Rule) (keys : KeyPath) : Except PathError Bool :=
  let keyPath := pathJoin keys
  firstHit (fun rule => firstHit (fun keyPattern => pathMatch keyPattern keyPath) rule.responseKeys)
    rules

mutual

/-- `filterJSON(v, rules, keys)`: the filtered value, and whether anything in it matched. -/
def filterJSON (rules : List Rule) (keys : KeyPath) : Value → Except PathError (Value × Bool)
  | .array (ve :: vt) => do
    let vf ← filterElements rules keys (ve :: vt)
    -- `vf` stays a nil slice, which `json.Marshal` writes as `null`, when nothing matched
    pure (if vf.isEmpty then .null else .array vf, 0 < vf.length)
  | .object (member :: vt) => do
    let vf ← filterMembers rules keys (member :: vt)
    pure (.object vf, 0 < vf.length)
  | v => do
    let matched ← checkFilter rules keys
    pure (v, matched)

/-- The loop over the elements of an array: the filtered elements that matched, in order. -/
def filterElements (rules : List Rule) (keys : KeyPath) : List Value → Except PathError (List Value)
  | [] => pure []
  | ve :: vt => do
    let (ve, matched) ← filterJSON rules keys ve
    let vf ← filterElements rules keys vt
    pure (if matched then ve :: vf else vf)

/-- The loop over the members of an object, each filtered below its key. -/
def filterMembers (rules : List Rule) (keys : KeyPath) :
    List (Bytes × Value) → Except PathError (List (Bytes × Value))
  | [] => pure []
  | (k, ve) :: vt => do
    let (ve, matched) ← filterJSON rules (keys ++ [k]) ve
    let vf ← filterMembers rules keys vt
    pure (if matched then (k, ve) :: vf else vf)

end

/-- `filterBytes(input, rules)`: decode, filter from the top with no keys, encode.  Whether the
top-level value matched is not looked at. -/
def filterBytes (codec : Codec) (input : Bytes) (rules : List Rule) : Except Error Bytes := do
  let parsed ← codec.unmarshal input
  let (filtered, _) ← (filterJSON rules [] parsed).mapError PathError.toError
  codec.marshal filtered

/-- A key path is permitted when `checkFilter` answers `true` for it. -/
def permits (rules : List Rule) (keys : KeyPath) : Bool :=
  checkFilter rules keys = .ok true

/-! ## One lemma per function -/

/-- The response-key patterns of a rule list, in the order `checkFilter` tries them. -/
def responsePatterns (rules : List Rule) : List Bytes :=
  rules.flatMap (·.responseKeys)

/-- `checkFilter`'s two loops are one loop over all response-key patterns. -/
theorem checkFilter_eq (rules : List Rule) (keys : KeyPath) :
    checkFilter rules keys =
      firstHit (fun keyPattern => pathMatch keyPattern (pathJoin keys)) (responsePatterns rules) :=
  firstHit_firstHit _ _

variable {rules : List Rule}

theorem filterJSON_of_isLeaf {v : Value} (leaf : v.isLeaf) (keys : KeyPath) :
    filterJSON rules keys v = (checkFilter rules keys).map (v, ·) := by
  match v, leaf with
  | .array [], _ | .object [], _ | .null, _ | .bool _, _ | .number _, _ | .string _, _ =>
    simp only [filterJSON, bind, Except.bind, pure, Except.pure, Except.map]

theorem filterJSON_array_cons (keys : KeyPath) (ve : Value) (vt : List Value) :
    filterJSON rules keys (.array (ve :: vt)) = filterElements rules keys (ve :: vt) >>= fun vf =>
      pure (if vf.isEmpty then Value.null else Value.array vf, decide (0 < vf.length)) := by
  simp [filterJSON]

theorem filterJSON_object_cons (keys : KeyPath) (member : Bytes × Value)
    (vt : List (Bytes × Value)) :
    filterJSON rules keys (.object (member :: vt)) = filterMembers rules keys (member :: vt) >>=
      fun vf => pure (Value.object vf, decide (0 < vf.length)) := by
  simp [filterJSON]

theorem filterElements_cons (keys : KeyPath) (ve : Value) (vt : List Value) :
    filterElements rules keys (ve :: vt) = filterJSON rules keys ve >>= fun result =>
      filterElements rules keys vt >>= fun vf =>
        pure (if result.2 then result.1 :: vf else vf) := by
  simp only [filterElements]

theorem filterMembers_cons (keys : KeyPath) (k : Bytes) (ve : Value) (vt : List (Bytes × Value)) :
    filterMembers rules keys ((k, ve) :: vt) = filterJSON rules (keys ++ [k]) ve >>= fun result =>
      filterMembers rules keys vt >>= fun vf =>
        pure (if result.2 then (k, result.1) :: vf else vf) := by
  simp only [filterMembers]

/-! ## When the walk succeeds -/

mutual

/-- The walk succeeds exactly when `checkFilter` succeeds on every leaf: every element and
member is visited until an error. -/
theorem filterJSON_ok_iff : ∀ (keys : KeyPath) (v : Value),
    (∃ r, filterJSON rules keys v = .ok r) ↔
      ∀ leaf ∈ v.leaves, ∃ b, checkFilter rules (keys ++ leaf.1) = .ok b
  | keys, .array (ve :: vt) => by
      rw [filterJSON_array_cons, exists_bind_pure_eq_ok, filterElements_ok_iff keys,
        leaves_array _ (List.cons_ne_nil _ _)]
  | keys, .object (member :: vt) => by
      rw [filterJSON_object_cons, exists_bind_pure_eq_ok, filterMembers_ok_iff keys,
        leaves_object _ (List.cons_ne_nil _ _)]
  | keys, .array [] | keys, .object [] | keys, .null | keys, .bool _ | keys, .number _
  | keys, .string _ => by
      rw [filterJSON_of_isLeaf rfl, leaves_of_isLeaf rfl]
      simp only [List.mem_singleton, forall_eq, List.append_nil]
      cases checkFilter rules keys <;> simp [Except.map]

theorem filterElements_ok_iff : ∀ (keys : KeyPath) (elems : List Value),
    (∃ vf, filterElements rules keys elems = .ok vf) ↔
      ∀ leaf ∈ elemsLeaves elems, ∃ b, checkFilter rules (keys ++ leaf.1) = .ok b
  | keys, [] => by simp [filterElements, pure, Except.pure]
  | keys, ve :: vt => by
      have first := filterJSON_ok_iff keys ve
      have rest := filterElements_ok_iff keys vt
      rw [filterElements_cons, exists_bind_eq_ok, elemsLeaves_cons]
      simp only [exists_bind_pure_eq_ok, List.mem_append]
      constructor
      · rintro ⟨r, head, tail⟩
        intro leaf mem
        rcases mem with mem | mem
        · exact first.mp ⟨r, head⟩ leaf mem
        · exact rest.mp tail leaf mem
      · intro all
        obtain ⟨r, head⟩ := first.mpr fun leaf mem => all leaf (.inl mem)
        exact ⟨r, head, rest.mpr fun leaf mem => all leaf (.inr mem)⟩

theorem filterMembers_ok_iff : ∀ (keys : KeyPath) (members : List (Bytes × Value)),
    (∃ vf, filterMembers rules keys members = .ok vf) ↔
      ∀ leaf ∈ membersLeaves members, ∃ b, checkFilter rules (keys ++ leaf.1) = .ok b
  | keys, [] => by simp [filterMembers, pure, Except.pure]
  | keys, (k, ve) :: vt => by
      have first := filterJSON_ok_iff (keys ++ [k]) ve
      have rest := filterMembers_ok_iff keys vt
      rw [filterMembers_cons, exists_bind_eq_ok, membersLeaves_cons]
      simp only [exists_bind_pure_eq_ok, List.mem_append, List.mem_map]
      constructor
      · rintro ⟨r, head, tail⟩
        intro leaf mem
        rcases mem with ⟨inner, mem, rfl⟩ | mem
        · simpa using first.mp ⟨r, head⟩ inner mem
        · exact rest.mp tail leaf mem
      · intro all
        obtain ⟨r, head⟩ := first.mpr fun inner mem => by
          simpa using all (k :: inner.1, inner.2) (.inl ⟨inner, mem, rfl⟩)
        exact ⟨r, head, rest.mpr fun leaf mem => all leaf (.inr mem)⟩

end

/-! ## What the walk returns -/

mutual

/-- A successful walk reports whether some leaf is permitted, and when one is, returns the value
pruned to its permitted leaves. -/
theorem filterJSON_ok : ∀ {keys : KeyPath} {v w : Value} {m : Bool},
    filterJSON rules keys v = .ok (w, m) →
      m = v.kept (permits rules) keys ∧ (m = true → w = v.prune (permits rules) keys)
  | keys, .array (ve :: vt), w, m, ok => by
      rw [filterJSON_array_cons, bind_eq_ok_iff] at ok
      obtain ⟨vf, elems, result⟩ := ok
      rw [pure_eq_ok, Prod.mk.injEq] at result
      obtain ⟨rfl, rfl⟩ := result
      rw [filterElements_ok elems]
      have keptIff := @kept_array_iff (permits rules) keys _ (List.cons_ne_nil ve vt)
      constructor
      · rw [Bool.eq_iff_iff, decide_eq_true_iff, List.length_pos_iff, keptIff]
      · intro matched
        rw [decide_eq_true_iff, List.length_pos_iff] at matched
        simp [List.isEmpty_iff, matched]
  | keys, .object (member :: vt), w, m, ok => by
      rw [filterJSON_object_cons, bind_eq_ok_iff] at ok
      obtain ⟨vf, members, result⟩ := ok
      rw [pure_eq_ok, Prod.mk.injEq] at result
      obtain ⟨rfl, rfl⟩ := result
      rw [filterMembers_ok members]
      have keptIff := @kept_object_iff (permits rules) keys _ (List.cons_ne_nil member vt)
      constructor
      · rw [Bool.eq_iff_iff, decide_eq_true_iff, List.length_pos_iff, keptIff]
      · intro _
        simp
  | keys, .array [], w, m, ok | keys, .object [], w, m, ok | keys, .null, w, m, ok
  | keys, .bool _, w, m, ok | keys, .number _, w, m, ok | keys, .string _, w, m, ok => by
      rw [filterJSON_of_isLeaf rfl] at ok
      cases checked : checkFilter rules keys with
      | error e => simp [checked, Except.map] at ok
      | ok b =>
          simp only [checked, Except.map, Except.ok.injEq, Prod.mk.injEq] at ok
          obtain ⟨rfl, rfl⟩ := ok
          simp [kept, leaves, permits, checked, prune]

/-- A successful loop over elements returns them pruned. -/
theorem filterElements_ok : ∀ {keys : KeyPath} {elems vf : List Value},
    filterElements rules keys elems = .ok vf → vf = pruneElems (permits rules) keys elems
  | keys, [], vf, ok => by
      simp only [filterElements, pure_eq_ok] at ok
      rw [← ok]
      rfl
  | keys, ve :: vt, vf, ok => by
      rw [filterElements_cons, bind_eq_ok_iff] at ok
      obtain ⟨⟨w, m⟩, head, ok⟩ := ok
      rw [bind_eq_ok_iff] at ok
      obtain ⟨rest, tail, result⟩ := ok
      rw [pure_eq_ok] at result
      obtain ⟨matched, pruned⟩ := filterJSON_ok head
      subst result matched
      rw [filterElements_ok tail]
      cases hasKept : ve.kept (permits rules) keys with
      | true => simp [pruneElems, hasKept, pruned hasKept]
      | false => simp [pruneElems, hasKept]

/-- A successful loop over members returns them pruned, each below its key. -/
theorem filterMembers_ok : ∀ {keys : KeyPath} {members vf : List (Bytes × Value)},
    filterMembers rules keys members = .ok vf → vf = pruneMembers (permits rules) keys members
  | keys, [], vf, ok => by
      simp only [filterMembers, pure_eq_ok] at ok
      rw [← ok]
      rfl
  | keys, (k, ve) :: vt, vf, ok => by
      rw [filterMembers_cons, bind_eq_ok_iff] at ok
      obtain ⟨⟨w, m⟩, head, ok⟩ := ok
      rw [bind_eq_ok_iff] at ok
      obtain ⟨rest, tail, result⟩ := ok
      rw [pure_eq_ok] at result
      obtain ⟨matched, pruned⟩ := filterJSON_ok head
      subst result matched
      rw [filterMembers_ok tail]
      cases hasKept : ve.kept (permits rules) (keys ++ [k]) with
      | true => simp [pruneMembers, hasKept, pruned hasKept]
      | false => simp [pruneMembers, hasKept]

end

/-! ## The walk against its specification -/

/-- `filterJSON(v, rules, keys)` fails exactly when `checkFilter` fails on some leaf of `v`.
When it succeeds with `(w, m)`, `m` says whether `checkFilter` permits some leaf, and if it does,
`w` is `v` with every element and member that holds no permitted leaf deleted; its leaves are then
the permitted leaves of `v`, in their order, with their key paths and values. -/
theorem filterJSON_correct (rules : List Rule) (keys : KeyPath) (v : Value) :
    ((∃ e, filterJSON rules keys v = .error e) ↔
      ∃ leaf ∈ v.leaves, ∃ e, checkFilter rules (keys ++ leaf.1) = .error e) ∧
    ∀ w m, filterJSON rules keys v = .ok (w, m) →
      (m = true ↔ ∃ leaf ∈ v.leaves, checkFilter rules (keys ++ leaf.1) = .ok true) ∧
      (m = true → w = v.prune (permits rules) keys ∧
        w.leaves = v.leaves.filter fun leaf => permits rules (keys ++ leaf.1)) := by
  constructor
  · rw [exists_error_iff_not_exists_ok, filterJSON_ok_iff keys]
    simp only [not_forall, exists_prop, exists_error_iff_not_exists_ok]
  · intro w m ok
    obtain ⟨matched, pruned⟩ := filterJSON_ok ok
    have keptIff : v.kept (permits rules) keys = true ↔
        ∃ leaf ∈ v.leaves, checkFilter rules (keys ++ leaf.1) = .ok true := by
      simp [kept, permits]
    refine ⟨matched ▸ keptIff, fun hasPermitted => ⟨pruned hasPermitted, ?_⟩⟩
    rw [pruned hasPermitted]
    exact leaves_prune (matched ▸ hasPermitted)

end JsonProxy
