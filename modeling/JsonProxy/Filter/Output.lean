import JsonProxy.Filter

/-!
# What `filterBytes` returns

Every string, number and boolean that `filterBytes` writes out sits at key paths that some
response-key pattern matches, after `path.Join` has cleaned them, with one exception:
`filterBytes` drops the top-level `matched` flag, so a document that is itself a string, number
or boolean is written back whatever the rules say.

With a lawful codec the output is also a text that reads back to exactly the permitted strings,
numbers and booleans of the input (`filterBytes_decoded_leaves`).

The last part is about the order of the rules.  `checkFilter` stops at the first pattern that
matches or fails, so the order decides only between a match and an error met first.  When two
orders both succeed they agree, and when no pattern can fail the order does not matter at all.
-/

namespace JsonProxy

open Go Go.Path Go.Json Go.Json.Value Go.Ascii

variable {rules : List Rule}

/-! ## Permitted output -/

/-- On a leaf the walk returns the leaf itself, whatever `checkFilter` says. -/
theorem filterJSON_leaf_eq {keys : KeyPath} {v w : Value} {m : Bool} (leaf : v.isLeaf)
    (ok : filterJSON rules keys v = .ok (w, m)) : w = v := by
  rw [filterJSON_of_isLeaf leaf] at ok
  cases checked : checkFilter rules keys with
  | error e => simp [checked, Except.map] at ok
  | ok b =>
      simp only [checked, Except.map, Except.ok.injEq, Prod.mk.injEq] at ok
      exact ok.1.symm

/-- A walk that reports no match returns the leaf it was given, or a container with nothing in
it: `null` for an array, whose slice of matches stays nil, and `{}` for an object. -/
theorem filterJSON_unmatched_eq {keys : KeyPath} {v w : Value}
    (ok : filterJSON rules keys v = .ok (w, false)) :
    (v.isLeaf ∧ w = v) ∨ w = .null ∨ w = .object [] := by
  match v, ok with
  | .array (ve :: vt), ok =>
      rw [filterJSON_array_cons, bind_eq_ok_iff] at ok
      obtain ⟨vf, -, result⟩ := ok
      rw [pure_eq_ok, Prod.mk.injEq] at result
      obtain ⟨rfl, unmatched⟩ := result
      have empty : vf = [] := by simpa using unmatched
      subst empty
      exact .inr (.inl rfl)
  | .object (member :: vt), ok =>
      rw [filterJSON_object_cons, bind_eq_ok_iff] at ok
      obtain ⟨vf, -, result⟩ := ok
      rw [pure_eq_ok, Prod.mk.injEq] at result
      obtain ⟨rfl, unmatched⟩ := result
      have empty : vf = [] := by simpa using unmatched
      subst empty
      exact .inr (.inr rfl)
  | .array [], ok | .object [], ok | .null, ok | .bool _, ok | .number _, ok | .string _, ok =>
      exact .inl ⟨rfl, filterJSON_leaf_eq rfl ok⟩

/-- A walk that reports no match over a value that is not a scalar returns no scalar: a null, an
empty container, or the container with everything deleted. -/
theorem filterJSON_unmatched {keys : KeyPath} {v w : Value}
    (ok : filterJSON rules keys v = .ok (w, false)) (notScalar : v.isScalar = false) :
    ∀ leaf ∈ w.leaves, leaf.2.isScalar = false := by
  rcases filterJSON_unmatched_eq ok with ⟨leaf, rfl⟩ | rfl | rfl
  · simpa [leaves_of_isLeaf leaf] using notScalar
  all_goals simp [leaves, isScalar]

/-- Below a value that is not itself a scalar, every scalar the walk returns is permitted. -/
theorem filterJSON_scalars_permitted {keys : KeyPath} {v w : Value} {m : Bool}
    (ok : filterJSON rules keys v = .ok (w, m)) (notScalar : v.isScalar = false) :
    ∀ leaf ∈ w.leaves, leaf.2.isScalar → permits rules (keys ++ leaf.1) := by
  intro leaf mem scalar
  cases m with
  | false =>
      have := filterJSON_unmatched ok notScalar leaf mem
      simp_all
  | true =>
      obtain ⟨matched, pruned⟩ := filterJSON_ok ok
      rw [pruned rfl, leaves_prune (matched ▸ rfl)] at mem
      exact (List.mem_filter.mp mem).2

/-- A permitted key path is matched by some response-key pattern of some rule. -/
theorem exists_pattern_of_permits {keys : KeyPath} (permitted : permits rules keys) :
    ∃ rule ∈ rules, ∃ keyPattern ∈ rule.responseKeys,
      pathMatch keyPattern (pathJoin keys) = .ok true := by
  have hit : checkFilter rules keys = .ok true := by simpa [permits] using permitted
  rw [checkFilter_eq] at hit
  obtain ⟨keyPattern, mem, found⟩ := exists_of_firstHit_eq_ok_true hit
  obtain ⟨rule, ruleMem, keyMem⟩ := List.mem_flatMap.mp mem
  exact ⟨rule, ruleMem, keyPattern, keyMem, found⟩

/-- A successful `filterBytes` decoded the input, walked it without error, and encoded what the
walk returned. -/
theorem filterBytes_ok {codec : Codec} {input : Bytes} {out : Bytes}
    (ok : filterBytes codec input rules = .ok out) :
    ∃ parsed w m, codec.unmarshal input = .ok parsed ∧ filterJSON rules [] parsed = .ok (w, m) ∧
      codec.marshal w = .ok out := by
  simp only [filterBytes, bind_eq_ok_iff, mapError_eq_ok] at ok
  obtain ⟨parsed, decoded, ⟨w, m⟩, walked, encoded⟩ := ok
  exact ⟨parsed, w, m, decoded, walked, encoded⟩

/-- When `filterBytes` succeeds, its output encodes the walk's value, and unless the document is
itself a string, number or boolean, every string, number and boolean of that value stands at
keys whose `path.Join` some response-key pattern of some rule matches; for plain keys that is
their plain join. -/
theorem filterBytes_permitted (codec : Codec) (input : Bytes) (rules : List Rule) {out : Bytes}
    (ok : filterBytes codec input rules = .ok out) :
    ∃ parsed w m, codec.unmarshal input = .ok parsed ∧ filterJSON rules [] parsed = .ok (w, m) ∧
      codec.marshal w = .ok out ∧
      (parsed.isScalar = false → ∀ leaf ∈ w.leaves, leaf.2.isScalar →
        ∃ rule ∈ rules, ∃ keyPattern ∈ rule.responseKeys,
          pathMatch keyPattern (pathJoin leaf.1) = .ok true ∧
          ((∀ k ∈ leaf.1, IsPlainKey k) → pathMatch keyPattern (join leaf.1 [slash]) = .ok true)) := by
  obtain ⟨parsed, w, m, decoded, walked, encoded⟩ := filterBytes_ok ok
  refine ⟨parsed, w, m, decoded, walked, encoded, fun notScalar leaf mem scalar => ?_⟩
  have permitted := filterJSON_scalars_permitted walked notScalar leaf mem scalar
  rw [List.nil_append] at permitted
  obtain ⟨rule, ruleMem, keyPattern, keyMem, found⟩ := exists_pattern_of_permits permitted
  refine ⟨rule, ruleMem, keyPattern, keyMem, found, fun plain => ?_⟩
  rwa [← pathJoin_eq_join plain]

/-! ## What the output reads back to

With a lawful codec the bytes `filterBytes` writes read back to the walk's leaves, and so to the
input's permitted strings, numbers and booleans. -/

/-- The walk returns a well-formed value from a well-formed one. -/
theorem wellFormed_of_filterJSON {keys : KeyPath} {v w : Value} {m : Bool}
    (ok : filterJSON rules keys v = .ok (w, m)) (formed : v.wellFormed) : w.wellFormed := by
  cases m with
  | true =>
      rw [(filterJSON_ok ok).2 rfl]
      exact wellFormed_prune keys formed
  | false =>
      rcases filterJSON_unmatched_eq ok with ⟨-, rfl⟩ | rfl | rfl
      · exact formed
      · rfl
      · rfl

/-- Below a value that is not itself a scalar, the scalars the walk returns are exactly the
permitted ones, in their order. -/
theorem scalars_filterJSON {v w : Value} {m : Bool} (ok : filterJSON rules [] v = .ok (w, m))
    (notScalar : v.isScalar = false) :
    w.leaves.filter (fun leaf => leaf.2.isScalar) =
      v.leaves.filter fun leaf => leaf.2.isScalar && permits rules leaf.1 := by
  obtain ⟨matched, pruned⟩ := filterJSON_ok ok
  cases m with
  | true =>
      rw [pruned rfl, leaves_prune matched.symm, List.filter_filter]
      simp only [List.nil_append, Bool.and_comm]
  | false =>
      -- nothing the walk returns is a scalar, and nothing in `v` is permitted
      have noneKept := filter_leaves_eq_nil matched.symm
      rw [List.filter_eq_nil_iff.mpr (by simpa using filterJSON_unmatched ok notScalar), eq_comm,
        List.filter_eq_nil_iff]
      intro leaf mem
      have notPermitted := List.filter_eq_nil_iff.mp noneKept leaf mem
      simp_all

/-- With a lawful codec, the text `filterBytes` writes reads back to the input's strings,
numbers and booleans that the rules permit, each at its key path, up to the order of object
members; an input that is itself a string, number or boolean reads back as it was. -/
theorem filterBytes_decoded_leaves {codec : Codec} (lawful : codec.Lawful) {input out : Bytes}
    (ok : filterBytes codec input rules = .ok out) :
    ∃ parsed decoded, codec.unmarshal input = .ok parsed ∧ codec.unmarshal out = .ok decoded ∧
      (parsed.isScalar = true → decoded.leaves.Perm parsed.leaves) ∧
      (parsed.isScalar = false → (decoded.leaves.filter fun leaf => leaf.2.isScalar).Perm
        (parsed.leaves.filter fun leaf => leaf.2.isScalar && permits rules leaf.1)) := by
  obtain ⟨parsed, w, m, read, walked, encoded⟩ := filterBytes_ok ok
  -- the codec reads the output back to the leaves of the walk's value
  obtain ⟨decoded, readBack, same⟩ :=
    lawful.unmarshal_marshal (wellFormed_of_filterJSON walked (lawful.wellFormed_unmarshal read))
      encoded
  refine ⟨parsed, decoded, read, readBack, fun scalar => ?_, fun notScalar => ?_⟩
  · rw [← filterJSON_leaf_eq (isLeaf_of_isScalar scalar) walked]
    exact same
  · rw [← scalars_filterJSON walked notScalar]
    exact same.filter _

/-! ## A sample codec

The counterexamples below run `filterBytes` on two small documents.  `sampleCodec` reads those
two texts and writes values the way `encoding/json` does for strings that need no escaping and
objects of at most one member.  `flatCodec` reads and writes the first alone, and keeps the laws
of `Codec.Lawful`. -/

/-- The text `{"a":"x"}`. -/
def sampleFlat : Bytes := utf8 "\x7b\"a\":\"x\"\x7d"

/-- The text `{"a":{"":"x"}}`. -/
def sampleNested : Bytes := utf8 "\x7b\"a\":\x7b\"\":\"x\"\x7d\x7d"

mutual

/-- `json.Marshal` for values with no numbers, no strings to escape, and objects of at most one
member. -/
def sampleMarshal : Value → Except Error Bytes
  | .null => .ok (utf8 "null")
  | .bool b => .ok (utf8 (if b then "true" else "false"))
  | .number _ => .error ⟨utf8 "unsupported"⟩
  | .string s => .ok (utf8 "\"" ++ s ++ utf8 "\"")
  | .array elems => do
    let parts ← sampleMarshalElems elems
    pure (utf8 "[" ++ join parts (utf8 ",") ++ utf8 "]")
  | .object members => do
    let parts ← sampleMarshalMembers members
    pure (utf8 "\x7b" ++ join parts (utf8 ",") ++ utf8 "\x7d")

def sampleMarshalElems : List Value → Except Error (List Bytes)
  | [] => pure []
  | v :: vs => do
    let part ← sampleMarshal v
    let parts ← sampleMarshalElems vs
    pure (part :: parts)

def sampleMarshalMembers : List (Bytes × Value) → Except Error (List Bytes)
  | [] => pure []
  | (k, v) :: members => do
    let part ← sampleMarshal v
    let parts ← sampleMarshalMembers members
    pure ((utf8 "\"" ++ k ++ utf8 "\":" ++ part) :: parts)

end

/-- A codec that agrees with `encoding/json` on `sampleFlat` and `sampleNested`. -/
def sampleCodec : Codec where
  unmarshal text :=
    if text = sampleFlat then .ok (.object [(utf8 "a", .string (utf8 "x"))])
    else if text = sampleNested then .ok (.object [(utf8 "a", .object [([], .string (utf8 "x"))])])
    else .error ⟨utf8 "invalid character"⟩
  marshal := sampleMarshal

/-- `json.Marshal` for the one value that `sampleFlat` stands for, and no other. -/
def flatMarshal : Value → Except Error Bytes
  | .object [(k, .string s)] =>
    if k = utf8 "a" ∧ s = utf8 "x" then .ok sampleFlat else .error ⟨utf8 "unsupported"⟩
  | _ => .error ⟨utf8 "unsupported"⟩

/-- A codec that reads and writes `sampleFlat` alone, and keeps the laws of `encoding/json`. -/
def flatCodec : Codec where
  unmarshal text :=
    if text = sampleFlat then .ok (.object [(utf8 "a", .string (utf8 "x"))])
    else .error ⟨utf8 "invalid character"⟩
  marshal := flatMarshal

theorem flatCodec_lawful : flatCodec.Lawful where
  wellFormed_unmarshal := by
    intro input v read
    simp only [flatCodec] at read
    split_ifs at read
    cases read
    decide
  unmarshal_marshal := by
    intro v out _ written
    simp only [flatCodec, flatMarshal] at written
    split at written
    · split_ifs at written with named
      obtain ⟨rfl, rfl⟩ := named
      cases written
      exact ⟨_, rfl, List.Perm.refl _⟩
    · cases written

theorem filterBytes_permitted_sampleFlat :
    ∃ parsed w m, sampleCodec.unmarshal sampleFlat = .ok parsed ∧
      filterJSON [⟨[], [utf8 "a"]⟩] [] parsed = .ok (w, m) ∧ sampleCodec.marshal w = .ok sampleFlat ∧
      (parsed.isScalar = false → ∀ leaf ∈ w.leaves, leaf.2.isScalar →
        ∃ rule ∈ ([⟨[], [utf8 "a"]⟩] : List Rule), ∃ keyPattern ∈ rule.responseKeys,
          pathMatch keyPattern (pathJoin leaf.1) = .ok true ∧
          ((∀ k ∈ leaf.1, IsPlainKey k) → pathMatch keyPattern (join leaf.1 [slash]) = .ok true)) :=
  filterBytes_permitted sampleCodec sampleFlat [⟨[], [utf8 "a"]⟩] rfl

/-- The string under the keys `a`, `` is written out, decoded back, and matched by no pattern on
its plain key path `a/`: the pattern `a` permits it because `path.Join` drops the empty key. -/
theorem filterBytes_emptyKey_leaf :
    filterBytes sampleCodec sampleNested [⟨[], [utf8 "a"]⟩] = .ok sampleNested ∧
      sampleCodec.unmarshal sampleNested =
        .ok (.object [(utf8 "a", .object [([], .string (utf8 "x"))])]) ∧
      ([utf8 "a", []], Value.string (utf8 "x")) ∈
        (Value.object [(utf8 "a", .object [([], .string (utf8 "x"))])]).leaves ∧
      ∀ rule ∈ ([⟨[], [utf8 "a"]⟩] : List Rule), ∀ keyPattern ∈ rule.responseKeys,
        pathMatch keyPattern (join [utf8 "a", []] [slash]) = .ok false := by
  refine ⟨rfl, rfl, ?_, by decide⟩
  simp [leaves, membersLeaves]

/-! ## The order of the rules -/

mutual

/-- The walk reads the rules only through `checkFilter` at the key paths of the leaves. -/
theorem filterJSON_congr {rules' : List Rule} : ∀ (keys : KeyPath) (v : Value),
    (∀ leaf ∈ v.leaves, checkFilter rules (keys ++ leaf.1) = checkFilter rules' (keys ++ leaf.1)) →
      filterJSON rules keys v = filterJSON rules' keys v
  | keys, .array (ve :: vt), same => by
      rw [leaves_array _ (List.cons_ne_nil _ _)] at same
      rw [filterJSON_array_cons, filterJSON_array_cons, filterElements_congr keys _ same]
  | keys, .object (member :: vt), same => by
      rw [leaves_object _ (List.cons_ne_nil _ _)] at same
      rw [filterJSON_object_cons, filterJSON_object_cons, filterMembers_congr keys _ same]
  | keys, .array [], same | keys, .object [], same | keys, .null, same | keys, .bool _, same
  | keys, .number _, same | keys, .string _, same => by
      rw [leaves_of_isLeaf rfl] at same
      have atKeys := same _ List.mem_cons_self
      rw [List.append_nil] at atKeys
      rw [filterJSON_of_isLeaf rfl, filterJSON_of_isLeaf rfl, atKeys]

theorem filterElements_congr {rules' : List Rule} : ∀ (keys : KeyPath) (elems : List Value),
    (∀ leaf ∈ elemsLeaves elems,
      checkFilter rules (keys ++ leaf.1) = checkFilter rules' (keys ++ leaf.1)) →
      filterElements rules keys elems = filterElements rules' keys elems
  | keys, [], _ => rfl
  | keys, ve :: vt, same => by
      rw [elemsLeaves_cons] at same
      have head := filterJSON_congr keys ve fun leaf mem => same leaf (List.mem_append_left _ mem)
      have tail := filterElements_congr keys vt fun leaf mem =>
        same leaf (List.mem_append_right _ mem)
      rw [filterElements_cons, filterElements_cons, head, tail]

theorem filterMembers_congr {rules' : List Rule} : ∀ (keys : KeyPath) (members : List (Bytes × Value)),
    (∀ leaf ∈ membersLeaves members,
      checkFilter rules (keys ++ leaf.1) = checkFilter rules' (keys ++ leaf.1)) →
      filterMembers rules keys members = filterMembers rules' keys members
  | keys, [], _ => rfl
  | keys, (k, ve) :: vt, same => by
      rw [membersLeaves_cons] at same
      -- a leaf below the member has the key path `keys ++ [k]` followed by its own
      have head := filterJSON_congr (keys ++ [k]) ve fun leaf mem => by
        simpa using same (k :: leaf.1, leaf.2) (List.mem_append_left _ (List.mem_map_of_mem mem))
      have tail := filterMembers_congr keys vt fun leaf mem =>
        same leaf (List.mem_append_right _ mem)
      rw [filterMembers_cons, filterMembers_cons, head, tail]

end

/-- Two rule lists whose `checkFilter` answers agree wherever both answer: two successful walks
of one value return the same result. -/
theorem filterJSON_eq_of_ok {rules' : List Rule}
    (agree : ∀ keys b b', checkFilter rules keys = .ok b → checkFilter rules' keys = .ok b' → b = b')
    {keys : KeyPath} {v : Value} {r r' : Value × Bool}
    (first : filterJSON rules keys v = .ok r) (second : filterJSON rules' keys v = .ok r') :
    r = r' := by
  -- both walks succeed, so `checkFilter` succeeds at every leaf under both lists
  have okLeaves := (filterJSON_ok_iff keys v).mp ⟨r, first⟩
  have okLeaves' := (filterJSON_ok_iff keys v).mp ⟨r', second⟩
  have same : ∀ leaf ∈ v.leaves,
      checkFilter rules (keys ++ leaf.1) = checkFilter rules' (keys ++ leaf.1) := by
    intro leaf mem
    obtain ⟨b, answer⟩ := okLeaves leaf mem
    obtain ⟨b', answer'⟩ := okLeaves' leaf mem
    rw [answer, answer', agree _ b b' answer answer']
  rw [filterJSON_congr keys v same, second] at first
  exact (Except.ok.inj first).symm

/-- Rule lists that are permutations of each other try the same response-key patterns, in
another order. -/
theorem responsePatterns_perm {rules' : List Rule} (perm : rules.Perm rules') :
    (responsePatterns rules).Perm (responsePatterns rules') :=
  perm.flatMap_right _

/-- Whatever the order of the rules, `checkFilter` answers alike whenever it answers. -/
theorem checkFilter_ok_unique_of_perm {rules' : List Rule} (perm : rules.Perm rules')
    {keys : KeyPath} {b b' : Bool} (first : checkFilter rules keys = .ok b)
    (second : checkFilter rules' keys = .ok b') : b = b' := by
  rw [checkFilter_eq] at first second
  exact firstHit_ok_unique_of_perm (responsePatterns_perm perm) first second

/-- When no response-key pattern can fail, the order of the rules does not matter. -/
theorem checkFilter_eq_of_perm {rules' : List Rule} (perm : rules.Perm rules')
    (total : ∀ keyPattern ∈ responsePatterns rules, Total keyPattern) (keys : KeyPath) :
    checkFilter rules keys = checkFilter rules' keys := by
  rw [checkFilter_eq, checkFilter_eq]
  exact firstHit_eq_of_perm (responsePatterns_perm perm) fun keyPattern mem =>
    total keyPattern mem (pathJoin keys)

/-- Two orders of the rules that both filter a document successfully write the same output. -/
theorem filterBytes_eq_of_perm_of_ok {rules' : List Rule} (perm : rules.Perm rules')
    {codec : Codec} {input out out' : Bytes}
    (first : filterBytes codec input rules = .ok out) (second : filterBytes codec input rules' = .ok out') :
    out = out' := by
  obtain ⟨parsed, w, m, decoded, walked, encoded⟩ := filterBytes_ok first
  obtain ⟨parsed', w', m', decoded', walked', encoded'⟩ := filterBytes_ok second
  rw [decoded] at decoded'
  cases Except.ok.inj decoded'
  have sameWalk := filterJSON_eq_of_ok (fun _ _ _ => checkFilter_ok_unique_of_perm perm) walked walked'
  cases sameWalk
  rw [encoded] at encoded'
  exact Except.ok.inj encoded'

/-- When no response-key pattern can fail, `filterBytes` has one outcome for every order of the
rules. -/
theorem filterBytes_eq_of_perm {rules' : List Rule} (perm : rules.Perm rules')
    (total : ∀ keyPattern ∈ responsePatterns rules, Total keyPattern) (codec : Codec) (input : Bytes) :
    filterBytes codec input rules = filterBytes codec input rules' := by
  have same : ∀ (v : Value), filterJSON rules [] v = filterJSON rules' [] v := fun v =>
    filterJSON_congr [] v fun leaf _ => checkFilter_eq_of_perm perm total _
  simp only [filterBytes, same]

/-- The pattern `[a` is malformed, and `path.Match` finds out only when it reaches the class:
after `*` has matched, it is never tried. -/
theorem filterBytes_rule_order :
    filterBytes sampleCodec sampleFlat [⟨[], [utf8 "[a"]⟩, ⟨[], [utf8 "*"]⟩] =
        .error PathError.errBadPattern.toError ∧
      filterBytes sampleCodec sampleFlat [⟨[], [utf8 "*"]⟩, ⟨[], [utf8 "[a"]⟩] = .ok sampleFlat :=
  ⟨rfl, rfl⟩

end JsonProxy
