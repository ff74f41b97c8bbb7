import JsonProxy.Go.Bytes

/-!
# `encoding/json`: decoded values, their leaves, and pruning

`json.Unmarshal` into an `interface{}` yields `nil`, a `bool`, a `float64`, a `string`, a
`[]interface{}` or a `map[string]interface{}`, and `Value` has one constructor for each.  A
number is kept as the bits of its `float64`, since nothing here computes with it.  An object
keeps its members as a list: the keys of a decoded object are distinct, and the list order stands
for the order in which Go happens to range over the map.

The codec itself, `Unmarshal` and `Marshal`, is a parameter, with the laws of `Codec.Lawful`:
`Unmarshal` returns well-formed values (distinct keys, valid UTF-8), and reads what `Marshal`
writes of one back to the same leaves, up to the order of object members.

Over values this file defines the two notions a key filter is specified with.  A leaf is a scalar
or an array or object with nothing in it, and it sits at the object keys on the way down to it,
array positions not counted.  Pruning by a predicate on key paths deletes every array element and
object member with no leaf the predicate keeps; `leaves_prune` shows that the leaves of a pruned
value are exactly the kept ones, in their order.
-/

namespace Go.Json

/-- A value as `json.Unmarshal` decodes it into an `interface{}`. -/
inductive Value where
  | null
  | bool (b : Bool)
  | number (bits : UInt64)
  | string (s : Bytes)
  | array (elems : List Value)
  | object (members : List (Bytes × Value))
  deriving Repr

/-- `json.Unmarshal` into an `interface{}`, and `json.Marshal`. -/
structure Codec where
  unmarshal : Bytes → Except Error Value
  marshal : Value → Except Error Bytes

/-- A key path: the object keys from the top of a document down to a value. -/
abbrev KeyPath := List Bytes

namespace Value

/-- Strings, numbers and booleans. -/
def isScalar : Value → Bool
  | .bool _ | .number _ | .string _ => true
  | _ => false

/-- Scalars and empty containers: the values with nothing inside them. -/
def isLeaf : Value → Bool
  | .array (_ :: _) => false
  | .object (_ :: _) => false
  | _ => true

mutual

/-- The leaves of a value, each with its key path from the value. -/
def leaves : Value → List (KeyPath × Value)
  | .array (elem :: elems) => elemsLeaves (elem :: elems)
  | .object (member :: members) => membersLeaves (member :: members)
  | v => [([], v)]

/-- The leaves of the elements of an array, in order: positions add nothing to the path. -/
def elemsLeaves : List Value → List (KeyPath × Value)
  | [] => []
  | elem :: elems => elem.leaves ++ elemsLeaves elems

/-- The leaves of the members of an object, each path starting with the member's key. -/
def membersLeaves : List (Bytes × Value) → List (KeyPath × Value)
  | [] => []
  | (k, v) :: members => v.leaves.map (fun leaf => (k :: leaf.1, leaf.2)) ++ membersLeaves members

end

theorem leaves_of_isLeaf : ∀ {v : Value}, v.isLeaf → v.leaves = [([], v)]
  | .array (_ :: _), leaf | .object (_ :: _), leaf => by simp [isLeaf] at leaf
  | .array [], _ | .object [], _ | .null, _ | .bool _, _ | .number _, _ | .string _, _ => rfl

@[simp]
theorem leaves_array_cons (elem : Value) (elems : List Value) :
    (array (elem :: elems)).leaves = elem.leaves ++ elemsLeaves elems := by
  simp [leaves, elemsLeaves]

@[simp]
theorem leaves_object_cons (k : Bytes) (v : Value) (members : List (Bytes × Value)) :
    (object ((k, v) :: members)).leaves =
      v.leaves.map (fun leaf => (k :: leaf.1, leaf.2)) ++ membersLeaves members := by
  simp [leaves, membersLeaves]

@[simp]
theorem elemsLeaves_nil : elemsLeaves [] = [] := rfl

@[simp]
theorem elemsLeaves_cons (elem : Value) (elems : List Value) :
    elemsLeaves (elem :: elems) = elem.leaves ++ elemsLeaves elems := rfl

@[simp]
theorem membersLeaves_nil : membersLeaves [] = [] := rfl

@[simp]
theorem membersLeaves_cons (k : Bytes) (v : Value) (members : List (Bytes × Value)) :
    membersLeaves ((k, v) :: members) =
      v.leaves.map (fun leaf => (k :: leaf.1, leaf.2)) ++ membersLeaves members := rfl

theorem leaves_array (elems : List Value) (nonEmpty : elems ≠ []) :
    (array elems).leaves = elemsLeaves elems := by
  obtain ⟨elem, elems, rfl⟩ := List.exists_cons_of_ne_nil nonEmpty
  simp

theorem leaves_object (members : List (Bytes × Value)) (nonEmpty : members ≠ []) :
    (object members).leaves = membersLeaves members := by
  obtain ⟨⟨k, v⟩, members, rfl⟩ := List.exists_cons_of_ne_nil nonEmpty
  simp

/-- Every value has a leaf: an empty container is one itself. -/
theorem leaves_ne_nil : ∀ v : Value, v.leaves ≠ []
  | .array (elem :: elems) => by simp [leaves_ne_nil elem]
  | .object ((k, v) :: members) => by simp [leaves_ne_nil v]
  | .array [] | .object [] | .null | .bool _ | .number _ | .string _ => by simp [leaves]

theorem elemsLeaves_eq_nil_iff {elems : List Value} : elemsLeaves elems = [] ↔ elems = [] := by
  cases elems with
  | nil => simp
  | cons elem elems => simp [leaves_ne_nil elem]

theorem membersLeaves_eq_nil_iff {members : List (Bytes × Value)} :
    membersLeaves members = [] ↔ members = [] := by
  cases members with
  | nil => simp
  | cons member members =>
      obtain ⟨k, v⟩ := member
      simp [leaves_ne_nil v]

/-- A scalar is a leaf. -/
theorem isLeaf_of_isScalar : ∀ {v : Value}, v.isScalar → v.isLeaf
  | .bool _, _ | .number _, _ | .string _, _ => rfl
  | .null, scalar | .array _, scalar | .object _, scalar => by simp [isScalar] at scalar

/-! ## The values `Unmarshal` returns -/

mutual

/-- A value as `json.Unmarshal` returns it: the keys of each object distinct, since they come
from a map, and every key and string valid UTF-8, since `Unmarshal` turns each invalid byte into
U+FFFD. -/
def wellFormed : Value → Bool
  | .string s => validString s
  | .array elems => elemsWellFormed elems
  | .object members => decide (members.map Prod.fst).Nodup && membersWellFormed members
  | .null | .bool _ | .number _ => true

/-- Every element is well formed. -/
def elemsWellFormed : List Value → Bool
  | [] => true
  | elem :: elems => elem.wellFormed && elemsWellFormed elems

/-- Every key is valid UTF-8, and every member's value well formed. -/
def membersWellFormed : List (Bytes × Value) → Bool
  | [] => true
  | (k, v) :: members => validString k && v.wellFormed && membersWellFormed members

end

/-! ## Pruning by a predicate on key paths -/

section Prune

variable (keep : KeyPath → Bool)

/-- Some leaf of `v`, below the key path `keys`, is kept. -/
def kept (keys : KeyPath) (v : Value) : Bool :=
  v.leaves.any fun leaf => keep (keys ++ leaf.1)

mutual

/-- `v` below `keys` with every element and member that holds no kept leaf deleted. -/
def prune (keys : KeyPath) : Value → Value
  | .array (elem :: elems) => .array (pruneElems keys (elem :: elems))
  | .object (member :: members) => .object (pruneMembers keys (member :: members))
  | v => v

/-- The elements that hold a kept leaf, each pruned. -/
def pruneElems (keys : KeyPath) : List Value → List Value
  | [] => []
  | elem :: elems =>
    if elem.kept keep keys then elem.prune keys :: pruneElems keys elems
    else pruneElems keys elems

/-- The members that hold a kept leaf, each pruned below its key. -/
def pruneMembers (keys : KeyPath) : List (Bytes × Value) → List (Bytes × Value)
  | [] => []
  | (k, v) :: members =>
    if v.kept keep (keys ++ [k]) then (k, v.prune (keys ++ [k])) :: pruneMembers keys members
    else pruneMembers keys members

end

variable {keep}

@[simp]
theorem prune_array_cons (keys : KeyPath) (elem : Value) (elems : List Value) :
    (array (elem :: elems)).prune keep keys = array (pruneElems keep keys (elem :: elems)) := by
  simp [prune]

@[simp]
theorem prune_object_cons (keys : KeyPath) (member : Bytes × Value) (members : List (Bytes × Value)) :
    (object (member :: members)).prune keep keys =
      object (pruneMembers keep keys (member :: members)) := by
  simp [prune]

/-- A value keeps a leaf exactly when the filter over its leaves leaves something. -/
theorem kept_iff_filter_ne_nil {keys : KeyPath} {v : Value} :
    v.kept keep keys = true ↔ v.leaves.filter (fun leaf => keep (keys ++ leaf.1)) ≠ [] := by
  simp [kept, List.filter_eq_nil_iff]

theorem filter_leaves_eq_nil {keys : KeyPath} {v : Value} (notKept : v.kept keep keys = false) :
    v.leaves.filter (fun leaf => keep (keys ++ leaf.1)) = [] := by
  by_contra nonEmpty
  have hasKept := kept_iff_filter_ne_nil.mpr nonEmpty
  rw [notKept] at hasKept
  exact Bool.false_ne_true hasKept

mutual

/-- The leaves of a pruned value are the kept leaves of the value, in their order, as long as
there is one. -/
theorem leaves_prune : ∀ {keys : KeyPath} {v : Value}, v.kept keep keys →
    (v.prune keep keys).leaves = v.leaves.filter (fun leaf => keep (keys ++ leaf.1))
  | keys, .array (elem :: elems), hasKept => by
      have pruned := elemsLeaves_pruneElems keys (elem :: elems)
      have nonEmpty : pruneElems keep keys (elem :: elems) ≠ [] := by
        intro empty
        rw [kept_iff_filter_ne_nil, leaves_array _ (List.cons_ne_nil _ _), ← pruned, empty]
          at hasKept
        exact hasKept rfl
      rw [prune_array_cons, leaves_array _ nonEmpty, pruned, leaves_array _ (List.cons_ne_nil _ _)]
  | keys, .object (member :: members), hasKept => by
      have pruned := membersLeaves_pruneMembers keys (member :: members)
      have nonEmpty : pruneMembers keep keys (member :: members) ≠ [] := by
        intro empty
        rw [kept_iff_filter_ne_nil, leaves_object _ (List.cons_ne_nil _ _), ← pruned, empty]
          at hasKept
        exact hasKept rfl
      rw [prune_object_cons, leaves_object _ nonEmpty, pruned,
        leaves_object _ (List.cons_ne_nil _ _)]
  | keys, .array [], hasKept | keys, .object [], hasKept | keys, .null, hasKept
  | keys, .bool _, hasKept | keys, .number _, hasKept | keys, .string _, hasKept => by
      simp_all [kept, leaves, prune]

/-- Pruning the elements of an array keeps the kept leaves of the elements. -/
theorem elemsLeaves_pruneElems : ∀ (keys : KeyPath) (elems : List Value),
    elemsLeaves (pruneElems keep keys elems) =
      (elemsLeaves elems).filter (fun leaf => keep (keys ++ leaf.1))
  | _, [] => rfl
  | keys, elem :: elems => by
      have rest := elemsLeaves_pruneElems keys elems
      cases hasKept : elem.kept keep keys with
      | true =>
          simp [pruneElems, hasKept, leaves_prune hasKept, rest]
      | false =>
          simp [pruneElems, hasKept, filter_leaves_eq_nil hasKept, rest]

/-- Pruning the members of an object keeps the kept leaves of the members. -/
theorem membersLeaves_pruneMembers : ∀ (keys : KeyPath) (members : List (Bytes × Value)),
    membersLeaves (pruneMembers keep keys members) =
      (membersLeaves members).filter (fun leaf => keep (keys ++ leaf.1))
  | _, [] => rfl
  | keys, (k, v) :: members => by
      have rest := membersLeaves_pruneMembers keys members
      -- the member's leaves are seen from the object with its key in front
      have shift : (v.leaves.map fun leaf => (k :: leaf.1, leaf.2)).filter
          (fun leaf => keep (keys ++ leaf.1)) =
          (v.leaves.filter fun leaf => keep (keys ++ [k] ++ leaf.1)).map
            (fun leaf => (k :: leaf.1, leaf.2)) := by
        simp [List.filter_map, Function.comp_def]
      cases hasKept : v.kept keep (keys ++ [k]) with
      | true =>
          simp only [pruneMembers, hasKept, if_true, membersLeaves_cons, leaves_prune hasKept,
            List.filter_append, shift, rest]
      | false =>
          simp only [pruneMembers, hasKept, Bool.false_eq_true, if_false, membersLeaves_cons,
            List.filter_append, shift, filter_leaves_eq_nil hasKept, List.map_nil, List.nil_append,
            rest]

end

/-- A non-empty array keeps a leaf exactly when pruning leaves some element. -/
theorem kept_array_iff {keys : KeyPath} {elems : List Value} (nonEmpty : elems ≠ []) :
    (array elems).kept keep keys = true ↔ pruneElems keep keys elems ≠ [] := by
  rw [kept_iff_filter_ne_nil, leaves_array _ nonEmpty, ← elemsLeaves_pruneElems,
    Ne, elemsLeaves_eq_nil_iff]

/-- A non-empty object keeps a leaf exactly when pruning leaves some member. -/
theorem kept_object_iff {keys : KeyPath} {members : List (Bytes × Value)} (nonEmpty : members ≠ []) :
    (object members).kept keep keys = true ↔ pruneMembers keep keys members ≠ [] := by
  rw [kept_iff_filter_ne_nil, leaves_object _ nonEmpty, ← membersLeaves_pruneMembers,
    Ne, membersLeaves_eq_nil_iff]

/-- Pruning keeps members in their order, so their keys are a sublist of the keys before. -/
theorem keys_pruneMembers_sublist (keys : KeyPath) :
    ∀ members : List (Bytes × Value),
      ((pruneMembers keep keys members).map Prod.fst).Sublist (members.map Prod.fst)
  | [] => List.Sublist.slnil
  | (k, v) :: members => by
      have rest := keys_pruneMembers_sublist keys members
      cases hasKept : v.kept keep (keys ++ [k]) with
      | true =>
          simp only [pruneMembers, hasKept, if_true, List.map_cons]
          exact rest.cons_cons k
      | false =>
          simp only [pruneMembers, hasKept, Bool.false_eq_true, if_false, List.map_cons]
          exact rest.cons k

mutual

/-- Pruning keeps a value well formed: it deletes elements and members and prunes the rest. -/
theorem wellFormed_prune : ∀ (keys : KeyPath) {v : Value}, v.wellFormed →
    (v.prune keep keys).wellFormed
  | keys, .array (elem :: elems), formed => by
      rw [prune_array_cons]
      simp only [wellFormed] at formed ⊢
      exact elemsWellFormed_pruneElems keys formed
  | keys, .object (member :: members), formed => by
      rw [prune_object_cons]
      simp only [wellFormed, Bool.and_eq_true, decide_eq_true_eq] at formed ⊢
      exact ⟨formed.1.sublist (keys_pruneMembers_sublist keys _),
        membersWellFormed_pruneMembers keys formed.2⟩
  | keys, .array [], formed | keys, .object [], formed | keys, .null, formed
  | keys, .bool _, formed | keys, .number _, formed | keys, .string _, formed => by
      simpa only [prune] using formed

/-- Pruning the elements of an array keeps them well formed. -/
theorem elemsWellFormed_pruneElems : ∀ (keys : KeyPath) {elems : List Value},
    elemsWellFormed elems → elemsWellFormed (pruneElems keep keys elems)
  | _, [], _ => rfl
  | keys, elem :: elems, formed => by
      simp only [elemsWellFormed, Bool.and_eq_true] at formed
      have rest := elemsWellFormed_pruneElems keys formed.2
      cases hasKept : elem.kept keep keys with
      | true =>
          simp only [pruneElems, hasKept, if_true, elemsWellFormed, wellFormed_prune keys formed.1,
            rest, Bool.and_self]
      | false => simpa only [pruneElems, hasKept, Bool.false_eq_true, if_false] using rest

/-- Pruning the members of an object keeps their keys and values well formed. -/
theorem membersWellFormed_pruneMembers : ∀ (keys : KeyPath) {members : List (Bytes × Value)},
    membersWellFormed members → membersWellFormed (pruneMembers keep keys members)
  | _, [], _ => rfl
  | keys, (k, v) :: members, formed => by
      simp only [membersWellFormed, Bool.and_eq_true] at formed
      have rest := membersWellFormed_pruneMembers keys formed.2
      cases hasKept : v.kept keep (keys ++ [k]) with
      | true =>
          simp only [pruneMembers, hasKept, if_true, membersWellFormed, formed.1.1,
            wellFormed_prune (keys ++ [k]) formed.1.2, rest, Bool.and_self]
      | false => simpa only [pruneMembers, hasKept, Bool.false_eq_true, if_false] using rest

end

end Prune

end Value

/-- The laws of `encoding/json` that the filter's output rests on.  `Unmarshal` returns
well-formed values.  `Marshal` writes a well-formed value as a text that `Unmarshal` reads back
to the same leaves at the same key paths: it writes every element and member, a number in the
shortest digits that read back to the same `float64`, and a string with escapes that decode to
it; only the order of an object's members, which a Go map does not keep, can change.  (`Marshal`
refuses NaN and the infinities, which `Unmarshal` never returns.) -/
structure Codec.Lawful (codec : Codec) : Prop where
  wellFormed_unmarshal : ∀ {input : Bytes} {v : Value}, codec.unmarshal input = .ok v →
    v.wellFormed = true
  unmarshal_marshal : ∀ {v : Value} {out : Bytes}, v.wellFormed = true → codec.marshal v = .ok out →
    ∃ v', codec.unmarshal out = .ok v' ∧ v'.leaves.Perm v.leaves

end Go.Json
