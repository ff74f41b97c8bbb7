import JsonProxy.Go.Bytes

/-!
# `net/url`: URLs and reference resolution

`URL.ResolveReference` resolves a reference against a base "per RFC 3986 Section 5.2", as its
Go documentation puts it.  The model transcribes that section: §5.2.2 picks each component of
the target from the reference or the base, §5.2.3 merges a relative path into the base path, and
§5.2.4 removes `.` and `..` segments.  The decisive case for a proxy is the first one: a
reference that carries its own scheme is taken as it stands, host and all.

The code of Go 1.4.2 departs from the section in two places, which the model does not follow.
For an empty reference, with no path, query or fragment, it keeps the base's fragment.  And its
`resolvePath` returns `"/" + strings.TrimLeft(path, "/")` of the path it has built, so every
non-empty result is rooted and starts with one slash: `//a` comes out as `/a`, where the section
keeps `//a`.  Neither case is reached by a request the proxy forwards, other than a `CONNECT`:
its target is not empty, and its path is clean, rooted with one slash and free of dot segments,
which both algorithms return as it is.

A URL's `Opaque` field is left out: no request target that net/http's server accepts for a
method other than `CONNECT` parses into one.

`removeDotSegments` removes at least one byte of its input per step, so its input length is its
fuel; `removeDotSegmentsAux_fuel` shows that more fuel changes nothing.
-/

namespace Go

open Ascii

/-- `url.Userinfo`: a user name and an optional password. -/
structure Userinfo where
  username : Bytes
  password : Option Bytes
  deriving DecidableEq, Repr

/-- `url.URL`, without `Opaque`. -/
structure URL where
  scheme : Bytes
  user : Option Userinfo
  host : Bytes
  path : Bytes
  rawQuery : Bytes
  fragment : Bytes
  deriving DecidableEq, Repr

namespace Url

/-- RFC 3986 §5.2.4, rule C: remove the last segment of the output and the `/` before it.  The
output is held last byte first. -/
def dropLastSegment : Bytes → Bytes
  | [] => []
  | b :: rest => if b = slash then rest else dropLastSegment rest

/-- RFC 3986 §5.2.4, rule E: the first path segment of the input, with its leading `/` if any,
up to the next `/`; and the rest of the input. -/
def firstSegment : Bytes → Bytes × Bytes
  | [] => ([], [])
  | b :: rest => (b :: rest.takeWhile (· ≠ slash), rest.dropWhile (· ≠ slash))

/-- The loop of RFC 3986 §5.2.4 with `fuel` steps left, each rule in the order the RFC gives.
The output is held last byte first. -/
def removeDotSegmentsAux : Nat → Bytes → Bytes → Bytes
  | 0, _, output => output
  | fuel + 1, input, output =>
    if input = [] then output
    -- A: a leading `../` or `./`
    else if utf8 "../" <+: input then removeDotSegmentsAux fuel (input.drop 3) output
    else if utf8 "./" <+: input then removeDotSegmentsAux fuel (input.drop 2) output
    -- B: a leading `/./`, or `/.` as the whole input
    else if utf8 "/./" <+: input then removeDotSegmentsAux fuel (input.drop 2) output
    else if input = utf8 "/." then removeDotSegmentsAux fuel [slash] output
    -- C: a leading `/../`, or `/..` as the whole input, also drops a segment of the output
    else if utf8 "/../" <+: input then
      removeDotSegmentsAux fuel (input.drop 3) (dropLastSegment output)
    else if input = utf8 "/.." then removeDotSegmentsAux fuel [slash] (dropLastSegment output)
    -- D: `.` or `..` as the whole input
    else if input = utf8 "." ∨ input = utf8 ".." then output
    -- E: move the first segment to the output
    else
      let (segment, rest) := firstSegment input
      removeDotSegmentsAux fuel rest (segment.reverse ++ output)

/-- Rule E moves at least the first byte of the input. -/
theorem length_firstSegment_rest_lt {input : Bytes} (nonEmpty : input ≠ []) :
    (firstSegment input).2.length < input.length := by
  obtain ⟨b, rest, rfl⟩ := List.exists_cons_of_ne_nil nonEmpty
  have : (rest.dropWhile (· ≠ slash)).length ≤ rest.length :=
    (List.dropWhile_suffix _).length_le
  simp only [firstSegment, List.length_cons]
  omega

/-- Each rule shortens the input, so fuel beyond its length changes nothing. -/
theorem removeDotSegmentsAux_fuel {fuel fuel' : Nat} {input : Bytes}
    (enough : input.length ≤ fuel) (enough' : input.length ≤ fuel') (output : Bytes) :
    removeDotSegmentsAux fuel input output = removeDotSegmentsAux fuel' input output := by
  induction fuel generalizing fuel' input output with
  | zero =>
      have empty : input = [] := List.eq_nil_of_length_eq_zero (by omega)
      subst empty
      cases fuel' <;> simp [removeDotSegmentsAux]
  | succ fuel ih =>
      cases fuel' with
      | zero =>
          have empty : input = [] := List.eq_nil_of_length_eq_zero (by omega)
          subst empty
          simp [removeDotSegmentsAux]
      | succ fuel' =>
          by_cases empty : input = []
          · simp [removeDotSegmentsAux, empty]
          have positive : 0 < input.length := List.length_pos_iff.mpr empty
          simp only [removeDotSegmentsAux, empty, if_false]
          split_ifs with h1 h2 h3 h4 h5 h6 h7
          · have := h1.length_le
            have three : (utf8 "../").length = 3 := rfl
            apply ih <;> simp only [List.length_drop] <;> omega
          · have := h2.length_le
            have two : (utf8 "./").length = 2 := rfl
            apply ih <;> simp only [List.length_drop] <;> omega
          · have := h3.length_le
            have three : (utf8 "/./").length = 3 := rfl
            apply ih <;> simp only [List.length_drop] <;> omega
          · have two : input.length = 2 := by rw [h4]; rfl
            apply ih <;> simp only [List.length_singleton] <;> omega
          · have := h5.length_le
            have four : (utf8 "/../").length = 4 := rfl
            apply ih <;> simp only [List.length_drop] <;> omega
          · have three : input.length = 3 := by rw [h6]; rfl
            apply ih <;> simp only [List.length_singleton] <;> omega
          · rfl
          · have := length_firstSegment_rest_lt empty
            apply ih <;> omega

/-- RFC 3986 §5.2.4, `remove_dot_segments`. -/
def removeDotSegments (path : Bytes) : Bytes :=
  (removeDotSegmentsAux path.length path []).reverse

/-- RFC 3986 §5.2.3: a relative reference path merged into the base path. -/
def merge (base : URL) (refPath : Bytes) : Bytes :=
  if (base.host ≠ [] ∨ base.user.isSome) ∧ base.path = [] then slash :: refPath
  else (base.path.reverse.dropWhile (· ≠ slash)).reverse ++ refPath

end Url

/-- `u.ResolveReference(ref)`: the target of reference `ref` against base `u`, RFC 3986
§5.2.2.  Empty components stand for undefined ones. -/
def URL.resolveReference (u ref : URL) : URL :=
  if ref.scheme ≠ [] then
    { ref with path := Url.removeDotSegments ref.path }
  else if ref.host ≠ [] ∨ ref.user.isSome then
    { ref with scheme := u.scheme, path := Url.removeDotSegments ref.path }
  else if ref.path = [] then
    { u with rawQuery := if ref.rawQuery ≠ [] then ref.rawQuery else u.rawQuery,
             fragment := ref.fragment }
  else
    { u with
      path := if ref.path.head? = some slash then Url.removeDotSegments ref.path
              else Url.removeDotSegments (Url.merge u ref.path),
      rawQuery := ref.rawQuery,
      fragment := ref.fragment }

/-- A reference with a scheme of its own resolves to itself, apart from dot segments in its
path: the base contributes nothing, not even its host. -/
theorem URL.resolveReference_of_scheme (u : URL) {ref : URL} (hasScheme : ref.scheme ≠ []) :
    u.resolveReference ref = { ref with path := Url.removeDotSegments ref.path } := by
  simp [URL.resolveReference, hasScheme]

/-! ## `net.JoinHostPort` -/

/-- `%`. -/
def Ascii.percent : UInt8 := 37

/-- `net.JoinHostPort(host, port)`: a host with a colon or a percent sign goes in brackets. -/
def joinHostPort (host port : Bytes) : Bytes :=
  if colon ∈ host ∨ Ascii.percent ∈ host then [lbracket] ++ host ++ [rbracket, colon] ++ port
  else host ++ [colon] ++ port

end Go
