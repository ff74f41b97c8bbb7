import JsonProxy.Go.Loop
import JsonProxy.Go.Http
import JsonProxy.Go.Path.Clean

/-!
# `http.ServeMux` and `http.StripPrefix`

A `ServeMux` maps URL path patterns to handlers.  A pattern that ends in `/` names the subtree
below it, any other pattern one path.  go1.4.2's mux first answers the request target `*`
itself; then, except for `CONNECT`, it redirects a path that is not in canonical form to its
cleaned form; and otherwise it serves the request with the handler of the longest pattern that
matches the path, a pattern that names a host taking precedence when there is one.  `Handle`
also registers a redirect at `/tree` for a pattern `/tree/`, unless `/tree` is registered
explicitly.

The handlers are kept abstract: a mux over `α` yields a `Target α`, which is a registered
handler or one of the two handlers the mux makes itself, a permanent redirect and the 404
handler.

The loop of `mux.match` visits the map in the order `range` gives and keeps a pattern only when
it is longer than the best so far.  Two patterns that match one path with the same length are
equal, so the pattern it keeps is the one longest match, whatever the order:
`matchLoop_eq_some_iff` and `matchLoop_perm`.
-/

namespace Go

open Ascii

universe u

/-- What a `ServeMux` serves a request with. -/
inductive Target (α : Type u) where
  /-- A handler registered with `Handle`. -/
  | handler (h : α)
  /-- `RedirectHandler(path, StatusMovedPermanently)`, which `Handle` registers at `/tree` for a
  pattern `/tree/`. -/
  | redirectTree (path : Bytes)
  /-- `RedirectHandler(url.String(), StatusMovedPermanently)` to the cleaned path. -/
  | redirectClean (url : URL)
  /-- `NotFoundHandler()`. -/
  | notFound
  deriving DecidableEq, Repr

/-- `muxEntry`: whether the pattern was registered by `Handle` itself, its handler, and the
pattern. -/
structure MuxEntry (α : Type u) where
  explicit : Bool
  h : Target α
  pattern : Bytes
  deriving DecidableEq, Repr

/-- `http.ServeMux`: the entries by pattern, and whether some pattern names a host. -/
structure ServeMux (α : Type u) where
  m : Map Bytes (MuxEntry α)
  hosts : Bool

/-- What `mux.ServeHTTP(w, r)` does with a request. -/
inductive Dispatch (α : Type u) where
  /-- `w.WriteHeader(StatusBadRequest)` for the request target `*`, after setting
  `Connection: close` when `close`. -/
  | badRequest (close : Bool)
  /-- `h.ServeHTTP(w, r)` with the handler `mux.Handler(r)` picks. -/
  | serve (h : Target α)
  deriving DecidableEq, Repr

/-- `r.ProtoAtLeast(major, minor)`. -/
def Request.protoAtLeast (r : Request) (major minor : Nat) : Bool :=
  major < r.protoMajor || r.protoMajor == major && minor ≤ r.protoMinor

namespace Http

variable {α : Type u}

/-- `pathMatch(pattern, path)`: a pattern that ends in `/` matches every path it begins, any
other pattern only itself; the empty pattern matches nothing. -/
def pathMatch (pattern path : Bytes) : Bool :=
  if pattern = [] then false
  else if pattern.getLast? = some slash then decide (pattern <+: path)
  else decide (pattern = path)

/-- `cleanPath(p)`: `p` made rooted and cleaned by `path.Clean`, with its trailing slash put
back. -/
def cleanPath (p : Bytes) : Bytes :=
  if p = [] then [slash]
  else
    let p := if p.head? = some slash then p else slash :: p
    let np := pathClean p
    if p.getLast? = some slash ∧ np ≠ [slash] then np ++ [slash] else np

/-- The path of a pattern: the pattern itself, or what follows the host it names. -/
def patternPath (pattern : Bytes) : Bytes :=
  if pattern.head? = some slash then pattern else pattern.dropWhile (· ≠ slash)

/-- One iteration of the loop of `mux.match(path)`, at the entry `(k, v)`: the first matching
pattern, or one longer than the best so far, replaces it.  The state is the handler and pattern
found, and `n`, the length of its key. -/
def matchStep (path : Bytes) (state : Option (Target α × Bytes) × Nat)
    (entry : Bytes × MuxEntry α) : Option (Target α × Bytes) × Nat :=
  if pathMatch entry.1 path then
    if state.1.isNone ∨ state.2 < entry.1.length then
      (some (entry.2.h, entry.2.pattern), entry.1.length)
    else state
  else state

/-- The loop of `mux.match(path)`, visiting the entries in the order `visits`. -/
def matchLoop (visits : List (Bytes × MuxEntry α)) (path : Bytes) :
    Option (Target α × Bytes) :=
  (visits.foldl (matchStep path) (none, 0)).1

end Http

namespace ServeMux

variable {α : Type u}

/-- `http.NewServeMux()`. -/
def empty : ServeMux α := ⟨∅, false⟩

/-- `mux.Handle(pattern, handler)`, its panics as errors. -/
def handle (mux : ServeMux α) (pattern : Bytes) (handler : α) : Except Error (ServeMux α) :=
  if pattern = [] then .error ⟨utf8 "http: invalid pattern " ++ pattern⟩
  else if (mux.m.lookup pattern).any (·.explicit) then
    .error ⟨utf8 "http: multiple registrations for " ++ pattern⟩
  else
    let m := mux.m.insert pattern ⟨true, .handler handler, pattern⟩
    let hosts := mux.hosts || pattern.head? != some slash
    -- a pattern `/tree/` also gets a redirect at `/tree`, unless that is registered explicitly
    if pattern.getLast? = some slash ∧ ¬(m.lookup pattern.dropLast).any (·.explicit) then
      .ok ⟨m.insert pattern.dropLast ⟨false, .redirectTree (Http.patternPath pattern), pattern⟩,
        hosts⟩
    else .ok ⟨m, hosts⟩

/-- `mux.match(path)` (`match` is a keyword of Lean), visiting the entries in stored order:
`matchLoop_eq_matchHandler` shows that the order does not matter. -/
def matchHandler (mux : ServeMux α) (path : Bytes) : Option (Target α × Bytes) :=
  Http.matchLoop mux.m.pairs path

/-- `mux.handler(host, path)`: a pattern with a host first when there is one, then the path
alone, then the 404 handler. -/
def handlerAt (mux : ServeMux α) (host path : Bytes) : Target α × Bytes :=
  let found := if mux.hosts then mux.matchHandler (host ++ path) else none
  let found := if found.isNone then mux.matchHandler path else found
  found.getD (.notFound, [])

/-- `mux.Handler(r)`: the handler for the request and its pattern. -/
def handler (mux : ServeMux α) (r : Request) : Target α × Bytes :=
  if r.method ≠ utf8 "CONNECT" ∧ Http.cleanPath r.url.path ≠ r.url.path then
    (.redirectClean { r.url with path := Http.cleanPath r.url.path },
      (mux.handlerAt r.host (Http.cleanPath r.url.path)).2)
  else mux.handlerAt r.host r.url.path

/-- `Handle` called for each pattern and handler in turn. -/
def handleAll (mux : ServeMux α) (registrations : List (Bytes × α)) :
    Except Error (ServeMux α) :=
  registrations.foldlM (fun mux registration => mux.handle registration.1 registration.2) mux

/-- `mux.ServeHTTP(w, r)` for a request whose request line named `requestURI`. -/
def serveHTTP (mux : ServeMux α) (requestURI : Bytes) (r : Request) : Dispatch α :=
  if requestURI = utf8 "*" then .badRequest (r.protoAtLeast 1 1)
  else .serve (mux.handler r).1

end ServeMux

/-- `http.StripPrefix(pathPrefix, h)` on a request: the request with `pathPrefix` cut off the
front of its path, for `h`; `none` when the path does not start with it, which `NotFound`
answers.  An empty prefix hands every request on as it is. -/
def stripPrefix (pathPrefix : Bytes) (r : Request) : Option Request :=
  if pathPrefix = [] then some r
  else if pathPrefix <+: r.url.path then
    some { r with url := { r.url with path := r.url.path.drop pathPrefix.length } }
  else none

/-! ## Matching one path -/

namespace Http

variable {α : Type u}

/-- A pattern matches only paths it begins. -/
theorem prefix_of_pathMatch {pattern path : Bytes} (matched : pathMatch pattern path = true) :
    pattern <+: path := by
  unfold pathMatch at matched
  split_ifs at matched with empty tree
  · exact of_decide_eq_true matched
  · obtain rfl := of_decide_eq_true matched
    exact List.prefix_refl pattern

/-- Two patterns that match one path with the same length are the same pattern. -/
theorem eq_of_pathMatch_of_length_eq {k k' path : Bytes} (matched : pathMatch k path = true)
    (matched' : pathMatch k' path = true) (sameLength : k.length = k'.length) : k = k' :=
  (List.prefix_of_prefix_length_le (prefix_of_pathMatch matched) (prefix_of_pathMatch matched')
    (Nat.le_of_eq sameLength)).eq_of_length sameLength

/-- A pattern matches its own path. -/
theorem pathMatch_self {pattern : Bytes} (nonEmpty : pattern ≠ []) :
    pathMatch pattern pattern = true := by
  rw [pathMatch, if_neg nonEmpty]
  split_ifs <;> simp

/-- A pattern that does not end in `/` matches only itself. -/
theorem eq_of_pathMatch {pattern path : Bytes} (matched : pathMatch pattern path = true)
    (notTree : pattern.getLast? ≠ some slash) : pattern = path := by
  unfold pathMatch at matched
  split_ifs at matched
  exact of_decide_eq_true matched

/-- `/` matches every rooted path. -/
theorem pathMatch_root {path : Bytes} (rooted : path.head? = some slash) :
    pathMatch [slash] path = true := by
  obtain ⟨b, rest, rfl⟩ : ∃ b rest, path = b :: rest := by
    cases path with
    | nil => simp at rooted
    | cons b rest => exact ⟨b, rest, rfl⟩
  simp only [List.head?_cons, Option.some.injEq] at rooted
  subst rooted
  simp [pathMatch]

/-! ## The longest match -/

/-- `entry` is one of `visits`, matches `path`, and no entry of `visits` that matches is
longer. -/
def IsLongestMatch (path : Bytes) (visits : List (Bytes × MuxEntry α))
    (entry : Bytes × MuxEntry α) : Prop :=
  entry ∈ visits ∧ pathMatch entry.1 path = true ∧
    ∀ other ∈ visits, pathMatch other.1 path = true → other.1.length ≤ entry.1.length

/-- With each key visited once, there is at most one longest match. -/
theorem IsLongestMatch.unique {path : Bytes} {visits : List (Bytes × MuxEntry α)}
    (nodup : (visits.map Prod.fst).Nodup) {entry entry' : Bytes × MuxEntry α}
    (longest : IsLongestMatch path visits entry) (longest' : IsLongestMatch path visits entry') :
    entry = entry' := by
  obtain ⟨mem, matched, atLeast⟩ := longest
  obtain ⟨mem', matched', atLeast'⟩ := longest'
  have sameLength : entry.1.length = entry'.1.length :=
    le_antisymm (atLeast' entry mem matched) (atLeast entry' mem' matched')
  exact List.inj_on_of_nodup_map nodup mem mem'
    (eq_of_pathMatch_of_length_eq matched matched' sameLength)

theorem IsLongestMatch.of_perm {path : Bytes} {visits visits' : List (Bytes × MuxEntry α)}
    (perm : visits.Perm visits') {entry : Bytes × MuxEntry α}
    (longest : IsLongestMatch path visits entry) : IsLongestMatch path visits' entry := by
  obtain ⟨mem, matched, atLeast⟩ := longest
  exact ⟨perm.mem_iff.mp mem, matched, fun other mem' => atLeast other (perm.mem_iff.mpr mem')⟩

/-- The state of the loop after the entries `visited`: nothing, with `n = 0`, when none of them
matches; otherwise the handler and pattern of a longest match, with the length of its key. -/
def Found (path : Bytes) (visited : List (Bytes × MuxEntry α))
    (state : Option (Target α × Bytes) × Nat) : Prop :=
  (state = (none, 0) ∧ ∀ entry ∈ visited, pathMatch entry.1 path = false) ∨
    ∃ entry, IsLongestMatch path visited entry ∧
      state = (some (entry.2.h, entry.2.pattern), entry.1.length)

/-- One iteration keeps the state a longest match of the entries visited. -/
theorem found_matchStep {path : Bytes} {visited : List (Bytes × MuxEntry α)}
    {state : Option (Target α × Bytes) × Nat} (found : Found path visited state)
    (entry : Bytes × MuxEntry α) :
    Found path (visited ++ [entry]) (matchStep path state entry) := by
  by_cases matched : pathMatch entry.1 path = true
  · rcases found with ⟨rfl, none⟩ | ⟨best, ⟨mem, bestMatched, atLeast⟩, rfl⟩
    · -- the first match is taken
      refine .inr ⟨entry, ⟨by simp, matched, ?_⟩, by simp [matchStep, matched]⟩
      intro other mem' otherMatched
      rcases List.mem_append.mp mem' with mem' | mem'
      · simp [none other mem'] at otherMatched
      · rw [List.mem_singleton.mp mem']
    · by_cases longer : best.1.length < entry.1.length
      · -- a longer match replaces the best
        refine .inr ⟨entry, ⟨by simp, matched, ?_⟩, by simp [matchStep, matched, longer]⟩
        intro other mem' otherMatched
        rcases List.mem_append.mp mem' with mem' | mem'
        · exact Nat.le_trans (atLeast other mem' otherMatched) (Nat.le_of_lt longer)
        · rw [List.mem_singleton.mp mem']
      · refine .inr ⟨best, ⟨by simp [mem], bestMatched, ?_⟩, by simp [matchStep, matched, longer]⟩
        intro other mem' otherMatched
        rcases List.mem_append.mp mem' with mem' | mem'
        · exact atLeast other mem' otherMatched
        · rw [List.mem_singleton.mp mem']
          omega
  · -- an entry that does not match changes nothing
    have unmatched : pathMatch entry.1 path = false := by simpa using matched
    have same : matchStep path state entry = state := by simp [matchStep, unmatched]
    rw [same]
    rcases found with ⟨rfl, none⟩ | ⟨best, ⟨mem, bestMatched, atLeast⟩, rfl⟩
    · refine .inl ⟨rfl, fun other mem' => ?_⟩
      rcases List.mem_append.mp mem' with mem' | mem'
      · exact none other mem'
      · rw [List.mem_singleton.mp mem']
        exact unmatched
    · refine .inr ⟨best, ⟨by simp [mem], bestMatched, fun other mem' otherMatched => ?_⟩, rfl⟩
      rcases List.mem_append.mp mem' with mem' | mem'
      · exact atLeast other mem' otherMatched
      · rw [List.mem_singleton.mp mem'] at otherMatched
        simp [unmatched] at otherMatched

/-- The loop carries a longest match of what it has visited to the end of the entries. -/
theorem found_foldl {path : Bytes} :
    ∀ (visits : List (Bytes × MuxEntry α)) {visited : List (Bytes × MuxEntry α)}
      {state : Option (Target α × Bytes) × Nat}, Found path visited state →
      Found path (visited ++ visits) (visits.foldl (matchStep path) state)
  | [], visited, state, found => by simpa using found
  | entry :: visits, visited, state, found => by
      rw [List.foldl_cons, ← List.singleton_append, ← List.append_assoc]
      exact found_foldl visits (found_matchStep found entry)

/-- The whole loop ends on a longest match, or on nothing when no entry matches. -/
theorem found_matchLoop (path : Bytes) (visits : List (Bytes × MuxEntry α)) :
    Found path visits (visits.foldl (matchStep path) (none, 0)) := by
  have start : Found path [] ((none, 0) : Option (Target α × Bytes) × Nat) :=
    .inl ⟨rfl, by simp⟩
  simpa using found_foldl visits start

theorem matchLoop_eq_none_iff {visits : List (Bytes × MuxEntry α)} {path : Bytes} :
    matchLoop visits path = none ↔ ∀ entry ∈ visits, pathMatch entry.1 path = false := by
  rcases found_matchLoop path visits with ⟨state, none⟩ | ⟨best, ⟨mem, matched, -⟩, state⟩
  · simp only [matchLoop, state, true_iff]
    exact none
  · simp only [matchLoop, state, reduceCtorEq, false_iff, not_forall]
    exact ⟨best, mem, by simp [matched]⟩

/-- The loop returns the handler and pattern of the longest match, the one there is when each
key is visited once. -/
theorem matchLoop_eq_some_iff {visits : List (Bytes × MuxEntry α)}
    (nodup : (visits.map Prod.fst).Nodup) {path : Bytes} {found : Target α × Bytes} :
    matchLoop visits path = some found ↔
      ∃ entry, IsLongestMatch path visits entry ∧ found = (entry.2.h, entry.2.pattern) := by
  rcases found_matchLoop path visits with ⟨state, none⟩ | ⟨best, longest, state⟩
  · simp only [matchLoop, state, reduceCtorEq, false_iff, not_exists, not_and]
    rintro entry ⟨mem, matched, -⟩
    simp [none entry mem] at matched
  · simp only [matchLoop, state, Option.some.injEq]
    constructor
    · rintro rfl
      exact ⟨best, longest, rfl⟩
    · rintro ⟨entry, longest', rfl⟩
      rw [longest.unique nodup longest']

/-- The order in which `range` visits the entries does not change the match. -/
theorem matchLoop_perm {visits visits' : List (Bytes × MuxEntry α)} (perm : visits.Perm visits')
    (nodup : (visits.map Prod.fst).Nodup) (path : Bytes) :
    matchLoop visits path = matchLoop visits' path := by
  have nodup' : (visits'.map Prod.fst).Nodup := (perm.map Prod.fst).nodup_iff.mp nodup
  cases result : matchLoop visits path with
  | none =>
      rw [matchLoop_eq_none_iff] at result
      symm
      rw [matchLoop_eq_none_iff]
      exact fun entry mem => result entry (perm.mem_iff.mpr mem)
  | some found =>
      obtain ⟨entry, longest, rfl⟩ := (matchLoop_eq_some_iff nodup).mp result
      symm
      exact (matchLoop_eq_some_iff nodup').mpr ⟨entry, longest.of_perm perm, rfl⟩

end Http

/-! ## The mux's lookup -/

namespace ServeMux

variable {α : Type u} {mux : ServeMux α}

/-- Any order of the entries gives the handler of `matchHandler`. -/
theorem matchLoop_eq_matchHandler {visits : List (Bytes × MuxEntry α)}
    (perm : visits.Perm mux.m.pairs) (path : Bytes) :
    Http.matchLoop visits path = mux.matchHandler path :=
  Http.matchLoop_perm perm ((perm.map Prod.fst).nodup_iff.mpr mux.m.nodup_keys_pairs) path

/-- `mux.match(path)` finds the entry of the longest pattern in the map that matches. -/
theorem matchHandler_eq_some_iff {path : Bytes} {found : Target α × Bytes} :
    mux.matchHandler path = some found ↔
      ∃ k e, mux.m.lookup k = some e ∧ Http.pathMatch k path = true ∧
        (∀ k' e', mux.m.lookup k' = some e' → Http.pathMatch k' path = true →
          k'.length ≤ k.length) ∧
        found = (e.h, e.pattern) := by
  rw [matchHandler, Http.matchLoop_eq_some_iff mux.m.nodup_keys_pairs]
  constructor
  · rintro ⟨⟨k, e⟩, ⟨mem, matched, atLeast⟩, rfl⟩
    refine ⟨k, e, Map.mem_pairs_iff.mp mem, matched, fun k' e' stored => ?_, rfl⟩
    exact atLeast (k', e') (Map.mem_pairs_iff.mpr stored)
  · rintro ⟨k, e, stored, matched, atLeast, rfl⟩
    refine ⟨(k, e), ⟨Map.mem_pairs_iff.mpr stored, matched, fun other mem => ?_⟩, rfl⟩
    exact atLeast other.1 other.2 (Map.mem_pairs_iff.mp mem)

/-- A path that is clean, or any path of a `CONNECT`, goes to the handler for the host and
path. -/
theorem handler_of_clean {r : Request}
    (clean : r.method = utf8 "CONNECT" ∨ Http.cleanPath r.url.path = r.url.path) :
    mux.handler r = mux.handlerAt r.host r.url.path := by
  have notRedirected : ¬(r.method ≠ utf8 "CONNECT" ∧ Http.cleanPath r.url.path ≠ r.url.path) := by
    rintro ⟨notConnect, unclean⟩
    rcases clean with connect | clean
    · exact notConnect connect
    · exact unclean clean
  simp only [handler, notRedirected, if_false]

/-- A path that is not clean is redirected to its cleaned form, except for `CONNECT`. -/
theorem handler_of_unclean {r : Request} (notConnect : r.method ≠ utf8 "CONNECT")
    (unclean : Http.cleanPath r.url.path ≠ r.url.path) :
    (mux.handler r).1 = .redirectClean { r.url with path := Http.cleanPath r.url.path } := by
  simp [handler, notConnect, unclean]

/-- A request that is not the target `*`, with a clean path or the method `CONNECT`, is served
with the handler for its host and path. -/
theorem serveHTTP_of_clean (mux : ServeMux α) {requestURI : Bytes} {r : Request}
    (notStar : requestURI ≠ utf8 "*")
    (clean : r.method = utf8 "CONNECT" ∨ Http.cleanPath r.url.path = r.url.path) :
    mux.serveHTTP requestURI r = .serve (mux.handlerAt r.host r.url.path).1 := by
  rw [serveHTTP, if_neg notStar, handler_of_clean clean]

/-- A request reaches a registered handler only when it is not the target `*` and its path is
clean or its method `CONNECT`, and the handler is the one for its host and path. -/
theorem serveHTTP_eq_handler (mux : ServeMux α) {requestURI : Bytes} {r : Request} {h : α}
    (served : mux.serveHTTP requestURI r = .serve (.handler h)) :
    requestURI ≠ utf8 "*" ∧
      (r.method = utf8 "CONNECT" ∨ Http.cleanPath r.url.path = r.url.path) ∧
      (mux.handlerAt r.host r.url.path).1 = .handler h := by
  unfold serveHTTP at served
  split_ifs at served with star
  simp only [Dispatch.serve.injEq] at served
  -- an unclean path would have been redirected
  have clean : r.method = utf8 "CONNECT" ∨ Http.cleanPath r.url.path = r.url.path := by
    by_contra unclean
    rw [not_or] at unclean
    rw [handler_of_unclean unclean.1 unclean.2] at served
    simp at served
  refine ⟨star, clean, ?_⟩
  rw [← handler_of_clean clean]
  exact served

/-- Without patterns that name a host, the host plays no part. -/
theorem handlerAt_of_not_hosts (noHosts : mux.hosts = false) (host path : Bytes) :
    mux.handlerAt host path = (mux.matchHandler path).getD (.notFound, []) := by
  simp [handlerAt, noHosts]

/-! ## Registering patterns -/

/-- What `Handle` stores under each key: the handler at its pattern, the redirect at
`/tree` for `/tree/` unless that is explicit, and the old entry elsewhere. -/
theorem lookup_handle {pattern : Bytes} {h : α} {mux' : ServeMux α}
    (registered : mux.handle pattern h = .ok mux') (k : Bytes) :
    mux'.m.lookup k =
      if k = pattern then some ⟨true, .handler h, pattern⟩
      else if pattern.getLast? = some slash ∧ k = pattern.dropLast ∧
          ¬(mux.m.lookup k).any (·.explicit) then
        some ⟨false, .redirectTree (Http.patternPath pattern), pattern⟩
      else mux.m.lookup k := by
  unfold handle at registered
  by_cases empty : pattern = []
  · simp [empty] at registered
  by_cases explicit : (mux.m.lookup pattern).any (·.explicit)
  · simp [empty, explicit] at registered
  -- the key cut off a pattern is never the pattern itself
  have shorter : pattern.dropLast ≠ pattern := by
    intro same
    have lengths := congrArg List.length same
    have positive : 0 < pattern.length := List.length_pos_iff.mpr empty
    simp only [List.length_dropLast] at lengths
    omega
  have treeLookup :
      (mux.m.insert pattern ⟨true, .handler h, pattern⟩).lookup pattern.dropLast =
        mux.m.lookup pattern.dropLast := AList.lookup_insert_ne shorter
  simp only [empty, explicit, if_false, treeLookup, Bool.false_eq_true] at registered
  by_cases atPattern : k = pattern
  · subst atPattern
    split_ifs at registered <;>
      simp only [Except.ok.injEq] at registered <;> subst registered <;>
      simp [AList.lookup_insert_ne (Ne.symm shorter)]
  by_cases tree : pattern.getLast? = some slash ∧ ¬(mux.m.lookup pattern.dropLast).any (·.explicit)
  · rw [if_pos tree, Except.ok.injEq] at registered
    subst registered
    by_cases atTree : k = pattern.dropLast
    · subst atTree
      simp [tree, atPattern]
    · simp [atPattern, atTree, AList.lookup_insert_ne atTree, AList.lookup_insert_ne atPattern]
  · rw [if_neg tree, Except.ok.injEq] at registered
    subst registered
    simp only [atPattern, if_false, AList.lookup_insert_ne atPattern]
    rw [if_neg]
    rintro ⟨last, rfl, notExplicit⟩
    exact tree ⟨last, notExplicit⟩

/-- `Handle` succeeds exactly for a non-empty pattern not yet registered explicitly. -/
theorem handle_ok_iff {pattern : Bytes} {h : α} :
    (∃ mux', mux.handle pattern h = .ok mux') ↔
      pattern ≠ [] ∧ ¬(mux.m.lookup pattern).any (·.explicit) := by
  constructor
  · rintro ⟨mux', registered⟩
    unfold handle at registered
    by_cases empty : pattern = []
    · simp [empty] at registered
    by_cases explicit : (mux.m.lookup pattern).any (·.explicit)
    · simp [empty, explicit] at registered
    exact ⟨empty, explicit⟩
  · rintro ⟨nonEmpty, notExplicit⟩
    unfold handle
    rw [if_neg nonEmpty, if_neg notExplicit]
    dsimp only
    split_ifs <;> exact ⟨_, rfl⟩

/-- The pattern just registered holds its handler. -/
theorem lookup_handle_self {pattern : Bytes} {h : α} {mux' : ServeMux α}
    (registered : mux.handle pattern h = .ok mux') :
    mux'.m.lookup pattern = some ⟨true, .handler h, pattern⟩ := by
  rw [lookup_handle registered, if_pos rfl]

/-- An explicit registration is never replaced: registering it again fails, and the redirect
of a subtree does not go over it. -/
theorem lookup_handle_of_explicit {pattern : Bytes} {h : α} {mux' : ServeMux α}
    (registered : mux.handle pattern h = .ok mux') {k : Bytes} {e : MuxEntry α}
    (stored : mux.m.lookup k = some e) (explicit : e.explicit = true) :
    mux'.m.lookup k = some e := by
  have notPattern : k ≠ pattern := by
    rintro rfl
    obtain ⟨-, notExplicit⟩ := handle_ok_iff.mp ⟨mux', registered⟩
    simp [stored, explicit] at notExplicit
  rw [lookup_handle registered, if_neg notPattern, if_neg (by simp [stored, explicit]), stored]

/-- `Handle` only adds entries. -/
theorem isSome_lookup_handle {pattern : Bytes} {h : α} {mux' : ServeMux α}
    (registered : mux.handle pattern h = .ok mux') {k : Bytes}
    (present : (mux.m.lookup k).isSome) : (mux'.m.lookup k).isSome := by
  rw [lookup_handle registered]
  split_ifs <;> simp [present]

/-- After `/tree/` is registered, `/tree` holds an entry: the redirect, or an explicit one. -/
theorem isSome_lookup_handle_tree {pattern : Bytes} {h : α} {mux' : ServeMux α}
    (registered : mux.handle pattern h = .ok mux') (tree : pattern.getLast? = some slash) :
    (mux'.m.lookup pattern.dropLast).isSome := by
  rw [lookup_handle registered]
  split_ifs with atPattern redirected
  · rfl
  · rfl
  · simp only [tree, true_and] at redirected
    cases stored : mux.m.lookup pattern.dropLast with
    | none => simp [stored] at redirected
    | some e => rfl

/-- Every entry after `Handle` is the new pattern's, the redirect of its subtree, or an old
one. -/
theorem lookup_handle_cases {pattern : Bytes} {h : α} {mux' : ServeMux α}
    (registered : mux.handle pattern h = .ok mux') {k : Bytes} {e : MuxEntry α}
    (stored : mux'.m.lookup k = some e) :
    (k = pattern ∧ e = ⟨true, .handler h, pattern⟩) ∨
      (pattern.getLast? = some slash ∧ k = pattern.dropLast ∧
        e = ⟨false, .redirectTree (Http.patternPath pattern), pattern⟩) ∨
      mux.m.lookup k = some e := by
  rw [lookup_handle registered] at stored
  split_ifs at stored with atPattern redirected
  · exact .inl ⟨atPattern, (Option.some.inj stored).symm⟩
  · exact .inr (.inl ⟨redirected.1, redirected.2.1, (Option.some.inj stored).symm⟩)
  · exact .inr (.inr stored)

theorem hosts_handle {pattern : Bytes} {h : α} {mux' : ServeMux α}
    (registered : mux.handle pattern h = .ok mux') :
    mux'.hosts = (mux.hosts || pattern.head? != some slash) := by
  unfold handle at registered
  dsimp only at registered
  split_ifs at registered <;>
    simp only [Except.ok.injEq] at registered <;> rw [← registered]

/-! ## Registering a list of patterns -/

section HandleAll

variable {registrations : List (Bytes × α)} {mux' : ServeMux α}

theorem handleAll_nil {mux : ServeMux α} : mux.handleAll [] = .ok mux' ↔ mux = mux' := by
  simp [handleAll, pure, Except.pure]

theorem handleAll_cons {mux : ServeMux α} {pattern : Bytes} {h : α} {rest : List (Bytes × α)} :
    mux.handleAll ((pattern, h) :: rest) = .ok mux' ↔
      ∃ mid, mux.handle pattern h = .ok mid ∧ mid.handleAll rest = .ok mux' := by
  rw [handleAll, List.foldlM_cons, bind_eq_ok_iff]
  rfl

/-- Explicit entries survive every later registration. -/
theorem lookup_handleAll_of_explicit :
    ∀ {registrations : List (Bytes × α)} {mux : ServeMux α},
      mux.handleAll registrations = .ok mux' → ∀ {k : Bytes} {e : MuxEntry α},
        mux.m.lookup k = some e → e.explicit = true → mux'.m.lookup k = some e
  | [], mux, built, k, e, stored, _ => by
      rw [← handleAll_nil.mp built]
      exact stored
  | (pattern, h) :: rest, mux, built, k, e, stored, explicit => by
      obtain ⟨mid, registered, builtRest⟩ := handleAll_cons.mp built
      exact lookup_handleAll_of_explicit builtRest
        (lookup_handle_of_explicit registered stored explicit) explicit

/-- Every pattern registered holds its handler at the end. -/
theorem lookup_handleAll_of_mem :
    ∀ {registrations : List (Bytes × α)} {mux : ServeMux α},
      mux.handleAll registrations = .ok mux' → ∀ {pattern : Bytes} {h : α},
        (pattern, h) ∈ registrations → mux'.m.lookup pattern = some ⟨true, .handler h, pattern⟩
  | [], _, _, _, _, mem => by simp at mem
  | (first, h₀) :: rest, mux, built, pattern, h, mem => by
      obtain ⟨mid, registered, builtRest⟩ := handleAll_cons.mp built
      rcases List.mem_cons.mp mem with same | mem
      · simp only [Prod.mk.injEq] at same
        obtain ⟨rfl, rfl⟩ := same
        exact lookup_handleAll_of_explicit builtRest (lookup_handle_self registered) rfl
      · exact lookup_handleAll_of_mem builtRest mem

/-- Registering only adds entries. -/
theorem isSome_lookup_handleAll :
    ∀ {registrations : List (Bytes × α)} {mux : ServeMux α},
      mux.handleAll registrations = .ok mux' → ∀ {k : Bytes},
        (mux.m.lookup k).isSome → (mux'.m.lookup k).isSome
  | [], mux, built, k, present => by
      rw [← handleAll_nil.mp built]
      exact present
  | (pattern, h) :: rest, mux, built, k, present => by
      obtain ⟨mid, registered, builtRest⟩ := handleAll_cons.mp built
      exact isSome_lookup_handleAll builtRest (isSome_lookup_handle registered present)

/-- The key of a registered subtree's redirect holds an entry at the end. -/
theorem isSome_lookup_handleAll_tree :
    ∀ {registrations : List (Bytes × α)} {mux : ServeMux α},
      mux.handleAll registrations = .ok mux' → ∀ {pattern : Bytes},
        pattern ∈ registrations.map Prod.fst → pattern.getLast? = some slash →
          (mux'.m.lookup pattern.dropLast).isSome
  | [], _, _, _, mem, _ => by simp at mem
  | (first, h) :: rest, mux, built, pattern, mem, tree => by
      obtain ⟨mid, registered, builtRest⟩ := handleAll_cons.mp built
      rcases List.mem_cons.mp mem with rfl | mem
      · exact isSome_lookup_handleAll builtRest (isSome_lookup_handle_tree registered tree)
      · exact isSome_lookup_handleAll_tree builtRest mem tree

/-- Every entry at the end is a registered pattern with its handler, the redirect of a
registered subtree, or an entry from before. -/
theorem lookup_handleAll_cases :
    ∀ {registrations : List (Bytes × α)} {mux : ServeMux α},
      mux.handleAll registrations = .ok mux' → ∀ {k : Bytes} {e : MuxEntry α},
        mux'.m.lookup k = some e →
          (∃ h, (k, h) ∈ registrations ∧ e = ⟨true, .handler h, k⟩) ∨
          (∃ pattern ∈ registrations.map Prod.fst, pattern.getLast? = some slash ∧
            k = pattern.dropLast ∧ e = ⟨false, .redirectTree (Http.patternPath pattern), pattern⟩) ∨
          mux.m.lookup k = some e
  | [], mux, built, k, e, stored => by
      rw [← handleAll_nil.mp built] at stored
      exact .inr (.inr stored)
  | (pattern, h) :: rest, mux, built, k, e, stored => by
      obtain ⟨mid, registered, builtRest⟩ := handleAll_cons.mp built
      rcases lookup_handleAll_cases builtRest stored with ⟨h', mem, rfl⟩ | ⟨tree, mem, rest'⟩ | before
      · exact .inl ⟨h', List.mem_cons_of_mem _ mem, rfl⟩
      · exact .inr (.inl ⟨tree, List.mem_cons_of_mem _ mem, rest'⟩)
      · rcases lookup_handle_cases registered before with ⟨rfl, rfl⟩ | ⟨last, rfl, redirect⟩ | old
        · exact .inl ⟨h, List.mem_cons_self, rfl⟩
        · exact .inr (.inl ⟨pattern, List.mem_cons_self, last, rfl, redirect⟩)
        · exact .inr (.inr old)

/-- `Handle` succeeds for each registration when every pattern is non-empty, registered once, and
not explicit in the mux to begin with. -/
theorem handleAll_ok :
    ∀ {registrations : List (Bytes × α)} {mux : ServeMux α},
      (∀ pattern ∈ registrations.map Prod.fst, pattern ≠ []) →
      (registrations.map Prod.fst).Nodup →
      (∀ pattern ∈ registrations.map Prod.fst, ¬(mux.m.lookup pattern).any (·.explicit)) →
      ∃ mux', mux.handleAll registrations = .ok mux'
  | [], mux, _, _, _ => ⟨mux, handleAll_nil.mpr rfl⟩
  | (pattern, h) :: rest, mux, nonEmpty, nodup, fresh => by
      obtain ⟨mid, registered⟩ := (handle_ok_iff (h := h)).mpr
        ⟨nonEmpty pattern List.mem_cons_self, fresh pattern List.mem_cons_self⟩
      rw [List.map_cons, List.nodup_cons] at nodup
      -- after the first registration the others are still not explicit
      have fresh' : ∀ p ∈ rest.map Prod.fst, ¬(mid.m.lookup p).any (·.explicit) := by
        intro p mem
        cases stored : mid.m.lookup p with
        | none => simp
        | some e =>
            rcases lookup_handle_cases registered stored with ⟨rfl, -⟩ | ⟨-, -, rfl⟩ | old
            · exact absurd mem nodup.1
            · simp
            · rw [← old]
              exact fresh p (List.mem_cons_of_mem _ mem)
      obtain ⟨mux', built⟩ :=
        handleAll_ok (fun p mem => nonEmpty p (List.mem_cons_of_mem _ mem)) nodup.2 fresh'
      exact ⟨mux', handleAll_cons.mpr ⟨mid, registered, built⟩⟩

/-- Rooted patterns name no host. -/
theorem hosts_handleAll :
    ∀ {registrations : List (Bytes × α)} {mux : ServeMux α},
      mux.handleAll registrations = .ok mux' →
        (∀ pattern ∈ registrations.map Prod.fst, pattern.head? = some slash) →
          mux'.hosts = mux.hosts
  | [], mux, built, _ => by
      rw [← handleAll_nil.mp built]
  | (pattern, h) :: rest, mux, built, rooted => by
      obtain ⟨mid, registered, builtRest⟩ := handleAll_cons.mp built
      rw [hosts_handleAll builtRest fun p mem => rooted p (List.mem_cons_of_mem _ mem),
        hosts_handle registered, rooted pattern List.mem_cons_self]
      simp

end HandleAll

/-! ## The handler a path gets -/

section Routing

variable {registrations : List (Bytes × α)} {mux : ServeMux α}

/-- `pattern` matches `path`, and no registered pattern, nor the redirect key of a registered
subtree, that matches `path` is longer. -/
def LongestPattern (registrations : List (Bytes × α)) (path pattern : Bytes) : Prop :=
  Http.pathMatch pattern path = true ∧
    ∀ k ∈ registrations.map Prod.fst,
      (Http.pathMatch k path = true → k.length ≤ pattern.length) ∧
      (k.getLast? = some slash → Http.pathMatch k.dropLast path = true →
        k.dropLast.length ≤ pattern.length)

/-- A pattern is the longest match for its own path: every key that matches a path begins it. -/
theorem longestPattern_self {pattern : Bytes} (nonEmpty : pattern ≠ []) :
    LongestPattern registrations pattern pattern :=
  ⟨Http.pathMatch_self nonEmpty, fun _ _ =>
    ⟨fun matched => (Http.prefix_of_pathMatch matched).length_le,
      fun _ matched => (Http.prefix_of_pathMatch matched).length_le⟩⟩

/-- In a mux built from rooted patterns, a path is served by a registered handler exactly when a
pattern registered with that handler is the longest match for the path. -/
theorem handlerAt_eq_handler_iff (built : empty.handleAll registrations = .ok mux)
    (rooted : ∀ pattern ∈ registrations.map Prod.fst, pattern.head? = some slash)
    {h : α} (host path : Bytes) :
    (mux.handlerAt host path).1 = .handler h ↔
      ∃ pattern, (pattern, h) ∈ registrations ∧ LongestPattern registrations path pattern := by
  rw [handlerAt_of_not_hosts (hosts_handleAll built rooted)]
  constructor
  · intro routed
    cases found : mux.matchHandler path with
    | none => simp [found] at routed
    | some x =>
        obtain ⟨k, e, stored, matched, longest, rfl⟩ := matchHandler_eq_some_iff.mp found
        simp only [found, Option.getD_some] at routed
        -- the entry found is the handler's own registration, not the redirect of a subtree
        rcases lookup_handleAll_cases built stored with ⟨h', mem, rfl⟩ | ⟨p, -, -, -, rfl⟩ | old
        · simp only [Target.handler.injEq] at routed
          subst routed
          refine ⟨k, mem, matched, fun k' mem' => ⟨fun matched' => ?_, fun tree matched' => ?_⟩⟩
          · obtain ⟨⟨k'', h''⟩, pair, rfl⟩ := List.mem_map.mp mem'
            exact longest _ _ (lookup_handleAll_of_mem built pair) matched'
          · obtain ⟨e', stored'⟩ :=
              Option.isSome_iff_exists.mp (isSome_lookup_handleAll_tree built mem' tree)
            exact longest _ e' stored' matched'
        · simp at routed
        · simp [empty] at old
  · rintro ⟨pattern, registered, matched, longest⟩
    have found : mux.matchHandler path = some (.handler h, pattern) := by
      refine matchHandler_eq_some_iff.mpr
        ⟨pattern, _, lookup_handleAll_of_mem built registered, matched, ?_, rfl⟩
      -- an entry at the end is a registered pattern or the redirect of a registered subtree
      intro k e stored matched'
      rcases lookup_handleAll_cases built stored with
        ⟨h', mem, rfl⟩ | ⟨p, mem, tree, rfl, rfl⟩ | old
      · exact (longest k (List.mem_map_of_mem mem)).1 matched'
      · exact (longest p mem).2 tree matched'
      · simp [empty] at old
    rw [found]
    rfl

/-- A registered pattern serves its own path. -/
theorem handlerAt_of_mem (built : empty.handleAll registrations = .ok mux)
    (rooted : ∀ pattern ∈ registrations.map Prod.fst, pattern.head? = some slash)
    {pattern : Bytes} {h : α} (registered : (pattern, h) ∈ registrations) (host : Bytes) :
    (mux.handlerAt host pattern).1 = .handler h := by
  have nonEmpty : pattern ≠ [] := by
    rintro rfl
    simpa using rooted [] (List.mem_map_of_mem (f := Prod.fst) registered)
  exact (handlerAt_eq_handler_iff built rooted host pattern).mpr
    ⟨pattern, registered, longestPattern_self nonEmpty⟩

end Routing

/-! ## The root pattern -/

/-- A path that of these registrations only the root pattern `/` matches: rooted, and matched by
no other pattern and by no redirect of a subtree other than `/`. -/
def RootPath (registrations : List (Bytes × α)) (path : Bytes) : Prop :=
  path.head? = some slash ∧
    ∀ pattern ∈ registrations.map Prod.fst, pattern ≠ [slash] →
      Http.pathMatch pattern path = false ∧
        (pattern.getLast? = some slash → pattern.dropLast ≠ [slash] →
          Http.pathMatch pattern.dropLast path = false)

instance (registrations : List (Bytes × α)) (path : Bytes) :
    Decidable (RootPath registrations path) :=
  inferInstanceAs (Decidable (_ ∧ _))

theorem ne_nil_of_pathMatch {pattern path : Bytes} (matched : Http.pathMatch pattern path = true) :
    pattern ≠ [] := by
  rintro rfl
  simp [Http.pathMatch] at matched

/-- A rooted key no longer than one byte is `/`. -/
theorem eq_root_of_length_le_one {k : Bytes} (rooted : k.head? = some slash)
    (short : k.length ≤ 1) : k = [slash] := by
  match k, rooted, short with
  | [b], rooted, _ => simpa using rooted

/-- A subtree's redirect key that holds anything is rooted, as its pattern is. -/
theorem head?_dropLast_of_ne_nil {p : Bytes} (nonEmpty : p.dropLast ≠ []) :
    p.dropLast.head? = p.head? := by
  have longer : 1 < p.length := by
    have := List.length_pos_iff.mpr nonEmpty
    simp only [List.length_dropLast] at this
    omega
  rw [List.head?_dropLast, if_pos longer]

/-- In a mux built from rooted patterns, the handler registered at `/`, and only there, serves
exactly the paths that only `/` matches. -/
theorem handlerAt_eq_root_iff {registrations : List (Bytes × α)} {mux : ServeMux α}
    (built : empty.handleAll registrations = .ok mux)
    (rooted : ∀ pattern ∈ registrations.map Prod.fst, pattern.head? = some slash)
    {root : α} (registeredRoot : ([slash], root) ∈ registrations)
    (onlyRoot : ∀ pattern, (pattern, root) ∈ registrations → pattern = [slash])
    (host path : Bytes) :
    (mux.handlerAt host path).1 = .handler root ↔ RootPath registrations path := by
  rw [handlerAt_eq_handler_iff built rooted host path]
  constructor
  · rintro ⟨pattern, registered, matched, longest⟩
    obtain rfl := onlyRoot pattern registered
    -- a rooted key that matches is no longer than `/`, so it is `/`
    refine ⟨?_, fun p mem notRoot => ⟨?_, fun tree notRootTree => ?_⟩⟩
    · obtain ⟨suffix, rfl⟩ := Http.prefix_of_pathMatch matched
      rfl
    · cases matched' : Http.pathMatch p path
      · rfl
      · exact absurd (eq_root_of_length_le_one (rooted p mem) ((longest p mem).1 matched'))
          notRoot
    · cases matched' : Http.pathMatch p.dropLast path
      · rfl
      · have rootedTree : p.dropLast.head? = some slash := by
          rw [head?_dropLast_of_ne_nil (ne_nil_of_pathMatch matched')]
          exact rooted p mem
        exact absurd (eq_root_of_length_le_one rootedTree ((longest p mem).2 tree matched'))
          notRootTree
  · rintro ⟨pathRooted, others⟩
    -- every other key that holds an entry fails to match, so `/` is the longest match
    refine ⟨[slash], registeredRoot, Http.pathMatch_root pathRooted,
      fun k mem => ⟨fun matched => ?_, fun tree matched => ?_⟩⟩
    · by_cases atRoot : k = [slash]
      · rw [atRoot]
      · simp [(others k mem atRoot).1] at matched
    · by_cases atRoot : k.dropLast = [slash]
      · rw [atRoot]
      · by_cases isRoot : k = [slash]
        · subst isRoot
          simp [Http.pathMatch] at matched
        · simp [(others k mem isRoot).2 tree atRoot] at matched

end ServeMux

end Go
