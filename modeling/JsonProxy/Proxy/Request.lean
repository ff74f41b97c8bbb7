import JsonProxy.Types
import JsonProxy.Go.Http
import JsonProxy.Go.Json

/-!
# The request sent upstream

`Proxy.request` copies the incoming request, points it at the upstream, presents the upstream API
key as basic credentials, strips hop-by-hop fields and appends the client to
`X-Forwarded-For`.  Three details of the source decide what reaches the upstream:

* the URL is `UpstreamURL.ResolveReference(r.URL)`, and a request target with a scheme of its
  own resolves to itself;
* `*outreq = *r` copies the header map by reference, so `SetBasicAuth` writes into the client's
  map, and the first hop-by-hop field found replaces it by a copy made with `copyHeader`, which
  skips names whose value list is empty;
* a hop-by-hop field is found with `Header.Get`, which reads only the first value: a field
  whose first value is empty stays.

`Runtime` collects what the proxy takes from Go's libraries and runtime: the codecs, the host and
port splitter, and the order of each `range` over a map.
-/

namespace JsonProxy

open Go Go.Ascii

/-- `Proxy`: how to open a proxy key, the roles by name, the upstream, and the round tripper
used to reach it. -/
structure Proxy where
  keyOpener : Bytes → Except Error Key
  roles : Map Bytes Role
  upstreamURL : URL
  transport : RoundTripper

/-- What the handlers take from the Go runtime and libraries: `base64.StdEncoding`,
`encoding/json`, `net.SplitHostPort`, and the order in which `range` visits the entries of a
role and of a header map. -/
structure Runtime where
  base64 : Base64
  json : Json.Codec
  splitHostPort : Bytes → Option (Bytes × Bytes)
  roleOrder : Schedule Bytes Rule
  headerOrder : Schedule Bytes (List Bytes)

/-- `hopHeaders`. -/
def hopHeaders : List Bytes :=
  [utf8 "Connection", utf8 "Keep-Alive", utf8 "Proxy-Authenticate", utf8 "Proxy-Authorization",
    utf8 "Te", utf8 "Trailers", utf8 "Transfer-Encoding", utf8 "Upgrade", utf8 "Content-Length"]

/-- The `X-Forwarded-For` field name. -/
def xForwardedFor : Bytes := utf8 "X-Forwarded-For"

/-! ## `copyHeader` -/

/-- The inner loop of `copyHeader`: `dst.Add(k, v)` for each value of one name. -/
def addValues (dst : Header) (k : Bytes) (vv : List Bytes) : Header :=
  vv.foldl (fun dst v => dst.add k v) dst

/-- `copyHeader(dst, src)`, as the `n`-th `range` of a run visits `src`. -/
def copyHeader (order : Schedule Bytes (List Bytes)) (n : Nat) (dst src : Header) : Header :=
  (order n src).foldl (fun dst entry => addValues dst entry.1 entry.2) dst

theorem lookup_addValues (dst : Header) (k : Bytes) (vv : List Bytes) (k' : Bytes) :
    (addValues dst k vv).lookup k' =
      if k' = k ∧ vv ≠ [] then some ((dst.lookup k).getD [] ++ vv) else dst.lookup k' := by
  induction vv generalizing dst with
  | nil => simp [addValues]
  | cons v vs ih =>
      have step : addValues dst k (v :: vs) = addValues (dst.add k v) k vs := rfl
      rw [step, ih]
      by_cases same : k' = k
      · subst same
        cases vs <;> simp
      · simp [same]

/-- Entries for other names leave a name's values alone. -/
theorem lookup_foldl_addValues_of_not_mem {visits : List (Bytes × List Bytes)} {k : Bytes}
    (notMem : k ∉ visits.map Prod.fst) (dst : Header) :
    (visits.foldl (fun dst entry => addValues dst entry.1 entry.2) dst).lookup k =
      dst.lookup k := by
  induction visits generalizing dst with
  | nil => rfl
  | cons entry visits ih =>
      rw [List.map_cons, List.mem_cons, not_or] at notMem
      rw [List.foldl_cons, ih notMem.2, lookup_addValues]
      simp [notMem.1]

/-- When each name comes once, a name's values after the loop are those its own entry added. -/
theorem lookup_foldl_addValues_of_mem {visits : List (Bytes × List Bytes)}
    (nodup : (visits.map Prod.fst).Nodup) {k : Bytes} {vv : List Bytes} (mem : (k, vv) ∈ visits)
    (dst : Header) :
    (visits.foldl (fun dst entry => addValues dst entry.1 entry.2) dst).lookup k =
      (addValues dst k vv).lookup k := by
  induction visits generalizing dst with
  | nil => cases mem
  | cons entry visits ih =>
      rw [List.map_cons, List.nodup_cons] at nodup
      rw [List.foldl_cons]
      rcases List.mem_cons.mp mem with rfl | mem
      · exact lookup_foldl_addValues_of_not_mem nodup.1 _
      · have ne : k ≠ entry.1 := by
          rintro rfl
          exact nodup.1 (List.mem_map.mpr ⟨_, mem, rfl⟩)
        rw [ih nodup.2 mem, lookup_addValues, lookup_addValues, lookup_addValues]
        simp [ne]

variable {order : Schedule Bytes (List Bytes)}

/-- `copyHeader` into an empty map, in any order `range` may take: every name with values,
with its values in order, and no name whose value list is empty. -/
theorem lookup_copyHeader (valid : order.Valid) (n : Nat) (src : Header) (k : Bytes) :
    (copyHeader order n ∅ src).lookup k = (src.lookup k).filter fun vv => !vv.isEmpty := by
  unfold copyHeader
  cases found : src.lookup k with
  | none =>
      have notMem : k ∉ (order n src).map Prod.fst := by
        intro mem
        obtain ⟨⟨k', vv⟩, pairMem, rfl⟩ := List.mem_map.mp mem
        rw [valid.mem_iff] at pairMem
        simp [found] at pairMem
      rw [lookup_foldl_addValues_of_not_mem notMem]
      simp
  | some vv =>
      rw [lookup_foldl_addValues_of_mem (valid.nodup_keys n src) ((valid.mem_iff n).mpr found),
        lookup_addValues]
      cases vv <;> simp [Option.filter]

/-- A copy reads the same first values. -/
theorem get_copyHeader (valid : order.Valid) (n : Nat) (src : Header) (k : Bytes) :
    (copyHeader order n ∅ src).get k = src.get k := by
  unfold Header.get
  rw [lookup_copyHeader valid]
  rcases src.lookup k with _ | _ | ⟨v, vs⟩ <;> simp [Option.filter]

/-! ## Hop-by-hop fields -/

/-- The loop over `hopHeaders` in `Proxy.request`.  Until `copiedHeaders` is set, the header is
still the client's own map, which `SetBasicAuth` has written into; the first field found
replaces it by a copy of that map. -/
def removeHopHeaders (order : Schedule Bytes (List Bytes)) :
    List Bytes → Bool → Header → Header
  | [], _, header => header
  | h :: hs, copiedHeaders, header =>
    if header.get h ≠ [] then
      let header := if copiedHeaders then header else copyHeader order 0 ∅ header
      removeHopHeaders order hs true (header.del h)
    else removeHopHeaders order hs copiedHeaders header

/-- What the hop-by-hop loop leaves: a listed name is gone exactly when its first value is not
empty; and once a copy has been made, every name with an empty value list is gone too. -/
theorem lookup_removeHopHeaders (valid : order.Valid) (k : Bytes) :
    ∀ (hs : List Bytes) (copiedHeaders : Bool) (header : Header),
      (removeHopHeaders order hs copiedHeaders header).lookup k =
        if k ∈ hs ∧ header.get k ≠ [] then none
        else if copiedHeaders = false ∧ ∃ h ∈ hs, header.get h ≠ [] then
          (header.lookup k).filter fun vv => !vv.isEmpty
        else header.lookup k
  | [], _, _ => by simp [removeHopHeaders]
  | h :: hs, copiedHeaders, header => by
      by_cases absent : header.get h = []
      · -- the field is not found: the loop goes on with the same map
        have sameDel : (k ∈ h :: hs ∧ header.get k ≠ []) ↔ (k ∈ hs ∧ header.get k ≠ []) := by
          by_cases same : k = h
          · subst same
            simp [absent]
          · simp [same]
        have sameCopy : (∃ h' ∈ h :: hs, header.get h' ≠ []) ↔ ∃ h' ∈ hs, header.get h' ≠ [] := by
          simp [absent]
        rw [removeHopHeaders, if_neg (not_not.mpr absent), lookup_removeHopHeaders valid k hs]
        simp only [sameDel, sameCopy]
      · -- the field is found: the map is copied if it was not yet, and the field deleted
        rw [removeHopHeaders, if_pos absent, lookup_removeHopHeaders valid k hs]
        by_cases same : k = h
        · subst same
          simp [absent]
        · cases copiedHeaders with
          | true => simp [same]
          | false => simp [same, get_copyHeader valid, lookup_copyHeader valid, absent]

/-! ## The outgoing request -/

/-- The `X-Forwarded-For` step: the client's address after the values already there, all folded
into one value. -/
def forwardedFor (header : Header) (clientIP : Bytes) : Header :=
  let clientIP :=
    match header.lookup xForwardedFor with
    | some prior => join prior (utf8 ", ") ++ utf8 ", " ++ clientIP
    | none => clientIP
  header.set xForwardedFor clientIP

/-- `outreq` of `Proxy.request(r, apiKey)`: the request handed to `RoundTrip`. -/
def Proxy.outreq (rt : Runtime) (p : Proxy) (r : Request) (apiKey : Bytes) : Request :=
  let header := setBasicAuth rt.base64 r.header apiKey []
  let header := removeHopHeaders rt.headerOrder hopHeaders false header
  let header :=
    match rt.splitHostPort r.remoteAddr with
    | some (clientIP, _) => forwardedFor header clientIP
    | none => header
  { r with
    url := p.upstreamURL.resolveReference r.url
    host := p.upstreamURL.host
    proto := utf8 "HTTP/1.1"
    protoMajor := 1
    protoMinor := 1
    close := false
    header := header }

/-- `Proxy.request(r, apiKey)`: the upstream's body and response, or the error of the round trip
or of reading the body. -/
def Proxy.request (rt : Runtime) (p : Proxy) (r : Request) (apiKey : Bytes) :
    Except Error (Bytes × Response) := do
  let res ← p.transport (p.outreq rt r apiKey)
  let body ← res.body
  pure (body, res)

/-- `request` succeeds with the upstream's response to `outreq` and the body read from it. -/
theorem Proxy.request_eq_ok {rt : Runtime} {p : Proxy} {r : Request} {apiKey body : Bytes}
    {res : Response} :
    p.request rt r apiKey = .ok (body, res) ↔
      p.transport (p.outreq rt r apiKey) = .ok res ∧ res.body = .ok body := by
  simp only [Proxy.request, bind_eq_ok_iff, pure_eq_ok, Prod.mk.injEq]
  constructor
  · rintro ⟨res', sent, body', read, rfl, rfl⟩
    exact ⟨sent, read⟩
  · rintro ⟨sent, read⟩
    exact ⟨res, sent, body, read, rfl, rfl⟩

/-- `request` fails with the round trip's error, or with the error of reading the body. -/
theorem Proxy.request_eq_error {rt : Runtime} {p : Proxy} {r : Request} {apiKey : Bytes}
    {err : Error} :
    p.request rt r apiKey = .error err ↔
      p.transport (p.outreq rt r apiKey) = .error err ∨
        ∃ res, p.transport (p.outreq rt r apiKey) = .ok res ∧ res.body = .error err := by
  simp only [Proxy.request, bind_eq_error_iff]
  -- the closing `pure` cannot fail
  simp [pure, Except.pure]

/-- The basic credentials of the upstream API key. -/
def upstreamAuthorization (rt : Runtime) (apiKey : Bytes) : Bytes :=
  basicPrefix ++ rt.base64.encode (apiKey ++ [colon])

theorem authorization_not_mem_hopHeaders : authorization ∉ hopHeaders := by
  decide

theorem xForwardedFor_not_mem_hopHeaders : xForwardedFor ∉ hopHeaders := by
  decide

theorem authorization_ne_xForwardedFor : authorization ≠ xForwardedFor := by
  decide

/-- The outgoing request's URL is the client's target resolved against the upstream URL. -/
@[simp]
theorem Proxy.outreq_url (rt : Runtime) (p : Proxy) (r : Request) (apiKey : Bytes) :
    (p.outreq rt r apiKey).url = p.upstreamURL.resolveReference r.url :=
  rfl

theorem Proxy.outreq_header (rt : Runtime) (p : Proxy) (r : Request) (apiKey : Bytes) :
    (p.outreq rt r apiKey).header =
      let header := removeHopHeaders rt.headerOrder hopHeaders false
        (setBasicAuth rt.base64 r.header apiKey [])
      match rt.splitHostPort r.remoteAddr with
      | some (clientIP, _) => forwardedFor header clientIP
      | none => header :=
  rfl

theorem lookup_forwardedFor (header : Header) (clientIP k : Bytes) :
    (forwardedFor header clientIP).lookup k =
      if k = xForwardedFor then
        some [match header.lookup xForwardedFor with
          | some prior => join prior (utf8 ", ") ++ utf8 ", " ++ clientIP
          | none => clientIP]
      else header.lookup k := by
  by_cases same : k = xForwardedFor
  · subst same
    simp [forwardedFor]
  · simp [forwardedFor, same]

/-- The hop-by-hop names see the client's own values: `SetBasicAuth` writes another name. -/
theorem get_setBasicAuth_of_mem_hopHeaders (codec : Base64) (header : Header) (apiKey : Bytes)
    {h : Bytes} (hop : h ∈ hopHeaders) :
    (setBasicAuth codec header apiKey []).get h = header.get h := by
  have ne : h ≠ authorization := fun same => authorization_not_mem_hopHeaders (same ▸ hop)
  simp [setBasicAuth, ne]

theorem exists_hop_setBasicAuth_iff (codec : Base64) (header : Header) (apiKey : Bytes) :
    (∃ h ∈ hopHeaders, (setBasicAuth codec header apiKey []).get h ≠ []) ↔
      ∃ h ∈ hopHeaders, header.get h ≠ [] := by
  constructor
  · rintro ⟨h, hop, found⟩
    rw [get_setBasicAuth_of_mem_hopHeaders codec header apiKey hop] at found
    exact ⟨h, hop, found⟩
  · rintro ⟨h, hop, found⟩
    rw [← get_setBasicAuth_of_mem_hopHeaders codec header apiKey hop] at found
    exact ⟨h, hop, found⟩

/-- The header fields the upstream receives, name by name, for every name but a rewritten
`X-Forwarded-For`.  `Authorization` carries the upstream API key; a hop-by-hop name is gone when
its first value is not empty; and when some hop-by-hop name was found, every name whose value
list is empty is gone too.  Everything else is the client's. -/
theorem Proxy.outreq_header_lookup {rt : Runtime} (valid : rt.headerOrder.Valid) (p : Proxy)
    (r : Request) (apiKey : Bytes) {k : Bytes}
    (untouched : k ≠ xForwardedFor ∨ rt.splitHostPort r.remoteAddr = none) :
    (p.outreq rt r apiKey).header.lookup k =
      if k = authorization then some [upstreamAuthorization rt apiKey]
      else if k ∈ hopHeaders ∧ r.header.get k ≠ [] then none
      else if ∃ h ∈ hopHeaders, r.header.get h ≠ [] then
        (r.header.lookup k).filter fun vv => !vv.isEmpty
      else r.header.lookup k := by
  have afterHop : (p.outreq rt r apiKey).header.lookup k = (removeHopHeaders rt.headerOrder
      hopHeaders false (setBasicAuth rt.base64 r.header apiKey [])).lookup k := by
    rw [Proxy.outreq_header]
    rcases untouched with notForwarded | noSplit
    · cases rt.splitHostPort r.remoteAddr with
      | none => rfl
      | some split => simp [lookup_forwardedFor, notForwarded]
    · rw [noSplit]
  rw [afterHop, lookup_removeHopHeaders valid]
  simp only [exists_hop_setBasicAuth_iff]
  by_cases isAuth : k = authorization
  · subst isAuth
    simp [authorization_not_mem_hopHeaders, setBasicAuth, upstreamAuthorization]
  · simp [isAuth, setBasicAuth]

/-- For a target with a scheme of its own, the request handed upstream goes to the client's
URL, with the upstream API key as its basic credentials. -/
theorem Proxy.outreq_of_scheme {rt : Runtime} (valid : rt.headerOrder.Valid) (p : Proxy)
    {r : Request} (absolute : r.url.scheme ≠ []) (apiKey : Bytes) :
    (p.outreq rt r apiKey).url = { r.url with path := Url.removeDotSegments r.url.path } ∧
      (p.outreq rt r apiKey).header.lookup authorization =
        some [upstreamAuthorization rt apiKey] := by
  refine ⟨by rw [Proxy.outreq_url, URL.resolveReference_of_scheme _ absolute], ?_⟩
  rw [Proxy.outreq_header_lookup valid p r apiKey (.inl authorization_ne_xForwardedFor)]
  simp

/-- When the remote address splits, `X-Forwarded-For` holds one value: the values that survive
the hop-by-hop loop, joined, and the client after them. -/
theorem Proxy.outreq_header_xForwardedFor {rt : Runtime} (valid : rt.headerOrder.Valid)
    (p : Proxy) (r : Request) (apiKey : Bytes) {clientIP port : Bytes}
    (split : rt.splitHostPort r.remoteAddr = some (clientIP, port)) :
    (p.outreq rt r apiKey).header.lookup xForwardedFor =
      some [match (if ∃ h ∈ hopHeaders, r.header.get h ≠ [] then
          (r.header.lookup xForwardedFor).filter fun vv => !vv.isEmpty
        else r.header.lookup xForwardedFor) with
        | some prior => join prior (utf8 ", ") ++ utf8 ", " ++ clientIP
        | none => clientIP] := by
  rw [Proxy.outreq_header]
  simp only [split, lookup_forwardedFor, if_pos, lookup_removeHopHeaders valid,
    exists_hop_setBasicAuth_iff, xForwardedFor_not_mem_hopHeaders, false_and, if_false]
  simp [setBasicAuth, authorization_ne_xForwardedFor.symm]

/-- With no hop-by-hop field found, the loop leaves the map as it is. -/
theorem removeHopHeaders_of_absent {header : Header} :
    ∀ {hs : List Bytes} (copiedHeaders : Bool), (∀ h ∈ hs, header.get h = []) →
      removeHopHeaders order hs copiedHeaders header = header
  | [], _, _ => rfl
  | h :: hs, copiedHeaders, absent => by
      rw [removeHopHeaders, if_neg (not_not.mpr (absent h List.mem_cons_self))]
      exact removeHopHeaders_of_absent copiedHeaders fun h' mem => absent h' (List.mem_cons_of_mem h mem)

/-- A client header whose `Connection` field has an empty first value, as a request with an
empty `Connection:` line before `Connection: close` has it. -/
def emptyFirstConnection : Header :=
  AList.insert (utf8 "Connection") [[], utf8 "close"] ∅

/-- `Header.Get` reads the empty first value, so the loop never finds `Connection`, and both
values go upstream. -/
theorem outreq_keeps_emptyFirstConnection (rt : Runtime) (p : Proxy) (r : Request)
    (apiKey : Bytes) :
    (p.outreq rt { r with header := emptyFirstConnection } apiKey).header.lookup
      (utf8 "Connection") = some [[], utf8 "close"] := by
  have absent : ∀ h ∈ hopHeaders,
      (setBasicAuth rt.base64 emptyFirstConnection apiKey []).get h = [] := by
    intro h hop
    rw [get_setBasicAuth_of_mem_hopHeaders _ _ _ hop]
    revert h
    decide
  have notForwarded : utf8 "Connection" ≠ xForwardedFor := by decide
  have notAuthorization : utf8 "Connection" ≠ authorization := by decide
  have stored : emptyFirstConnection.lookup (utf8 "Connection") = some [[], utf8 "close"] :=
    AList.lookup_insert _
  rw [Proxy.outreq_header]
  simp only [removeHopHeaders_of_absent false absent]
  cases rt.splitHostPort r.remoteAddr with
  | none => simp [setBasicAuth, notAuthorization, stored]
  | some split => simp [lookup_forwardedFor, notForwarded, setBasicAuth, notAuthorization, stored]

end JsonProxy
