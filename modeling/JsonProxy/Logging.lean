import JsonProxy.Server

/-!
# `http-handlers/logging`: the access log

`service.New` puts `logging.Wrap` outside every other layer, so each request, a recovered
panic included, ends in one line of the access log.  The line's status is what the
`responseWrapper` saw: it starts at `200` and every `WriteHeader` call overwrites it.  What
the client is sent is decided by the first call on the writer instead: a `WriteHeader`, or a
`Write`, which sends `200`; `net/http` ignores later `WriteHeader` calls.

Every answer of the stack sets one status, with two exceptions, and the log then records `500`
(`serveLogged_status`).  The proxy writes the upstream's status and header, then panics when the
body fails to filter, and recovery's `http.Error` calls `WriteHeader(500)` a second time; the
client has already received the upstream's status, below `300`.  And `respond`, which writes
every JSON answer of the proxy and the key API, panics when `Encode`'s write fails after its
`WriteHeader`, as it does once the client has gone and the body outgrows the connection's
buffer; recovery then calls `WriteHeader(500)` as well.  Whether that write fails is a parameter
of the model: what the stack answers (`Server.serveHTTP`) is what it writes when it succeeds.

The line is modelled field by field; its rendering by `fmt.Sprintf` (the `%q` quoting and the
Apache date format) is left out.
-/

namespace JsonProxy

open Go Go.Ascii

/-! ## The log line -/

/-- `strings.LastIndex(s, string(c))` for one byte `c`: the index of its last occurrence. -/
def lastIndex (s : Bytes) (c : UInt8) : Option Nat :=
  (s.reverse.findIdx? (· = c)).map fun j => s.length - 1 - j

/-- The `X-Request-Id` field name. -/
def xRequestID : Bytes :=
  utf8 "X-Request-Id"

/-- The fields of one line of the access log, in the order the line has them; the two `-` and
the `0` it always writes are left out. -/
structure LogEntry where
  remoteAddr : Bytes
  start : Time
  method : Bytes
  requestURI : Bytes
  proto : Bytes
  status : Nat
  referer : Bytes
  userAgent : Bytes
  elapsedMS : ℤ
  requestId : Bytes
  deriving DecidableEq, Repr

/-- A call the handler makes on the `ResponseWriter` it is given: `WriteHeader(status)`, or a
`Write` of body bytes. -/
inductive WriterCall where
  | writeHeader (status : Nat)
  | write
  deriving DecidableEq, Repr

/-- What `responseWrapper` keeps of one call: a `WriteHeader` sets its status, a `Write` passes
through. -/
def WriterCall.record (status : Nat) : WriterCall → Nat
  | .writeHeader s => s
  | .write => status

/-- `responseWrapper`'s status after the handler's calls: `200` to start with, then each
`WriteHeader`'s. -/
def wrapperStatus (calls : List WriterCall) : Nat :=
  calls.foldl WriterCall.record 200

/-- The status `net/http` sends: the first call decides it, a `WriteHeader(status)`, or a
`Write`, which sends `200`; with no call, `200` goes out when the handler returns. -/
def sentStatus : List WriterCall → Nat
  | .writeHeader status :: _ => status
  | _ => 200

/-- `al.ServeHTTP(w, r)` once the handler has returned, with the calls it made on the writer and
the clock read before and after: the entry it sends to the log's buffer. -/
def logEntry (r : Request) (requestURI : Bytes) (calls : List WriterCall) (start : Time)
    (elapsedMS : ℤ) : LogEntry :=
  let remoteAddr :=
    match lastIndex r.remoteAddr colon with
    | some index => r.remoteAddr.take index
    | none => r.remoteAddr
  let remoteAddr := if r.header.get xForwardedFor ≠ [] then r.header.get xForwardedFor else remoteAddr
  let referer := if r.header.get (utf8 "Referer") = [] then utf8 "-" else r.header.get (utf8 "Referer")
  let userAgent :=
    if r.header.get (utf8 "User-Agent") = [] then utf8 "-" else r.header.get (utf8 "User-Agent")
  { remoteAddr, start, method := r.method, requestURI, proto := r.proto,
    status := wrapperStatus calls, referer, userAgent, elapsedMS,
    requestId := r.header.get xRequestID }

@[simp]
theorem logEntry_status (r : Request) (requestURI : Bytes) (calls : List WriterCall) (start : Time)
    (elapsedMS : ℤ) : (logEntry r requestURI calls start elapsedMS).status = wrapperStatus calls :=
  rfl

/-- Whether `respond` writes the reply: a JSON error or a key. -/
def Reply.responds : Reply → Bool
  | .error _ _ => true
  | .key _ => true
  | .written _ _ _ => false
  | .panicked _ _ => false

/-- The calls of `respond(w, data, status)`: `WriteHeader(status)` unless the status is `0`, then
`Encode`'s write of the JSON body.  When that write fails `respond` panics, and recovery, which
`service.New` puts around every handler, answers with `http.Error`: `WriteHeader(500)` and its
text. -/
def respondCalls (status : Nat) (writeFails : Bool) : List WriterCall :=
  (if status = 0 then [] else [.writeHeader status]) ++
    .write :: if writeFails then [.writeHeader 500, .write] else []

/-- The calls behind each answer, in order.  `endpointCall` is the `WriteHeader` an endpoint of
`debug.Wrap` makes before its body, if any, and `writeFails` whether the client refuses
`respond`'s body; every other write ignores its error. -/
def Written.writerCalls (endpointCall : Bytes → Option Nat) (writeFails : Bool) :
    Written → List WriterCall
  | .reply (.error _ status) => respondCalls status writeFails
  | .reply (.key _) => respondCalls statusOK writeFails
  -- the proxy's `WriteHeader(res.StatusCode)` and `w.Write(body)`
  | .reply (.written status _ _) => [.writeHeader status, .write]
  | .reply (.panicked sent _) => (sent.map fun sent => WriterCall.writeHeader sent.1).toList
  -- the health check's `Fprintln` writes with no `WriteHeader`; `http.NotFound` is `http.Error`
  -- with `404`
  | .text status _ => if status = statusOK then [.write] else [.writeHeader status, .write]
  -- `http.Redirect`'s `WriteHeader(301)`; the note it writes after it for a `GET` changes no
  -- status
  | .redirectTree _ => [.writeHeader 301]
  | .redirectClean _ => [.writeHeader 301]
  | .badRequest _ => [.writeHeader 400]
  | .debug pattern => ((endpointCall pattern).map WriterCall.writeHeader).toList ++ [.write]
  -- `http.Error` after whatever the handler had sent before it panicked
  | .internalError sent _ =>
    (sent.map fun sent => WriterCall.writeHeader sent.1).toList ++ [.writeHeader 500, .write]

/-- The status the client is sent for an answer. -/
def Written.status (endpointCall : Bytes → Option Nat) (writeFails : Bool) (written : Written) :
    Nat :=
  sentStatus (written.writerCalls endpointCall writeFails)

/-- Calls that set one status: a `WriteHeader` and then writes, or writes alone. -/
def OneStatus (calls : List WriterCall) : Prop :=
  (∃ status n, calls = .writeHeader status :: List.replicate n .write) ∨
    ∃ n, calls = List.replicate n .write

theorem foldl_record_writes (status n : Nat) :
    (List.replicate n WriterCall.write).foldl WriterCall.record status = status := by
  induction n with
  | zero => rfl
  | succ n ih => rw [List.replicate_succ, List.foldl_cons, WriterCall.record, ih]

/-- When the calls set one status, the log and the client agree. -/
theorem wrapperStatus_eq_sentStatus {calls : List WriterCall} (one : OneStatus calls) :
    wrapperStatus calls = sentStatus calls := by
  rcases one with ⟨status, n, rfl⟩ | ⟨n, rfl⟩
  · rw [wrapperStatus, List.foldl_cons, WriterCall.record, foldl_record_writes, sentStatus]
  · rw [wrapperStatus, foldl_record_writes]
    cases n with
    | zero => rfl
    | succ n => rfl

/-- A failed write in `respond` leaves the log at `500`. -/
theorem wrapperStatus_respondCalls_fails (status : Nat) :
    wrapperStatus (respondCalls status true) = 500 := by
  unfold respondCalls
  rw [if_pos rfl]
  split_ifs <;> rfl

/-- A `respond` whose write goes through sets one status. -/
theorem oneStatus_respondCalls (status : Nat) : OneStatus (respondCalls status false) := by
  by_cases zero : status = 0
  · exact .inr ⟨1, by simp [respondCalls, zero]⟩
  · exact .inl ⟨status, 1, by simp [respondCalls, zero]⟩

/-- Every answer sets one status, but `http.Error` after a status already sent and a `respond`
whose write fails. -/
theorem oneStatus_writerCalls (endpointCall : Bytes → Option Nat) {writeFails : Bool}
    {written : Written} (notAfterSent : ∀ sent body, written = .internalError (some sent) body → False)
    (notFailed : writeFails = true → ∀ reply, written = .reply reply → reply.responds = false) :
    OneStatus (written.writerCalls endpointCall writeFails) := by
  cases written with
  | reply reply =>
      -- `respond`'s write cannot have failed here
      have succeeded : reply.responds = true → writeFails = false := by
        intro responds
        cases writeFails with
        | false => rfl
        | true => simp [notFailed rfl reply rfl] at responds
      cases reply with
      | error resp status =>
          rw [succeeded rfl]
          exact oneStatus_respondCalls status
      | key resp =>
          rw [succeeded rfl]
          exact oneStatus_respondCalls statusOK
      | written status header body => exact .inl ⟨status, 1, rfl⟩
      | panicked sent err =>
          cases sent with
          | none => exact .inr ⟨0, rfl⟩
          | some sent => exact .inl ⟨sent.1, 0, rfl⟩
  | text status body =>
      by_cases ok : status = statusOK
      · exact .inr ⟨1, by simp [Written.writerCalls, ok]⟩
      · exact .inl ⟨status, 1, by simp [Written.writerCalls, ok]⟩
  | redirectTree | redirectClean | badRequest => exact .inl ⟨_, 0, rfl⟩
  | debug pattern =>
      cases call : endpointCall pattern with
      | none => exact .inr ⟨1, by simp [Written.writerCalls, call]⟩
      | some status => exact .inl ⟨status, 1, by simp [Written.writerCalls, call]⟩
  | internalError sent body =>
      cases sent with
      | none => exact .inl ⟨500, 1, rfl⟩
      | some sent => exact absurd rfl (notAfterSent sent body)

/-! ## Where a panic can follow the status line -/

section Panics

variable {rt : Runtime} {p : Proxy} {r : Request}

/-- The loop over the key's roles stops with a `401` or a panic before anything is written. -/
theorem collectMatches_error_ne_panicked_some :
    ∀ {roles : List Bytes} {i : Nat} {reply : Reply},
      collectMatches rt p r i roles = .error reply → ∀ sent err, reply ≠ .panicked (some sent) err
  | [], i, reply, failed => by
      simp [collectMatches, pure, Except.pure] at failed
  | role :: roles, i, reply, failed => by
      rw [collectMatches] at failed
      cases found : p.roles.lookup role with
      | none =>
          simp only [found, throw, throwThe, MonadExceptOf.throw, Except.error.injEq] at failed
          subst failed
          simp
      | some rr =>
          cases visit : roleMatches r.method r.url.path (rt.roleOrder i rr) with
          | error e =>
              simp only [found, visit, throw, throwThe, MonadExceptOf.throw,
                Except.error.injEq] at failed
              subst failed
              simp
          | ok granted =>
              simp only [found, visit, bind_eq_error_iff] at failed
              rcases failed with failed | ⟨more, -, failed⟩
              · exact collectMatches_error_ne_panicked_some failed
              · simp [pure, Except.pure] at failed

/-- The end of `ServeHTTP` panics after the status line only when filtering a successful body
fails. -/
theorem respondUpstream_panicked {matched : List Rule} {body : Bytes} {res : Response}
    {sent : Nat × Header} {err : Error}
    (panicked : respondUpstream rt matched body res = .panicked (some sent) err) :
    sent.1 < 300 ∧ sent.1 = res.statusCode ∧ ∃ e, filterBytes rt.json body matched = .error e := by
  unfold respondUpstream at panicked
  dsimp only at panicked
  split_ifs at panicked with success
  · cases filtered : filterBytes rt.json body matched with
    | error e =>
        rw [filtered] at panicked
        cases panicked
        exact ⟨success, rfl, _, rfl⟩
    | ok out =>
        rw [filtered] at panicked
        cases panicked

/-- The proxy panics after the status line only when filtering a successful upstream body
fails. -/
theorem Proxy.serveHTTP_panicked {sent : Nat × Header} {err : Error}
    (panicked : (p.serveHTTP rt r).2 = .panicked (some sent) err) : sent.1 < 300 := by
  rcases Proxy.serveHTTP_cases rt p r with
    ⟨e, -, served⟩ | ⟨key, reply, -, collect, served⟩ | ⟨key, -, -, served⟩ |
      ⟨key, matched, -, -, -, served⟩
  · rw [served] at panicked
    cases panicked
  · rw [served] at panicked
    exact absurd panicked (collectMatches_error_ne_panicked_some collect sent err)
  · rw [served] at panicked
    cases panicked
  · rw [served] at panicked
    dsimp only at panicked
    split at panicked
    · cases panicked
    · exact (respondUpstream_panicked panicked).1

end Panics

/-- The key API panics only before writing anything. -/
theorem API.generateKey_ne_panicked_some (a : API) (decode : Bytes → Except Error KeyRequest)
    (r : Request) (sent : Nat × Header) (err : Error) :
    a.generateKey decode r ≠ .panicked (some sent) err := by
  intro panicked
  unfold API.generateKey at panicked
  by_cases post : r.method = utf8 "POST"
  · rw [if_neg (not_not.mpr post)] at panicked
    cases decoded : decode r.body with
    | error e => simp [decoded] at panicked
    | ok req =>
        simp only [decoded] at panicked
        cases missing : req.roles.find? fun role => (a.roles.lookup role).isNone with
        | some role => simp [missing, notFound] at panicked
        | none =>
            cases made : a.keyGen ⟨Time.zero, req.roles, req.apiKey⟩ with
            | error e => simp [missing, made] at panicked
            | ok ciphertext => simp [missing, made] at panicked
  · rw [if_pos post] at panicked
    simp [notFound] at panicked

/-- A mux's answer is its own (the `400` for `*`, a redirect, a `404`) or its handler's. -/
theorem runMux_snd_cases {α : Type} (serve : α → Option Request × Written) (d : Dispatch α) :
    (∃ h, d = .serve (.handler h) ∧ (runMux serve d).2 = (serve h).2) ∨
      (∃ close, (runMux serve d).2 = .badRequest close) ∨
      (∃ path, (runMux serve d).2 = .redirectTree path) ∨
      (∃ url, (runMux serve d).2 = .redirectClean url) ∨
      (runMux serve d).2 = notFoundText := by
  cases d with
  | badRequest close => exact .inr (.inl ⟨close, rfl⟩)
  | serve target =>
      cases target with
      | handler h => exact .inl ⟨h, rfl, rfl⟩
      | redirectTree path => exact .inr (.inr (.inl ⟨path, rfl⟩))
      | redirectClean url => exact .inr (.inr (.inr (.inl ⟨url, rfl⟩)))
      | notFound => exact .inr (.inr (.inr (.inr rfl)))

/-- A mux answers with a reply only by running a handler. -/
theorem runMux_snd_eq_reply {α : Type} {serve : α → Option Request × Written} {d : Dispatch α}
    {reply : Reply} (answered : (runMux serve d).2 = .reply reply) :
    ∃ h, d = .serve (.handler h) ∧ (serve h).2 = .reply reply := by
  rcases runMux_snd_cases serve d with
    ⟨h, routed, same⟩ | ⟨_, own⟩ | ⟨_, own⟩ | ⟨_, own⟩ | own
  · exact ⟨h, routed, same ▸ answered⟩
  all_goals
    rw [own] at answered
    cases answered

/-- A mux answers with recovery's `http.Error` only by running a handler. -/
theorem runMux_snd_eq_internalError {α : Type} {serve : α → Option Request × Written}
    {d : Dispatch α} {sent : Option (Nat × Header)} {body : Bytes}
    (answered : (runMux serve d).2 = .internalError sent body) :
    ∃ h, d = .serve (.handler h) ∧ (serve h).2 = .internalError sent body := by
  rcases runMux_snd_cases serve d with
    ⟨h, routed, same⟩ | ⟨_, own⟩ | ⟨_, own⟩ | ⟨_, own⟩ | own
  · exact ⟨h, routed, same ▸ answered⟩
  all_goals
    rw [own] at answered
    cases answered

namespace Server

variable (srv : Server) (rt : Runtime)

/-- In `build`'s mux only the proxy panics after the status line, and only after a status
below `300`. -/
theorem serveApp_panicked {requestURI : Bytes} {r : Request} {sent : Nat × Header} {err : Error}
    (panicked : (srv.serveApp rt requestURI r).2 = .reply (.panicked (some sent) err)) :
    sent.1 < 300 := by
  obtain ⟨route, -, routed⟩ := runMux_snd_eq_reply panicked
  cases route with
  | healthcheck => cases routed
  | forcedPanic => cases routed
  | api pathPrefix =>
      simp only [serveRoute] at routed
      split at routed
      · obtain ⟨apiRoute, -, apiRouted⟩ := runMux_snd_eq_reply routed
        cases apiRoute with
        | keys =>
            simp only [Written.reply.injEq] at apiRouted
            exact absurd apiRouted (API.generateKey_ne_panicked_some _ _ _ sent err)
        | notFound => cases apiRouted
      · cases routed
  | proxy =>
      simp only [serveRoute, Written.reply.injEq] at routed
      exact Proxy.serveHTTP_panicked routed

/-- Only recovery answers with `http.Error`. -/
theorem serveApp_ne_internalError {requestURI : Bytes} {r : Request} (sent : Option (Nat × Header))
    (body : Bytes) : (srv.serveApp rt requestURI r).2 ≠ .internalError sent body := by
  intro answered
  obtain ⟨route, -, routed⟩ := runMux_snd_eq_internalError answered
  cases route with
  | healthcheck => cases routed
  | forcedPanic => cases routed
  | api pathPrefix =>
      simp only [serveRoute] at routed
      split at routed
      · obtain ⟨apiRoute, -, apiRouted⟩ := runMux_snd_eq_internalError routed
        cases apiRoute with
        | keys => cases apiRouted
        | notFound => cases apiRouted
      · cases routed
  | proxy => cases routed

/-- Recovery answers with `http.Error` for a reply that panicked, and passes on any other
answer as it is. -/
theorem recoverPanic_eq_internalError {panicId : Nat} {written : Written}
    {sent : Option (Nat × Header)} {body : Bytes}
    (answered : recoverPanic panicId written = .internalError sent body) :
    (∃ err, written = .reply (.panicked sent err)) ∨ written = .internalError sent body := by
  cases written with
  | reply reply =>
      cases reply with
      | panicked sentBefore err =>
          simp only [recoverPanic, Written.internalError.injEq] at answered
          rw [answered.1]
          exact .inl ⟨err, rfl⟩
      | error | key | written => cases answered
  | internalError => exact .inr answered
  | text | redirectTree | redirectClean | badRequest | debug => cases answered

/-- Through the whole stack, the answer is `http.Error` after a status line already sent only
when the proxy sent a status below `300`. -/
theorem serveHTTP_internalError {panicId : Nat} {requestURI : Bytes} {r : Request}
    {sent : Nat × Header} {body : Bytes}
    (answered : (srv.serveHTTP rt panicId requestURI r).2 = .internalError (some sent) body) :
    sent.1 < 300 := by
  unfold serveHTTP at answered
  dsimp only at answered
  revert answered
  generalize srv.debugMux.serveHTTP requestURI r = dispatched
  intro answered
  rcases recoverPanic_eq_internalError answered with ⟨err, panicked⟩ | unrecovered
  · -- recovery answered a reply that panicked after its status line
    obtain ⟨route, -, routed⟩ := runMux_snd_eq_reply panicked
    cases route with
    | endpoint pattern => cases routed
    | app => exact srv.serveApp_panicked rt routed
  · -- no handler below recovery answers with `http.Error` itself
    obtain ⟨route, -, routed⟩ := runMux_snd_eq_internalError unrecovered
    cases route with
    | endpoint pattern => cases routed
    | app => exact absurd routed (srv.serveApp_ne_internalError rt _ _)

/-- `service.New`'s outer layer, `logging.Wrap`, over the rest of the stack: the request handed
to the upstream, what the client is sent, and the entry logged, for a request served from
`start` for `elapsedMS` milliseconds. -/
def serveLogged (panicId : Nat) (endpointCall : Bytes → Option Nat) (writeFails : Bool)
    (start : Time) (elapsedMS : ℤ) (requestURI : Bytes) (r : Request) :
    Option Request × Written × LogEntry :=
  let served := srv.serveHTTP rt panicId requestURI r
  (served.1, served.2,
    logEntry r requestURI (served.2.writerCalls endpointCall writeFails) start elapsedMS)

@[simp]
theorem serveLogged_written (panicId : Nat) (endpointCall : Bytes → Option Nat)
    (writeFails : Bool) (start : Time) (elapsedMS : ℤ) (requestURI : Bytes) (r : Request) :
    (srv.serveLogged rt panicId endpointCall writeFails start elapsedMS requestURI r).2.1 =
      (srv.serveHTTP rt panicId requestURI r).2 :=
  rfl

@[simp]
theorem serveLogged_entry (panicId : Nat) (endpointCall : Bytes → Option Nat)
    (writeFails : Bool) (start : Time) (elapsedMS : ℤ) (requestURI : Bytes) (r : Request) :
    (srv.serveLogged rt panicId endpointCall writeFails start elapsedMS requestURI r).2.2 =
      logEntry r requestURI
        ((srv.serveHTTP rt panicId requestURI r).2.writerCalls endpointCall writeFails)
        start elapsedMS :=
  rfl

end Server

/-- The stack of `exampleServer` in front of an upstream that answers `200` with a body that is
not JSON. -/
def garbledServer : Server :=
  { exampleServer with
    proxy := { exampleProxy with transport := fun _ => .ok ⟨statusOK, ∅, .ok (utf8 "oops")⟩ } }

-- The client of `GET /users` gets the upstream's `200` and the log says `500`.
example :
    (garbledServer.serveLogged exampleRuntime 0 (fun _ => none) false (Time.ofUnix 0) 3
        (utf8 "/users") (exampleRequest [] [] (utf8 "/users"))).2.1.status (fun _ => none) false =
          200 ∧
      (garbledServer.serveLogged exampleRuntime 0 (fun _ => none) false (Time.ofUnix 0) 3
        (utf8 "/users") (exampleRequest [] [] (utf8 "/users"))).2.2.status = 500 := by
  decide

-- A client refused `GET /a/b` that has gone before the JSON error is written: it was sent `401`,
-- and the log says `500`.
example :
    (exampleServer.serveLogged exampleRuntime 0 (fun _ => none) true (Time.ofUnix 0) 3
        (utf8 "/a/b") (exampleRequest [] [] (utf8 "/a/b"))).2.1.status (fun _ => none) true =
          401 ∧
      (exampleServer.serveLogged exampleRuntime 0 (fun _ => none) true (Time.ofUnix 0) 3
        (utf8 "/a/b") (exampleRequest [] [] (utf8 "/a/b"))).2.2.status = 500 := by
  decide

end JsonProxy
