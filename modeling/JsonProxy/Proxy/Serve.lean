import JsonProxy.Proxy.Request
import JsonProxy.Filter.Output

/-!
# `Proxy.ServeHTTP`

The handler authenticates the request, collects the rules that the key's roles grant for the
request's method and URL path, forwards the request when there is at least one, and writes the
upstream's answer back, filtering a successful body by the rules collected.

Each role is a Go map from URL patterns to rules, so the order in which its rules join `matches`
is the order of a `range` over that map.  The results below hold for every valid such order:
what is collected is, up to order, one copy of each granted rule for each role of the key
(`collectMatches_perm`), and whether the upstream is contacted does not depend on the order at
all.  What can depend on it is only which response-key pattern `filterBytes` meets first.
-/

namespace JsonProxy

open Go Go.Ascii Go.Json Go.Path

/-! ## Authentication -/

/-- `unauthorizedResp`, with `Message` set. -/
def unauthorizedResp (message : Bytes) : ErrResponse :=
  ⟨⟨utf8 "unauthorized", message⟩⟩

/-- `p.authenticate(r)`: the key that the user name of the request's basic credentials opens
to. -/
def Proxy.authenticate (rt : Runtime) (p : Proxy) (r : Request) : Except Error Key :=
  match basicAuth rt.base64 r.header with
  | none => .error ⟨utf8 "Unable to parse Authorization header"⟩
  | some (user, _) =>
    match p.keyOpener user with
    | .error _ => .error ⟨utf8 "Invalid password provided"⟩
    | .ok key => .ok key

theorem Proxy.authenticate_eq_ok_iff {rt : Runtime} {p : Proxy} {r : Request} {key : Key} :
    p.authenticate rt r = .ok key ↔
      ∃ user password, basicAuth rt.base64 r.header = some (user, password) ∧
        p.keyOpener user = .ok key := by
  unfold Proxy.authenticate
  rcases basicAuth rt.base64 r.header with _ | ⟨user, password⟩
  · simp
  · cases opened : p.keyOpener user <;> simp [opened]

/-! ## The loop over the key's roles -/

/-- The loop over `rule.Methods`: whether it finds `*` or the request's method. -/
def Rule.allows (rule : Rule) (method : Bytes) : Bool :=
  rule.methods.any fun m => m = utf8 "*" || m = method

/-- Whether a URL pattern and its rule grant the request: the pattern matches the path and the
rule allows the method. -/
def grants (method urlPath : Bytes) (entry : Bytes × Rule) : Bool :=
  pathMatch entry.1 urlPath = .ok true && entry.2.allows method

/-- The loop over one role, in the order `range` visits it: the rule of each matching pattern
that allows the method, once; a pattern error panics. -/
def roleMatches (method urlPath : Bytes) : List (Bytes × Rule) → Except PathError (List Rule)
  | [] => pure []
  | (pattern, rule) :: rest => do
    let matched ← pathMatch pattern urlPath
    let more ← roleMatches method urlPath rest
    pure (if matched && rule.allows method then rule :: more else more)

/-- The rules a role grants a request, in the role's stored order. -/
def grantedRules (method urlPath : Bytes) (rr : Role) : List Rule :=
  (rr.pairs.filter (grants method urlPath)).map Prod.snd

/-- What `matches` holds up to order: the rules each role of the key grants, role after role. -/
def keyRules (roles : Map Bytes Role) (method urlPath : Bytes) (keyRoles : List Bytes) :
    List Rule :=
  keyRoles.flatMap fun role => ((roles.lookup role).map (grantedRules method urlPath)).getD []

/-- Every role of the key exists, and none of its URL patterns makes `path.Match` fail on the
path. -/
def RolesUsable (roles : Map Bytes Role) (urlPath : Bytes) (keyRoles : List Bytes) : Prop :=
  ∀ role ∈ keyRoles, ∃ rr, roles.lookup role = some rr ∧
    ∀ entry ∈ rr.pairs, ∃ b, pathMatch entry.1 urlPath = .ok b

/-- The loop over `key.Roles`, the `i`-th role visited by the `i`-th `range` of the run: the
rules collected, or what the handler writes when it stops early. -/
def collectMatches (rt : Runtime) (p : Proxy) (r : Request) :
    Nat → List Bytes → Except Reply (List Rule)
  | _, [] => pure []
  | i, role :: roles =>
    match p.roles.lookup role with
    | none =>
      throw (.error (unauthorizedResp (utf8 "Role " ++ role ++ utf8 " does not exist"))
        statusUnauthorized)
    | some rr =>
      match roleMatches r.method r.url.path (rt.roleOrder i rr) with
      | .error e => throw (.panicked none e.toError)
      | .ok found => do
        let more ← collectMatches rt p r (i + 1) roles
        pure (found ++ more)

section RoleLoop

variable {method urlPath : Bytes}

/-- A finished loop over a role collected the granted rules in the order visited. -/
theorem roleMatches_ok : ∀ {visits : List (Bytes × Rule)} {found : List Rule},
    roleMatches method urlPath visits = .ok found →
      found = (visits.filter (grants method urlPath)).map Prod.snd
  | [], found, ok => by
      rw [roleMatches, pure_eq_ok] at ok
      rw [← ok]
      rfl
  | (pattern, rule) :: rest, found, ok => by
      rw [roleMatches, bind_eq_ok_iff] at ok
      obtain ⟨matched, matchedOk, ok⟩ := ok
      rw [bind_eq_ok_iff] at ok
      obtain ⟨more, moreOk, result⟩ := ok
      rw [pure_eq_ok] at result
      rw [← result, roleMatches_ok moreOk]
      cases matched <;> cases allowed : rule.allows method <;>
        simp [grants, matchedOk, allowed]

/-- The loop over a role finishes exactly when no pattern makes `path.Match` fail. -/
theorem exists_roleMatches_ok_iff : ∀ (visits : List (Bytes × Rule)),
    (∃ found, roleMatches method urlPath visits = .ok found) ↔
      ∀ entry ∈ visits, ∃ b, pathMatch entry.1 urlPath = .ok b
  | [] => by simp [roleMatches, pure, Except.pure]
  | (pattern, rule) :: rest => by
      rw [roleMatches, exists_bind_eq_ok]
      simp only [exists_bind_pure_eq_ok, exists_roleMatches_ok_iff rest, List.forall_mem_cons]
      constructor
      · rintro ⟨b, head, tail⟩
        exact ⟨⟨b, head⟩, tail⟩
      · rintro ⟨⟨b, head⟩, tail⟩
        exact ⟨b, head, tail⟩

/-- The loop over a role stops early only at a pattern that makes `path.Match` fail. -/
theorem exists_pattern_error_of_roleMatches {visits : List (Bytes × Rule)} {e : PathError}
    (failed : roleMatches method urlPath visits = .error e) :
    ∃ entry ∈ visits, ∃ e', pathMatch entry.1 urlPath = .error e' := by
  have notOk : ¬∀ entry ∈ visits, ∃ b, pathMatch entry.1 urlPath = .ok b := by
    rw [← exists_roleMatches_ok_iff, failed]
    simp
  simp only [not_forall, not_exists] at notOk
  obtain ⟨entry, mem, noAnswer⟩ := notOk
  cases answer : pathMatch entry.1 urlPath with
  | error e' => exact ⟨entry, mem, e', answer⟩
  | ok b => exact absurd answer (noAnswer b)

end RoleLoop

variable {rt : Runtime} {p : Proxy} {r : Request}

/-- Visiting a role in any order `range` may take grants the same rules, up to order. -/
theorem roleMatches_perm (valid : rt.roleOrder.Valid) (i : Nat) {rr : Role} {found : List Rule}
    (ok : roleMatches r.method r.url.path (rt.roleOrder i rr) = .ok found) :
    found.Perm (grantedRules r.method r.url.path rr) := by
  rw [roleMatches_ok ok]
  exact ((valid i rr).filter _).map _

/-- A finished loop over the key's roles collected, up to order, the rules each role grants. -/
theorem collectMatches_perm (valid : rt.roleOrder.Valid) :
    ∀ {roles : List Bytes} {i : Nat} {matched : List Rule},
      collectMatches rt p r i roles = .ok matched →
        matched.Perm (keyRules p.roles r.method r.url.path roles)
  | [], i, matched, ok => by
      rw [collectMatches, pure_eq_ok] at ok
      rw [← ok]
      rfl
  | role :: roles, i, matched, ok => by
      rw [collectMatches] at ok
      cases found : p.roles.lookup role with
      | none => simp [found, throw, throwThe, MonadExceptOf.throw] at ok
      | some rr =>
          cases visit : roleMatches r.method r.url.path (rt.roleOrder i rr) with
          | error e => simp [found, visit, throw, throwThe, MonadExceptOf.throw] at ok
          | ok granted =>
              simp only [found, visit, bind_eq_ok_iff, pure_eq_ok] at ok
              obtain ⟨more, moreOk, rfl⟩ := ok
              rw [keyRules, List.flatMap_cons, found]
              exact (roleMatches_perm valid i visit).append (collectMatches_perm valid moreOk)

/-- The loop over the key's roles finishes exactly when every role exists and none of their
URL patterns fails on the path. -/
theorem exists_collectMatches_ok_iff (valid : rt.roleOrder.Valid) :
    ∀ (roles : List Bytes) (i : Nat),
      (∃ matched, collectMatches rt p r i roles = .ok matched) ↔
        RolesUsable p.roles r.url.path roles
  | [], i => by simp [collectMatches, RolesUsable, pure, Except.pure]
  | role :: roles, i => by
      have rest := exists_collectMatches_ok_iff valid roles (i + 1)
      rw [collectMatches]
      cases found : p.roles.lookup role with
      | none => simp [found, RolesUsable, throw, throwThe, MonadExceptOf.throw]
      | some rr =>
          -- the patterns visited are the role's patterns, in another order
          have visitedIff : (∀ entry ∈ rt.roleOrder i rr, ∃ b, pathMatch entry.1 r.url.path = .ok b) ↔
              ∀ entry ∈ rr.pairs, ∃ b, pathMatch entry.1 r.url.path = .ok b := by
            simp only [(valid i rr).mem_iff]
          have usableIff : RolesUsable p.roles r.url.path (role :: roles) ↔
              (∀ entry ∈ rr.pairs, ∃ b, pathMatch entry.1 r.url.path = .ok b) ∧
                RolesUsable p.roles r.url.path roles := by
            simp [RolesUsable, found]
          rw [usableIff, ← visitedIff, ← exists_roleMatches_ok_iff, ← rest]
          cases visit : roleMatches r.method r.url.path (rt.roleOrder i rr) with
          | error e => simp [visit, throw, throwThe, MonadExceptOf.throw]
          | ok granted =>
              simp only [visit, exists_bind_pure_eq_ok]
              simp

/-- The loop over the key's roles stops at the first role, in the key's order, that does not
exist or has a URL pattern that `path.Match` fails on: a missing role answers 401, a failing
pattern panics with `ErrBadPattern`.  Every role before it exists and has no failing pattern. -/
theorem collectMatches_error_first (valid : rt.roleOrder.Valid) :
    ∀ {roles : List Bytes} {i : Nat} {reply : Reply},
      collectMatches rt p r i roles = .error reply →
        ∃ before role after, roles = before ++ role :: after ∧
          RolesUsable p.roles r.url.path before ∧
          ((p.roles.lookup role = none ∧
              reply = .error (unauthorizedResp (utf8 "Role " ++ role ++ utf8 " does not exist"))
                statusUnauthorized) ∨
            (∃ rr, p.roles.lookup role = some rr ∧
              (∃ entry ∈ rr.pairs, ∃ e, pathMatch entry.1 r.url.path = .error e) ∧
              reply = .panicked none PathError.errBadPattern.toError))
  | [], i, reply, failed => by
      simp [collectMatches, pure, Except.pure] at failed
  | role :: roles, i, reply, failed => by
      rw [collectMatches] at failed
      cases found : p.roles.lookup role with
      | none =>
          simp only [found, throw, throwThe, MonadExceptOf.throw, Except.error.injEq] at failed
          exact ⟨[], role, roles, rfl, by simp [RolesUsable], .inl ⟨found, failed.symm⟩⟩
      | some rr =>
          cases visit : roleMatches r.method r.url.path (rt.roleOrder i rr) with
          | error e =>
              simp only [found, visit, throw, throwThe, MonadExceptOf.throw,
                Except.error.injEq] at failed
              obtain ⟨entry, visited, e', failing⟩ := exists_pattern_error_of_roleMatches visit
              -- `path.Match` has one error, `ErrBadPattern`
              cases e
              exact ⟨[], role, roles, rfl, by simp [RolesUsable],
                .inr ⟨rr, found, ⟨entry, (valid i rr).mem_iff.mp visited, e', failing⟩,
                  failed.symm⟩⟩
          | ok granted =>
              simp only [found, visit, bind_eq_error_iff] at failed
              rcases failed with failed | ⟨more, -, failed⟩
              · obtain ⟨before, stop, after, split, usable, stopped⟩ :=
                  collectMatches_error_first valid failed
                -- this role was visited to its end, so none of its patterns fails
                have finished : ∀ entry ∈ rr.pairs, ∃ b, pathMatch entry.1 r.url.path = .ok b :=
                  fun entry mem => (exists_roleMatches_ok_iff _).mp ⟨granted, visit⟩ entry
                    ((valid i rr).mem_iff.mpr mem)
                refine ⟨role :: before, stop, after, by rw [split, List.cons_append], ?_, stopped⟩
                intro role' mem
                rcases List.mem_cons.mp mem with rfl | later
                · exact ⟨rr, found, finished⟩
                · exact usable role' later
              · simp [pure, Except.pure] at failed

/-- The loop over the key's roles stops early only for a role that does not exist, answering
401, or for a URL pattern error, panicking. -/
theorem collectMatches_error (valid : rt.roleOrder.Valid) {roles : List Bytes} {i : Nat}
    {reply : Reply} (failed : collectMatches rt p r i roles = .error reply) :
    (∃ role ∈ roles, p.roles.lookup role = none ∧
      reply = .error (unauthorizedResp (utf8 "Role " ++ role ++ utf8 " does not exist"))
        statusUnauthorized) ∨
    (reply = .panicked none PathError.errBadPattern.toError ∧
      ∃ role ∈ roles, ∃ rr, p.roles.lookup role = some rr ∧
        ∃ entry ∈ rr.pairs, ∃ e, pathMatch entry.1 r.url.path = .error e) := by
  obtain ⟨before, role, after, rfl, -, stopped⟩ := collectMatches_error_first valid failed
  have mem : role ∈ before ++ role :: after := List.mem_append_right _ List.mem_cons_self
  rcases stopped with ⟨missing, rfl⟩ | ⟨rr, found, failing, rfl⟩
  · exact .inl ⟨role, mem, missing, rfl⟩
  · exact .inr ⟨rfl, role, mem, rr, found, failing⟩

/-! ## The handler -/

/-- The end of `ServeHTTP` once the upstream has answered: hop-by-hop fields deleted from its
header, the rest copied to the response, the status written, and a successful body filtered by
the rules collected.  A filter error panics after the status line has gone out. -/
def respondUpstream (rt : Runtime) (matched : List Rule) (body : Bytes) (res : Response) : Reply :=
  let header := copyHeader rt.headerOrder 1 ∅ (hopHeaders.foldl Header.del res.header)
  if res.statusCode < 300 then
    match filterBytes rt.json body matched with
    | .error err => .panicked (some (res.statusCode, header)) err
    | .ok filtered => .written res.statusCode header filtered
  else .written res.statusCode header body

/-- `p.ServeHTTP(w, r)`: the request handed to the upstream, if one is, and what is left on
`w`.  The first component is the request `p.request` passes to `p.transport`; what is left on `w`
is then decided by the transport's answer to that same request
(`Proxy.serveHTTP_snd_of_forwarded`). -/
def Proxy.serveHTTP (rt : Runtime) (p : Proxy) (r : Request) : Option Request × Reply :=
  match p.authenticate rt r with
  | .error err => (none, .error (unauthorizedResp err.message) statusUnauthorized)
  | .ok key =>
    match collectMatches rt p r 0 key.roles with
    | .error reply => (none, reply)
    | .ok matched =>
      if matched = [] then
        (none, .error (unauthorizedResp (utf8 "You do not have permission to access this resource"))
          statusUnauthorized)
      else
        (some (p.outreq rt r key.apiKey),
          match p.request rt r key.apiKey with
          | .error err => .panicked none err
          | .ok (body, res) => respondUpstream rt matched body res)

/-- Everything the handler can do, by the step that decides it. -/
theorem Proxy.serveHTTP_cases (rt : Runtime) (p : Proxy) (r : Request) :
    (∃ err, p.authenticate rt r = .error err ∧
      p.serveHTTP rt r = (none, .error (unauthorizedResp err.message) statusUnauthorized)) ∨
    (∃ key reply, p.authenticate rt r = .ok key ∧ collectMatches rt p r 0 key.roles = .error reply ∧
      p.serveHTTP rt r = (none, reply)) ∨
    (∃ key, p.authenticate rt r = .ok key ∧ collectMatches rt p r 0 key.roles = .ok [] ∧
      p.serveHTTP rt r = (none, .error
        (unauthorizedResp (utf8 "You do not have permission to access this resource"))
        statusUnauthorized)) ∨
    (∃ key matched, p.authenticate rt r = .ok key ∧ collectMatches rt p r 0 key.roles = .ok matched ∧
      matched ≠ [] ∧
      p.serveHTTP rt r = (some (p.outreq rt r key.apiKey),
        match p.request rt r key.apiKey with
        | .error err => .panicked none err
        | .ok (body, res) => respondUpstream rt matched body res)) := by
  cases auth : p.authenticate rt r with
  | error err => exact .inl ⟨err, rfl, by simp only [Proxy.serveHTTP, auth]⟩
  | ok key =>
      cases collect : collectMatches rt p r 0 key.roles with
      | error reply =>
          exact .inr (.inl ⟨key, reply, rfl, collect, by simp only [Proxy.serveHTTP, auth, collect]⟩)
      | ok matched =>
          by_cases empty : matched = []
          · subst empty
            exact .inr (.inr (.inl ⟨key, rfl, collect, by simp [Proxy.serveHTTP, auth, collect]⟩))
          · exact .inr (.inr (.inr ⟨key, matched, rfl, collect, empty,
              by simp only [Proxy.serveHTTP, auth, collect, empty, if_false]⟩))

/-- The handler contacts the upstream exactly when the request authenticates to a key, every
role of the key exists and none of their URL patterns fails on the path, and the roles grant
some rule; the request it hands over is `outreq`. -/
theorem Proxy.serveHTTP_fst_eq_some_iff (valid : rt.roleOrder.Valid) {outreq : Request} :
    (p.serveHTTP rt r).1 = some outreq ↔
      ∃ key, p.authenticate rt r = .ok key ∧ RolesUsable p.roles r.url.path key.roles ∧
        keyRules p.roles r.method r.url.path key.roles ≠ [] ∧ outreq = p.outreq rt r key.apiKey := by
  rcases p.serveHTTP_cases rt r with ⟨err, auth, serve⟩ | ⟨key, reply, auth, collect, serve⟩ |
    ⟨key, auth, collect, serve⟩ | ⟨key, matched, auth, collect, nonEmpty, serve⟩
  · simp [serve, auth]
  · -- the loop stopped early, so some role is missing or some pattern fails
    have unusable : ¬RolesUsable p.roles r.url.path key.roles := by
      rw [← exists_collectMatches_ok_iff valid key.roles 0, collect]
      simp
    simp [serve, auth, unusable]
  · have empty := (collectMatches_perm valid collect).symm.eq_nil
    simp [serve, auth, empty]
  · have usable := (exists_collectMatches_ok_iff valid key.roles 0).mp ⟨matched, collect⟩
    have granted : keyRules p.roles r.method r.url.path key.roles ≠ [] := by
      intro empty
      have perm := collectMatches_perm valid collect
      rw [empty] at perm
      exact nonEmpty perm.eq_nil
    simp [serve, auth, usable, granted, eq_comm]

/-- Whatever the order of the roles' maps, the handler contacts the upstream only with
`outreq`, for the key the request authenticates to. -/
theorem Proxy.serveHTTP_fst_eq_some {outreq : Request}
    (forwarded : (p.serveHTTP rt r).1 = some outreq) :
    ∃ key, p.authenticate rt r = .ok key ∧ outreq = p.outreq rt r key.apiKey := by
  rcases p.serveHTTP_cases rt r with ⟨err, -, serve⟩ | ⟨key, reply, -, -, serve⟩ |
    ⟨key, -, -, serve⟩ | ⟨key, matched, auth, -, -, serve⟩
  all_goals rw [serve] at forwarded
  · cases forwarded
  · cases forwarded
  · cases forwarded
  · exact ⟨key, auth, (Option.some.inj forwarded).symm⟩

/-- What the client is sent for a forwarded request is decided by the transport's answer to that
same `outreq`: a failed round trip or body read panics with its error, and a response goes
through `respondUpstream` with the rules collected, which are, up to order, those the roles
grant. -/
theorem Proxy.serveHTTP_snd_of_forwarded (valid : rt.roleOrder.Valid) {outreq : Request}
    (forwarded : (p.serveHTTP rt r).1 = some outreq) :
    ∃ key matched, p.authenticate rt r = .ok key ∧ outreq = p.outreq rt r key.apiKey ∧
      matched.Perm (keyRules p.roles r.method r.url.path key.roles) ∧
      ((∃ err, p.transport outreq = .error err ∧ (p.serveHTTP rt r).2 = .panicked none err) ∨
        (∃ res err, p.transport outreq = .ok res ∧ res.body = .error err ∧
          (p.serveHTTP rt r).2 = .panicked none err) ∨
        (∃ res body, p.transport outreq = .ok res ∧ res.body = .ok body ∧
          (p.serveHTTP rt r).2 = respondUpstream rt matched body res)) := by
  rcases p.serveHTTP_cases rt r with ⟨err, -, serve⟩ | ⟨key, reply, -, -, serve⟩ |
    ⟨key, -, -, serve⟩ | ⟨key, matched, auth, collect, -, serve⟩
  all_goals rw [serve] at forwarded ⊢
  · cases forwarded
  · cases forwarded
  · cases forwarded
  · obtain rfl := Option.some.inj forwarded
    refine ⟨key, matched, auth, rfl, collectMatches_perm valid collect, ?_⟩
    -- `request` is the round trip of this `outreq`, then the read of the body
    cases req : p.request rt r key.apiKey with
    | error err =>
        rcases Proxy.request_eq_error.mp req with sent | ⟨res, sent, read⟩
        · exact .inl ⟨err, sent, rfl⟩
        · exact .inr (.inl ⟨res, err, sent, read, rfl⟩)
    | ok answer =>
        obtain ⟨body, res⟩ := answer
        obtain ⟨sent, read⟩ := Proxy.request_eq_ok.mp req
        exact .inr (.inr ⟨res, body, sent, read, rfl⟩)

/-- The handler writes a status line only after forwarding the request: every earlier way out
answers with a JSON error or panics before writing. -/
theorem Proxy.serveHTTP_fst_of_sent (valid : rt.roleOrder.Valid) {status : Nat} {header : Header}
    (sent : (∃ body, (p.serveHTTP rt r).2 = .written status header body) ∨
      ∃ err, (p.serveHTTP rt r).2 = .panicked (some (status, header)) err) :
    ∃ key, p.authenticate rt r = .ok key ∧
      (p.serveHTTP rt r).1 = some (p.outreq rt r key.apiKey) := by
  rcases p.serveHTTP_cases rt r with ⟨err, -, serve⟩ | ⟨key, reply, -, collect, serve⟩ |
    ⟨key, -, -, serve⟩ | ⟨key, matched, auth, -, -, serve⟩
  · simp [serve] at sent
  · -- a role loop that stops early answers 401 or panics before any header is written
    rcases collectMatches_error valid collect with ⟨role, -, -, rfl⟩ | ⟨rfl, -⟩
    all_goals simp [serve] at sent
  · simp [serve] at sent
  · exact ⟨key, auth, by rw [serve]⟩

/-- A status line goes out only with the upstream's answer to the forwarded request: the reply is
`respondUpstream` of that answer and of the rules collected. -/
theorem Proxy.serveHTTP_of_sent (valid : rt.roleOrder.Valid) {status : Nat} {header : Header}
    (sent : (∃ body, (p.serveHTTP rt r).2 = .written status header body) ∨
      ∃ err, (p.serveHTTP rt r).2 = .panicked (some (status, header)) err) :
    ∃ key matched res upstream, p.authenticate rt r = .ok key ∧
      matched.Perm (keyRules p.roles r.method r.url.path key.roles) ∧
      (p.serveHTTP rt r).1 = some (p.outreq rt r key.apiKey) ∧
      p.transport (p.outreq rt r key.apiKey) = .ok res ∧ res.body = .ok upstream ∧
      (p.serveHTTP rt r).2 = respondUpstream rt matched upstream res := by
  obtain ⟨key, auth, forwarded⟩ := Proxy.serveHTTP_fst_of_sent valid sent
  obtain ⟨key', matched, auth', sameRequest, perm, replied⟩ :=
    Proxy.serveHTTP_snd_of_forwarded valid forwarded
  obtain rfl : key = key' := Except.ok.inj (auth.symm.trans auth')
  -- a failed round trip or body read panics before the status line
  rcases replied with ⟨err, -, panicked⟩ | ⟨res, err, -, -, panicked⟩ |
    ⟨res, upstream, transported, read, replied⟩
  · simp [panicked] at sent
  · simp [panicked] at sent
  · exact ⟨key, matched, res, upstream, auth, perm, forwarded, sameRequest ▸ transported, read,
      replied⟩

/-- When the upstream answers with a status below 300, the body written is the filtered one. -/
theorem respondUpstream_of_lt {matched : List Rule} {body filtered : Bytes} {res : Response}
    (success : res.statusCode < 300) (ok : filterBytes rt.json body matched = .ok filtered) :
    respondUpstream rt matched body res = .written res.statusCode
      (copyHeader rt.headerOrder 1 ∅ (hopHeaders.foldl Header.del res.header)) filtered := by
  simp [respondUpstream, success, ok]

/-- Any other status is passed on with the upstream's body as it is. -/
theorem respondUpstream_of_not_lt {matched : List Rule} {body : Bytes} {res : Response}
    (failure : ¬res.statusCode < 300) :
    respondUpstream rt matched body res = .written res.statusCode
      (copyHeader rt.headerOrder 1 ∅ (hopHeaders.foldl Header.del res.header)) body := by
  simp [respondUpstream, failure]

/-- A body written with a status below `300` is the upstream's, filtered without error. -/
theorem respondUpstream_written_of_lt {matched : List Rule} {body : Bytes} {res : Response}
    {status : Nat} {header : Header} {written : Bytes}
    (answered : respondUpstream rt matched body res = .written status header written)
    (success : status < 300) : filterBytes rt.json body matched = .ok written := by
  unfold respondUpstream at answered
  dsimp only at answered
  split_ifs at answered with upstreamSuccess
  · cases filtered : filterBytes rt.json body matched with
    | error err =>
        rw [filtered] at answered
        cases answered
    | ok out =>
        rw [filtered] at answered
        cases answered
        rfl
  · cases answered
    exact absurd success upstreamSuccess

/-- The status line and header that go out with the upstream's answer, whether its body is then
written or the filter panics: its status, and every field of its header that is not hop-by-hop
and has values. -/
theorem respondUpstream_header (valid : rt.headerOrder.Valid) {matched : List Rule}
    {body : Bytes} {res : Response} {status : Nat} {header : Header}
    (sent : (∃ written, respondUpstream rt matched body res = .written status header written) ∨
      ∃ err, respondUpstream rt matched body res = .panicked (some (status, header)) err) :
    status = res.statusCode ∧ ∀ k, header.lookup k =
      if k ∈ hopHeaders then none else (res.header.lookup k).filter fun vv => !vv.isEmpty := by
  -- every branch of the source sends the one copy made before the status line
  have copied : status = res.statusCode ∧
      header = copyHeader rt.headerOrder 1 ∅ (hopHeaders.foldl Header.del res.header) := by
    unfold respondUpstream at sent
    split_ifs at sent
    · cases filtered : filterBytes rt.json body matched <;> simp [filtered] at sent <;>
        simp [sent]
    · simp at sent
      simp [sent]
  obtain ⟨rfl, rfl⟩ := copied
  refine ⟨rfl, fun k => ?_⟩
  rw [lookup_copyHeader valid, Header.lookup_foldl_del]
  split_ifs <;> simp

/-! ## A proxy to run

The witnesses below run the handler on one configuration: a role `reader` that may `GET` the
paths one segment deep and read the keys one level deep, the key `k` for it, and an upstream
that answers `{"a":"x"}`. -/

/-- A base64 codec that leaves bytes as they are: decoding inverts encoding, as for the real
one. -/
def plainBase64 : Base64 := ⟨id, some⟩

/-- The one rule of the role `reader`. -/
def readerRule : Rule := ⟨[utf8 "GET"], [utf8 "**"]⟩

/-- The role file: `reader` maps `/*` to `readerRule`. -/
def exampleRoles : Map Bytes Role :=
  AList.insert (utf8 "reader") (AList.insert (utf8 "/*") readerRule ∅) ∅

/-- What the proxy key `k` opens to. -/
def exampleKey : Key := ⟨Time.ofUnix 0, [utf8 "reader"], utf8 "SECRET"⟩

def exampleProxy : Proxy where
  keyOpener user :=
    if user = utf8 "k" then .ok exampleKey else .error ⟨utf8 "Provided key data is invalid"⟩
  roles := exampleRoles
  upstreamURL := ⟨utf8 "https", none, utf8 "api.example.com", [], [], []⟩
  transport _ := .ok ⟨statusOK, ∅, .ok sampleFlat⟩

def exampleRuntime : Runtime where
  base64 := plainBase64
  json := sampleCodec
  splitHostPort _ := none
  roleOrder := Schedule.stored
  headerOrder := Schedule.stored

/-- A `GET` with the proxy key `k` whose target has the given scheme, host and path: empty
scheme and host make an origin-form target. -/
def exampleRequest (scheme host path : Bytes) : Request where
  method := utf8 "GET"
  url := ⟨scheme, none, host, path, [], []⟩
  proto := utf8 "HTTP/1.1"
  protoMajor := 1
  protoMinor := 1
  header := setBasicAuth plainBase64 ∅ (utf8 "k") []
  body := []
  close := false
  host := utf8 "api.example.com"
  remoteAddr := []

/-! ## What the handler does -/

/-- What `ServeHTTP` does with a request. -/
structure ServeSpec (rt : Runtime) (p : Proxy) (r : Request) : Prop where
  /-- The upstream is contacted exactly when the basic credentials open to a key, every role of
  the key exists, none of their URL patterns makes `path.Match` fail on the URL path, and the
  roles grant some rule. -/
  contacted_iff : (∃ outreq, (p.serveHTTP rt r).1 = some outreq) ↔
    ∃ user password key, basicAuth rt.base64 r.header = some (user, password) ∧
      p.keyOpener user = .ok key ∧ RolesUsable p.roles r.url.path key.roles ∧
      keyRules p.roles r.method r.url.path key.roles ≠ []
  /-- Otherwise the first step that fails decides the answer.  Credentials that do not open
  give 401 with the reason.  Else the first role of the key, in the key's order, that does not
  exist gives 401 `Role … does not exist`, and the first one with a URL pattern that `path.Match`
  fails on gives the pattern error's panic.  With every role usable and no rule granted, the
  answer is 401 `You do not have permission to access this resource`. -/
  refused : (p.serveHTTP rt r).1 = none →
    (∃ err, p.authenticate rt r = .error err ∧
      (p.serveHTTP rt r).2 = .error (unauthorizedResp err.message) statusUnauthorized) ∨
    (∃ key, p.authenticate rt r = .ok key ∧ ∃ before role after,
      key.roles = before ++ role :: after ∧ RolesUsable p.roles r.url.path before ∧
      ((p.roles.lookup role = none ∧
          (p.serveHTTP rt r).2 = .error
            (unauthorizedResp (utf8 "Role " ++ role ++ utf8 " does not exist")) statusUnauthorized) ∨
        (∃ rr, p.roles.lookup role = some rr ∧
          (∃ entry ∈ rr.pairs, ∃ e, pathMatch entry.1 r.url.path = .error e) ∧
          (p.serveHTTP rt r).2 = .panicked none PathError.errBadPattern.toError))) ∨
    (∃ key, p.authenticate rt r = .ok key ∧ RolesUsable p.roles r.url.path key.roles ∧
      keyRules p.roles r.method r.url.path key.roles = [] ∧
      (p.serveHTTP rt r).2 = .error
        (unauthorizedResp (utf8 "You do not have permission to access this resource"))
        statusUnauthorized)
  /-- A forwarded request is `outreq` for the key's upstream API key; `matches` holds, up to
  order, the rules the roles grant; a status below 300 gets the body filtered by `matches`, and
  any other status the upstream's body as it is. -/
  forwarded : ∀ outreq reply, p.serveHTTP rt r = (some outreq, reply) →
    ∃ key matched, p.authenticate rt r = .ok key ∧
      matched.Perm (keyRules p.roles r.method r.url.path key.roles) ∧
      outreq = p.outreq rt r key.apiKey ∧
      ∀ body res, p.request rt r key.apiKey = .ok (body, res) →
        (res.statusCode < 300 → ∀ filtered, filterBytes rt.json body matched = .ok filtered →
          ∃ header, reply = .written res.statusCode header filtered) ∧
        (¬res.statusCode < 300 → ∃ header, reply = .written res.statusCode header body)

/-- A rule collected for a key comes from one of its roles. -/
theorem exists_role_of_mem_keyRules {roles : Map Bytes Role} {method urlPath : Bytes}
    {keyRoles : List Bytes} {rule : Rule} (mem : rule ∈ keyRules roles method urlPath keyRoles) :
    ∃ role rr, roles.lookup role = some rr ∧ ∃ entry ∈ rr.pairs, entry.2 = rule := by
  obtain ⟨role, -, granted⟩ := List.mem_flatMap.mp mem
  cases found : roles.lookup role with
  | none => simp [found] at granted
  | some rr =>
      simp only [found, Option.map_some, Option.getD_some, grantedRules, List.mem_map] at granted
      obtain ⟨entry, kept, rfl⟩ := granted
      exact ⟨role, rr, found, entry, (List.mem_filter.mp kept).1, rfl⟩

/-- The loop over the key's roles stops early with the same reply in every order of the roles'
maps: a missing role is met at the same place, and a role with a failing pattern fails in every
order. -/
theorem collectMatches_error_of_valid {rt' : Runtime} (valid : rt.roleOrder.Valid)
    (valid' : rt'.roleOrder.Valid) :
    ∀ {roles : List Bytes} {i : Nat} {reply : Reply},
      collectMatches rt p r i roles = .error reply → collectMatches rt' p r i roles = .error reply
  | [], i, reply, failed => by
      simp [collectMatches, pure, Except.pure] at failed
  | role :: roles, i, reply, failed => by
      rw [collectMatches] at failed ⊢
      cases found : p.roles.lookup role with
      | none => simpa [found] using failed
      | some rr =>
          -- both orders visit the same patterns, so both loops over the role finish or neither
          have sameOk : (∃ g, roleMatches r.method r.url.path (rt.roleOrder i rr) = .ok g) ↔
              ∃ g, roleMatches r.method r.url.path (rt'.roleOrder i rr) = .ok g := by
            rw [exists_roleMatches_ok_iff, exists_roleMatches_ok_iff]
            simp only [(valid i rr).mem_iff, (valid' i rr).mem_iff]
          cases visit : roleMatches r.method r.url.path (rt.roleOrder i rr) with
          | error e =>
              cases visit' : roleMatches r.method r.url.path (rt'.roleOrder i rr) with
              | ok g =>
                  obtain ⟨g', finished⟩ := sameOk.mpr ⟨g, visit'⟩
                  rw [visit] at finished
                  cases finished
              | error e' =>
                  cases e
                  cases e'
                  simpa [found, visit, visit'] using failed
          | ok g =>
              obtain ⟨g', visit'⟩ := sameOk.mp ⟨g, visit⟩
              simp only [found, visit, bind_eq_error_iff] at failed
              simp only [visit', bind_eq_error_iff]
              rcases failed with failed | ⟨more, -, failed⟩
              · exact .inl (collectMatches_error_of_valid valid valid' failed)
              · simp [pure, Except.pure] at failed

/-- What the handler writes after the upstream answered, for two orders of the rules collected:
when both write a body, they write the same. -/
theorem respondUpstream_written_of_perm {matched matched' : List Rule} (perm : matched.Perm matched')
    {body : Bytes} {res : Response} {status status' : Nat} {header header' : Header}
    {written written' : Bytes}
    (first : respondUpstream rt matched body res = .written status header written)
    (second : respondUpstream rt matched' body res = .written status' header' written') :
    status = status' ∧ header = header' ∧ written = written' := by
  by_cases success : res.statusCode < 300
  · cases filtered : filterBytes rt.json body matched with
    | error err => simp [respondUpstream, success, filtered] at first
    | ok out =>
        cases filtered' : filterBytes rt.json body matched' with
        | error err => simp [respondUpstream, success, filtered'] at second
        | ok out' =>
            simp only [respondUpstream, success, if_true, filtered, filtered',
              Reply.written.injEq] at first second
            obtain ⟨rfl, rfl, rfl⟩ := first
            obtain ⟨rfl, rfl, rfl⟩ := second
            exact ⟨rfl, rfl, filterBytes_eq_of_perm_of_ok perm filtered filtered'⟩
  · simp only [respondUpstream, success, if_false, Reply.written.injEq] at first second
    obtain ⟨rfl, rfl, rfl⟩ := first
    obtain ⟨rfl, rfl, rfl⟩ := second
    exact ⟨rfl, rfl, rfl⟩

/-- For two orders of the roles' maps, the handler does the same thing, except that the rules
it filters with may come in another order. -/
theorem Proxy.serveHTTP_roleOrder_cases (σ : Schedule Bytes Rule) (valid : rt.roleOrder.Valid)
    (valid' : σ.Valid) :
    p.serveHTTP rt r = p.serveHTTP { rt with roleOrder := σ } r ∨
      ∃ key matched matched', p.authenticate rt r = .ok key ∧
        matched.Perm (keyRules p.roles r.method r.url.path key.roles) ∧ matched.Perm matched' ∧
        p.serveHTTP rt r = (some (p.outreq rt r key.apiKey),
          match p.request rt r key.apiKey with
          | .error err => .panicked none err
          | .ok (body, res) => respondUpstream rt matched body res) ∧
        p.serveHTTP { rt with roleOrder := σ } r = (some (p.outreq rt r key.apiKey),
          match p.request rt r key.apiKey with
          | .error err => .panicked none err
          | .ok (body, res) => respondUpstream rt matched' body res) := by
  have valid'' : ({ rt with roleOrder := σ } : Runtime).roleOrder.Valid := valid'
  rcases p.serveHTTP_cases rt r with ⟨err, auth, serve⟩ | ⟨key, reply, auth, collect, serve⟩ |
    ⟨key, auth, collect, serve⟩ | ⟨key, matched, auth, collect, nonEmpty, serve⟩
  · left
    have auth' : p.authenticate { rt with roleOrder := σ } r = .error err := auth
    rw [serve]
    simp only [Proxy.serveHTTP, auth']
  · left
    have auth' : p.authenticate { rt with roleOrder := σ } r = .ok key := auth
    have collect' := collectMatches_error_of_valid valid valid'' collect
    rw [serve]
    simp only [Proxy.serveHTTP, auth', collect']
  · -- nothing granted in one order, so nothing in the other
    left
    have auth' : p.authenticate { rt with roleOrder := σ } r = .ok key := auth
    obtain ⟨matched', collect'⟩ := (exists_collectMatches_ok_iff valid'' key.roles 0).mpr
      ((exists_collectMatches_ok_iff valid key.roles 0).mp ⟨[], collect⟩)
    have perm := (collectMatches_perm valid'' collect').trans (collectMatches_perm valid collect).symm
    rw [perm.eq_nil] at collect'
    rw [serve]
    simp only [Proxy.serveHTTP, auth', collect', if_true]
  · right
    have auth' : p.authenticate { rt with roleOrder := σ } r = .ok key := auth
    obtain ⟨matched', collect'⟩ := (exists_collectMatches_ok_iff valid'' key.roles 0).mpr
      ((exists_collectMatches_ok_iff valid key.roles 0).mp ⟨matched, collect⟩)
    have perm := collectMatches_perm valid collect
    have perm' := perm.trans (collectMatches_perm valid'' collect').symm
    have nonEmpty' : matched' ≠ [] := by
      intro empty
      rw [empty] at perm'
      exact nonEmpty perm'.eq_nil
    refine ⟨key, matched, matched', auth, perm, perm', serve, ?_⟩
    simp only [Proxy.serveHTTP, auth', collect', nonEmpty', if_false]
    rfl

/-- With no response-key pattern that can fail, the order of the rules does not change what is
written. -/
theorem respondUpstream_eq_of_perm {matched matched' : List Rule} (perm : matched.Perm matched')
    (total : ∀ keyPattern ∈ responsePatterns matched, Total keyPattern) (body : Bytes)
    (res : Response) :
    respondUpstream rt matched body res = respondUpstream rt matched' body res := by
  simp only [respondUpstream, filterBytes_eq_of_perm perm total]

/-- How far the order of the rules reaches: through `filterBytes` only, and there only through
a response-key pattern that can make `path.Match` fail. -/
structure OrderIndependent (rt : Runtime) (p : Proxy) (r : Request) (σ : Schedule Bytes Rule) :
    Prop where
  /-- Two orders of the rules that both filter a document write the same output. -/
  filterBytes_ok : ∀ (codec : Codec) (input : Bytes) (rules rules' : List Rule) (out out' : Bytes),
    rules.Perm rules' → filterBytes codec input rules = .ok out →
      filterBytes codec input rules' = .ok out' → out = out'
  /-- With no response-key pattern that can fail, every order has the same outcome. -/
  filterBytes_total : ∀ (codec : Codec) (input : Bytes) (rules rules' : List Rule),
    rules.Perm rules' → (∀ keyPattern ∈ responsePatterns rules, Total keyPattern) →
      filterBytes codec input rules = filterBytes codec input rules'
  /-- Whether and with what the upstream is contacted does not depend on the order of the
  roles' maps. -/
  contacted : (p.serveHTTP rt r).1 = (p.serveHTTP { rt with roleOrder := σ } r).1
  /-- When both orders write a response, they write the same status, header and body. -/
  written : ∀ status header body status' header' body',
    (p.serveHTTP rt r).2 = .written status header body →
    (p.serveHTTP { rt with roleOrder := σ } r).2 = .written status' header' body' →
      status = status' ∧ header = header' ∧ body = body'
  /-- When no response-key pattern of any role can fail, the handler does the same thing. -/
  total : (∀ role rr, p.roles.lookup role = some rr → ∀ entry ∈ rr.pairs,
      ∀ keyPattern ∈ entry.2.responseKeys, Total keyPattern) →
    p.serveHTTP rt r = p.serveHTTP { rt with roleOrder := σ } r

/-- `ServeHTTP` is `OrderIndependent` between any two orders Go may visit the roles' maps in. -/
theorem Proxy.serveHTTP_roleOrder (rt : Runtime) (p : Proxy) (r : Request)
    (σ : Schedule Bytes Rule) (valid : rt.roleOrder.Valid) (valid' : σ.Valid) :
    OrderIndependent rt p r σ := by
  have filterOk : ∀ (codec : Codec) (input : Bytes) (rules rules' : List Rule) (out out' : Bytes),
      rules.Perm rules' → filterBytes codec input rules = .ok out →
        filterBytes codec input rules' = .ok out' → out = out' :=
    fun _ _ _ _ _ _ perm first second => filterBytes_eq_of_perm_of_ok perm first second
  have filterTotal : ∀ (codec : Codec) (input : Bytes) (rules rules' : List Rule),
      rules.Perm rules' → (∀ keyPattern ∈ responsePatterns rules, Total keyPattern) →
        filterBytes codec input rules = filterBytes codec input rules' :=
    fun codec input _ _ perm total => filterBytes_eq_of_perm perm total codec input
  rcases Proxy.serveHTTP_roleOrder_cases σ valid valid' with
    same | ⟨key, matched, matched', -, granted, perm, serve, serve'⟩
  · refine ⟨filterOk, filterTotal, by rw [same],
      fun status header body status' header' body' first second => ?_, fun _ => same⟩
    rw [same, second, Reply.written.injEq] at first
    obtain ⟨rfl, rfl, rfl⟩ := first
    exact ⟨rfl, rfl, rfl⟩
  · refine ⟨filterOk, filterTotal, by rw [serve, serve'],
      fun status header body status' header' body' first second => ?_, fun total => ?_⟩
    · rw [serve] at first
      rw [serve'] at second
      cases requested : p.request rt r key.apiKey with
      | error err => simp [requested] at first
      | ok answer =>
          simp only [requested] at first second
          exact respondUpstream_written_of_perm perm first second
    · -- every rule collected comes from a role, so none of its patterns can fail
      have totalMatched : ∀ keyPattern ∈ responsePatterns matched, Total keyPattern := by
        intro keyPattern mem
        obtain ⟨rule, ruleMem, keyMem⟩ := List.mem_flatMap.mp mem
        obtain ⟨role, rr, found, entry, entryMem, rfl⟩ :=
          exists_role_of_mem_keyRules (granted.mem_iff.mp ruleMem)
        exact total role rr found entry entryMem keyPattern keyMem
      rw [serve, serve']
      cases requested : p.request rt r key.apiKey with
      | error err => rfl
      | ok answer => simp only [respondUpstream_eq_of_perm perm totalMatched]

/-- The example's role in reverse order, the only other order of a one-entry map. -/
theorem serveHTTP_roleOrder_users :
    OrderIndependent exampleRuntime exampleProxy (exampleRequest [] [] (utf8 "/users"))
      (fun _ m => m.pairs.reverse) :=
  Proxy.serveHTTP_roleOrder exampleRuntime exampleProxy (exampleRequest [] [] (utf8 "/users"))
    (fun _ m => m.pairs.reverse) Schedule.stored_valid fun _ _ => List.reverse_perm _

/-! ## Where the request goes -/

/-- A forwarded request whose target carries a scheme of its own, as an absolute-form request
line gives it, goes to the scheme and host the client named, with the upstream API key as its
basic credentials: `ResolveReference` returns such a reference as it is. -/
theorem Proxy.serveHTTP_absoluteForm (valid : rt.headerOrder.Valid) {outreq : Request}
    (forwarded : (p.serveHTTP rt r).1 = some outreq) (absolute : r.url.scheme ≠ []) :
    outreq.url = { r.url with path := Url.removeDotSegments r.url.path } ∧
      ∃ key, p.authenticate rt r = .ok key ∧
        outreq.header.lookup authorization = some [upstreamAuthorization rt key.apiKey] := by
  obtain ⟨key, auth, rfl⟩ := Proxy.serveHTTP_fst_eq_some forwarded
  obtain ⟨url, header⟩ := Proxy.outreq_of_scheme valid p absolute key.apiKey
  exact ⟨url, key, auth, header⟩

/-- The key `k` used with an absolute-form target naming `attacker.example`: the request goes
there, carrying the upstream API key. -/
theorem serveHTTP_absoluteForm_attacker :
    (exampleProxy.serveHTTP exampleRuntime
        (exampleRequest (utf8 "http") (utf8 "attacker.example") (utf8 "/users"))).1 =
      some (exampleProxy.outreq exampleRuntime
        (exampleRequest (utf8 "http") (utf8 "attacker.example") (utf8 "/users")) (utf8 "SECRET")) ∧
    (exampleProxy.outreq exampleRuntime
        (exampleRequest (utf8 "http") (utf8 "attacker.example") (utf8 "/users")) (utf8 "SECRET")).url =
      { (exampleRequest (utf8 "http") (utf8 "attacker.example") (utf8 "/users")).url with
        path := Url.removeDotSegments (utf8 "/users") } ∧
      ∃ key, exampleProxy.authenticate exampleRuntime
          (exampleRequest (utf8 "http") (utf8 "attacker.example") (utf8 "/users")) = .ok key ∧
        (exampleProxy.outreq exampleRuntime
          (exampleRequest (utf8 "http") (utf8 "attacker.example") (utf8 "/users"))
            (utf8 "SECRET")).header.lookup authorization =
          some [upstreamAuthorization exampleRuntime key.apiKey] :=
  ⟨rfl, Proxy.serveHTTP_absoluteForm Schedule.stored_valid rfl (by decide)⟩

/-- The request handed to the upstream names the client last in `X-Forwarded-For`, after the
values the client sent; those lose their empty entries when the hop-by-hop loop copied the
header. -/
theorem Proxy.serveHTTP_xForwardedFor (valid : rt.headerOrder.Valid) {outreq : Request}
    (forwarded : (p.serveHTTP rt r).1 = some outreq) {clientIP port : Bytes}
    (split : rt.splitHostPort r.remoteAddr = some (clientIP, port)) :
    outreq.header.lookup xForwardedFor =
      some [match (if ∃ h ∈ hopHeaders, r.header.get h ≠ [] then
          (r.header.lookup xForwardedFor).filter fun vv => !vv.isEmpty
        else r.header.lookup xForwardedFor) with
        | some prior => join prior (utf8 ", ") ++ utf8 ", " ++ clientIP
        | none => clientIP] := by
  obtain ⟨key, -, rfl⟩ := Proxy.serveHTTP_fst_eq_some forwarded
  exact Proxy.outreq_header_xForwardedFor valid p r key.apiKey split

/-- A runtime whose `SplitHostPort` finds the client `192.0.2.1`. -/
def forwardingRuntime : Runtime :=
  { exampleRuntime with splitHostPort := fun _ => some (utf8 "192.0.2.1", utf8 "5555") }

/-- A client that sent no `X-Forwarded-For` is named alone. -/
theorem serveHTTP_xForwardedFor_users :
    (exampleProxy.serveHTTP forwardingRuntime (exampleRequest [] [] (utf8 "/users"))).1 =
      some (exampleProxy.outreq forwardingRuntime (exampleRequest [] [] (utf8 "/users"))
        (utf8 "SECRET")) ∧
    (exampleProxy.outreq forwardingRuntime (exampleRequest [] [] (utf8 "/users"))
        (utf8 "SECRET")).header.lookup xForwardedFor = some [utf8 "192.0.2.1"] :=
  ⟨rfl, (@Proxy.serveHTTP_xForwardedFor forwardingRuntime exampleProxy
    (exampleRequest [] [] (utf8 "/users")) Schedule.stored_valid _ rfl (utf8 "192.0.2.1")
    (utf8 "5555") rfl).trans (by decide)⟩

/-! ## What reaches the client -/

/-- No hop-by-hop field of the upstream's answer reaches the client.  Whatever status line and
header the handler writes come from the upstream's answer to the request it forwarded for the
key the request authenticates to, less the hop-by-hop fields and the fields without values. -/
theorem Proxy.serveHTTP_responseHeader (valid : rt.headerOrder.Valid)
    (roleValid : rt.roleOrder.Valid) {status : Nat} {header : Header}
    (sent : (∃ body, (p.serveHTTP rt r).2 = .written status header body) ∨
      ∃ err, (p.serveHTTP rt r).2 = .panicked (some (status, header)) err) :
    ∃ key res, p.authenticate rt r = .ok key ∧
      p.transport (p.outreq rt r key.apiKey) = .ok res ∧ status = res.statusCode ∧
      ∀ k, header.lookup k =
        if k ∈ hopHeaders then none else (res.header.lookup k).filter fun vv => !vv.isEmpty := by
  obtain ⟨key, _, res, _, auth, -, -, transported, -, replied⟩ :=
    Proxy.serveHTTP_of_sent roleValid sent
  rw [replied] at sent
  exact ⟨key, res, auth, transported, respondUpstream_header valid sent⟩

/-- With a lawful `encoding/json`, a successful answer of the proxy reads back to exactly the
strings, numbers and booleans of the upstream's body that the rules collected for the key
permit, each at its key path, up to the order of object members; an upstream body that is itself
a string, number or boolean is passed on as it is. -/
theorem Proxy.serveHTTP_body_permitted (valid : rt.roleOrder.Valid) (lawful : rt.json.Lawful)
    {status : Nat} {header : Header} {body : Bytes}
    (answered : (p.serveHTTP rt r).2 = .written status header body) (success : status < 300) :
    ∃ key matched res upstream parsed decoded, p.authenticate rt r = .ok key ∧
      matched.Perm (keyRules p.roles r.method r.url.path key.roles) ∧
      (p.serveHTTP rt r).1 = some (p.outreq rt r key.apiKey) ∧
      p.transport (p.outreq rt r key.apiKey) = .ok res ∧ res.body = .ok upstream ∧
      rt.json.unmarshal upstream = .ok parsed ∧ rt.json.unmarshal body = .ok decoded ∧
      (parsed.isScalar = true → decoded.leaves.Perm parsed.leaves) ∧
      (parsed.isScalar = false → (decoded.leaves.filter fun leaf => leaf.2.isScalar).Perm
        (parsed.leaves.filter fun leaf => leaf.2.isScalar && permits matched leaf.1)) := by
  obtain ⟨key, matched, res, upstream, auth, perm, forwarded, transported, read, replied⟩ :=
    Proxy.serveHTTP_of_sent valid (.inl ⟨body, answered⟩)
  rw [replied] at answered
  obtain ⟨parsed, decoded, parsedUpstream, decodedBody, whole, permitted⟩ :=
    filterBytes_decoded_leaves lawful (respondUpstream_written_of_lt answered success)
  exact ⟨key, matched, res, upstream, parsed, decoded, auth, perm, forwarded, transported, read,
    parsedUpstream, decodedBody, whole, permitted⟩

/-- `exampleRuntime` with the lawful `flatCodec`. -/
def flatRuntime : Runtime :=
  { exampleRuntime with json := flatCodec }

theorem serveHTTP_body_permitted_users :
    flatRuntime.roleOrder.Valid ∧ flatRuntime.json.Lawful ∧
    (exampleProxy.serveHTTP flatRuntime (exampleRequest [] [] (utf8 "/users"))).2 =
      .written statusOK ∅ sampleFlat ∧ statusOK < 300 ∧
    ∃ key matched res upstream parsed decoded,
      exampleProxy.authenticate flatRuntime (exampleRequest [] [] (utf8 "/users")) = .ok key ∧
      matched.Perm (keyRules exampleProxy.roles (exampleRequest [] [] (utf8 "/users")).method
        (exampleRequest [] [] (utf8 "/users")).url.path key.roles) ∧
      (exampleProxy.serveHTTP flatRuntime (exampleRequest [] [] (utf8 "/users"))).1 =
        some (exampleProxy.outreq flatRuntime (exampleRequest [] [] (utf8 "/users")) key.apiKey) ∧
      exampleProxy.transport
          (exampleProxy.outreq flatRuntime (exampleRequest [] [] (utf8 "/users")) key.apiKey) =
        .ok res ∧
      res.body = .ok upstream ∧ flatRuntime.json.unmarshal upstream = .ok parsed ∧
      flatRuntime.json.unmarshal sampleFlat = .ok decoded ∧
      (parsed.isScalar = true → decoded.leaves.Perm parsed.leaves) ∧
      (parsed.isScalar = false → (decoded.leaves.filter fun leaf => leaf.2.isScalar).Perm
        (parsed.leaves.filter fun leaf => leaf.2.isScalar && permits matched leaf.1)) :=
  ⟨Schedule.stored_valid, flatCodec_lawful, rfl, by decide,
    @Proxy.serveHTTP_body_permitted flatRuntime exampleProxy (exampleRequest [] [] (utf8 "/users"))
      Schedule.stored_valid flatCodec_lawful _ _ _ rfl (by decide)⟩

/-- An upstream that asks to close the connection after its answer. -/
def closingProxy : Proxy :=
  { exampleProxy with
    transport := fun _ => .ok ⟨statusOK, AList.insert (utf8 "Connection") [utf8 "close"] ∅,
      .ok sampleFlat⟩ }

/-- The upstream's request to close the connection does not reach the client. -/
theorem serveHTTP_responseHeader_closing :
    ∃ key res, closingProxy.authenticate exampleRuntime (exampleRequest [] [] (utf8 "/users")) =
        .ok key ∧
      closingProxy.transport
          (closingProxy.outreq exampleRuntime (exampleRequest [] [] (utf8 "/users")) key.apiKey) =
        .ok res ∧
      statusOK = res.statusCode ∧
      ∀ k, (∅ : Header).lookup k =
        if k ∈ hopHeaders then none else (res.header.lookup k).filter fun vv => !vv.isEmpty :=
  Proxy.serveHTTP_responseHeader Schedule.stored_valid Schedule.stored_valid (.inl ⟨_, rfl⟩)

end JsonProxy
