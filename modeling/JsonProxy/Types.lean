import JsonProxy.Go.Loop
import JsonProxy.Go.Crypto
import JsonProxy.Go.Http

/-!
# The proxy's configuration and messages

The types that main.go, auth.go and api.go declare, with the fields the handlers read.  A role
file maps each role name to a `Role`, which maps URL path patterns to the `Rule` for the paths
they match.  A `Key` is what a proxy key decrypts to: the roles it grants and the upstream API
key to present in their name.  `ErrResponse`, `KeyRequest` and `KeyResponse` are the JSON
documents of the two handlers, and `Reply` records what a handler leaves on its
`http.ResponseWriter`.
-/

namespace JsonProxy

open Go

/-- `Rule`: the HTTP methods allowed for a URL pattern (`*` allows any) and the key patterns
permitted in the JSON response. -/
structure Rule where
  methods : List Bytes
  responseKeys : List Bytes
  deriving DecidableEq, Repr

/-- `Role`: URL path patterns, as for `path.Match`, each with the rule for the paths it
matches. -/
abbrev Role := Map Bytes Rule

/-- `Key`: when the key was made, the roles it grants, and the upstream API key. -/
structure Key where
  createdAt : Time
  roles : List Bytes
  apiKey : Bytes
  deriving DecidableEq, Repr

/-- `errDetail`: a code, and a message that `omitempty` leaves out when it is empty. -/
structure ErrDetail where
  code : Bytes
  message : Bytes
  deriving DecidableEq, Repr

/-- `errResponse`, written as `{"proxy_error": ...}`. -/
structure ErrResponse where
  error : ErrDetail
  deriving DecidableEq, Repr

/-- `keyRequest`: the body of `POST /keys`. -/
structure KeyRequest where
  roles : List Bytes
  apiKey : Bytes
  deriving DecidableEq, Repr

/-- `keyResponse`: the new key, base64-encoded, and the request echoed. -/
structure KeyResponse where
  key : Bytes
  request : KeyRequest
  deriving DecidableEq, Repr

/-- What a handler leaves on its `http.ResponseWriter`. -/
inductive Reply where
  /-- `respond(w, errResponse{...}, status)`. -/
  | error (resp : ErrResponse) (status : Nat)
  /-- `respond(w, keyResponse{...}, http.StatusOK)`. -/
  | key (resp : KeyResponse)
  /-- A status line, header fields and a body written directly. -/
  | written (status : Nat) (header : Header) (body : Bytes)
  /-- A panic with its value, after the status line and header fields if those were already
  written. -/
  | panicked (sent : Option (Nat × Header)) (err : Error)

/-- `http.StatusOK`. -/
def statusOK : Nat := 200

/-- `http.StatusUnauthorized`. -/
def statusUnauthorized : Nat := 401

/-- `http.StatusNotFound`. -/
def statusNotFound : Nat := 404

end JsonProxy
