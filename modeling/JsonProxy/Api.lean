import JsonProxy.Auth
import JsonProxy.Proxy.Serve

/-!
# The key API: `POST /keys`

`API.generateKey` decodes a `keyRequest`, checks that every role it names exists, has a key made
of the roles and the API key, and answers with that key base64-encoded.  A client then presents
the decoded key as the user name of its basic credentials, and `Proxy.authenticate` opens it.

`generateKey_authenticate` follows a key through that round trip.  It holds for roles and API
keys without NUL bytes, issued between 1970 and 2106; `generateKey_nul_apiKey` shows an API key
with a NUL byte coming back split in two.
-/

namespace JsonProxy

open Go Go.Ascii Go.Json

/-- `API`: how keys are made and encoded, and the roles a key may name. -/
structure API where
  keyGen : Key → Except Error Bytes
  keyEncoder : Bytes → Bytes
  roles : Map Bytes Role

/-- `respond(w, errResponse{Error: errDetail{Code: "not_found", ...}}, http.StatusNotFound)`. -/
def notFound (message : Bytes) : Reply :=
  .error ⟨⟨utf8 "not_found", message⟩⟩ statusNotFound

/-- `a.generateKey(w, r)`, with `json.NewDecoder(r.Body).Decode` as `decode`. -/
def API.generateKey (a : API) (decode : Bytes → Except Error KeyRequest) (r : Request) : Reply :=
  if r.method ≠ utf8 "POST" then notFound []
  else
    match decode r.body with
    | .error _ =>
      .error ⟨⟨utf8 "invalid_request", utf8 "Unable to parse body as JSON."⟩⟩ statusNotFound
    | .ok req =>
      match req.roles.find? fun role => (a.roles.lookup role).isNone with
      | some role => notFound (utf8 "Role " ++ role ++ utf8 " does not exist")
      | none =>
        match a.keyGen ⟨Time.zero, req.roles, req.apiKey⟩ with
        | .error err => .panicked none err
        | .ok ciphertext => .key ⟨a.keyEncoder ciphertext, req⟩

/-- The API as `build` wires it: keys made by `auth.Generate`, encoded by `base64`. -/
def buildAPI (auth : Auth) (rand : Rand) (now : Time) (codec : Base64) (roles : Map Bytes Role) :
    API :=
  ⟨auth.generate rand now, codec.encode, roles⟩

/-- A key is issued only for a `POST` whose body decodes, whose roles all exist, and for which a
key was made; the answer echoes the request. -/
theorem API.generateKey_eq_key {a : API} {decode : Bytes → Except Error KeyRequest} {r : Request}
    {resp : KeyResponse} (issued : a.generateKey decode r = .key resp) :
    decode r.body = .ok resp.request ∧ (∀ role ∈ resp.request.roles, (a.roles.lookup role).isSome) ∧
      ∃ ciphertext, a.keyGen ⟨Time.zero, resp.request.roles, resp.request.apiKey⟩ = .ok ciphertext ∧
        resp.key = a.keyEncoder ciphertext := by
  unfold API.generateKey at issued
  by_cases post : r.method = utf8 "POST"
  · simp only [post, ne_eq, not_true_eq_false, if_false] at issued
    cases decoded : decode r.body with
    | error e => simp [decoded] at issued
    | ok req =>
        simp only [decoded] at issued
        cases missing : req.roles.find? fun role => (a.roles.lookup role).isNone with
        | some role => simp [missing, notFound] at issued
        | none =>
            simp only [missing] at issued
            have exist : ∀ role ∈ req.roles, (a.roles.lookup role).isSome := by
              intro role mem
              have := List.find?_eq_none.mp missing role mem
              simpa [Option.isNone_iff_eq_none, Option.isSome_iff_ne_none] using this
            cases made : a.keyGen ⟨Time.zero, req.roles, req.apiKey⟩ with
            | error err => simp [made] at issued
            | ok ciphertext =>
                simp only [made, Reply.key.injEq] at issued
                subst issued
                exact ⟨rfl, exist, ciphertext, made, rfl⟩
  · simp [post, notFound] at issued

/-- A key from `POST /keys`, decoded and presented as the user name of basic credentials with an
empty password, authenticates to the roles and API key asked for, created at the issuing time to
the second, when neither holds a NUL byte and the key was issued between 1970 and 2106.  The
roles exist, and no key that `Generate` makes holds a `:`. -/
theorem generateKey_authenticate {auth : Auth} (aeadLawful : auth.aead.Lawful) {rand : Rand}
    (randLawful : rand.Lawful) {now : Time} (since1970 : 0 ≤ now.unix)
    (before2106 : now.unix < 2 ^ 32) (rt : Runtime) (codecLawful : rt.base64.Lawful)
    (roles : Map Bytes Role) (decode : Bytes → Except Error KeyRequest) (r : Request)
    {resp : KeyResponse}
    (issued : (buildAPI auth rand now rt.base64 roles).generateKey decode r = .key resp)
    (rolesNoNul : ∀ role ∈ resp.request.roles, nul ∉ role)
    (apiKeyNoNul : nul ∉ resp.request.apiKey) :
    (∀ key ciphertext, auth.generate rand now key = .ok ciphertext → colon ∉ ciphertext) ∧
    (∀ role ∈ resp.request.roles, (roles.lookup role).isSome) ∧
    ∃ ciphertext, rt.base64.decode resp.key = some ciphertext ∧
      ∀ (p : Proxy) (client : Request),
        ({ p with keyOpener := auth.openKey } : Proxy).authenticate rt
            { client with header := setBasicAuth rt.base64 client.header ciphertext [] } =
          .ok ⟨Time.ofUnix now.unix, resp.request.roles, resp.request.apiKey⟩ := by
  obtain ⟨-, exist, ciphertext, made, encoded⟩ := API.generateKey_eq_key issued
  -- a key made by `generateKey` has no creation time, so `Generate` stamps it `now`
  have stamped :
      createdAtOrNow now ⟨Time.zero, resp.request.roles, resp.request.apiKey⟩ = now := by
    simp [createdAtOrNow, Time.isZero]
  have opened := openKey_generate_of_bounded aeadLawful randLawful made rolesNoNul apiKeyNoNul
    (by rw [stamped]; exact since1970) (by rw [stamped]; exact before2106)
  rw [stamped] at opened
  refine ⟨fun _ _ ok => generate_colon_not_mem ok, exist, ciphertext,
    by rw [encoded]; exact codecLawful ciphertext, fun p client => ?_⟩
  have credentials : basicAuth rt.base64 (setBasicAuth rt.base64 client.header ciphertext []) =
      some (ciphertext, []) :=
    basicAuth_setBasicAuth codecLawful _ (generate_colon_not_mem made) []
  simp only [Proxy.authenticate, credentials, opened]

/-! ## Running it -/

/-- An AEAD whose sealed text is the plaintext followed by a one-byte tag: it keeps the laws the
proofs use. -/
def plainAead : Aead where
  nonceSize := 1
  overhead := 1
  sealed _ plaintext := plaintext ++ [0]
  opened _ text :=
    if text.getLast? = some 0 then .ok text.dropLast
    else .error ⟨utf8 "cipher: message authentication failed"⟩

theorem plainAead_lawful : plainAead.Lawful where
  opened_sealed _ plaintext := by simp [plainAead]
  length_sealed _ plaintext := by simp [plainAead]
  overhead_pos := by decide

/-- A `rand.Read` that fills every buffer with ones. -/
def onesRand : Rand := fun _ n => .ok (List.replicate n 1)

theorem onesRand_lawful : onesRand.Lawful := by
  intro i n bytes drawn
  simp only [onesRand, Except.ok.injEq] at drawn
  rw [← drawn, List.length_replicate]

/-- `POST /keys`. -/
def keysPost : Request :=
  { exampleRequest [] [] (utf8 "/keys") with method := utf8 "POST" }

/-- A request for a key of the role `reader`. -/
def readerKeyRequest : KeyRequest := ⟨[utf8 "reader"], utf8 "SECRET"⟩

/-- The answer to it: the nonce, the sealed layout and the tag, encoded by `plainBase64`. -/
def readerKeyResponse : KeyResponse :=
  ⟨[1] ++ (keyData (Time.ofUnix 0) readerKeyRequest.roles readerKeyRequest.apiKey ++ [0]),
    readerKeyRequest⟩

theorem generateKey_authenticate_reader :
    (∀ key ciphertext,
      (Auth.mk plainAead).generate onesRand (Time.ofUnix 0) key = .ok ciphertext →
        colon ∉ ciphertext) ∧
    (∀ role ∈ readerKeyResponse.request.roles, (exampleRoles.lookup role).isSome) ∧
    ∃ ciphertext, exampleRuntime.base64.decode readerKeyResponse.key = some ciphertext ∧
      ∀ (p : Proxy) (client : Request),
        ({ p with keyOpener := (Auth.mk plainAead).openKey } : Proxy).authenticate exampleRuntime
            { client with header := setBasicAuth exampleRuntime.base64 client.header ciphertext [] } =
          .ok ⟨Time.ofUnix (Time.ofUnix 0).unix, readerKeyResponse.request.roles,
            readerKeyResponse.request.apiKey⟩ :=
  generateKey_authenticate plainAead_lawful onesRand_lawful (by decide) (by decide) exampleRuntime
    (fun _ => rfl) exampleRoles (fun _ => .ok readerKeyRequest) keysPost rfl (by decide)
    (by decide)

/-- A request for a key with no roles and the API key `a`, NUL, `b`. -/
def nulKeyRequest : KeyRequest := ⟨[], utf8 "a\x00b"⟩

/-- The NUL byte in the API key reads back as the terminator of a role: the key opens to the
role `a` and the API key `b`. -/
theorem generateKey_nul_apiKey :
    (buildAPI ⟨plainAead⟩ onesRand (Time.ofUnix 0) plainBase64 exampleRoles).generateKey
        (fun _ => .ok nulKeyRequest) keysPost =
      .key ⟨[1] ++ (keyData (Time.ofUnix 0) [] (utf8 "a\x00b") ++ [0]), nulKeyRequest⟩ ∧
    ({ exampleProxy with keyOpener := (Auth.mk plainAead).openKey } : Proxy).authenticate
        exampleRuntime
        { exampleRequest [] [] (utf8 "/users") with
          header := setBasicAuth plainBase64 ∅
            ([1] ++ (keyData (Time.ofUnix 0) [] (utf8 "a\x00b") ++ [0])) [] } =
      .ok ⟨Time.ofUnix 0, [utf8 "a"], utf8 "b"⟩ ∧
    (⟨Time.ofUnix 0, [utf8 "a"], utf8 "b"⟩ : Key) ≠
      ⟨Time.ofUnix 0, nulKeyRequest.roles, nulKeyRequest.apiKey⟩ :=
  ⟨rfl, rfl, by decide⟩

end JsonProxy
