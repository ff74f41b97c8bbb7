import JsonProxy.Envconfig
import JsonProxy.Go.Hex
import JsonProxy.Api

/-!
# `main`: from the environment to the listening server

`main` starts from `defaultSpecification`, lets `envconfig.Process` overwrite its fields from
the environment, and hands it to `build`.  `build` makes the key that proxy keys are sealed
under, reads the role file, makes the `Auth`, and parses the upstream URL; every failure ends the
program with `log.Fatal`, inside `build` or in `main`.  Otherwise `main` listens on
`net.JoinHostPort(BindAddr, strconv.FormatInt(Port, 10))`.

What the environment can set (`processSpecification_ok_iff`): every field is its variable
`JSONPROXY_<NAME>`, or `<NAME>`, or its default; the only text that can stop `Process` is a
`Port` that `ParseInt(…, 0, 64)` refuses, and the error then names `JSONPROXY_PORT`, also when
the text came from `PORT` (`processSpecification_error_iff`).  Base `0` reads a `Port` with a
leading `0` in octal (`processSpecification_port_octal`).

What the secret must be: empty, for a random key, or the hexadecimal digits of 16, 24 or 32
bytes, the key sizes of AES (`main_listening_iff_secret`).  The comment on `Secret` and the
warning `build` logs ask for 16, 32 or 64 bytes, but a secret of 64 bytes, like any other size
AES does not take, stops the program with the `KeySizeError` of `aes.NewCipher`.

Left out: the warning line itself, the log line `main` writes before it listens, and what the
listener does; `os.Open`, the JSON decoder of the role file, `url.Parse` and `rand.Read` are
parameters.
-/

namespace JsonProxy

open Go Envconfig

/-! ## The specification -/

/-- `Specification`. -/
structure Specification where
  bindAddr : Bytes
  port : ℤ
  apiPrefix : Bytes
  secret : Bytes
  roleFile : Bytes
  upstreamURL : Bytes
  deriving DecidableEq, Repr

/-- `envPrefix`. -/
def envPrefix : Bytes :=
  utf8 "jsonproxy"

/-- `defaultSpecification`. -/
def defaultSpecification : Specification :=
  ⟨utf8 "127.0.0.1", 8080, utf8 "jsonproxy", [], utf8 "test-roles.json", []⟩

namespace Specification

/-- `BindAddr string`. -/
def bindAddrField : Envconfig.Field Specification :=
  ⟨utf8 "BindAddr", [], utf8 "string", .string fun spec v => { spec with bindAddr := v }⟩

/-- `Port int64`. -/
def portField : Envconfig.Field Specification :=
  ⟨utf8 "Port", [], utf8 "int64", .int 64 fun spec v => { spec with port := v }⟩

/-- `APIPrefix string`, tagged `envconfig:"api_prefix"`. -/
def apiPrefixField : Envconfig.Field Specification :=
  ⟨utf8 "APIPrefix", utf8 "api_prefix", utf8 "string",
    .string fun spec v => { spec with apiPrefix := v }⟩

/-- `Secret string`. -/
def secretField : Envconfig.Field Specification :=
  ⟨utf8 "Secret", [], utf8 "string", .string fun spec v => { spec with secret := v }⟩

/-- `RoleFile string`, tagged `envconfig:"role_file"`. -/
def roleFileField : Envconfig.Field Specification :=
  ⟨utf8 "RoleFile", utf8 "role_file", utf8 "string",
    .string fun spec v => { spec with roleFile := v }⟩

/-- `UpstreamURL string`, tagged `envconfig:"upstream_url"`. -/
def upstreamURLField : Envconfig.Field Specification :=
  ⟨utf8 "UpstreamURL", utf8 "upstream_url", utf8 "string",
    .string fun spec v => { spec with upstreamURL := v }⟩

/-- The fields of `Specification` in the order `reflect` lists them. -/
def fields : List (Envconfig.Field Specification) :=
  [bindAddrField, portField, apiPrefixField, secretField, roleFileField, upstreamURLField]

end Specification

/-- `envconfig.Process(envPrefix, &spec)` on `spec := defaultSpecification`. -/
def processSpecification (env : Env) : Except ParseError Specification :=
  process envPrefix env Specification.fields defaultSpecification

/-! ## `build` and `main` -/

/-- Why reading the role file fails: `os.Open`, or decoding its JSON into roles. -/
inductive RoleFileError where
  | openFailed (err : Error)
  | decodeFailed (err : Error)

/-- What `main` takes from outside the program: the environment, `rand.Read`, the role file by
name, `url.Parse`, and the AEAD that `cipher.NewGCM` makes of the AES block for a key. -/
structure World where
  env : Env
  rand : Rand
  readRoleFile : Bytes → Except RoleFileError (Map Bytes Role)
  parseURL : Bytes → Except Error URL
  gcm : Bytes → Aead

/-- The key of `build`: 16 bytes from `rand.Read` for the default, empty secret, and the secret
hex-decoded otherwise. -/
def buildKey (rand : Rand) (secret : Bytes) : Except Error Bytes :=
  if secret = defaultSpecification.secret then rand 0 16 else Hex.decodeString secret

/-- `build(&spec)` up to the values it wires into the handlers: the `Auth`, the roles and the
upstream URL, or the message of the `log.Fatal` that ends the program, whether `build` calls it
or returns the error for `main` to. -/
def build (w : World) (spec : Specification) : Except Bytes (Auth × Map Bytes Role × URL) :=
  match buildKey w.rand spec.secret with
  | .error err => throw err.message
  | .ok key =>
    match w.readRoleFile spec.roleFile with
    | .error (.openFailed err) =>
      throw (utf8 "Unable to open RoleFile " ++ spec.roleFile ++ utf8 ": " ++ err.message)
    | .error (.decodeFailed err) =>
      throw (utf8 "Unable to parse RoleFile " ++ spec.roleFile ++ utf8 ": " ++ err.message)
    | .ok roles =>
      match newAuth w.gcm key with
      | .error err => throw err.message
      | .ok auth =>
        match w.parseURL spec.upstreamURL with
        | .error err => throw err.message
        | .ok upstreamURL => pure (auth, roles, upstreamURL)

/-- `httpAddr`. -/
def httpAddr (spec : Specification) : Bytes :=
  joinHostPort spec.bindAddr (formatInt spec.port)

/-- How `main` ends before it serves, or what it serves with. -/
inductive Outcome where
  /-- `log.Fatal(message)`: the message is logged and the program exits. -/
  | fatal (message : Bytes)
  /-- `graceful.ListenAndServe` on `addr`, with what `build` made. -/
  | listening (spec : Specification) (auth : Auth) (roles : Map Bytes Role) (upstreamURL : URL)
      (addr : Bytes)

/-- `main` up to `graceful.ListenAndServe`. -/
def main (w : World) : Outcome :=
  match processSpecification w.env with
  | .error e => .fatal e.error
  | .ok spec =>
    match build w spec with
    | .error message => .fatal message
    | .ok (auth, roles, upstreamURL) => .listening spec auth roles upstreamURL (httpAddr spec)

/-! ## What `Process` reads -/

/-- The specification `Process` makes of the environment when it reads `port` for `Port`. -/
def specificationOf (env : Env) (port : ℤ) : Specification where
  bindAddr := orDefault (lookupVar env envPrefix (utf8 "BindAddr")) defaultSpecification.bindAddr
  port := port
  apiPrefix :=
    orDefault (lookupVar env envPrefix (utf8 "api_prefix")) defaultSpecification.apiPrefix
  secret := orDefault (lookupVar env envPrefix (utf8 "Secret")) defaultSpecification.secret
  roleFile := orDefault (lookupVar env envPrefix (utf8 "role_file")) defaultSpecification.roleFile
  upstreamURL :=
    orDefault (lookupVar env envPrefix (utf8 "upstream_url")) defaultSpecification.upstreamURL

section Process

variable {env : Env}

/-- The string fields after `BindAddr` pass as they are. -/
theorem process_tail (spec : Specification) :
    process envPrefix env [Specification.apiPrefixField, Specification.secretField,
      Specification.roleFileField, Specification.upstreamURLField] spec =
      .ok { spec with
        apiPrefix := orDefault (lookupVar env envPrefix (utf8 "api_prefix")) spec.apiPrefix
        secret := orDefault (lookupVar env envPrefix (utf8 "Secret")) spec.secret
        roleFile := orDefault (lookupVar env envPrefix (utf8 "role_file")) spec.roleFile
        upstreamURL :=
          orDefault (lookupVar env envPrefix (utf8 "upstream_url")) spec.upstreamURL } := by
  simp only [process, List.foldlM_cons, List.foldlM_nil,
    processField_string Specification.apiPrefixField rfl Specification.apiPrefix (fun _ => rfl),
    processField_string Specification.secretField rfl Specification.secret (fun _ => rfl),
    processField_string Specification.roleFileField rfl Specification.roleFile (fun _ => rfl),
    processField_string Specification.upstreamURLField rfl Specification.upstreamURL
      (fun _ => rfl), pure_bind]
  rfl

/-- With a `Port` text that is empty or reads as `port`, `Process` makes `specificationOf`. -/
theorem processSpecification_eq_ok {port : ℤ}
    (read : lookupVar env envPrefix (utf8 "Port") = [] ∧ port = 8080 ∨
      parseInt (lookupVar env envPrefix (utf8 "Port")) 0 64 = .ok port) :
    processSpecification env = .ok (specificationOf env port) := by
  have portStep : ∀ spec : Specification, spec.port = 8080 →
      processField envPrefix env spec Specification.portField = pure { spec with port := port } := by
    intro spec fromDefault
    rcases read with ⟨empty, rfl⟩ | read
    · rw [@processField_of_empty _ envPrefix env Specification.portField empty spec, ← fromDefault]
    · exact processField_int Specification.portField rfl read spec
  rw [processSpecification, process, Specification.fields, List.foldlM_cons,
    processField_string Specification.bindAddrField rfl Specification.bindAddr (fun _ => rfl),
    pure_bind, List.foldlM_cons, portStep _ rfl, pure_bind]
  exact process_tail _

/-- With a `Port` text that `ParseInt` refuses, `Process` stops there. -/
theorem processSpecification_eq_error {err : NumError}
    (notEmpty : lookupVar env envPrefix (utf8 "Port") ≠ [])
    (refused : parseInt (lookupVar env envPrefix (utf8 "Port")) 0 64 = .error err) :
    processSpecification env =
      .error ⟨utf8 "JSONPROXY_PORT", utf8 "Port", utf8 "int64",
        lookupVar env envPrefix (utf8 "Port")⟩ := by
  rw [processSpecification, process, Specification.fields, List.foldlM_cons,
    processField_string Specification.bindAddrField rfl Specification.bindAddr (fun _ => rfl),
    pure_bind, List.foldlM_cons,
    @processField_int_error _ Specification.portField 64 _ rfl envPrefix env err notEmpty refused]
  rfl

/-- What `Process` can make of the environment, by the `Port` text. -/
theorem processSpecification_cases :
    (lookupVar env envPrefix (utf8 "Port") = [] ∧
        processSpecification env = .ok (specificationOf env 8080)) ∨
      (∃ port, parseInt (lookupVar env envPrefix (utf8 "Port")) 0 64 = .ok port ∧
        processSpecification env = .ok (specificationOf env port)) ∨
      (lookupVar env envPrefix (utf8 "Port") ≠ [] ∧
        (∃ err, parseInt (lookupVar env envPrefix (utf8 "Port")) 0 64 = .error err) ∧
        processSpecification env =
          .error ⟨utf8 "JSONPROXY_PORT", utf8 "Port", utf8 "int64",
            lookupVar env envPrefix (utf8 "Port")⟩) := by
  by_cases empty : lookupVar env envPrefix (utf8 "Port") = []
  · exact .inl ⟨empty, processSpecification_eq_ok (.inl ⟨empty, rfl⟩)⟩
  · cases read : parseInt (lookupVar env envPrefix (utf8 "Port")) 0 64 with
    | ok port => exact .inr (.inl ⟨port, rfl, processSpecification_eq_ok (.inr read)⟩)
    | error err => exact .inr (.inr ⟨empty, ⟨err, rfl⟩, processSpecification_eq_error empty read⟩)

/-- What `Process` made, it made of the `Port` text: the default for an empty text, or what
`ParseInt` read. -/
theorem eq_specificationOf {spec : Specification} (processed : processSpecification env = .ok spec) :
    (lookupVar env envPrefix (utf8 "Port") = [] ∧ spec.port = 8080 ∨
        parseInt (lookupVar env envPrefix (utf8 "Port")) 0 64 = .ok spec.port) ∧
      spec = specificationOf env spec.port := by
  rcases @processSpecification_cases env with ⟨empty, made⟩ | ⟨port, read, made⟩ |
    ⟨_, _, failed⟩
  · obtain rfl : specificationOf env 8080 = spec := Except.ok.inj (made.symm.trans processed)
    exact ⟨.inl ⟨empty, rfl⟩, rfl⟩
  · obtain rfl : specificationOf env port = spec := Except.ok.inj (made.symm.trans processed)
    exact ⟨.inr read, rfl⟩
  · cases failed.symm.trans processed

end Process

/-- `Process` gives a specification exactly when the `Port` text is empty or reads as a number in
base `0`; every field then holds its variable's text, or its default where that is empty. -/
theorem processSpecification_ok_iff (env : Env) (spec : Specification) :
    processSpecification env = .ok spec ↔
      (lookupVar env envPrefix (utf8 "Port") = [] ∧ spec.port = 8080 ∨
        parseInt (lookupVar env envPrefix (utf8 "Port")) 0 64 = .ok spec.port) ∧
      spec = specificationOf env spec.port := by
  constructor
  · exact eq_specificationOf
  · rintro ⟨read, shape⟩
    rw [shape]
    exact processSpecification_eq_ok read

/-- The only error of `Process` is a `Port` text that `ParseInt` refuses, and it names
`JSONPROXY_PORT` whichever of `JSONPROXY_PORT` and `PORT` the text came from. -/
theorem processSpecification_error_iff (env : Env) (e : ParseError) :
    processSpecification env = .error e ↔
      lookupVar env envPrefix (utf8 "Port") ≠ [] ∧
        (∃ err, parseInt (lookupVar env envPrefix (utf8 "Port")) 0 64 = .error err) ∧
        e = ⟨utf8 "JSONPROXY_PORT", utf8 "Port", utf8 "int64",
          lookupVar env envPrefix (utf8 "Port")⟩ := by
  constructor
  · intro failed
    rcases @processSpecification_cases env with ⟨_, made⟩ | ⟨_, _, made⟩ |
      ⟨notEmpty, refused, failed'⟩
    · cases made.symm.trans failed
    · cases made.symm.trans failed
    · exact ⟨notEmpty, refused, (Except.error.inj (failed'.symm.trans failed)).symm⟩
  · rintro ⟨notEmpty, ⟨err, refused⟩, rfl⟩
    exact processSpecification_eq_error notEmpty refused

/-- A `Port` of a `0` and decimal digits is read in octal: it is their octal value when they are
octal digits, and stops `Process` when one of them is `8` or `9`. -/
theorem processSpecification_port_octal {env : Env} {ds : Bytes}
    (leading : lookupVar env envPrefix (utf8 "Port") = Ascii.zero :: ds) (decimal : Digits 10 ds) :
    (Digits 8 ds → digitsValue 8 0 ds < 2 ^ 63 →
        processSpecification env = .ok (specificationOf env (digitsValue 8 0 ds))) ∧
      (¬Digits 8 ds → ∃ e, processSpecification env = .error e) := by
  constructor
  · intro octal fits
    apply processSpecification_eq_ok (.inr _)
    rw [leading]
    exact parseInt_zero_cons_of_octal octal fits
  · intro notOctal
    obtain ⟨err, refused⟩ := parseInt_zero_cons_error decimal notOctal
    have notEmpty : lookupVar env envPrefix (utf8 "Port") ≠ [] := by
      rw [leading]
      exact List.cons_ne_nil _ _
    rw [← leading] at refused
    exact ⟨_, processSpecification_eq_error notEmpty refused⟩

/-- An environment whose only variable is `JSONPROXY_PORT=010`. -/
def octalPortEnv : Env :=
  fun key => if key = utf8 "JSONPROXY_PORT" then utf8 "010" else []

theorem processSpecification_port_ten :
    processSpecification octalPortEnv = .ok (specificationOf octalPortEnv 8) :=
  (@processSpecification_port_octal octalPortEnv (utf8 "10") (by decide) (by decide +kernel)).1
    (by decide +kernel) (by decide)

/-! ## What `main` listens with -/

/-- `main` listens when `Process` and `build` both succeed, on `httpAddr`, and only then. -/
theorem main_eq_listening_iff {w : World} {spec : Specification} {auth : Auth}
    {roles : Map Bytes Role} {upstreamURL : URL} {addr : Bytes} :
    main w = .listening spec auth roles upstreamURL addr ↔
      processSpecification w.env = .ok spec ∧ build w spec = .ok (auth, roles, upstreamURL) ∧
        addr = httpAddr spec := by
  constructor
  · intro listening
    unfold main at listening
    split at listening
    · cases listening
    rename_i spec' processed
    split at listening
    · cases listening
    rename_i auth' roles' upstreamURL' built
    cases listening
    exact ⟨processed, built, rfl⟩
  · rintro ⟨processed, built, rfl⟩
    simp only [main, processed, built]

/-- `build` makes its values when each of its steps succeeds, and only then. -/
theorem build_eq_ok {w : World} {spec : Specification} {auth : Auth} {roles : Map Bytes Role}
    {upstreamURL : URL} :
    build w spec = .ok (auth, roles, upstreamURL) ↔
      ∃ key, buildKey w.rand spec.secret = .ok key ∧ w.readRoleFile spec.roleFile = .ok roles ∧
        newAuth w.gcm key = .ok auth ∧ w.parseURL spec.upstreamURL = .ok upstreamURL := by
  constructor
  · intro built
    unfold build at built
    -- every failing step ends in a `throw`, which is no value
    split at built
    · cases built
    rename_i key madeKey
    split at built
    · cases built
    · cases built
    rename_i roles' read
    split at built
    · cases built
    rename_i auth' made
    split at built
    · cases built
    rename_i upstreamURL' parsed
    cases built
    exact ⟨key, madeKey, read, made, parsed⟩
  · rintro ⟨key, madeKey, read, made, parsed⟩
    simp only [build, madeKey, read, made, parsed]
    rfl

theorem buildKey_of_ne {secret : Bytes} (rand : Rand) (notDefault : secret ≠ []) :
    buildKey rand secret = Hex.decodeString secret :=
  if_neg notDefault

/-- Once the role file reads and the upstream URL parses, `build` succeeds when its key has a
size AES takes. -/
theorem build_ok_iff {w : World} {spec : Specification} {roles : Map Bytes Role}
    {upstreamURL : URL} (read : w.readRoleFile spec.roleFile = .ok roles)
    (parsed : w.parseURL spec.upstreamURL = .ok upstreamURL) :
    (∃ auth, build w spec = .ok (auth, roles, upstreamURL)) ↔
      ∃ key, buildKey w.rand spec.secret = .ok key ∧ key.length ∈ [16, 24, 32] := by
  simp only [build_eq_ok, read, parsed, and_true, true_and]
  constructor
  · rintro ⟨auth, key, madeKey, made⟩
    exact ⟨key, madeKey, newAuth_ok_iff.mp ⟨auth, made⟩⟩
  · rintro ⟨key, madeKey, size⟩
    obtain ⟨auth, made⟩ := newAuth_ok_iff.mpr size
    exact ⟨auth, key, madeKey, made⟩

/-- A secret decodes to a key AES takes exactly when it is the hexadecimal digits of 16, 24 or 32
bytes. -/
theorem decodeString_key_size_iff {s : Bytes} :
    (∃ key, Hex.decodeString s = .ok key ∧ key.length ∈ [16, 24, 32]) ↔
      (∀ c ∈ s, (Hex.fromHexChar c).isSome) ∧ s.length ∈ [32, 48, 64] := by
  simp only [List.mem_cons, List.not_mem_nil, or_false]
  constructor
  · rintro ⟨key, decoded, size⟩
    have twice := Hex.length_of_decodeString decoded
    exact ⟨Hex.digits_of_decodeString decoded, by omega⟩
  · rintro ⟨digits, size⟩
    obtain ⟨key, decoded⟩ := Hex.decodeString_ok (by omega) digits
    have twice := Hex.length_of_decodeString decoded
    exact ⟨key, decoded, by omega⟩

/-- A world with the environment `env`, whose role file holds the example roles, whose every
URL parses as the example upstream, whose `rand.Read` fills buffers with ones, and whose GCM
is the plain AEAD. -/
def exampleWorld (env : Env) : World where
  env := env
  rand := onesRand
  readRoleFile _ := .ok exampleRoles
  parseURL _ := .ok exampleProxy.upstreamURL
  gcm _ := plainAead

/-- Once `Process` has made `spec`, the role file reads and the upstream URL parses, `main`
listens exactly when the secret is empty and `rand.Read` fills the key, or the secret is the
hexadecimal digits of 16, 24 or 32 bytes. -/
theorem main_listening_iff_secret {w : World} {spec : Specification} {roles : Map Bytes Role}
    {upstreamURL : URL} (processed : processSpecification w.env = .ok spec)
    (read : w.readRoleFile spec.roleFile = .ok roles)
    (parsed : w.parseURL spec.upstreamURL = .ok upstreamURL) (lawful : w.rand.Lawful) :
    (∃ auth, main w = .listening spec auth roles upstreamURL (httpAddr spec)) ↔
      spec.secret = [] ∧ (∃ key, w.rand 0 16 = .ok key) ∨
        spec.secret ≠ [] ∧ (∀ c ∈ spec.secret, (Hex.fromHexChar c).isSome) ∧
          spec.secret.length ∈ [32, 48, 64] := by
  simp only [main_eq_listening_iff, processed, true_and, and_true]
  rw [build_ok_iff read parsed]
  by_cases empty : spec.secret = []
  · -- the default secret: the key is what `rand.Read` draws, 16 bytes when it draws
    have drawn : buildKey w.rand spec.secret = w.rand 0 16 := by
      rw [empty]
      rfl
    rw [drawn]
    simp only [empty, true_and, ne_eq, not_true_eq_false, false_and, or_false]
    constructor
    · rintro ⟨key, made, -⟩
      exact ⟨key, made⟩
    · rintro ⟨key, made⟩
      exact ⟨key, made, by rw [lawful 0 16 key made]; decide⟩
  · simp only [buildKey_of_ne w.rand empty, empty, false_and, false_or, ne_eq,
      not_false_eq_true, true_and]
    exact decodeString_key_size_iff

theorem main_listening_default_secret :
    ∃ auth, main (exampleWorld fun _ => []) =
      .listening defaultSpecification auth exampleRoles exampleProxy.upstreamURL
        (httpAddr defaultSpecification) :=
  (@main_listening_iff_secret (exampleWorld fun _ => []) defaultSpecification exampleRoles
    exampleProxy.upstreamURL rfl rfl rfl onesRand_lawful).mpr (.inl ⟨rfl, _, rfl⟩)

end JsonProxy
