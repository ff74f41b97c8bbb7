import JsonProxy.Go.Strconv

/-!
# `envconfig.Process`: a specification from the environment

`Process(prefix, spec)` walks the fields of the struct `spec` points to, in order, with
`reflect`.  A field's name is its `envconfig` tag if it has one, its Go name otherwise.  Its value
is read from the variable `PREFIX_NAME`, upper-cased, or, if that one is empty, from `NAME`; an
empty value leaves the field as it was.  A string is taken as it is, an integer parsed by
`strconv.ParseInt(value, 0, bits)` and a boolean by `ParseBool`; a value that does not parse
stops `Process` with a `ParseError`.

The fallback's `key := strings.ToUpper(fieldName)` declares a new variable inside its `if`, so
the `ParseError` built after it names the prefixed variable even when the value came from the
other one: every error names the prefixed variable of the field it stopped at
(`process_eq_error`).

Left out: the check that `spec` points to a struct (`main` passes `&spec`), `CanSet`, which every
exported field passes, and fields of kind `Float32`, which `ParseFloat` reads and which the
program's `Specification` has none of.
-/

namespace JsonProxy.Envconfig

open Go

/-- The environment: `os.Getenv(key)`, empty for a variable that is not set. -/
abbrev Env := Bytes → Bytes

/-- How `Process` sets a field of kind string, of an integer kind of `bits` bits, or bool:
`f.SetString`, `f.SetInt` or `f.SetBool`. -/
inductive Setter (σ : Type) where
  | string (set : σ → Bytes → σ)
  | int (bits : Nat) (set : σ → ℤ → σ)
  | bool (set : σ → Bool → σ)

/-- What `Process` reads of a field through `reflect`: its name, its `envconfig` tag (empty if it
has none), the name of its type, and how to set it. -/
structure Field (σ : Type) where
  name : Bytes
  tag : Bytes
  typeName : Bytes
  setter : Setter σ

/-- `envconfig.ParseError`. -/
structure ParseError where
  keyName : Bytes
  fieldName : Bytes
  typeName : Bytes
  value : Bytes
  deriving DecidableEq, Repr

/-- `e.Error()`. -/
def ParseError.error (e : ParseError) : Bytes :=
  utf8 "envconfig.Process: assigning " ++ e.keyName ++ utf8 " to " ++ e.fieldName ++
    utf8 ": converting \x27" ++ e.value ++ utf8 "\x27 to type " ++ e.typeName

/-- `strings.ToUpper(fmt.Sprintf("%s_%s", prefix, fieldName))`. -/
def prefixedKey (keyPrefix fieldName : Bytes) : Bytes :=
  toUpper (keyPrefix ++ utf8 "_" ++ fieldName)

/-- The text `Process` reads for the field named `fieldName`: the prefixed variable, or, if that
one is empty, the variable named by the field alone. -/
def lookupVar (env : Env) (keyPrefix fieldName : Bytes) : Bytes :=
  let value := env (prefixedKey keyPrefix fieldName)
  if value = [] then env (toUpper fieldName) else value

/-- A text, or `fallback` where it is empty: what a field holds after `Process` read the text for
it. -/
def orDefault (value fallback : Bytes) : Bytes :=
  if value = [] then fallback else value

variable {σ : Type}

namespace Field

/-- The name `Process` gives a field: its tag, or its Go name. -/
def fieldName (f : Field σ) : Bytes :=
  if f.tag ≠ [] then f.tag else f.name

/-- The `switch f.Kind()` of `Process`: the field set to the text `value`, or the `ParseError`
naming `key`. -/
def assign (f : Field σ) (spec : σ) (key value : Bytes) : Except ParseError σ :=
  match f.setter with
  | .string set => pure (set spec value)
  | .int bits set =>
    match parseInt value 0 bits with
    | .ok i => pure (set spec i)
    | .error _ => throw ⟨key, f.fieldName, f.typeName, value⟩
  | .bool set =>
    match parseBool value with
    | .ok b => pure (set spec b)
    | .error _ => throw ⟨key, f.fieldName, f.typeName, value⟩

end Field

/-- One turn of `Process`'s loop, on the field `f`. -/
def processField (keyPrefix : Bytes) (env : Env) (spec : σ) (f : Field σ) :
    Except ParseError σ :=
  let fieldName := f.fieldName
  let key := prefixedKey keyPrefix fieldName
  let value := env key
  -- the fallback's own `key` is out of scope below
  let value := if value = [] then env (toUpper fieldName) else value
  if value = [] then pure spec else f.assign spec key value

/-- `Process(prefix, spec)` over the fields of `spec`, in order. -/
def process (keyPrefix : Bytes) (env : Env) (fields : List (Field σ)) (spec : σ) :
    Except ParseError σ :=
  fields.foldlM (processField keyPrefix env) spec

/-! ## What `Process` does with each field -/

theorem processField_eq (keyPrefix : Bytes) (env : Env) (spec : σ) (f : Field σ) :
    processField keyPrefix env spec f =
      if lookupVar env keyPrefix f.fieldName = [] then pure spec
      else
        f.assign spec (prefixedKey keyPrefix f.fieldName) (lookupVar env keyPrefix f.fieldName) :=
  rfl

/-- Every error of `assign` names the key it was given, the field, its type and the text. -/
theorem assign_eq_error {f : Field σ} {spec : σ} {key value : Bytes} {e : ParseError}
    (failed : f.assign spec key value = .error e) :
    e = ⟨key, f.fieldName, f.typeName, value⟩ := by
  unfold Field.assign at failed
  -- the kind of the field, then whether its text parses
  split at failed
  · cases failed
  all_goals
    split at failed
    · cases failed
    · cases failed
      rfl

/-- A string field takes its text as it is. -/
theorem assign_string {f : Field σ} {set : σ → Bytes → σ} (string : f.setter = .string set)
    (spec : σ) (key value : Bytes) : f.assign spec key value = .ok (set spec value) := by
  simp only [Field.assign, string]
  rfl

/-- An integer field takes what `ParseInt` reads in base `0`. -/
theorem assign_int {f : Field σ} {bits : Nat} {set : σ → ℤ → σ} (int : f.setter = .int bits set)
    {value : Bytes} {i : ℤ} (read : parseInt value 0 bits = .ok i) (spec : σ) (key : Bytes) :
    f.assign spec key value = .ok (set spec i) := by
  simp only [Field.assign, int, read]
  rfl

/-- An integer field fails where `ParseInt` fails. -/
theorem assign_int_error {f : Field σ} {bits : Nat} {set : σ → ℤ → σ}
    (int : f.setter = .int bits set) {value : Bytes} {err : NumError}
    (refused : parseInt value 0 bits = .error err) (spec : σ) (key : Bytes) :
    f.assign spec key value = .error ⟨key, f.fieldName, f.typeName, value⟩ := by
  simp only [Field.assign, int, refused]
  rfl

/-- An empty text leaves the field as it was. -/
theorem processField_of_empty {keyPrefix : Bytes} {env : Env} {f : Field σ}
    (empty : lookupVar env keyPrefix f.fieldName = []) (spec : σ) :
    processField keyPrefix env spec f = pure spec := by
  rw [processField_eq, if_pos empty]

/-- A string field holds its text, or what it held where the text is empty. -/
theorem processField_string (f : Field σ) {set : σ → Bytes → σ} (string : f.setter = .string set)
    (get : σ → Bytes) (setGet : ∀ spec, set spec (get spec) = spec) (keyPrefix : Bytes) (env : Env)
    (spec : σ) :
    processField keyPrefix env spec f =
      pure (set spec (orDefault (lookupVar env keyPrefix f.fieldName) (get spec))) := by
  rw [processField_eq, orDefault]
  split_ifs with empty
  · rw [setGet]
  · exact assign_string string spec _ _

/-- An integer field holds what `ParseInt` reads from its text. -/
theorem processField_int (f : Field σ) {bits : Nat} {set : σ → ℤ → σ}
    (int : f.setter = .int bits set) {keyPrefix : Bytes} {env : Env} {i : ℤ}
    (read : parseInt (lookupVar env keyPrefix f.fieldName) 0 bits = .ok i) (spec : σ) :
    processField keyPrefix env spec f = pure (set spec i) := by
  have notEmpty : lookupVar env keyPrefix f.fieldName ≠ [] := by
    intro empty
    rw [empty] at read
    cases read
  rw [processField_eq, if_neg notEmpty]
  exact assign_int int read spec _

/-- An integer field whose text `ParseInt` refuses stops `Process`. -/
theorem processField_int_error (f : Field σ) {bits : Nat} {set : σ → ℤ → σ}
    (int : f.setter = .int bits set) {keyPrefix : Bytes} {env : Env} {err : NumError}
    (notEmpty : lookupVar env keyPrefix f.fieldName ≠ [])
    (refused : parseInt (lookupVar env keyPrefix f.fieldName) 0 bits = .error err) (spec : σ) :
    processField keyPrefix env spec f =
      .error ⟨prefixedKey keyPrefix f.fieldName, f.fieldName, f.typeName,
        lookupVar env keyPrefix f.fieldName⟩ := by
  rw [processField_eq, if_neg notEmpty]
  exact assign_int_error int refused spec _

/-- A field stops `Process` only with a text that is not empty, and the error names the
field's prefixed variable, whichever variable the text came from. -/
theorem processField_eq_error {keyPrefix : Bytes} {env : Env} {spec : σ} {f : Field σ}
    {e : ParseError} (failed : processField keyPrefix env spec f = .error e) :
    lookupVar env keyPrefix f.fieldName ≠ [] ∧
      e = ⟨prefixedKey keyPrefix f.fieldName, f.fieldName, f.typeName,
        lookupVar env keyPrefix f.fieldName⟩ := by
  rw [processField_eq] at failed
  split_ifs at failed with empty
  · cases failed
  · exact ⟨empty, assign_eq_error failed⟩

/-- `Process` stops at a field whose text is not empty, with the error that names it. -/
theorem process_eq_error {keyPrefix : Bytes} {env : Env} {e : ParseError} :
    ∀ {fields : List (Field σ)} {spec : σ}, process keyPrefix env fields spec = .error e →
      ∃ f ∈ fields, lookupVar env keyPrefix f.fieldName ≠ [] ∧
        e = ⟨prefixedKey keyPrefix f.fieldName, f.fieldName, f.typeName,
          lookupVar env keyPrefix f.fieldName⟩
  | [], spec, failed => by cases failed
  | f :: fields, spec, failed => by
      rw [process, List.foldlM_cons] at failed
      cases step : processField keyPrefix env spec f with
      | error e' =>
          rw [step] at failed
          cases failed
          exact ⟨f, List.mem_cons_self, processField_eq_error step⟩
      | ok spec' =>
          rw [step] at failed
          obtain ⟨g, mem, named⟩ :=
            process_eq_error (show process keyPrefix env fields spec' = .error e from failed)
          exact ⟨g, List.mem_cons_of_mem f mem, named⟩

end JsonProxy.Envconfig
