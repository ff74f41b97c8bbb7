import JsonProxy.Go.Loop
import JsonProxy.Go.Url

/-!
# `net/http`: headers, basic authentication, requests and responses

An `http.Header` maps a canonical field name to the list of its values.  The model keeps field
names as they are given: net/http's parser and the proxy's constants only ever use canonical
names, on which `textproto.CanonicalMIMEHeaderKey` is the identity.  `get` reads the first
value, so a field whose first value is empty looks absent to it although the map holds it.

Basic authentication puts `user:password`, base64-encoded, after `Basic ` in the
`Authorization` field; the server splits the decoded credentials at the first colon.  The
base64 codec is a parameter, with decoding inverting encoding as its one law.

A `Request` keeps the fields that a handler or a round tripper reads; a `Response` comes with its
body already read out, as `ioutil.ReadAll` returns it.
-/

namespace Go

open Ascii

/-- `http.Header`. -/
abbrev Header := Map Bytes (List Bytes)

namespace Header

/-- `h.Get(key)`: the first value, or the empty string. -/
def get (h : Header) (key : Bytes) : Bytes :=
  match h.lookup key with
  | some (value :: _) => value
  | _ => []

/-- `h.Set(key, value)`: `value` becomes the only value. -/
def set (h : Header) (key value : Bytes) : Header :=
  h.insert key [value]

/-- `h.Add(key, value)`: `value` goes after the values already there. -/
def add (h : Header) (key value : Bytes) : Header :=
  h.insert key ((h.lookup key).getD [] ++ [value])

/-- `h.Del(key)`. -/
def del (h : Header) (key : Bytes) : Header :=
  h.erase key

variable {h : Header} {key other value : Bytes}

@[simp]
theorem lookup_set : (h.set key value).lookup key = some [value] :=
  AList.lookup_insert h

@[simp]
theorem lookup_set_ne (ne : other ≠ key) : (h.set key value).lookup other = h.lookup other :=
  AList.lookup_insert_ne ne

@[simp]
theorem lookup_add : (h.add key value).lookup key = some ((h.lookup key).getD [] ++ [value]) :=
  AList.lookup_insert h

@[simp]
theorem lookup_add_ne (ne : other ≠ key) : (h.add key value).lookup other = h.lookup other :=
  AList.lookup_insert_ne ne

@[simp]
theorem lookup_del : (h.del key).lookup key = none :=
  AList.lookup_erase key h

@[simp]
theorem lookup_del_ne (ne : other ≠ key) : (h.del key).lookup other = h.lookup other :=
  AList.lookup_erase_ne ne

@[simp]
theorem get_del : (h.del key).get key = [] := by
  simp [get]

@[simp]
theorem get_del_ne (ne : other ≠ key) : (h.del key).get other = h.get other := by
  simp [get, ne]

@[simp]
theorem get_set : (h.set key value).get key = value := by
  simp [get]

@[simp]
theorem get_set_ne (ne : other ≠ key) : (h.set key value).get other = h.get other := by
  simp [get, ne]

/-- Deleting a list of fields one by one, as a loop over a table of names does. -/
theorem lookup_foldl_del (names : List Bytes) (h : Header) (key : Bytes) :
    (names.foldl del h).lookup key = if key ∈ names then none else h.lookup key := by
  induction names generalizing h with
  | nil => simp
  | cons name names ih =>
      rw [List.foldl_cons, ih]
      by_cases same : key = name
      · subst same
        simp
      · by_cases later : key ∈ names <;> simp [same, later]

end Header

/-- `base64.StdEncoding`'s `EncodeToString` and `DecodeString`. -/
structure Base64 where
  encode : Bytes → Bytes
  decode : Bytes → Option Bytes

/-- Decoding inverts encoding, RFC 4648 §4. -/
def Base64.Lawful (codec : Base64) : Prop :=
  ∀ data, codec.decode (codec.encode data) = some data

/-- The `Authorization` field name. -/
def authorization : Bytes := utf8 "Authorization"

/-- The `Basic ` prefix of basic credentials. -/
def basicPrefix : Bytes := utf8 "Basic "

/-- `r.SetBasicAuth(username, password)`, on the request's header. -/
def setBasicAuth (codec : Base64) (h : Header) (username password : Bytes) : Header :=
  h.set authorization (basicPrefix ++ codec.encode (username ++ colon :: password))

/-- `parseBasicAuth(auth)`: the user name and password of a basic `Authorization` value. -/
def parseBasicAuth (codec : Base64) (auth : Bytes) : Option (Bytes × Bytes) :=
  if basicPrefix <+: auth then
    (codec.decode (auth.drop basicPrefix.length)).bind (cut · colon)
  else none

/-- `r.BasicAuth()`: the credentials of the request's `Authorization` field, if it holds basic
ones. -/
def basicAuth (codec : Base64) (h : Header) : Option (Bytes × Bytes) :=
  let auth := h.get authorization
  if auth = [] then none else parseBasicAuth codec auth

/-- Credentials set with `SetBasicAuth` read back with `BasicAuth` as long as the user name
holds no colon: the split happens at the first one. -/
theorem basicAuth_setBasicAuth {codec : Base64} (lawful : codec.Lawful) (h : Header)
    {username : Bytes} (noColon : colon ∉ username) (password : Bytes) :
    basicAuth codec (setBasicAuth codec h username password) = some (username, password) := by
  have parsed : parseBasicAuth codec (basicPrefix ++ codec.encode (username ++ colon :: password)) =
      some (username, password) := by
    simp [parseBasicAuth, lawful _, cut_append_cons noColon]
  have notEmpty : basicPrefix ++ codec.encode (username ++ colon :: password) ≠ [] :=
    List.append_ne_nil_of_left_ne_nil (by decide) _
  simp [basicAuth, setBasicAuth, Header.get, notEmpty, parsed]

/-- `http.Request`: the fields a handler or a round tripper reads. -/
structure Request where
  method : Bytes
  url : URL
  proto : Bytes
  protoMajor : Nat
  protoMinor : Nat
  header : Header
  body : Bytes
  close : Bool
  host : Bytes
  remoteAddr : Bytes

/-- `http.Response` with its body read: `ioutil.ReadAll(res.Body)` gives the bytes or fails. -/
structure Response where
  statusCode : Nat
  header : Header
  body : Except Error Bytes

/-- `http.RoundTripper`: a request either fails or yields a response. -/
abbrev RoundTripper := Request → Except Error Response

end Go
