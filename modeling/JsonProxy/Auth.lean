import JsonProxy.Types

/-!
# Proxy keys: `Auth.Generate` and `Auth.Open`

A proxy key is a `Key` sealed with AES-GCM under the proxy's secret, which `NewAuth` takes when
AES does: 16, 24 or 32 bytes.  `Generate` lays the key out as the `uint32` seconds of its
creation time in four big-endian bytes, each role followed by a NUL byte, and the API key; it
seals that under a fresh nonce and puts the nonce in front, drawing nonces until the result holds
no `:`, which would cut the credentials short in basic authentication.  `Open` undoes each step: it cuts the nonce off, opens, reads the seconds, and
splits the rest at NUL bytes, taking the last piece as the API key.

`Split` cannot tell a NUL inside a role name or the API key from a terminator, and `uint32` keeps
the seconds only modulo `2 ^ 32`: `openKey_generate` gives the key back for roles and API keys
without NUL bytes, with its creation time to the second between 1970 and 2106.
-/

namespace JsonProxy

open Go Go.Ascii

/-- `Auth`: the AEAD that `cipher.NewGCM` makes of the AES block for the secret. -/
structure Auth where
  aead : Aead

/-- `NewAuth(secret)`: `aes.NewCipher` refuses a secret of the wrong length; `gcm` is the AEAD
that `cipher.NewGCM` makes of the block for a secret, which `Generate` and `Open` make anew on
each call. -/
def newAuth (gcm : Bytes → Aead) (secret : Bytes) : Except Error Auth := do
  newCipher secret
  pure ⟨gcm secret⟩

/-- `NewAuth` takes a secret of 16, 24 or 32 bytes and refuses any other, naming its length. -/
theorem newAuth_eq (gcm : Bytes → Aead) (secret : Bytes) :
    newAuth gcm secret =
      if secret.length ∈ [16, 24, 32] then .ok ⟨gcm secret⟩
      else .error (keySizeError secret.length) := by
  unfold newAuth newCipher
  split_ifs <;> rfl

theorem newAuth_ok_iff {gcm : Bytes → Aead} {secret : Bytes} :
    (∃ auth, newAuth gcm secret = .ok auth) ↔ secret.length ∈ [16, 24, 32] := by
  rw [newAuth_eq]
  split_ifs with size
  · exact iff_of_true ⟨_, rfl⟩ size
  · exact iff_of_false (fun ⟨_, made⟩ => nomatch made) size

/-- The plaintext `Generate` seals for a key. -/
def keyData (createdAt : Time) (roles : List Bytes) (apiKey : Bytes) : Bytes :=
  putUint32 createdAt.unixUint32 ++ roles.flatMap (· ++ [nul]) ++ apiKey

/-- The nonce loop of `Generate` with `tries` attempts left, the `i`-th call of `rand.Read`
next. -/
def sealLoop (aead : Aead) (rand : Rand) (data : Bytes) : Nat → Nat → Except Error Bytes
  | 0, _ => throw ⟨utf8 "Failed to generate a valid ciphertext"⟩
  | tries + 1, i => do
    let nonce ← rand i aead.nonceSize
    let ciphertext := nonce ++ aead.sealed nonce data
    if colon ∉ ciphertext then pure ciphertext else sealLoop aead rand data tries (i + 1)

/-- The creation time `Generate` records: a key without one is made `now`. -/
def createdAtOrNow (now : Time) (key : Key) : Time :=
  if key.createdAt.isZero then now else key.createdAt

/-- `a.Generate(key)`, at time `now`. -/
def Auth.generate (a : Auth) (rand : Rand) (now : Time) (key : Key) : Except Error Bytes :=
  sealLoop a.aead rand (keyData (createdAtOrNow now key) key.roles key.apiKey) 100 0

/-- `io.EOF`. -/
def errEOF : Error := ⟨utf8 "EOF"⟩

/-- `io.ErrUnexpectedEOF`. -/
def errUnexpectedEOF : Error := ⟨utf8 "unexpected EOF"⟩

/-- `a.Open(ciphertext)`. -/
def Auth.openKey (a : Auth) (ciphertext : Bytes) : Except Error Key := do
  let ns := a.aead.nonceSize
  if ciphertext.length ≤ ns then throw ⟨utf8 "Provided key data is invalid"⟩
  let data ← a.aead.opened (ciphertext.take ns) (ciphertext.drop ns)
  match readUint32 data with
  | none => throw (if data = [] then errEOF else errUnexpectedEOF)
  | some (ut, rest) =>
    let parts := split rest nul
    pure ⟨Time.ofUnix ut.toNat, parts.dropLast, parts.getLastD []⟩

/-! ## Generating -/

/-- A successful nonce loop returned the nonce of one of its calls to `rand.Read` in front of
the sealed text, and the whole holds no `:`. -/
theorem sealLoop_ok {aead : Aead} {rand : Rand} {data ciphertext : Bytes} :
    ∀ {tries i : Nat}, sealLoop aead rand data tries i = .ok ciphertext →
      ∃ j nonce, rand j aead.nonceSize = .ok nonce ∧
        ciphertext = nonce ++ aead.sealed nonce data ∧ colon ∉ ciphertext
  | 0, i, ok => by
      simp [sealLoop, throw, throwThe, MonadExceptOf.throw] at ok
  | tries + 1, i, ok => by
      rw [sealLoop, bind_eq_ok_iff] at ok
      obtain ⟨nonce, drawn, attempt⟩ := ok
      by_cases clean : colon ∈ nonce ++ aead.sealed nonce data
      · -- a `:` sends the loop round again
        simp only [clean, not_true_eq_false, if_false] at attempt
        exact sealLoop_ok attempt
      · simp only [clean, not_false_eq_true, if_true, pure_eq_ok] at attempt
        subst attempt
        exact ⟨i, nonce, drawn, rfl, clean⟩

/-- What `Generate` returns never holds a `:`. -/
theorem generate_colon_not_mem {a : Auth} {rand : Rand} {now : Time} {key : Key}
    {ciphertext : Bytes} (ok : a.generate rand now key = .ok ciphertext) : colon ∉ ciphertext := by
  obtain ⟨-, -, -, -, clean⟩ := sealLoop_ok ok
  exact clean

/-! ## Opening -/

variable {a : Auth}

/-- `Open` reads back a nonce of the right length followed by a text sealed under it. -/
theorem openKey_sealed (lawful : a.aead.Lawful) {nonce : Bytes}
    (nonceLength : nonce.length = a.aead.nonceSize) (data : Bytes) :
    a.openKey (nonce ++ a.aead.sealed nonce data) =
      match readUint32 data with
      | none => throw (if data = [] then errEOF else errUnexpectedEOF)
      | some (ut, rest) =>
        pure ⟨Time.ofUnix ut.toNat, (split rest nul).dropLast, (split rest nul).getLastD []⟩ := by
  -- the tag makes the text longer than the nonce, and the nonce is cut off exactly
  have longer : ¬(nonce ++ a.aead.sealed nonce data).length ≤ a.aead.nonceSize := by
    rw [List.length_append, lawful.length_sealed, nonceLength]
    have := lawful.overhead_pos
    omega
  have front : (nonce ++ a.aead.sealed nonce data).take a.aead.nonceSize = nonce := by
    rw [← nonceLength, List.take_left]
  have back : (nonce ++ a.aead.sealed nonce data).drop a.aead.nonceSize =
      a.aead.sealed nonce data := by
    rw [← nonceLength, List.drop_left]
  simp only [Auth.openKey, longer, if_false, front, back, lawful.opened_sealed]
  rfl

/-- The layout of a key without NUL bytes splits back into its roles and API key. -/
theorem readUint32_keyData (createdAt : Time) {roles : List Bytes} {apiKey : Bytes}
    (rolesNoNul : ∀ role ∈ roles, nul ∉ role) (apiKeyNoNul : nul ∉ apiKey) :
    ∃ rest, readUint32 (keyData createdAt roles apiKey) = some (createdAt.unixUint32, rest) ∧
      split rest nul = roles ++ [apiKey] := by
  refine ⟨roles.flatMap (· ++ [nul]) ++ apiKey, ?_, split_terminated rolesNoNul apiKeyNoNul⟩
  rw [keyData, List.append_assoc, readUint32_putUint32_append]

/-- `Open` gives back what `Generate` sealed, for roles and an API key without NUL bytes; the
creation time comes back as its `uint32` seconds. -/
theorem openKey_generate (lawful : a.aead.Lawful) {rand : Rand} (randLawful : rand.Lawful)
    {now : Time} {key : Key} {ciphertext : Bytes} (ok : a.generate rand now key = .ok ciphertext)
    (rolesNoNul : ∀ role ∈ key.roles, nul ∉ role) (apiKeyNoNul : nul ∉ key.apiKey) :
    a.openKey ciphertext =
      .ok ⟨Time.ofUnix (createdAtOrNow now key).unixUint32.toNat, key.roles, key.apiKey⟩ := by
  obtain ⟨j, nonce, drawn, rfl, -⟩ := sealLoop_ok ok
  obtain ⟨rest, read, pieces⟩ := readUint32_keyData (createdAtOrNow now key) rolesNoNul apiKeyNoNul
  rw [openKey_sealed lawful (randLawful j _ nonce drawn), read]
  simp only [pieces, List.dropLast_concat, List.getLastD_concat]
  rfl

/-- Between 1970 and 2106 the creation time comes back to the second. -/
theorem openKey_generate_of_bounded (lawful : a.aead.Lawful) {rand : Rand}
    (randLawful : rand.Lawful) {now : Time} {key : Key} {ciphertext : Bytes}
    (ok : a.generate rand now key = .ok ciphertext)
    (rolesNoNul : ∀ role ∈ key.roles, nul ∉ role) (apiKeyNoNul : nul ∉ key.apiKey)
    (since1970 : 0 ≤ (createdAtOrNow now key).unix)
    (before2106 : (createdAtOrNow now key).unix < 2 ^ 32) :
    a.openKey ciphertext =
      .ok ⟨Time.ofUnix (createdAtOrNow now key).unix, key.roles, key.apiKey⟩ := by
  rw [openKey_generate lawful randLawful ok rolesNoNul apiKeyNoNul,
    Time.ofUnix_unixUint32 _ since1970 before2106]

end JsonProxy
