import JsonProxy.Go.Strconv

/-!
# Sealing with `crypto/cipher`, reading `crypto/rand`, and `time`

`aes.NewCipher` checks the length of its key, and `cipher.NewGCM` wraps the block cipher into an
AEAD.  Nothing here computes AES or GCM: an `Aead` is a parameter, and `Aead.Lawful` states what
the GCM documentation promises of one, which is all that is used of it: opening what was sealed
under the same nonce gives the plaintext back, and a sealed text is the plaintext's length plus a
tag of positive length.

`rand.Read` is a parameter too, one answer per call; `io.ReadFull` underneath fills the buffer
whenever it reports no error.

A `time.Time` is an instant, kept as whole seconds since the Unix epoch and nanoseconds past
them; `Unix`, `time.Unix` and `IsZero` read and build it.
-/

namespace Go

/-- The `cipher.AEAD` that `cipher.NewGCM` returns for one key: `Seal(nil, nonce, p, nil)` and
`Open(nil, nonce, c, nil)`. -/
structure Aead where
  nonceSize : Nat
  overhead : Nat
  sealed : Bytes → Bytes → Bytes
  opened : Bytes → Bytes → Except Error Bytes

/-- What GCM promises of `Seal` and `Open`. -/
structure Aead.Lawful (aead : Aead) : Prop where
  opened_sealed : ∀ nonce plaintext,
    aead.opened nonce (aead.sealed nonce plaintext) = .ok plaintext
  length_sealed : ∀ nonce plaintext,
    (aead.sealed nonce plaintext).length = plaintext.length + aead.overhead
  overhead_pos : 0 < aead.overhead

/-- `aes.KeySizeError(k).Error()`. -/
def keySizeError (k : Nat) : Error :=
  ⟨utf8 "crypto/aes: invalid key size " ++ formatInt k⟩

/-- What `aes.NewCipher(key)` checks of the key: AES-128, AES-192 and AES-256 take keys of 16,
24 and 32 bytes. -/
def newCipher (key : Bytes) : Except Error Unit :=
  if key.length ∈ [16, 24, 32] then pure () else throw (keySizeError key.length)

/-- `rand.Read`: the answer to the `i`-th call for `n` bytes. -/
abbrev Rand := Nat → Nat → Except Error Bytes

/-- `rand.Read` reports no error only when it has filled the buffer. -/
def Rand.Lawful (rand : Rand) : Prop :=
  ∀ i n bytes, rand i n = .ok bytes → bytes.length = n

/-- `time.Time`: whole seconds since the Unix epoch and the nanoseconds past them. -/
structure Time where
  unix : Int
  nsec : Nat
  nsec_lt : nsec < 1000000000
  deriving DecidableEq, Repr

namespace Time

/-- `time.Unix(sec, 0)`. -/
def ofUnix (sec : Int) : Time :=
  ⟨sec, 0, by decide⟩

/-- The zero `time.Time`, January 1 of year 1, 00:00:00 UTC. -/
def zero : Time :=
  ofUnix (-62135596800)

/-- `t.IsZero()`. -/
def isZero (t : Time) : Bool :=
  t = zero

/-- `uint32(t.Unix())`: the seconds modulo `2 ^ 32`. -/
def unixUint32 (t : Time) : UInt32 :=
  UInt32.ofInt t.unix

/-- Truncated to whole seconds, `uint32` seconds read back give the instant back exactly when it
lies between 1970 and 2106. -/
theorem ofUnix_unixUint32 (t : Time) (since1970 : 0 ≤ t.unix) (before2106 : t.unix < 2 ^ 32) :
    ofUnix t.unixUint32.toNat = ofUnix t.unix := by
  have toNat : (t.unixUint32.toNat : Int) = t.unix := by
    simp only [unixUint32, UInt32.ofInt, UInt32.toNat_ofNat']
    omega
  rw [toNat]

end Time

end Go
