import JsonProxy.Go.Loop

/-!
# `encoding/hex`

`build` reads the proxy's secret with `hex.DecodeString`.  A string decodes when its length is
even and each of its bytes is a hexadecimal digit of either case, and gives one byte for each
two digits, the first the high four bits.  `Decode` reports an odd length before anything else,
and otherwise the first byte that is no digit, with `%#U`: `U+` and four upper-case digits, then
the character in quotes when it is printable.

What decodes has exactly twice as many digits as bytes (`length_of_decodeString`), and every
even run of digits decodes (`decodeString_ok`).
-/

namespace Go

namespace Hex

/-- `fromHexChar(c)`. -/
def fromHexChar (c : UInt8) : Option UInt8 :=
  if 48 ≤ c ∧ c ≤ 57 then some (c - 48)
  else if 97 ≤ c ∧ c ≤ 102 then some (c - 97 + 10)
  else if 65 ≤ c ∧ c ≤ 70 then some (c - 65 + 10)
  else none

/-- `hex.ErrLength`. -/
def errLength : Error :=
  ⟨utf8 "encoding/hex: odd length hex string"⟩

/-- An upper-case hexadecimal digit, `udigits[d]` of `fmt`. -/
def upperDigit (d : UInt8) : UInt8 :=
  if d < 10 then 48 + d else 55 + d

/-- `strconv.IsPrint(rune(b))` for a rune below `0x100`: ASCII from the space to `~`, and Latin-1
from `¡` on but for the soft hyphen. -/
def isPrintLatin1 (b : UInt8) : Bool :=
  (0x20 ≤ b ∧ b ≤ 0x7E) ∨ (0xA1 ≤ b ∧ b ≠ 0xAD)

/-- The UTF-8 encoding of a rune below `0x100`. -/
def encodeLatin1 (b : UInt8) : Bytes :=
  if b < 0x80 then [b] else [(0xC0 : UInt8) ||| (b >>> 6), (0x80 : UInt8) ||| (b &&& 0x3F)]

/-- `fmt.Sprintf("%#U", rune(b))`. -/
def formatUnicode (b : UInt8) : Bytes :=
  utf8 "U+00" ++ [upperDigit (b >>> 4), upperDigit (b &&& 0x0f)] ++
    if isPrintLatin1 b then utf8 " \x27" ++ encodeLatin1 b ++ utf8 "\x27" else []

/-- `InvalidByteError(b).Error()`. -/
def invalidByteError (b : UInt8) : Error :=
  ⟨utf8 "encoding/hex: invalid byte: " ++ formatUnicode b⟩

/-- The loop of `Decode` over pairs of digits, the high one first. -/
def decodeLoop : Bytes → Except Error Bytes
  | a :: b :: rest =>
    match fromHexChar a, fromHexChar b with
    | none, _ => throw (invalidByteError a)
    | some _, none => throw (invalidByteError b)
    | some hi, some lo => (decodeLoop rest).map (((hi <<< 4) ||| lo) :: ·)
  -- `Decode` has checked that the length is even
  | _ => pure []

/-- `hex.DecodeString(s)`. -/
def decodeString (s : Bytes) : Except Error Bytes :=
  if s.length % 2 = 1 then throw errLength else decodeLoop s

/-! ## Round trips -/

theorem even_tail {a b : UInt8} {rest : Bytes} (even : (a :: b :: rest).length % 2 = 0) :
    rest.length % 2 = 0 := by
  simp only [List.length_cons] at even
  omega

/-- A pair of digits decodes when both are digits, and the rest decodes after them. -/
theorem decodeLoop_cons_cons_eq_ok {a b : UInt8} {rest key : Bytes}
    (decoded : decodeLoop (a :: b :: rest) = .ok key) :
    ∃ hi lo restKey, fromHexChar a = some hi ∧ fromHexChar b = some lo ∧
      decodeLoop rest = .ok restKey ∧ key = ((hi <<< 4) ||| lo) :: restKey := by
  rw [decodeLoop] at decoded
  cases high : fromHexChar a with
  | none => simp [high, throw, throwThe, MonadExceptOf.throw] at decoded
  | some hi =>
      cases low : fromHexChar b with
      | none => simp [high, low, throw, throwThe, MonadExceptOf.throw] at decoded
      | some lo =>
          simp only [high, low] at decoded
          cases readRest : decodeLoop rest with
          | error e => simp [readRest, Except.map] at decoded
          | ok restKey =>
              simp only [readRest, Except.map, Except.ok.injEq] at decoded
              exact ⟨hi, lo, restKey, rfl, rfl, rfl, decoded.symm⟩

/-- A decoded string has two digits for each byte. -/
theorem length_of_decodeLoop :
    ∀ {s key : Bytes}, decodeLoop s = .ok key → s.length % 2 = 0 → s.length = 2 * key.length
  | [], key, decoded, _ => by
      cases decoded
      rfl
  | [_], _, _, odd => by simp at odd
  | a :: b :: rest, key, decoded, even => by
      obtain ⟨hi, lo, restKey, -, -, readRest, rfl⟩ := decodeLoop_cons_cons_eq_ok decoded
      have restEven := even_tail even
      have := length_of_decodeLoop readRest restEven
      simp only [List.length_cons]
      omega

theorem length_of_decodeString {s key : Bytes} (decoded : decodeString s = .ok key) :
    s.length = 2 * key.length := by
  by_cases odd : s.length % 2 = 1
  · rw [decodeString, if_pos odd] at decoded
    cases decoded
  · rw [decodeString, if_neg odd] at decoded
    exact length_of_decodeLoop decoded (by omega)

/-- An even run of hexadecimal digits decodes. -/
theorem decodeLoop_ok :
    ∀ {s : Bytes}, s.length % 2 = 0 → (∀ c ∈ s, (fromHexChar c).isSome) →
      ∃ key, decodeLoop s = .ok key
  | [], _, _ => ⟨[], rfl⟩
  | [_], odd, _ => by simp at odd
  | a :: b :: rest, even, digits => by
      obtain ⟨hi, high⟩ := Option.isSome_iff_exists.mp (digits a List.mem_cons_self)
      obtain ⟨lo, low⟩ := Option.isSome_iff_exists.mp
        (digits b (List.mem_cons_of_mem a List.mem_cons_self))
      have restEven := even_tail even
      obtain ⟨restKey, readRest⟩ := decodeLoop_ok restEven
        (fun c mem => digits c (List.mem_cons_of_mem a (List.mem_cons_of_mem b mem)))
      exact ⟨_, by rw [decodeLoop, high, low, readRest]; rfl⟩

/-- What decodes is made of hexadecimal digits. -/
theorem digits_of_decodeLoop :
    ∀ {s key : Bytes}, decodeLoop s = .ok key → s.length % 2 = 0 → ∀ c ∈ s, (fromHexChar c).isSome
  | [], _, _, _, c, mem => by cases mem
  | [_], _, _, odd, _, _ => by simp at odd
  | a :: b :: rest, key, decoded, even, c, mem => by
      obtain ⟨hi, lo, restKey, high, low, readRest, -⟩ := decodeLoop_cons_cons_eq_ok decoded
      have restEven := even_tail even
      rcases List.mem_cons.mp mem with rfl | mem
      · simp [high]
      rcases List.mem_cons.mp mem with rfl | mem
      · simp [low]
      exact digits_of_decodeLoop readRest restEven c mem

theorem digits_of_decodeString {s key : Bytes} (decoded : decodeString s = .ok key) :
    ∀ c ∈ s, (fromHexChar c).isSome := by
  by_cases odd : s.length % 2 = 1
  · rw [decodeString, if_pos odd] at decoded
    cases decoded
  · rw [decodeString, if_neg odd] at decoded
    exact digits_of_decodeLoop decoded (by omega)

theorem decodeString_ok {s : Bytes} (even : s.length % 2 = 0)
    (digits : ∀ c ∈ s, (fromHexChar c).isSome) : ∃ key, decodeString s = .ok key := by
  rw [decodeString, if_neg (by omega)]
  exact decodeLoop_ok even digits

/-- What `DecodeString` refuses it refuses with a reason: an odd length, or a byte that is no
digit, the first one. -/
theorem decodeLoop_error : ∀ {s : Bytes} {e : Error}, decodeLoop s = .error e →
    ∃ c ∈ s, fromHexChar c = none ∧ e = invalidByteError c
  | [], _, failed => by cases failed
  | [_], _, failed => by cases failed
  | a :: b :: rest, e, failed => by
      rw [decodeLoop] at failed
      cases high : fromHexChar a with
      | none =>
          simp only [high, throw, throwThe, MonadExceptOf.throw, Except.error.injEq] at failed
          exact ⟨a, List.mem_cons_self, high, failed.symm⟩
      | some hi =>
          cases low : fromHexChar b with
          | none =>
              simp only [high, low, throw, throwThe, MonadExceptOf.throw,
                Except.error.injEq] at failed
              exact ⟨b, List.mem_cons_of_mem a List.mem_cons_self, low, failed.symm⟩
          | some lo =>
              simp only [high, low] at failed
              cases readRest : decodeLoop rest with
              | ok restKey => simp [readRest, Except.map] at failed
              | error e' =>
                  simp only [readRest, Except.map, Except.error.injEq] at failed
                  subst failed
                  obtain ⟨c, mem, notDigit, named⟩ := decodeLoop_error readRest
                  exact ⟨c, List.mem_cons_of_mem a (List.mem_cons_of_mem b mem), notDigit,
                    named⟩

end Hex

end Go
