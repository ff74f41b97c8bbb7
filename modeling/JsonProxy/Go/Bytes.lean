import Mathlib.Data.List.Basic
import Mathlib.Tactic.Ring

/-!
# Go byte strings

A Go `string` and a `[]byte` are both sequences of bytes with no encoding attached, so both are
modelled by `Go.Bytes`.  This file collects the byte-level functions of the Go standard library
that the proxy calls: `strings.Join`, `strings.IndexByte` in the form net/http uses it to split
credentials, `bytes.Split` on a one-byte separator, the big-endian `uint32` of `encoding/binary`,
and `utf8.DecodeRuneInString`, which `path.Match` uses to read one character.

Nothing here mentions the proxy; the names follow the Go functions they model.
-/

namespace Go

/-- A Go `string` or `[]byte`. -/
abbrev Bytes := List UInt8

/-- The bytes of a string literal: Go source text is UTF-8. -/
def utf8 (s : String) : Bytes :=
  s.toUTF8.data.toList

/-- An `error` value, by its message. -/
structure Error where
  message : Bytes
  deriving DecidableEq, Repr

/-! ## ASCII bytes with a meaning in the functions below -/

namespace Ascii

def nul : UInt8 := 0
def asterisk : UInt8 := 42
def dash : UInt8 := 45
def dot : UInt8 := 46
def slash : UInt8 := 47
def colon : UInt8 := 58
def question : UInt8 := 63
def lbracket : UInt8 := 91
def backslash : UInt8 := 92
def rbracket : UInt8 := 93
def caret : UInt8 := 94

end Ascii

open Ascii

/-! ## `strings` and `bytes` -/

/-- `strings.Join(elems, sep)`. -/
def join (elems : List Bytes) (sep : Bytes) : Bytes :=
  sep.intercalate elems

/-- The split of `s` at the first `c`, as net/http's `parseBasicAuth` makes it with
`strings.IndexByte`: `none` when `c` does not occur. -/
def cut : Bytes → UInt8 → Option (Bytes × Bytes)
  | [], _ => none
  | b :: rest, c =>
    if b = c then some ([], rest)
    else (cut rest c).map fun (before, after) => (b :: before, after)

/-- `bytes.Split(s, []byte{sep})`: the pieces between the occurrences of `sep`; the empty
string splits into one empty piece. -/
def split (s : Bytes) (sep : UInt8) : List Bytes :=
  s.splitOn sep

/-- `strings.ToUpper(s)` on ASCII text: each of `a`–`z` becomes its capital.  Its one caller,
`envconfig`, upper-cases names of ASCII letters, digits and `_`. -/
def toUpper (s : Bytes) : Bytes :=
  s.map fun c => if 97 ≤ c ∧ c ≤ 122 then c - 32 else c

theorem join_cons_cons (a b : Bytes) (rest : List Bytes) (sep : Bytes) :
    join (a :: b :: rest) sep = a ++ sep ++ join (b :: rest) sep := by
  simp [join, List.intercalate_cons_cons, List.append_assoc]

theorem mem_join_iff_of_not_mem_sep {elems : List Bytes} {c : UInt8} (sep : Bytes)
    (notSep : c ∉ sep) : c ∈ join elems sep ↔ ∃ e ∈ elems, c ∈ e := by
  induction elems with
  | nil => simp [join]
  | cons a rest ih =>
      cases rest with
      | nil => simp [join]
      | cons b rest =>
          rw [join_cons_cons]
          simp only [List.mem_append, ih, List.mem_cons, exists_eq_or_imp, notSep, or_false]

/-- Joining two non-empty runs of elements puts one separator between them. -/
theorem join_append {xs ys : List Bytes} (xsNonEmpty : xs ≠ []) (ysNonEmpty : ys ≠ [])
    (sep : Bytes) : join (xs ++ ys) sep = join xs sep ++ sep ++ join ys sep := by
  induction xs with
  | nil => exact absurd rfl xsNonEmpty
  | cons a rest ih =>
      obtain ⟨b, ys, rfl⟩ := List.exists_cons_of_ne_nil ysNonEmpty
      cases rest with
      | nil => simp [join]
      | cons a' rest =>
          calc join (a :: a' :: rest ++ b :: ys) sep
              = a ++ sep ++ join (a' :: rest ++ b :: ys) sep := by
                rw [List.cons_append, List.cons_append, join_cons_cons, ← List.cons_append]
            _ = join (a :: a' :: rest) sep ++ sep ++ join (b :: ys) sep := by
                rw [ih (List.cons_ne_nil _ _), join_cons_cons]
                simp

/-- A one-byte separator that no element holds occurs in the join exactly when there are two
elements or more. -/
theorem mem_join_self_iff {elems : List Bytes} {c : UInt8} (noSep : ∀ e ∈ elems, c ∉ e) :
    c ∈ join elems [c] ↔ 2 ≤ elems.length := by
  match elems, noSep with
  | [], _ => simp [join]
  | [a], noSep => simpa [join] using noSep a List.mem_cons_self
  | a :: b :: rest, _ => simp [join_cons_cons]

theorem cut_append_cons {a b : Bytes} {c : UInt8} (notMem : c ∉ a) :
    cut (a ++ c :: b) c = some (a, b) := by
  induction a with
  | nil => simp [cut]
  | cons x rest ih =>
      have xNe : x ≠ c := fun eq => notMem (eq ▸ List.mem_cons_self)
      have restNotMem : c ∉ rest := fun mem => notMem (List.mem_cons_of_mem x mem)
      simp [cut, xNe, ih restNotMem]

/-- Pieces each followed by the separator, then a last piece, split back into the pieces as
long as no piece contains the separator. -/
theorem split_terminated {pieces : List Bytes} {last : Bytes} {sep : UInt8}
    (noSep : ∀ piece ∈ pieces, sep ∉ piece) (lastNoSep : sep ∉ last) :
    split (pieces.flatMap (· ++ [sep]) ++ last) sep = pieces ++ [last] := by
  induction pieces with
  | nil => simpa [split] using List.splitOn_eq_singleton lastNoSep
  | cons piece rest ih =>
      have pieceNoSep : sep ∉ piece := noSep piece List.mem_cons_self
      have restNoSep : ∀ piece ∈ rest, sep ∉ piece :=
        fun p mem => noSep p (List.mem_cons_of_mem _ mem)
      simp only [List.flatMap_cons, List.append_assoc, List.cons_append]
      rw [split, List.splitOn_append_cons_self_of_not_mem pieceNoSep]
      exact congrArg (piece :: ·) (ih restNoSep)

/-! ## `encoding/binary`, big-endian `uint32` -/

/-- `binary.Write(buf, binary.BigEndian, v)` for a `uint32`: four bytes, most significant
first. -/
def putUint32 (v : UInt32) : Bytes :=
  [UInt8.ofNat (v.toNat / 2 ^ 24), UInt8.ofNat (v.toNat / 2 ^ 16),
    UInt8.ofNat (v.toNat / 2 ^ 8), UInt8.ofNat v.toNat]

/-- `binary.Read(buf, binary.BigEndian, &v)` for a `uint32`: the value and the unread bytes,
or `none` (an `io.ErrUnexpectedEOF`) when fewer than four bytes remain. -/
def readUint32 : Bytes → Option (UInt32 × Bytes)
  | b0 :: b1 :: b2 :: b3 :: rest =>
      some (UInt32.ofNat
        (b0.toNat * 2 ^ 24 + b1.toNat * 2 ^ 16 + b2.toNat * 2 ^ 8 + b3.toNat), rest)
  | _ => none

theorem readUint32_putUint32_append (v : UInt32) (rest : Bytes) :
    readUint32 (putUint32 v ++ rest) = some (v, rest) := by
  have bound : v.toNat < 2 ^ 32 := v.toNat_lt
  have digits : (v.toNat / 2 ^ 24 % 256) * 2 ^ 24 + (v.toNat / 2 ^ 16 % 256) * 2 ^ 16 +
      (v.toNat / 2 ^ 8 % 256) * 2 ^ 8 + v.toNat % 256 = v.toNat := by
    omega
  simp only [putUint32, List.cons_append, List.nil_append, readUint32, Option.some.injEq,
    Prod.mk.injEq, and_true, UInt8.toNat_ofNat', Nat.reducePow]
  apply UInt32.toNat_inj.mp
  simp only [UInt32.toNat_ofNat', Nat.reducePow] at digits ⊢
  omega

/-! ## `unicode/utf8` -/

/-- `utf8.RuneError`, U+FFFD. -/
def runeError : Nat := 0xFFFD

/-- A UTF-8 continuation byte, `10xxxxxx`. -/
def IsContinuation (c : UInt8) : Prop := 0x80 ≤ c ∧ c < 0xC0

instance (c : UInt8) : Decidable (IsContinuation c) :=
  inferInstanceAs (Decidable (_ ∧ _))

/-- `utf8.DecodeRuneInString`: the first rune of `s` and its width in bytes.  An invalid
sequence (a stray continuation byte, a short or overlong encoding, a surrogate, a value past
U+10FFFF) decodes as `(RuneError, 1)`, and the empty string as `(RuneError, 0)`. -/
def decodeRuneInString : Bytes → Nat × Nat
  | [] => (runeError, 0)
  | c0 :: rest =>
    if c0 < 0x80 then (c0.toNat, 1)
    else if c0 < 0xC0 then (runeError, 1)
    else
      match rest with
      | [] => (runeError, 1)
      | c1 :: rest =>
        if ¬IsContinuation c1 then (runeError, 1)
        else if c0 < 0xE0 then
          let r := c0.toNat % 32 * 64 + c1.toNat % 64
          if r ≤ 0x7F then (runeError, 1) else (r, 2)
        else
          match rest with
          | [] => (runeError, 1)
          | c2 :: rest =>
            if ¬IsContinuation c2 then (runeError, 1)
            else if c0 < 0xF0 then
              let r := c0.toNat % 16 * 4096 + c1.toNat % 64 * 64 + c2.toNat % 64
              if r ≤ 0x7FF ∨ 0xD800 ≤ r ∧ r ≤ 0xDFFF then (runeError, 1) else (r, 3)
            else
              match rest with
              | [] => (runeError, 1)
              | c3 :: _ =>
                if ¬IsContinuation c3 then (runeError, 1)
                else if c0 < 0xF8 then
                  let r := c0.toNat % 8 * 262144 + c1.toNat % 64 * 4096 + c2.toNat % 64 * 64 +
                    c3.toNat % 64
                  if r ≤ 0xFFFF ∨ 0x10FFFF < r then (runeError, 1) else (r, 4)
                else (runeError, 1)

/-- A non-empty string always yields a rune at least one byte wide, and never wider than the
string itself. -/
theorem decodeRuneInString_width {c : UInt8} {rest : Bytes} :
    1 ≤ (decodeRuneInString (c :: rest)).2 ∧
      (decodeRuneInString (c :: rest)).2 ≤ (c :: rest).length := by
  rcases rest with _ | ⟨c1, _ | ⟨c2, _ | ⟨c3, rest⟩⟩⟩ <;>
    simp only [decodeRuneInString] <;> split_ifs <;> simp

/-- The loop of `utf8.ValidString` over the runes of `s`, with `fuel` for the runes still to
read.  Each rune takes at least one byte (`decodeRuneInString_width`), so the length of `s` is
fuel enough. -/
def validStringAux : Nat → Bytes → Bool
  | _, [] => true
  | 0, _ :: _ => false
  | fuel + 1, c :: rest =>
    (decodeRuneInString (c :: rest) != (runeError, 1)) &&
      validStringAux fuel ((c :: rest).drop (decodeRuneInString (c :: rest)).2)

/-- `utf8.ValidString(s)`: no rune of `s` decodes as the `(RuneError, 1)` of an invalid byte; a
U+FFFD written out in full is valid. -/
def validString (s : Bytes) : Bool :=
  validStringAux s.length s

example : validString (utf8 "Straße") = true := by decide
example : validString [0x61, 0xFF] = false := by decide

end Go
