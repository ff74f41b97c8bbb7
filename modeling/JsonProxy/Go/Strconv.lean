import JsonProxy.Go.Loop

/-!
# `strconv`: integers as text

`envconfig` reads an integer field with `strconv.ParseInt(value, 0, bits)` and a boolean one with
`ParseBool`; `main` writes the port into the listen address with `FormatInt(port, 10)`, and
`crypto/aes` names a bad key size with `Itoa`.

Base `0` lets the text choose: after an optional sign, `0x` or `0X` starts a hexadecimal number,
any other leading `0` an octal one, and the rest is decimal.  `ParseUint` reads the digits from
the left and stops with `ErrRange` as soon as the value leaves `bitSize` bits; `ParseInt` then
checks the signed range.  A leading zero makes the rest octal
(`parseInt_zero_cons_of_octal`), and decimal digits that are not octal are then refused
(`parseInt_zero_cons_error`).

A `*NumError`'s `Func` and `Num` are left out: the only caller, `envconfig`, drops the error.
-/

namespace Go

namespace Ascii

def plus : UInt8 := 43
def zero : UInt8 := 48
def upperX : UInt8 := 88
def lowerX : UInt8 := 120

end Ascii

open Ascii

/-- The `Err` of a `*strconv.NumError`. -/
inductive NumError where
  /-- `ErrSyntax`, "invalid syntax". -/
  | errSyntax
  /-- `ErrRange`, "value out of range". -/
  | errRange
  /-- `errors.New("invalid base " + Itoa(base))`. -/
  | invalidBase (base : Nat)
  deriving DecidableEq, Repr

/-! ## `ParseUint` and `ParseInt` -/

/-- The value of the byte `d` as a digit, as `ParseUint` reads it: `0`–`9`, then `a`–`z` and
`A`–`Z` from ten on. -/
def digitVal (d : UInt8) : Option Nat :=
  if 48 ≤ d ∧ d ≤ 57 then some (d.toNat - 48)
  else if 97 ≤ d ∧ d ≤ 122 then some (d.toNat - 97 + 10)
  else if 65 ≤ d ∧ d ≤ 90 then some (d.toNat - 65 + 10)
  else none

/-- `cutoff64(base)`: the least `n` for which `n * base` overflows a `uint64`. -/
def cutoff64 (base : Nat) : Nat :=
  if base < 2 then 0 else (2 ^ 64 - 1) / base + 1

/-- One turn of `ParseUint`'s loop over the byte `d`, with `n` read so far.  The `uint64` sum
`n1` wraps, which the test `n1 < n` catches. -/
def parseUintStep (base maxVal n : Nat) (d : UInt8) : Except NumError Nat :=
  match digitVal d with
  | none => throw .errSyntax
  | some v =>
    if base ≤ v then throw .errSyntax
    -- `n * base` would overflow
    else if cutoff64 base ≤ n then throw .errRange
    else
      let n := n * base
      let n1 := (n + v) % 2 ^ 64
      if n1 < n ∨ maxVal < n1 then throw .errRange else pure n1

/-- `ParseUint(s, base, bitSize)`. -/
def parseUint (s : Bytes) (base bitSize : Nat) : Except NumError Nat :=
  let bitSize := if bitSize = 0 then 64 else bitSize
  let maxVal := (2 ^ bitSize - 1) % 2 ^ 64
  match s with
  | [] => throw .errSyntax
  | c :: rest =>
    if 2 ≤ base ∧ base ≤ 36 then (c :: rest).foldlM (parseUintStep base maxVal) 0
    else if base = 0 then
      -- look for an octal or a hexadecimal prefix
      if c = zero ∧ (rest.head? = some lowerX ∨ rest.head? = some upperX) then
        if rest.tail = [] then throw .errSyntax
        else rest.tail.foldlM (parseUintStep 16 maxVal) 0
      else if c = zero then (c :: rest).foldlM (parseUintStep 8 maxVal) 0
      else (c :: rest).foldlM (parseUintStep 10 maxVal) 0
    else throw (.invalidBase base)

/-- `ParseInt`'s sign: whether `s` starts with `-`, and `s` with a leading `+` or `-` cut off. -/
def cutSign : Bytes → Bool × Bytes
  | [] => (false, [])
  | c :: rest =>
    if c = plus then (false, rest) else if c = dash then (true, rest) else (false, c :: rest)

/-- `ParseInt(s, base, bitSize)`.  A range error of `ParseUint` leaves `un` at `1<<64 - 1`, past
either cutoff, so it is a range error here too. -/
def parseInt (s : Bytes) (base bitSize : Nat) : Except NumError ℤ :=
  let bitSize := if bitSize = 0 then 64 else bitSize
  if s = [] then throw .errSyntax
  else
    match parseUint (cutSign s).2 base bitSize with
    | .error e => throw e
    | .ok un =>
      let cutoff := 2 ^ (bitSize - 1) % 2 ^ 64
      -- `!neg && un >= cutoff`, then `neg && un > cutoff`
      if (cutSign s).1 then
        if cutoff < un then throw .errRange else pure (-(un : ℤ))
      else
        if cutoff ≤ un then throw .errRange else pure un

/-- `ParseBool(str)`. -/
def parseBool (str : Bytes) : Except NumError Bool :=
  if [utf8 "1", utf8 "t", utf8 "T", utf8 "TRUE", utf8 "true", utf8 "True"].contains str then
    pure true
  else if [utf8 "0", utf8 "f", utf8 "F", utf8 "FALSE", utf8 "false", utf8 "False"].contains str then
    pure false
  else throw .errSyntax

/-! ## `FormatInt` -/

/-- The decimal digits of `u`, most significant first: what `formatBits` writes from the right,
`digits[u % 10]` at a time, until `u < 10`. -/
def formatDecimal (u : Nat) : Bytes :=
  (Nat.toDigits 10 u).map fun c => c.toNat.toUInt8

/-- `FormatInt(i, 10)`, which `Itoa(i)` is. -/
def formatInt (i : ℤ) : Bytes :=
  if i < 0 then dash :: formatDecimal i.natAbs else formatDecimal i.natAbs

/-! ## Reading digits -/

/-- The value of the digits `s` in `base`, after `n` read before them. -/
def digitsValue (base n : Nat) (s : Bytes) : Nat :=
  s.foldl (fun n d => n * base + (digitVal d).getD 0) n

/-- Each byte of `s` is a digit below `base`. -/
def Digits (base : Nat) (s : Bytes) : Prop :=
  ∀ d ∈ s, ∃ v, digitVal d = some v ∧ v < base

instance (base : Nat) (s : Bytes) : Decidable (Digits base s) :=
  decidable_of_iff (s.all fun d => (digitVal d).any fun v => decide (v < base)) <|
    List.all_eq_true.trans <| forall₂_congr fun _ _ =>
      (Option.any_eq_true _ _).trans (exists_congr fun _ => and_congr_right' decide_eq_true_iff)

@[simp]
theorem digitsValue_nil (base n : Nat) : digitsValue base n [] = n :=
  rfl

@[simp]
theorem digitsValue_cons (base n : Nat) (d : UInt8) (s : Bytes) :
    digitsValue base n (d :: s) = digitsValue base (n * base + (digitVal d).getD 0) s :=
  rfl

theorem le_digitsValue {base : Nat} (positive : 0 < base) (s : Bytes) (n : Nat) :
    n ≤ digitsValue base n s := by
  induction s generalizing n with
  | nil => rfl
  | cons d s ih =>
      calc n ≤ n * base + (digitVal d).getD 0 :=
            Nat.le_add_right_of_le (Nat.le_mul_of_pos_right n positive)
        _ ≤ digitsValue base n (d :: s) := ih _

/-- A digit below `base` that keeps the value within `maxVal` is read without error. -/
theorem parseUintStep_eq_ok {base maxVal n v : Nat} {d : UInt8} (two : 2 ≤ base)
    (bounded : maxVal < 2 ^ 64) (digit : digitVal d = some v) (below : v < base)
    (fits : n * base + v ≤ maxVal) : parseUintStep base maxVal n d = .ok (n * base + v) := by
  have noOverflow : n < cutoff64 base := by
    have : n ≤ (2 ^ 64 - 1) / base := (Nat.le_div_iff_mul_le (by omega)).mpr (by omega)
    simp only [cutoff64, if_neg (show ¬base < 2 by omega)]
    omega
  have noWrap : (n * base + v) % 2 ^ 64 = n * base + v := Nat.mod_eq_of_lt (by omega)
  simp only [parseUintStep, digit, if_neg (show ¬base ≤ v by omega),
    if_neg (show ¬cutoff64 base ≤ n by omega), noWrap]
  rw [if_neg (by omega)]
  rfl

/-- A byte that is no digit below `base` is a syntax error. -/
theorem parseUintStep_eq_error {base maxVal n : Nat} {d : UInt8}
    (notDigit : ∀ v, digitVal d = some v → base ≤ v) :
    parseUintStep base maxVal n d = .error .errSyntax := by
  unfold parseUintStep
  cases found : digitVal d with
  | none => rfl
  | some v => simp [notDigit v found, throw, throwThe, MonadExceptOf.throw]

/-- `ParseUint`'s loop reads digits below `base` to their value, as long as it fits. -/
theorem foldlM_parseUintStep {base maxVal : Nat} (two : 2 ≤ base) (bounded : maxVal < 2 ^ 64) :
    ∀ {s : Bytes} {n : Nat}, Digits base s → digitsValue base n s ≤ maxVal →
      s.foldlM (parseUintStep base maxVal) n = .ok (digitsValue base n s)
  | [], n, _, _ => rfl
  | d :: s, n, digits, fits => by
      obtain ⟨v, digit, below⟩ := digits d List.mem_cons_self
      have rest : Digits base s := fun d' mem => digits d' (List.mem_cons_of_mem d mem)
      have stepFits : n * base + v ≤ maxVal := by
        have := @le_digitsValue base (by omega) s (n * base + v)
        simp only [digitsValue_cons, digit, Option.getD_some] at fits
        omega
      have restFits : digitsValue base (n * base + v) s ≤ maxVal := by
        simpa [digit] using fits
      rw [List.foldlM_cons, parseUintStep_eq_ok two bounded digit below stepFits]
      simp only [digitsValue_cons, digit, Option.getD_some]
      exact foldlM_parseUintStep two bounded rest restFits

/-- `ParseUint`'s loop fails on a string with a byte that is no digit below `base`. -/
theorem foldlM_parseUintStep_error {base maxVal : Nat} {d : UInt8}
    (notDigit : ∀ v, digitVal d = some v → base ≤ v) :
    ∀ {s : Bytes} (n : Nat), d ∈ s → ∃ e, s.foldlM (parseUintStep base maxVal) n = .error e
  | d' :: s, n, mem => by
      rw [List.foldlM_cons]
      cases step : parseUintStep base maxVal n d' with
      | error e => exact ⟨e, rfl⟩
      | ok n' =>
          rcases List.mem_cons.mp mem with rfl | later
          · rw [parseUintStep_eq_error notDigit] at step
            cases step
          · exact foldlM_parseUintStep_error notDigit n' later

/-! ## Base `0` -/

section BaseZero

variable {bitSize : Nat}

/-- A text that starts with a digit has no sign. -/
theorem cutSign_of_digit {s : Bytes} {c : UInt8} {v : Nat} (digit : digitVal c = some v) :
    cutSign (c :: s) = (false, c :: s) := by
  have notPlus : c ≠ plus := by
    rintro rfl
    cases digit
  have notDash : c ≠ dash := by
    rintro rfl
    cases digit
  simp [cutSign, notPlus, notDash]

/-- A leading `0` that starts no `0x` or `0X` makes the text octal. -/
theorem parseUint_zero_cons {rest : Bytes} (positive : 0 < bitSize)
    (notHex : rest.head? ≠ some lowerX ∧ rest.head? ≠ some upperX) :
    parseUint (zero :: rest) 0 bitSize =
      (zero :: rest).foldlM (parseUintStep 8 ((2 ^ bitSize - 1) % 2 ^ 64)) 0 := by
  simp [parseUint, positive.ne', notHex]

/-- What `ParseInt` does on success: `ParseUint` read the text after the sign, and the value
passed the cutoff test for its sign. -/
theorem parseInt_eq_ok_iff {s : Bytes} {base : Nat} {i : ℤ} (positive : 0 < bitSize) :
    parseInt s base bitSize = .ok i ↔ s ≠ [] ∧
      ∃ un, parseUint (cutSign s).2 base bitSize = .ok un ∧
        if (cutSign s).1 then un ≤ 2 ^ (bitSize - 1) % 2 ^ 64 ∧ i = -(un : ℤ)
        else un < 2 ^ (bitSize - 1) % 2 ^ 64 ∧ i = un := by
  by_cases empty : s = []
  · simp [parseInt, empty, throw, throwThe, MonadExceptOf.throw]
  · simp only [parseInt, if_neg positive.ne', ne_eq, empty, not_false_eq_true, true_and]
    cases read : parseUint (cutSign s).2 base bitSize with
    | error e => simp [throw, throwThe, MonadExceptOf.throw]
    | ok un =>
        simp only [Except.ok.injEq, exists_eq_left']
        -- the cutoff test of each sign
        cases (cutSign s).1 with
        | false =>
            simp only [Bool.false_eq_true, reduceIte, ite_throw_eq_ok, not_le]
            exact and_congr_right fun _ => eq_comm
        | true =>
            simp only [reduceIte, ite_throw_eq_ok, not_lt]
            exact and_congr_right fun _ => eq_comm

/-- Decimal digits start no `x` or `X`. -/
theorem notHex_of_digits {ds : Bytes} (decimal : Digits 10 ds) :
    ds.head? ≠ some lowerX ∧ ds.head? ≠ some upperX := by
  constructor
  all_goals
    intro head
    obtain ⟨v, digit, small⟩ := decimal _ (List.mem_of_mem_head? head)
    cases digit
    exact absurd small (by decide)

/-- Octal digits after a leading `0` are read in octal, when their value fits. -/
theorem parseInt_zero_cons_of_octal {ds : Bytes} (octal : Digits 8 ds)
    (fits : digitsValue 8 0 ds < 2 ^ 63) :
    parseInt (zero :: ds) 0 64 = .ok (digitsValue 8 0 ds) := by
  have notHex :=
    notHex_of_digits (fun d mem => (octal d mem).imp fun _ read => ⟨read.1, by omega⟩)
  have leading : Digits 8 (zero :: ds) := by
    intro d mem
    rcases List.mem_cons.mp mem with rfl | later
    · exact ⟨0, rfl, by decide⟩
    · exact octal d later
  have read := @foldlM_parseUintStep 8 ((2 ^ 64 - 1) % 2 ^ 64) (by decide) (by decide)
    (zero :: ds) 0 leading (by simp [show digitVal zero = some 0 from rfl]; omega)
  have sign := @cutSign_of_digit ds zero 0 rfl
  refine (parseInt_eq_ok_iff (by decide)).mpr ⟨List.cons_ne_nil _ _, digitsValue 8 0 ds, ?_, ?_⟩
  · rw [sign, parseUint_zero_cons (by decide) notHex, read]
    simp [show digitVal zero = some 0 from rfl]
  · rw [sign]
    simp only [Bool.false_eq_true, if_false, Nat.reduceSub, Nat.reducePow, Nat.reduceMod]
    exact ⟨by omega, trivial⟩

/-- A leading `0` before decimal digits of which one is `8` or `9` is an error. -/
theorem parseInt_zero_cons_error {ds : Bytes} (decimal : Digits 10 ds) (notOctal : ¬Digits 8 ds) :
    ∃ e, parseInt (zero :: ds) 0 64 = .error e := by
  simp only [Digits, not_forall, not_exists, not_and, not_lt] at notOctal
  obtain ⟨d, mem, large⟩ := notOctal
  obtain ⟨e, failed⟩ := @foldlM_parseUintStep_error 8 ((2 ^ 64 - 1) % 2 ^ 64) d large
    (zero :: ds) 0 (List.mem_cons_of_mem zero mem)
  cases parsed : parseInt (zero :: ds) 0 64 with
  | error e' => exact ⟨e', rfl⟩
  | ok i =>
      obtain ⟨-, un, read, -⟩ := (parseInt_eq_ok_iff (by decide)).mp parsed
      rw [@cutSign_of_digit ds zero 0 rfl,
        parseUint_zero_cons (by decide) (notHex_of_digits decimal),
        failed] at read
      cases read

end BaseZero

end Go
