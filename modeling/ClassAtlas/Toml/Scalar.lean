import ClassAtlas.Text.Hex

/-!
# Unquoted scalars of TOML

A scalar without quotes is a run of letters, digits and a few marks: an integer, a fraction, a truth
value, or a date, a time or both. Integers are evaluated, and so are fractions, as far as it takes to
see whether they are in range; of the others it is decided whether they are well-formed.

## Main definitions

* `ClassAtlas.Toml.integer?` — the value of an integer, which fits in 64 bits with a sign.
* `ClassAtlas.Toml.fraction?` — the value of a fraction, as a whole number and a power of ten.
* `ClassAtlas.Toml.isFloat`, `ClassAtlas.Toml.isBoolean`, `ClassAtlas.Toml.isDateTime`.
-/

set_option autoImplicit false

namespace ClassAtlas.Toml

/-! ### Integers -/

/-- The value of digits in a base, between which underscores may stand one at a time. -/
def digitsValue? (base : Nat) : List Char → Option Nat
  | [] => none
  | c :: cs => do go (← digit? c) cs
where
  /-- The value of a digit. -/
  digit? (c : Char) : Option Nat :=
    (Text.hexValue? c).filter (· < base)
  /-- The value of the digits that follow the digits with the value `n`. -/
  go (n : Nat) : List Char → Option Nat
    | [] => some n
    | '_' :: c :: cs => do go (base * n + (← digit? c)) cs
    | c :: cs => do go (base * n + (← digit? c)) cs

/-- A text without its sign, and whether the sign was a minus. -/
def splitSign : List Char → Bool × List Char
  | '-' :: cs => (true, cs)
  | '+' :: cs => (false, cs)
  | cs => (false, cs)

/-- The value of decimal digits that do not start with a superfluous zero. -/
def decimal? : List Char → Option Nat
  | '0' :: _ :: _ => none
  | cs => digitsValue? 10 cs

/-- The value of an integer in decimal notation with or without a sign, or in hexadecimal, octal or
binary notation without one. -/
def integerValue? : List Char → Option Int
  | '0' :: 'x' :: cs => (digitsValue? 16 cs).map Int.ofNat
  | '0' :: 'o' :: cs => (digitsValue? 8 cs).map Int.ofNat
  | '0' :: 'b' :: cs => (digitsValue? 2 cs).map Int.ofNat
  | cs =>
    let (isNegative, digits) := splitSign cs
    (decimal? digits).map fun n => if isNegative then -(n : Int) else n

/-- The value of an integer, if it fits in 64 bits with a sign. -/
def integer? (cs : List Char) : Option Int :=
  (integerValue? cs).filter fun n => -0x8000000000000000 ≤ n && n < 0x8000000000000000

/-! ### Fractions and truth values -/

/-- A number in decimal notation: a whole number times a power of ten. -/
structure Decimal where
  /-- The whole number. -/
  significand : Nat
  /-- The exponent of the power of ten. -/
  exponent : Int
  deriving DecidableEq, Repr

namespace Decimal

/-- The least number that is too large for a binary fraction of 64 bits: it lies halfway between the
largest one and the next power of two. -/
def overflow : Nat := Nat.pow 2 1024 - Nat.pow 2 970

/-- Whether a number is too large for a binary fraction of 64 bits. The number of its digits decides
that unless it is near the bound, so that a large exponent costs nothing. -/
def isTooLarge (d : Decimal) : Bool :=
  let digits : Int := (Nat.toDigits 10 d.significand).length + d.exponent
  if d.significand = 0 || digits < 309 then false
  else if 310 < digits then true
  else decide (overflow * Nat.pow 10 (-d.exponent).toNat ≤
    d.significand * Nat.pow 10 d.exponent.toNat)

end Decimal

/-- The exponent that a text spells with its mark; without any text it is zero. -/
def exponent? : List Char → Option Int
  | [] => some 0
  | c :: cs =>
    if c == 'e' || c == 'E' then
      let (isNegative, digits) := splitSign cs
      (digitsValue? 10 digits).map fun n => if isNegative then -(n : Int) else n
    else none

/-- Whether a character may stand in the digits of a number. -/
def isDigitOrGap (c : Char) : Bool :=
  c.isDigit || c == '_'

/-- The value of decimal digits with decimals, an exponent or both. -/
def fraction? (cs : List Char) : Option Decimal := do
  let whole ← decimal? (cs.takeWhile isDigitOrGap)
  match cs.dropWhile isDigitOrGap with
  | [] => none
  | '.' :: rest =>
    let decimals := rest.takeWhile isDigitOrGap
    let part ← digitsValue? 10 decimals
    let places := (decimals.filter Char.isDigit).length
    let exponent ← exponent? (rest.dropWhile isDigitOrGap)
    return ⟨whole * Nat.pow 10 places + part, exponent - places⟩
  | rest => return ⟨whole, ← exponent? rest⟩

/-- Whether a text is a fraction: decimal digits with decimals, an exponent or both, or one of the
words for what is no number. One that is too large is refused unless it is negative. -/
def isFloat (cs : List Char) : Bool :=
  let (isNegative, unsigned) := splitSign cs
  unsigned == "inf".toList || unsigned == "nan".toList ||
    (fraction? unsigned).any fun d => isNegative || !d.isTooLarge

/-- Whether a text is a truth value. -/
def isBoolean (cs : List Char) : Bool :=
  cs == "true".toList || cs == "false".toList

/-! ### Dates and times -/

/-- The number of exactly `count` digits at the start of a text, with what follows. -/
def fixedNumber? (count : Nat) (cs : List Char) : Option (Nat × List Char) :=
  let digits := cs.take count
  if digits.length = count && digits.all Char.isDigit then
    some (digits.foldl (fun n c => 10 * n + (c.toNat - 48)) 0, cs.drop count)
  else none

/-- The number of two digits between bounds at the start of a text, with what follows. -/
def pair? (least most : Nat) (cs : List Char) : Option (List Char) := do
  let (n, rest) ← fixedNumber? 2 cs
  if least ≤ n ∧ n ≤ most then some rest else none

/-- The number of days of a month. -/
def daysIn (year month : Nat) : Nat :=
  if month = 2 then
    if year % 4 = 0 ∧ (year % 100 ≠ 0 ∨ year % 400 = 0) then 29 else 28
  else if [4, 6, 9, 11].contains month then 30
  else 31

/-- What follows a character at the start of a text. -/
def after? (c : Char) : List Char → Option (List Char)
  | d :: cs => if c = d then some cs else none
  | [] => none

/-- What follows a date. -/
def afterDate? (cs : List Char) : Option (List Char) := do
  let (year, rest) ← fixedNumber? 4 cs
  let (month, rest) ← fixedNumber? 2 (← after? '-' rest)
  if month = 0 ∨ 12 < month then none
  else pair? 1 (daysIn year month) (← after? '-' rest)

/-- What follows a time of day. -/
def afterTime? (cs : List Char) : Option (List Char) := do
  let rest ← pair? 0 59 (← after? ':' (← pair? 0 23 cs))
  let rest ← pair? 0 60 (← after? ':' rest)
  match rest with
  | '.' :: rest =>
    if (rest.head?.any Char.isDigit) then some (rest.dropWhile Char.isDigit) else none
  | rest => some rest

/-- Whether a text is an offset from the common time, or nothing. -/
def isOffset : List Char → Bool
  | [] => true
  | [c] => c == 'Z' || c == 'z'
  | c :: cs =>
    (c == '+' || c == '-') &&
      ((pair? 0 23 cs).bind (after? ':') |>.bind (pair? 0 59)) == some []

/-- Whether a text is a date, a time, or a date and a time with or without an offset. -/
def isDateTime (cs : List Char) : Bool :=
  match afterDate? cs with
  | some [] => true
  | some (c :: rest) =>
    (c == 'T' || c == 't' || c == ' ') && (afterTime? rest).any isOffset
  | none => afterTime? cs == some []

end ClassAtlas.Toml
