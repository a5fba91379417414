/-!
# Numbers in TOML

Integers are written in base ten, two, eight or sixteen and have 64 bits with sign. A float is a
decimal number with a fraction, an exponent or both, or one of the special values. A float is kept
as it is written, but a positive one is refused if the nearest float of 64 bits is infinite;
`Decimal.overflows` decides this in exact arithmetic.
-/

set_option autoImplicit false

namespace HeuristicTyping

/-- A number in decimal notation, the significand times a power of ten. -/
structure Decimal where
  significand : Nat
  exponent : Int
deriving DecidableEq, Repr

namespace Decimal

/-- The least number that is rounded to infinity. It lies half a unit above the largest finite
float of 64 bits, which has 53 ones in front of 971 zeros, and a half goes to the even
neighbour. -/
def leastInfinite : Nat := (Nat.pow 2 54 - 1) * Nat.pow 2 970

/-- The number of digits before the point when the number is written out, for a significand other
than zero. -/
def wholeDigits (value : Decimal) : Int :=
  (Nat.toDigits 10 value.significand).length + value.exponent

/-- Whether the nearest float of 64 bits is infinite. The least such number has 309 digits, so only
numbers of that size are compared with it, whatever the exponent. -/
def overflows (value : Decimal) : Bool :=
  value.significand != 0 &&
    (309 < value.wholeDigits ||
      (value.wholeDigits == 309 &&
        leastInfinite * Nat.pow 10 (-value.exponent).toNat ≤
          value.significand * Nat.pow 10 value.exponent.toNat))

end Decimal

namespace Toml

/-! ### Digits -/

/-- The value of a hexadecimal digit. -/
def hexValue? (char : Char) : Option Nat :=
  if '0' ≤ char ∧ char ≤ '9' then some (char.toNat - 48)
  else if 'a' ≤ char ∧ char ≤ 'f' then some (char.toNat - 87)
  else if 'A' ≤ char ∧ char ≤ 'F' then some (char.toNat - 55)
  else none

/-- Whether a character is a digit in a base. -/
def isDigitIn (base : Nat) (char : Char) : Bool := (hexValue? char).any (· < base)

/-- The number that digits stand for in a base. -/
def digitsValue (base : Nat) (digits : List Char) : Nat :=
  digits.foldl (fun value digit => base * value + (hexValue? digit).getD 0) 0

/-- The digits of a number without the underscores between them. Each underscore stands between
two digits. -/
def digits? (base : Nat) : List Char → Option (List Char)
  | [] => none
  | [digit] => if isDigitIn base digit then some [digit] else none
  | digit :: '_' :: rest =>
      if isDigitIn base digit then (digits? base rest).map (digit :: ·) else none
  | digit :: rest => if isDigitIn base digit then (digits? base rest).map (digit :: ·) else none

/-- The number that a text stands for in a base. -/
def number? (base : Nat) (text : List Char) : Option Nat :=
  (digits? base text).map (digitsValue base)

/-- The digits of a decimal number without leading zeros. -/
def wholeDigits? (text : List Char) : Option (List Char) :=
  match text with
  | '0' :: _ :: _ => none
  | _ => digits? 10 text

/-- Splits off a sign; without one a number is positive. -/
def sign : List Char → Bool × List Char
  | '-' :: rest => (true, rest)
  | '+' :: rest => (false, rest)
  | chars => (false, chars)

/-- A number with its sign. -/
def signed (negative : Bool) (value : Nat) : Int :=
  if negative then -Int.ofNat value else Int.ofNat value

/-! ### Integers -/

/-- The integer that a text stands for, of 64 bits with sign. -/
def integer? (text : List Char) : Option Int := do
  let value : Int ←
    match text with
    | '0' :: 'x' :: digits => (number? 16 digits).map Int.ofNat
    | '0' :: 'o' :: digits => (number? 8 digits).map Int.ofNat
    | '0' :: 'b' :: digits => (number? 2 digits).map Int.ofNat
    | _ =>
        let (negative, unsigned) := sign text
        (wholeDigits? unsigned).map fun digits => signed negative (digitsValue 10 digits)
  if -9223372036854775808 ≤ value ∧ value ≤ 9223372036854775807 then some value else none

/-! ### Floats -/

def isExponentMark (char : Char) : Bool := char == 'e' || char == 'E'

/-- The exponent that a text stands for, mark included. Without one it is zero. -/
def exponent? : List Char → Option Int
  | [] => some 0
  | _ :: text =>
      let (negative, digits) := sign text
      (number? 10 digits).map (signed negative)

/-- The number that a text without sign stands for, if it has a fraction, an exponent or both. -/
def decimal? (text : List Char) : Option Decimal := do
  let whole := text.takeWhile fun char => char != '.' && !isExponentMark char
  let digits ← wholeDigits? whole
  match text.drop whole.length with
  | [] => none
  | '.' :: rest =>
      let fraction ← digits? 10 (rest.takeWhile fun char => !isExponentMark char)
      let exponent ← exponent? (rest.dropWhile fun char => !isExponentMark char)
      return {
        significand := digitsValue 10 (digits ++ fraction)
        exponent := exponent - fraction.length }
  | rest =>
      let exponent ← exponent? rest
      return { significand := digitsValue 10 digits, exponent := exponent }

/-- Whether a text is a float. A positive number that is rounded to infinity is none, a negative one
may be as large in size as it likes. -/
def isFloat (text : List Char) : Bool :=
  let (negative, unsigned) := sign text
  unsigned == "inf".toList || unsigned == "nan".toList ||
    match decimal? unsigned with
    | some value => negative || !value.overflows
    | none => false

end Toml

end HeuristicTyping
