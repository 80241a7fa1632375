/-
**Decimal numerals: a sign, a whole mantissa and a power of ten.**

A numeral is what a decimal text says before anything is rounded.  This module reads numerals from
text, turns them into doubles with correct rounding, and lays them out as text again.

Main definitions:

* `Numeral`, `Numeral.toFloat` — a numeral and the double nearest to it;
* `decimalText`, `naturalOfDigits` — natural numbers in decimal, both ways;
* `Numeral.positional` — digits and a point, never an exponent;
* `Numeral.unsigned?` — the grammar `digits [. digits] [e [sign] digits]`;
* `readFloat?` — the same with a sign, and with the names of infinity and NaN.
-/

import RhythmLogic.Numeric.Binary

set_option autoImplicit false

namespace RhythmLogic

/-! ### Natural numbers in decimal -/

/-- The decimal digits of a natural number. -/
def decimalText (n : Nat) : List Char := Nat.toDigits 10 n

/-- The value of one digit. -/
def digitValue (c : Char) : Nat := c.toNat - '0'.toNat

/-- The number that a row of digits names. -/
def naturalOfDigits (cs : List Char) : Nat := cs.foldl (fun n c => 10 * n + digitValue c) 0

/-- A whole number in decimal, with a minus sign where it is negative. -/
def integerText (i : Int) : String :=
  match i with
  | .ofNat n => String.ofList (decimalText n)
  | .negSucc n => "-" ++ String.ofList (decimalText (n + 1))

/-- A natural number in decimal. -/
def naturalText (n : Nat) : String := String.ofList (decimalText n)

/-! ### Numerals -/

/-- The decimal number `± mantissa · 10 ^ exponent`. -/
structure Numeral where
  negative : Bool
  mantissa : Nat
  exponent : Int
deriving DecidableEq, Repr

namespace Numeral

/-- The exact value. -/
def value (d : Numeral) : Rat :=
  match d.exponent with
  | .ofNat k => mkRat (signed d.negative (d.mantissa * tenTo k)) 1
  | .negSucc k => mkRat (signed d.negative d.mantissa) (tenTo (k + 1))

/-- The double nearest to a magnitude.  Far beyond either end of the range the answer is known
without the power of ten: `10 ^ 400` is infinite and `10 ^ -400` is zero. -/
def magnitude (mantissa : Nat) (exponent : Int) : Float :=
  if mantissa = 0 then 0.0
  else
    let top := Int.ofNat (decimalText mantissa).length + exponent
    if top < -400 then 0.0
    else if 400 < top then 1.0 / 0.0
    else
      match exponent with
      | .ofNat k => Float.ofScientific mantissa false k
      | .negSucc k => Float.ofScientific mantissa true (k + 1)

/-- **The double nearest to a numeral.**  A zero keeps its sign. -/
def toFloat (d : Numeral) : Float :=
  let x := magnitude d.mantissa d.exponent
  if d.negative then -x else x

/-- The whole number that a numeral is, if it is one. -/
def toInt? (d : Numeral) : Option Int :=
  match d.exponent with
  | .ofNat k => some (signed d.negative (d.mantissa * tenTo k))
  | .negSucc k =>
      if d.mantissa % tenTo (k + 1) = 0 then some (signed d.negative (d.mantissa / tenTo (k + 1)))
      else none

/-- A row of digits with a point put `places` from its right end. -/
def pointed (digits : List Char) (places : Nat) : List Char :=
  let padded := List.replicate (places + 1 - digits.length) '0' ++ digits
  padded.take (padded.length - places) ++ '.' :: padded.drop (padded.length - places)

/-- The magnitude as digits and, where needed, a point: never an exponent. -/
def positional (mantissa : Nat) (exponent : Int) : List Char :=
  match exponent with
  | .ofNat k => decimalText mantissa ++ List.replicate k '0'
  | .negSucc k => pointed (decimalText mantissa) (k + 1)

/-! ### Reading -/

/-- The optional exponent of a numeral; the rest of the text comes back with it. -/
def exponentPart : List Char → Option (Int × List Char)
  | 'e' :: rest | 'E' :: rest =>
      let (negative, rest) :=
        match rest with
        | '-' :: more => (true, more)
        | '+' :: more => (false, more)
        | more => (false, more)
      let digits := rest.takeWhile Char.isDigit
      if digits.isEmpty then none
      else some (signed negative (naturalOfDigits digits), rest.dropWhile Char.isDigit)
  | rest => some (0, rest)

/-- `digits [. digits] [e [sign] digits]`, where either row of digits may be empty but not both.
Nothing may follow. -/
def unsigned? (negative : Bool) (cs : List Char) : Option Numeral :=
  let whole := cs.takeWhile Char.isDigit
  let rest := cs.dropWhile Char.isDigit
  let (fraction, rest) :=
    match rest with
    | '.' :: more => (more.takeWhile Char.isDigit, more.dropWhile Char.isDigit)
    | more => ([], more)
  if whole.isEmpty && fraction.isEmpty then none
  else
    match exponentPart rest with
    | some (e, []) =>
        some ⟨negative, naturalOfDigits (whole ++ fraction), e - Int.ofNat fraction.length⟩
    | _ => none

end Numeral

/-- **A double written in decimal:** an optional sign, then a numeral or, in any case of letters,
`inf`, `infinity` or `nan`. -/
def readFloat? (text : List Char) : Option Float :=
  let (negative, body) :=
    match text with
    | '-' :: rest => (true, rest)
    | '+' :: rest => (false, rest)
    | rest => (false, rest)
  let name := body.map Char.toLower
  if name = ['i', 'n', 'f'] || name = ['i', 'n', 'f', 'i', 'n', 'i', 't', 'y'] then
    some (if negative then -(1.0 / 0.0) else 1.0 / 0.0)
  else if name = ['n', 'a', 'n'] then some (0.0 / 0.0)
  else (Numeral.unsigned? negative body).map Numeral.toFloat

end RhythmLogic
