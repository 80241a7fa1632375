/-
**How numbers are written.**

Three formats share the decimal machinery.  *Plain* text has the fewest digits that read back and
never an exponent; *fixed* text has a given number of places; both keep the sign of a negative
value that rounds to zero.  Terms write a zero of either sign as `0`.

Main definitions:

* `floatText` — plain text: `60`, `0.1`, `-0`, `inf`, `NaN`;
* `numberText` — the same inside terms, where every zero is `0`;
* `fixedText` — a given number of places, halves going to the even neighbour.
-/

import RhythmLogic.Numeric.Shortest

set_option autoImplicit false

namespace RhythmLogic

/-- The sign of a number, as it is written. -/
def signText (negative : Bool) : List Char := if negative then ['-'] else []

/-- **Plain text:** the fewest digits that read back, no exponent and no idle point. -/
def floatText (x : Float) : String :=
  match Binary.ofFloat x with
  | .nan => "NaN"
  | .infinite negative => if negative then "-inf" else "inf"
  | .finite negative m e =>
      let d := Numeral.shortest .upward negative m e
      String.ofList (signText negative ++ Numeral.positional d.mantissa d.exponent)

/-- A number inside a term: plain text, with every zero written `0`. -/
def numberText (x : Float) : String := if x == 0.0 then "0" else floatText x

/-- The quotient of two naturals, rounded to the nearest whole number with halves to even. -/
def roundDiv (num den : Nat) : Nat :=
  let q := num / den
  let r := num % den
  if 2 * r < den then q
  else if den < 2 * r then q + 1
  else if q % 2 = 0 then q else q + 1

/-- **Fixed text:** exactly `places` digits after the point. -/
def fixedText (places : Nat) (x : Float) : String :=
  match Binary.ofFloat x with
  | .nan => "NaN"
  | .infinite negative => if negative then "-inf" else "inf"
  | .finite negative m e =>
      let scaled := roundDiv (m * tenTo places * twoTo e.toNat) (twoTo (-e).toNat)
      String.ofList (signText negative ++ Numeral.pointed (decimalText scaled) places)

end RhythmLogic
