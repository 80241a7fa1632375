/-
**Signed ratios of 64-bit naturals, with infinities and an indefinite value.**

Bar lines are computed in ratios, so that a bar of `60 / 130 · 4` seconds does not drift.  Numerator
and denominator are 64-bit, and an operation whose result would not fit has none.

Main definitions:

* `Fraction`, `Fraction.value` — ratios, and the rational that one stands for;
* `Fraction.ofFloat` — the ratio of a double's decimal digits;
* `Fraction.div?`, `Fraction.mul?`, `Fraction.succ?`, `Fraction.floor` — arithmetic;
* `Fraction.same` — equality, with which the indefinite value equals itself;
* `Fraction.toFloat` — back to a double, with one rounding per part and one for the quotient.
-/

import RhythmLogic.Numeric.Text

set_option autoImplicit false

namespace RhythmLogic

/-- A signed ratio in lowest terms, a signed infinity, or the indefinite value. -/
inductive Fraction where
  | indefinite
  | infinite (negative : Bool)
  | ratio (negative : Bool) (numerator denominator : Nat)
deriving DecidableEq, Repr

namespace Fraction

/-- The first natural number beyond 64 bits. -/
def bound : Nat := 18446744073709551616

/-- The natural number, if it has 64 bits. -/
def fit (n : Nat) : Option Nat := if n < bound then some n else none

/-- A ratio in lowest terms. -/
def reduced (negative : Bool) (num den : Nat) : Fraction :=
  let g := Nat.gcd num den
  .ratio negative (num / g) (den / g)

/-- The rational that a ratio stands for. -/
def value : Fraction → Option Rat
  | .ratio negative num den => some (mkRat (signed negative num) den)
  | _ => none

/-! ### From doubles and back -/

/-- `10 ^ p` as a double, by squaring. -/
def decimalScale (p : Nat) : Float :=
  go p.log2 p 1.0 10.0
where
  /-- Multiplies the squares that the bits of `p` select. -/
  go : Nat → Nat → Float → Float → Float
    | 0, p, r, a => if p % 2 = 1 then r * a else r
    | fuel + 1, p, r, a => go fuel (p / 2) (if p % 2 = 1 then r * a else r) (a * a)

/-- The distance of a double from the whole number below it. -/
def excess (v : Float) : Float :=
  match Binary.ofFloat v with
  | .finite negative m e => (Float.ofInt (Rounding.down.whole negative m e) - v).abs
  | _ => 0.0 / 0.0

/-- The least power of ten that makes a double whole, or `none` where the product is infinite. -/
def decimalPlaces (x : Float) : Nat → Nat → Option Nat
  | 0, _ => none
  | fuel + 1, p =>
      let v := if p = 0 then x else x * decimalScale p
      if v.isInf then none
      else if excess v ≥ 2.220446049250313e-16 then decimalPlaces x fuel (p + 1)
      else some p

/-- The ratio that plain text spells, digit by digit. -/
def ofDigits (negative : Bool) (text : List Char) : Fraction :=
  let whole := text.takeWhile Char.isDigit
  let places := (text.dropWhile Char.isDigit).drop 1
  let num := naturalOfDigits whole * tenTo places.length + naturalOfDigits places
  let den := tenTo places.length
  match fit (naturalOfDigits whole), fit (naturalOfDigits places), fit num, fit den with
  | some _, some _, some num, some den => reduced negative num den
  | _, _, _, _ => .indefinite

/-- **The ratio of a double:** its decimal digits over a power of ten. -/
def ofFloat (x : Float) : Fraction :=
  if x.isNaN then .indefinite
  else if x.isInf then .infinite (decide (x < 0.0))
  else
    let negative := decide (x < 0.0)
    let spelled := ofDigits negative (floatText x.abs).toList
    match decimalPlaces x 400 0 with
    | none => spelled
    | some p =>
        let v := if p = 0 then x else x * decimalScale p
        match Binary.ofFloat v with
        | .finite _ m e =>
            match fit (Rounding.towardZero.whole false m e).toNat, fit (tenTo p) with
            | some num, some den => reduced negative num den
            | _, _ => spelled
        | _ => spelled

/-- The double of a ratio: each part is rounded, then their quotient. -/
def toFloat : Fraction → Float
  | .indefinite => 0.0 / 0.0
  | .infinite negative => if negative then -(1.0 / 0.0) else 1.0 / 0.0
  | .ratio negative num den =>
      let x := Float.ofNat num / Float.ofNat den
      if negative then -x else x

/-! ### Arithmetic -/

/-- The product, where it fits. -/
def mul? : Fraction → Fraction → Option Fraction
  | .indefinite, _ | _, .indefinite => some .indefinite
  | .infinite s, .infinite t => some (.infinite (s != t))
  | .infinite s, .ratio t num _ | .ratio t num _, .infinite s =>
      some (if num = 0 then .indefinite else .infinite (s != t))
  | .ratio s a b, .ratio t c d =>
      let g := Nat.gcd a d
      let h := Nat.gcd c b
      match fit (a / g * (c / h)), fit (b / h * (d / g)) with
      | some num, some den => some (reduced (s != t) num den)
      | _, _ => none

/-- The quotient, where it fits.  Zero divided by anything but zero is a positive zero. -/
def div? : Fraction → Fraction → Option Fraction
  | .indefinite, _ | _, .indefinite => some .indefinite
  | .infinite _, .infinite _ => some .indefinite
  | .infinite s, .ratio t _ _ => some (.infinite (s != t))
  | .ratio _ _ _, .infinite _ => some (.ratio false 0 1)
  | .ratio s a b, .ratio t c d =>
      if c = 0 then some (if a = 0 then .indefinite else .infinite s)
      else if a = 0 then some (.ratio false 0 1)
      else
        let g := Nat.gcd a c
        let h := Nat.gcd b d
        match fit (a / g * (d / h)), fit (b / h * (c / g)) with
        | some num, some den => some (reduced (s != t) num den)
        | _, _ => none

/-- The greatest whole ratio that is not above. -/
def floor : Fraction → Fraction
  | .ratio negative num den =>
      if negative then .ratio (decide (num ≠ 0)) ((num + den - 1) / den) 1
      else .ratio false (num / den) 1
  | x => x

/-- One more, where it fits. -/
def succ? : Fraction → Option Fraction
  | .ratio false num den => (fit (num + den)).map fun n => reduced false n den
  | .ratio true num den =>
      some (if den < num then reduced true (num - den) den else reduced false (den - num) den)
  | x => some x

/-- Equality of values: both zeros are equal, and the indefinite value equals itself. -/
def same : Fraction → Fraction → Bool
  | .indefinite, .indefinite => true
  | .infinite s, .infinite t => s == t
  | .ratio s a b, .ratio t c d => a * d == c * b && (s == t || a == 0)
  | _, _ => false

end Fraction

end RhythmLogic
