/-
**Quantities: the arithmetic that times, tempos and beats are computed in.**

The transport is written once, for any arithmetic of this kind.  It runs in doubles, with all their
roundings; read in rationals, the same definitions say what the transport would do if nothing were
rounded.

Main definitions:

* `Quantity` — the arithmetic;
* the instances for `Float`, in which the program runs, and for `Rat`, which is exact.
-/

import RhythmLogic.Numeric.Fraction

set_option autoImplicit false

namespace RhythmLogic

/-- The arithmetic that times, tempos and beats are computed in.  Comparisons are computed, since
an undefined double compares with nothing. -/
class Quantity (α : Type) extends Add α, Sub α, Mul α, Div α where
  /-- The quantity that a double names. -/
  ofFloat : Float → α
  /-- The double that terms and messages show. -/
  toFloat : α → Float
  /-- A whole quantity. -/
  ofInt : Int → α
  /-- A quantity written in decimal: digits, and how many of them follow the point. -/
  ofDecimal : Nat → Nat → α
  /-- Below, or equal. -/
  le : α → α → Bool
  /-- Below. -/
  lt : α → α → Bool
  /-- Neither infinite nor undefined. -/
  isFinite : α → Bool
  /-- The index of the greatest whole number that is not above. -/
  floor : α → Int
  /-- The index after that one. -/
  floorSucc : α → Int
  /-- The remainder of a division, made nonnegative. -/
  remEuclid : α → α → α
  /-- The ratio of its digits.  There is none where a ratio would not fit. -/
  toFraction? : α → Option Fraction
  /-- The finite quantity of a ratio. -/
  ofFraction? : Fraction → Option α
  /-- How many grid indexes there are from a given one on, before the grid with this step passes
  the horizon or the indexes end. -/
  indexes : Int → α → α → Nat

namespace Quantity

variable {α : Type} [Quantity α]

/-- A quantity that is not undefined compares with itself. -/
def isDefined (x : α) : Bool := le x x

/-- Equal to zero. -/
def isZero (x : α) : Bool := le x (ofInt 0) && le (ofInt 0) x

/-- Above zero, and finite. -/
def isPositive (x : α) : Bool := lt (ofInt 0) x && isFinite x

/-- The nearest quantity from zero to one.  An undefined one stays undefined. -/
def clampUnit (x : α) : α :=
  if lt x (ofInt 0) then ofInt 0 else if lt (ofInt 1) x then ofInt 1 else x

/-- One thousandth of a millionth: the slack in comparisons of times. -/
def slack : α := ofDecimal 1 9

end Quantity

/-- **The arithmetic in which the program runs.**  Grid indexes have 64 bits, and the one after the
greatest index is the least.  A double whose digits do not fit a ratio has the indefinite ratio. -/
instance : Quantity Float where
  ofFloat x := x
  toFloat x := x
  ofInt := Float.ofInt
  ofDecimal m e := Float.ofScientific m true e
  le x y := decide (x ≤ y)
  lt x y := decide (x < y)
  isFinite := Float.isFinite
  floor := Float.index .down
  floorSucc x :=
    let i := x.index .down
    if i = maxIndex then minIndex else i + 1
  remEuclid := Float.remEuclid
  toFraction? x := some (.ofFloat x)
  ofFraction? f :=
    let x := f.toFloat
    if x.isFinite then some x else none
  indexes k _ _ := (maxIndex + 1 - k).toNat

/-- **The exact reading.**  A rational is its own ratio where both parts have 64 bits, and the grid
indexes that are needed are counted. -/
instance : Quantity Rat where
  ofFloat x := x.exactValue?.getD 0
  toFloat x := Float.ofInt x.num / Float.ofNat x.den
  ofInt i := i
  ofDecimal m e := mkRat (Int.ofNat m) (tenTo e)
  le x y := decide (x ≤ y)
  lt x y := decide (x < y)
  isFinite _ := true
  floor := Rat.floor
  floorSucc x := x.floor + 1
  remEuclid x y := x - y * ((x / y).floor : Rat)
  toFraction? x := do
    let num ← Fraction.fit x.num.natAbs
    let den ← Fraction.fit x.den
    some (.ratio (decide (x.num < 0)) num den)
  ofFraction? := Fraction.value
  indexes k step horizon := ((horizon / step).ceil - k).toNat + 1

end RhythmLogic
