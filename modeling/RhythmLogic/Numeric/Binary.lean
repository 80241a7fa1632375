/-
**Doubles taken apart: a sign, a whole mantissa and a power of two.**

Every finite double is `± m · 2 ^ e` with a natural `m` and an integer `e`, and both are read off
its bits.  Rounding to a whole number, saturating into the 64-bit index range and the remainder of
a division are then questions about integers, and are answered exactly.

Main definitions:

* `Binary`, `Binary.ofFloat` — the parts of a double;
* `Rounding`, `Rounding.whole` — the three ways to make `± m · 2 ^ e` whole;
* `Float.index` — the 64-bit index of a double: rounded, saturated, zero for NaN;
* `Float.nearestWhole` — the nearest whole double, halves going away from zero;
* `Float.remEuclid` — the remainder of a division, made nonnegative;
* `Float.exactValue?` — the exact rational value.
-/

import RhythmLogic.Numeric.Power

set_option autoImplicit false

namespace RhythmLogic

/-! ### The parts of a double -/

/-- A double taken apart.  A finite one is `± mantissa · 2 ^ exponent`. -/
inductive Binary where
  | nan
  | infinite (negative : Bool)
  | finite (negative : Bool) (mantissa : Nat) (exponent : Int)
deriving DecidableEq, Repr

/-- The parts of a double, read off its bits.  Subnormal doubles have no hidden bit. -/
def Binary.ofFloat (x : Float) : Binary :=
  let bits := x.toBits.toNat
  let negative := decide (twoTo 63 ≤ bits)
  let field := bits / twoTo 52 % twoTo 11
  let fraction := bits % twoTo 52
  if field = 2047 then
    if fraction = 0 then .infinite negative else .nan
  else if field = 0 then .finite negative fraction (-1074)
  else .finite negative (fraction + twoTo 52) (Int.ofNat field - 1075)

/-- `2 ^ e` for the exponents of finite doubles, `-1074 ≤ e ≤ 1023`. -/
def Binary.powerOfTwo (e : Int) : Float :=
  if e < -1022 then Float.ofBits (UInt64.ofNat (twoTo (e + 1074).toNat))
  else Float.ofBits (UInt64.ofNat ((e + 1023).toNat * twoTo 52))

/-- A signed magnitude as an integer. -/
def signed (negative : Bool) (magnitude : Nat) : Int :=
  if negative then -Int.ofNat magnitude else Int.ofNat magnitude

/-! ### Whole numbers -/

/-- How a number is made whole. -/
inductive Rounding where
  /-- The greatest whole number that is not above. -/
  | down
  /-- The nearest whole number, halves going away from zero. -/
  | nearest
  /-- The fraction is dropped. -/
  | towardZero
deriving DecidableEq, Repr

/-- `± m · 2 ^ e` made whole. -/
def Rounding.whole (r : Rounding) (negative : Bool) (m : Nat) (e : Int) : Int :=
  match e with
  | .ofNat k => signed negative (m * twoTo k)
  | .negSucc k =>
      let unit := twoTo (k + 1)
      match r with
      | .down => signed negative m / Int.ofNat unit
      | .nearest => signed negative ((2 * m + unit) / (2 * unit))
      | .towardZero => signed negative (m / unit)

/-- The greatest 64-bit index. -/
def maxIndex : Int := 9223372036854775807

/-- The least 64-bit index. -/
def minIndex : Int := -9223372036854775808

/-- The nearest 64-bit index. -/
def saturate (i : Int) : Int := max minIndex (min maxIndex i)

theorem minIndex_le_saturate (i : Int) : minIndex ≤ saturate i := Int.le_max_left ..

theorem saturate_le_maxIndex (i : Int) : saturate i ≤ maxIndex := by
  unfold saturate minIndex maxIndex; omega

/-- Indexes are not moved. -/
theorem saturate_of_mem {i : Int} (lo : minIndex ≤ i) (hi : i ≤ maxIndex) : saturate i = i := by
  unfold saturate; omega

end RhythmLogic

namespace Float

open RhythmLogic

/-- **The 64-bit index of a double:** made whole, saturated at the ends, and zero for NaN. -/
def index (r : Rounding) (x : Float) : Int :=
  match Binary.ofFloat x with
  | .nan => 0
  | .infinite negative => if negative then minIndex else maxIndex
  | .finite negative m e => saturate (r.whole negative m e)

theorem minIndex_le_index (r : Rounding) (x : Float) : minIndex ≤ x.index r := by
  unfold index
  split
  · decide
  · split <;> decide
  · exact minIndex_le_saturate _

theorem index_le_maxIndex (r : Rounding) (x : Float) : x.index r ≤ maxIndex := by
  unfold index
  split
  · decide
  · split <;> decide
  · exact saturate_le_maxIndex _

/-- The nearest whole double, halves going away from zero.  A double with a nonnegative exponent
is whole already, and the others are below `2 ^ 53`, so the result is exact. -/
def nearestWhole (x : Float) : Float :=
  match Binary.ofFloat x with
  | .finite negative m (.negSucc k) => Float.ofInt (Rounding.nearest.whole negative m (.negSucc k))
  | _ => x

/-- The remainder that truncated division leaves, with the sign of the dividend.  It is a multiple
of the smaller of the two units and below the divisor, so it is a double. -/
def remainder (x y : Float) : Float :=
  match Binary.ofFloat x, Binary.ofFloat y with
  | .finite negative m e, .finite _ n f =>
      if n = 0 then 0.0 / 0.0
      else
        let unit := min e f
        let r := (m * twoTo (e - unit).toNat) % (n * twoTo (f - unit).toNat)
        let value := Float.ofNat r * Binary.powerOfTwo unit
        if negative then -value else value
  | .finite _ _ _, .infinite _ => x
  | _, _ => 0.0 / 0.0

/-- The remainder of a division, made nonnegative by one step of the divisor. -/
def remEuclid (x y : Float) : Float :=
  let r := x.remainder y
  if r < 0.0 then r + y.abs else r

/-- **The exact value of a finite double.** -/
def exactValue? (x : Float) : Option Rat :=
  match Binary.ofFloat x with
  | .finite negative m (.ofNat k) => some (mkRat (signed negative (m * twoTo k)) 1)
  | .finite negative m (.negSucc k) => some (mkRat (signed negative m) (twoTo (k + 1)))
  | _ => none

end Float
