/-
**The fewest decimal digits that read back as the same double.**

The reals that round to a finite double form an interval around it, which contains its ends exactly
when the mantissa is even.  A numeral reads back as the double iff it lies in that interval, so the
shortest numeral is found by going from coarse decimal grids to finer ones: on each grid only the
two neighbours of the double need a look, and the first grid with a neighbour inside wins.

Main definitions:

* `Shortest.Interval` — the interval of a double, over a common denominator;
* `Shortest.neighbour?` — the neighbour on one decimal grid that lies inside, the nearer of two;
* `Numeral.shortest` — the shortest numeral of a finite double.
-/

import RhythmLogic.Numeric.Numeral

set_option autoImplicit false

namespace RhythmLogic

/-- Which of two equally near neighbours is taken. -/
inductive Tie where
  | upward
  | toEven
deriving DecidableEq, Repr

namespace Shortest

/-- A double and the reals that round to it: `low`, `value` and `high` are numerators over `unit`,
and the ends belong to the interval iff `closed`. -/
structure Interval where
  low : Nat
  value : Nat
  high : Nat
  unit : Nat
  closed : Bool
deriving DecidableEq, Repr

/-- The interval of `m · 2 ^ e`.  Numerators count quarters of the last place, since below a power
of two the doubles are twice as dense. -/
def Interval.ofBinary (m : Nat) (e : Int) : Interval :=
  let low := if m = twoTo 52 ∧ -1074 < e then 4 * m - 1 else 4 * m - 2
  let scale := twoTo (e - 2).toNat
  ⟨low * scale, 4 * m * scale, (4 * m + 2) * scale, twoTo (2 - e).toNat, m % 2 == 0⟩

/-- The interval measured in steps of `10 ^ q`. -/
def Interval.onGrid (i : Interval) (q : Int) : Interval :=
  let up := tenTo (-q).toNat
  ⟨i.low * up, i.value * up, i.high * up, i.unit * tenTo q.toNat, i.closed⟩

/-- The whole number `c` lies in the interval. -/
def Interval.contains (i : Interval) (c : Nat) : Bool :=
  if i.closed then decide (i.low ≤ c * i.unit) && decide (c * i.unit ≤ i.high)
  else decide (i.low < c * i.unit) && decide (c * i.unit < i.high)

/-- The whole neighbour of the value that lies in the interval; of two, the nearer one. -/
def neighbour? (tie : Tie) (i : Interval) : Option Nat :=
  let c := i.value / i.unit
  match i.contains c, i.contains (c + 1) with
  | false, false => none
  | true, false => some c
  | false, true => some (c + 1)
  | true, true =>
      let below := i.value - c * i.unit
      let above := (c + 1) * i.unit - i.value
      if below < above then some c
      else if above < below then some (c + 1)
      else match tie with
        | .upward => some (c + 1)
        | .toEven => some (if c % 2 = 0 then c else c + 1)

/-- The first grid, from `10 ^ q` downwards, that has a neighbour inside. -/
def search (tie : Tie) (i : Interval) : Nat → Int → Nat × Int
  | 0, q => (i.value / i.unit, q)
  | fuel + 1, q =>
      match neighbour? tie (i.onGrid q) with
      | some c => (c, q)
      | none => search tie i fuel (q - 1)

/-- A power of ten that is above `m · 2 ^ e`, and at most three above the greatest one that is
not. -/
def topGrid (m : Nat) (e : Int) : Int :=
  (Int.ofNat m.log2 + 1 + e) * 30103 / 100000 + 1

end Shortest

/-- **The shortest numeral that reads back as `± m · 2 ^ e`,** the nearest of those. -/
def Numeral.shortest (tie : Tie) (negative : Bool) (m : Nat) (e : Int) : Numeral :=
  if m = 0 then ⟨negative, 0, 0⟩
  else
    let (c, q) := Shortest.search tie (Shortest.Interval.ofBinary m e) 25 (Shortest.topGrid m e)
    ⟨negative, c, q⟩

end RhythmLogic
