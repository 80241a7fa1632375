/-
**Bar lines: where a queued program takes over.**

The next bar line is the first multiple of the bar at or after the present.  It is computed in
ratios, and in plain arithmetic where a ratio would not fit.

Main definitions:

* `exactBoundary` — the next multiple of a ratio;
* `ratioBoundary` — the next multiple of a quantity, in ratios;
* `plainBoundary` — the same from the remainder of a division;
* `nextBoundary` — the one in ratios, or else the plain one.
-/

import RhythmLogic.Quantity

set_option autoImplicit false

namespace RhythmLogic

/-- The first multiple of a ratio at or after another one, if all intermediate ratios fit. -/
def exactBoundary (now quantum : Fraction) : Option Fraction := do
  let cycles ← now.div? quantum
  let whole := cycles.floor
  if cycles.same whole then some now
  else
    let next ← whole.succ?
    next.mul? quantum

variable {α : Type} [Quantity α]

open Quantity

/-- The first multiple of a quantity at or after another one, by the remainder of a division. -/
def plainBoundary (now quantum : α) : α :=
  let phase := remEuclid now quantum
  if isZero phase then now else now + (quantum - phase)

/-- The first multiple of a quantity at or after another one, in ratios, if all of them fit. -/
def ratioBoundary (now quantum : α) : Option α := do
  let start ← toFraction? now
  let bar ← toFraction? quantum
  let boundary ← exactBoundary start bar
  ofFraction? boundary

/-- **The first multiple of a quantity at or after another one.** -/
def nextBoundary (now quantum : α) : α :=
  (ratioBoundary now quantum).getD (plainBoundary now quantum)

end RhythmLogic
