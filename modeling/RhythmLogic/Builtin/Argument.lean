/-
**Arguments that a builtin cannot use.**

Main definitions:

* `ArgumentError`, `ArgumentError.text` — why an argument is refused, and the words for it.
-/

import RhythmLogic.Term.Text

set_option autoImplicit false

namespace RhythmLogic

/-- Why a builtin refuses its arguments. -/
inductive ArgumentError where
  /-- A number was needed. -/
  | number (found : Term)
  /-- A proper list was needed. -/
  | list (found : Term)
  /-- An atom was needed. -/
  | atom (found : Term)
  /-- The step of a beat grid is not positive. -/
  | gridStep (step : Float)
  /-- A grid has less than one step. -/
  | gridSize (steps : Float)
  /-- The cycle of a rhythm is not positive. -/
  | cycleLength (beats : Float)
  /-- No scale has this name. -/
  | scale (name : String)
  /-- No chord has this name. -/
  | chord (name : String)
deriving Repr

/-- **The words for a refused argument.** -/
def ArgumentError.text : ArgumentError → String
  | number found => "expected a number, found " ++ found.text
  | list found => "expected a proper list, found " ++ found.text
  | atom found => "expected an atom, found " ++ found.text
  | gridStep x => "invalid argument: every step must be positive, got " ++ floatText x
  | gridSize x => "invalid argument: phase needs at least one step, got " ++ floatText x
  | cycleLength x => "invalid argument: euc cycle length must be positive, got " ++ floatText x
  | scale name => "invalid argument: unknown scale '" ++ name ++ "'"
  | chord name => "invalid argument: unknown chord '" ++ name ++ "'"

end RhythmLogic
