/-
**Runs without a result.**

Every function of this library is total.  Where a run of the program would not end, or would leave
the range of its machine integers, the function says so with one of these causes.

Main definitions:

* `Halt`, `Halt.text` — why a run has no result, and the words for it.
-/

set_option autoImplicit false

namespace RhythmLogic

/-- Why a run has no result. -/
inductive Halt where
  /-- A unification went deeper than its budget.  Only cyclic bindings do this. -/
  | unification
  /-- A search went deeper than its budget. -/
  | search
  /-- A machine integer left its range, or a divisor was zero. -/
  | arithmetic
  /-- A builtin was run on another number of arguments than it takes. -/
  | arguments
  /-- A grid index went past the last 64-bit index. -/
  | grid
deriving DecidableEq, Repr

/-- The words for a run without a result. -/
def Halt.text : Halt → String
  | unification => "the unification does not end"
  | search => "the search does not end"
  | arithmetic => "a whole number left its range"
  | arguments => "a builtin was run on another number of arguments"
  | grid => "the grid has no further index"

end RhythmLogic
