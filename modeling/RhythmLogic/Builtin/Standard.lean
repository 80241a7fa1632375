/-
**The standard table of builtins.**

Main definitions:

* `Builtin.standard`, `BuiltinTable.standard` — the builtins that every host starts with;
* `Builtin.refusing`, `Builtin.granting` — builtins that a host may add: one without solutions and
  ones with the same solution several times.
-/

import RhythmLogic.Builtin.Comparison
import RhythmLogic.Builtin.Rhythm
import RhythmLogic.Builtin.Harmony
import RhythmLogic.Builtin.Sequence
import RhythmLogic.Builtin.Draw

set_option autoImplicit false

namespace RhythmLogic

namespace Builtin

/-- The builtins that every host starts with. -/
def standard : List Builtin :=
  [equal, unification, evaluation] ++ comparisons ++
    [ addition
    , within, cooldown, distinct
    , every, beat, phase, euclid
    , scale, chord, transposition
    , choose, cycle, rotation, range
    , pick, probability, uniform, uniformWhole ]

/-- A builtin with the same solution `times` times, whatever its arguments. -/
def granting (times : Nat) (name : String) (arity : Nat) : Builtin where
  name := name
  arity := arity
  run _ _ e := (List.range times).forM fun _ => Body.succeed e

/-- A builtin without solutions. -/
def refusing (name : String) (arity : Nat) : Builtin := granting 0 name arity

end Builtin

/-- **The table that every host starts with.** -/
def BuiltinTable.standard : BuiltinTable := ⟨Builtin.standard⟩

end RhythmLogic
