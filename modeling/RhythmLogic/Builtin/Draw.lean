/-
**Builtins that draw random numbers.**

Main definitions:

* `Builtin.probability`, `Builtin.pick`, `Builtin.uniform`, `Builtin.uniformWhole`.
-/

import RhythmLogic.Builtin.Basic
import RhythmLogic.Numeric.Width

set_option autoImplicit false

namespace RhythmLogic.Builtin

open Body

/-- `prob(P)`: succeeds with probability `P`. -/
def probability : Builtin where
  name := "prob"
  arity := 1
  run _ args e :=
    match args with
    | [chance] => do
        let p ← number e chance
        let x ← drawUnit
        succeedIf (x < p) e
    | _ => misused

/-- `pick(List, X)`: one item, each equally likely. -/
def pick : Builtin where
  name := "pick"
  arity := 2
  run _ args e :=
    match args with
    | [list, out] => do
        let items ← properList e list
        if items.isEmpty then pure ()
        else
          let place ← drawBelow items.length
          let item ← machine (items[place]?)
          unifyInto e out item
    | _ => misused

/-- `rand(Lo, Hi, X)`: a number from `Lo` up to, but not including, `Hi`. -/
def uniform : Builtin where
  name := "rand"
  arity := 3
  run _ args e :=
    match args with
    | [low, high, out] => do
        let lo ← number e low
        let hi ← number e high
        let x ← drawUnit
        unifyInto e out (.number (lo + x * (hi - lo)))
    | _ => misused

/-- `randint(Lo, Hi, X)`: a whole number from `Lo` up to, but not including, `Hi`.  An empty range
gives `Lo`. -/
def uniformWhole : Builtin where
  name := "randint"
  arity := 3
  run _ args e :=
    match args with
    | [low, high, out] => do
        let x ← number e low
        let y ← number e high
        let lo := x.index .down
        let hi := y.index .down
        let difference ← machine (Width.signed128.sub hi lo)
        let span := max difference 1
        let n ← drawBelow span.toNat
        let value ← machine (Width.signed128.add lo (Int.ofNat n))
        unifyInto e out (.number (Float.ofInt value))
    | _ => misused

end RhythmLogic.Builtin
