/-
**Builtins that compare, unify and compute.**

`eq` compares what two terms stand for and binds nothing; `=` unifies; `is` and `add` compute a
number and unify it with their output; the others compare numbers.

Main definitions:

* `Term.alike`, `Term.allAlike` — equality of terms, numbers being compared with a tolerance;
* `Builtin.comparison`, `Builtin.tripleTest` — tests of two and of three numbers under a given name;
* `Builtin.sum` — the sum of two numbers under a given name;
* `Builtin.equal`, `Builtin.unification`, `Builtin.evaluation`, `Builtin.addition`.
-/

import RhythmLogic.Builtin.Basic

set_option autoImplicit false

namespace RhythmLogic

mutual

/-- **Equal as trees,** with numbers compared up to the tolerance. -/
def Term.alike : Term → Term → Bool
  | .number x, .number y => closeEnough x y
  | .atom a, .atom b => a == b
  | .var a, .var b => a == b
  | .expr o l r, .expr p m s => o == p && Term.alike l m && Term.alike r s
  | .compound f as, .compound g bs => f == g && Term.allAlike as bs
  | .list as, .list bs => Term.allAlike as bs
  | .partialList as s, .partialList bs t => Term.allAlike as bs && Term.alike s t
  | _, _ => false

/-- Alike item by item, and as many. -/
def Term.allAlike : List Term → List Term → Bool
  | [], [] => true
  | a :: as, b :: bs => Term.alike a b && Term.allAlike as bs
  | _, _ => false

end

namespace Builtin

open Body

/-- `eq(A, B)`: both sides stand for the same, and nothing is bound. -/
def equal : Builtin where
  name := "eq"
  arity := 2
  run _ args e :=
    match args with
    | [a, b] => succeedIf ((e.subst a).alike (e.subst b)) e
    | _ => misused

/-- `A = B`: unification. -/
def unification : Builtin where
  name := "="
  arity := 2
  run _ args e :=
    match args with
    | [a, b] => unifyInto e a b
    | _ => misused

/-- `X is E`: the value of the right side, unified with the left side. -/
def evaluation : Builtin where
  name := "is"
  arity := 2
  run _ args e :=
    match args with
    | [out, expression] => do
        let x ← number e expression
        unifyInto e out (.number x)
    | _ => misused

/-- The sum of two numbers. -/
def sum (name : String) : Builtin where
  name := name
  arity := 3
  run _ args e :=
    match args with
    | [a, b, out] => do
        let x ← number e a
        let y ← number e b
        unifyInto e out (.number (x + y))
    | _ => misused

/-- `add(A, B, Sum)`. -/
def addition : Builtin := sum "add"

/-- A comparison of two numbers. -/
def comparison (name : String) (holds : Float → Float → Bool) : Builtin where
  name := name
  arity := 2
  run _ args e :=
    match args with
    | [a, b] => do
        let x ← number e a
        let y ← number e b
        succeedIf (holds x y) e
    | _ => misused

/-- A test of three numbers. -/
def tripleTest (name : String) (holds : Float → Float → Float → Bool) : Builtin where
  name := name
  arity := 3
  run _ args e :=
    match args with
    | [a, b, c] => do
        let x ← number e a
        let y ← number e b
        let z ← number e c
        succeedIf (holds x y z) e
    | _ => misused

/-- The comparisons, by symbol and by name. -/
def comparisons : List Builtin :=
  [ comparison "=:=" closeEnough
  , comparison "=\\=" fun x y => (x - y).abs ≥ tolerance
  , comparison "<" fun x y => x < y
  , comparison ">" fun x y => x > y
  , comparison "=<" fun x y => x ≤ y
  , comparison ">=" fun x y => x ≥ y
  , comparison "lt" fun x y => x < y
  , comparison "gt" fun x y => x > y
  , comparison "lte" fun x y => x ≤ y
  , comparison "gte" fun x y => x ≥ y ]

end Builtin

end RhythmLogic
