/-
**Builtins on lists: choice, cycles, rotation, enumeration.**

Main definitions:

* `rotated` — a list turned leftwards;
* `rangeLimit`, `Builtin.rangeFrom` — the enumeration of a range, and where it is cut off;
* `allDistinct` — no two items are alike;
* `Builtin.choose`, `Builtin.cycle`, `Builtin.rotation`, `Builtin.range`, `Builtin.distinct`.
-/

import RhythmLogic.Builtin.Comparison
import RhythmLogic.Numeric.Width

set_option autoImplicit false

namespace RhythmLogic

/-- A list turned leftwards by as many places as `shift` counts, whatever its sign.  An empty list
has no turn. -/
def rotated (items : List Term) (shift : Int) : Option (List Term) := do
  let places ← Width.unsigned64.remainder shift.natAbs items.length
  some (items.drop places.toNat ++ items.take places.toNat)

/-- No two items are alike. -/
def allDistinct : List Term → Bool
  | [] => true
  | t :: rest => !rest.any (fun other => t.alike other) && allDistinct rest

/-- The most values that one enumeration gives. -/
def rangeLimit : Nat := 10000

namespace Builtin

open Body

/-- `choose(List, X)`: a solution an item, in order. -/
def choose : Builtin where
  name := "choose"
  arity := 2
  run _ args e :=
    match args with
    | [list, out] => do
        let items ← properList e list
        items.forM fun item => unifyInto e out item
    | _ => misused

/-- `cycle(List, X)`: each call gives the next item and starts again after the last.  Progress is
remembered under the text of the list as it is written, before substitution. -/
def cycle : Builtin where
  name := "cycle"
  arity := 2
  run _ args e :=
    match args with
    | [list, out] => do
        let items ← properList e list
        if items.isEmpty then pure ()
        else
          let place ← stepCounter list.text items.length
          let item ← machine (items[place % items.length]?)
          unifyInto e out item
    | _ => misused

/-- `rotate(List, Shift, Out)`. -/
def rotation : Builtin where
  name := "rotate"
  arity := 3
  run _ args e :=
    match args with
    | [list, shift, out] => do
        let items ← properList e list
        if items.isEmpty then pure ()
        else
          let s ← number e shift
          let turned ← machine (rotated items (s.index .towardZero))
          unifyInto e out (.list turned)
    | _ => misused

/-- The values `start + step · i` from a given `i` on, up to `last`.  `fuel` counts what may still
be given. -/
def rangeFrom (e : Bindings) (out : Term) (start step last : Float) (upward : Bool)
    (size : Float) : Nat → Nat → Body Unit
  | fuel, i =>
      let value := start + step * Float.ofNat i
      let inside := if upward then decide (value ≤ last) else decide (value ≥ last)
      if !inside then pure ()
      else
        match fuel with
        | 0 => tell (.rangeCut start last size rangeLimit)
        | fuel + 1 => do
            unifyInto e out (.number value)
            rangeFrom e out start step last upward size fuel (i + 1)

/-- `range(Start, End, Step, X)`: the values from `Start` towards `End`, which is included.  The
sign of the step is ignored, and a step of zero counts as one. -/
def range : Builtin where
  name := "range"
  arity := 4
  run _ args e :=
    match args with
    | [first, final, stride, out] => do
        let start ← number e first
        let last ← number e final
        let given ← number e stride
        let size := if given.abs == 0.0 then 1.0 else given.abs
        let upward := decide (last ≥ start)
        let direction := if upward then 1.0 else -1.0
        rangeFrom e out start (direction * size) last upward size rangeLimit 0
    | _ => misused

/-- `distinct(List)`: no two items are alike. -/
def distinct : Builtin where
  name := "distinct"
  arity := 1
  run _ args e :=
    match args with
    | [list] => do
        let items ← properList e list
        succeedIf (allDistinct items) e
    | _ => misused

end Builtin

end RhythmLogic
