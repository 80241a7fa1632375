/-
**Unification.**

Two terms are unified by walking both and comparing what they stand for: an unbound variable is
bound to the other side, the left side first; two terms of one shape are unified child by child,
from left to right.  Numbers are the same when they differ by less than a fixed tolerance.  Lists
are compared item by item, and what is left of the longer one is unified with the tail of the
shorter one.

There is no occurs check, so a variable may come to stand for a term that contains it, and a
unification of two such terms need not end.  The worker therefore carries a depth.

Main definitions:

* `closeEnough` — equality of numbers up to the tolerance;
* `unifyZip` — unifies two rows of terms as far as the shorter one goes;
* `unifyF`, `unify` — the worker and unification itself.
-/

import RhythmLogic.Bindings
import RhythmLogic.Halt

set_option autoImplicit false

namespace RhythmLogic

/-- The distance below which two numbers are the same. -/
def tolerance : Float := 1e-9

/-- Two numbers are the same up to the tolerance. -/
def closeEnough (x y : Float) : Bool := (x - y).abs < tolerance

/-- What a unification comes to: extended bindings, or a clash. -/
abbrev Unified := Except Halt (Option Bindings)

/-- The terms clash. -/
def Unified.clash : Unified := .ok none

/-- The terms are unified by these bindings. -/
def Unified.solved (e : Bindings) : Unified := .ok (some e)

/-- Goes on with the bindings of a unification that succeeded. -/
def Unified.andThen (u : Unified) (next : Bindings → Unified) : Unified :=
  match u with
  | .ok (some e) => next e
  | other => other

/-- Unifies two rows of terms pairwise, from left to right, as far as the shorter one goes. -/
def unifyZip (step : Term → Term → Bindings → Unified) :
    List Term → List Term → Bindings → Unified
  | a :: as, b :: bs, e => (step a b e).andThen (unifyZip step as bs)
  | _, _, e => .solved e

/-- Unifies what is left of two lists after their common length: `as` and `bs` are the items that
remain, of which at most one has any. -/
def unifyEnds (step : Term → Term → Bindings → Unified) (as : List Term) (s : Option Term)
    (bs : List Term) (t : Option Term) (e : Bindings) : Unified :=
  match as, bs with
  | [], [] =>
      match s, t with
      | none, none => .solved e
      | some s, some t => step s t e
      | some s, none => step s (.list []) e
      | none, some t => step (.list []) t e
  | [], b :: bs =>
      match s with
      | some s => step s (Term.listOf (b :: bs) t) e
      | none => .clash
  | a :: as, _ =>
      match t with
      | some t => step (Term.listOf (a :: as) s) t e
      | none => .clash

/-- Unifies two lists. -/
def unifyLists (step : Term → Term → Bindings → Unified) (as : List Term) (s : Option Term)
    (bs : List Term) (t : Option Term) (e : Bindings) : Unified :=
  (unifyZip step as bs e).andThen
    (unifyEnds step (as.drop bs.length) s (bs.drop as.length) t)

/-- Unifies two terms that were walked, with `step` for their children. -/
def unifyShapes (step : Term → Term → Bindings → Unified) :
    Term → Term → Bindings → Unified
  | .var x, .var y, e => if x == y then .solved e else .solved (e.bind x (.var y))
  | .var x, t, e => .solved (e.bind x t)
  | s, .var y, e => .solved (e.bind y s)
  | .number x, .number y, e => if closeEnough x y then .solved e else .clash
  | .atom x, .atom y, e => if x == y then .solved e else .clash
  | .list as, .list bs, e => unifyLists step as none bs none e
  | .list as, .partialList bs t, e => unifyLists step as none bs (some t) e
  | .partialList as s, .list bs, e => unifyLists step as (some s) bs none e
  | .partialList as s, .partialList bs t, e => unifyLists step as (some s) bs (some t) e
  | .expr o l r, .expr p m s, e =>
      if o == p then (step l m e).andThen (step r s) else .clash
  | .compound f as, .compound g bs, e =>
      if f == g && as.length == bs.length then unifyZip step as bs e else .clash
  | _, _, _ => .clash

/-- Unifies two terms, going at most `depth` levels down.  A walk that ends at a bound variable runs
in a circle and would never end, and neither would the unification. -/
def unifyF : Nat → Term → Term → Bindings → Unified
  | 0, _, _, _ => .error .unification
  | depth + 1, s, t, e =>
      let s := e.walk s
      let t := e.walk t
      if e.isBound s || e.isBound t then .error .unification
      else unifyShapes (unifyF depth) s t e

/-- The depth budget of a unification.  Bindings without a cycle stay far below it. -/
def unificationDepth : Nat := 4611686018427387904

/-- **Unification:** the bindings extended so that both terms stand for the same. -/
def unify (s t : Term) (e : Bindings) : Unified := unifyF unificationDepth s t e

end RhythmLogic
