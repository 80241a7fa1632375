/-
**Goal trees and their alternatives.**

A body is written as a tree of conjunctions, disjunctions and negations.  Resolution only walks
flat rows of goals, so a tree is expanded to its alternatives: a conjunction pairs every
alternative of one side with every one of the other, a disjunction puts them one after the other,
and a negation wraps those of its operand in one goal.

Main definitions:

* `GoalTree`, `GoalTree.alternatives` — trees and their expansion;
* `GoalTree.firstChoice` — the tree with every disjunction outside negations decided leftwards.
-/

import RhythmLogic.Program.Basic

set_option autoImplicit false

namespace RhythmLogic

/-- A body or query as it is written. -/
inductive GoalTree where
  | call (term : Term)
  | both (left right : GoalTree)
  | either (left right : GoalTree)
  | negation (inner : GoalTree)
deriving Repr, Inhabited

namespace GoalTree

/-- Every row of the one list followed by every row of the other. -/
def paired (left right : List (List Goal)) : List (List Goal) :=
  left.flatMap fun l => right.map fun r => l ++ r

/-- **The alternatives of a tree,** each a row of goals. -/
def alternatives : GoalTree → List (List Goal)
  | call t => [[.call t]]
  | both l r => paired l.alternatives r.alternatives
  | either l r => l.alternatives ++ r.alternatives
  | negation inner => [[.negation inner.alternatives]]

/-- The row of goals that is left when every disjunction outside negations is decided for its left
side. -/
def firstChoice : GoalTree → List Goal
  | call t => [.call t]
  | both l r => l.firstChoice ++ r.firstChoice
  | either l _ => l.firstChoice
  | negation inner => [.negation inner.alternatives]

@[simp] theorem length_paired (left right : List (List Goal)) :
    (paired left right).length = left.length * right.length := by
  induction left with
  | nil => simp [paired]
  | cons l ls ih => simp_all [paired, Nat.succ_mul, Nat.add_comm]

end GoalTree

end RhythmLogic
