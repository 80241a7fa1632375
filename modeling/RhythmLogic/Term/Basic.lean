/-
**Terms: the values that clauses speak about.**

A term is a number, an atom, a variable, a compound, a list or a deferred arithmetic expression.  A
list is *proper*, or *partial* with a term in place of its end; the two are different constructors,
so that every child of a term is a member of a list of terms or a direct argument.

Main definitions:

* `Op`, `Op.apply` — the four operators, where division by zero gives zero;
* `Term` — terms, with `Term.listOf` and `Term.list?` for lists of both kinds;
* `Term.functor?` — name and arity of a term that can be called;
* `Term.isGround`, `Term.variableNames`, `Term.evaluate` — variables and the value of an expression.
-/

import RhythmLogic.Numeric.Text

set_option autoImplicit false

namespace RhythmLogic

/-! ### Operators -/

/-- The operator of a deferred arithmetic expression. -/
inductive Op where
  | add
  | sub
  | mul
  | div
deriving DecidableEq, Repr

namespace Op

/-- How the operator is written. -/
def symbol : Op → String
  | add => "+"
  | sub => "-"
  | mul => "*"
  | div => "/"

/-- The value of an operation.  Division by zero gives zero. -/
def apply (op : Op) (x y : Float) : Float :=
  match op with
  | add => x + y
  | sub => x - y
  | mul => x * y
  | div => if y != 0.0 then x / y else 0.0

end Op

/-! ### Terms -/

/-- A term.  `list` is a proper list, and `partialList items tail` goes on as `tail`. -/
inductive Term where
  | number (value : Float)
  | atom (name : String)
  | var (name : String)
  | compound (functor : String) (args : List Term)
  | list (items : List Term)
  | partialList (items : List Term) (tail : Term)
  | expr (op : Op) (left right : Term)
deriving Repr, Inhabited

namespace Term

/-- The list with these items and, if there is one, this tail. -/
def listOf (items : List Term) : Option Term → Term
  | none => list items
  | some tail => partialList items tail

/-- Items and tail of a list. -/
def list? : Term → Option (List Term × Option Term)
  | list items => some (items, none)
  | partialList items tail => some (items, some tail)
  | _ => none

@[simp] theorem list?_listOf (items : List Term) (tail : Option Term) :
    (listOf items tail).list? = some (items, tail) := by
  cases tail <;> rfl

/-- Items of a proper list. -/
def properList? : Term → Option (List Term)
  | list items => some items
  | _ => none

/-- The name of an atom. -/
def atom? : Term → Option String
  | atom name => some name
  | _ => none

/-- The name of a variable. -/
def var? : Term → Option String
  | var name => some name
  | _ => none

/-- The value of a number. -/
def number? : Term → Option Float
  | number value => some value
  | _ => none

/-- A variable, as opposed to a term with a shape. -/
def isVar : Term → Bool
  | var _ => true
  | _ => false

/-- **Name and arity of a term that can be called.**  An atom is called without arguments. -/
def functor? : Term → Option (String × Nat)
  | atom name => some (name, 0)
  | compound name args => some (name, args.length)
  | _ => none

/-- The arguments of a call. -/
def args : Term → List Term
  | compound _ args => args
  | _ => []

/-! ### Equality -/

mutual

/-- Equal as trees.  Numbers are equal when they are the same double. -/
def same : Term → Term → Bool
  | number x, number y => x.toBits == y.toBits
  | atom a, atom b => a == b
  | var a, var b => a == b
  | compound f as, compound g bs => f == g && sameAll as bs
  | list as, list bs => sameAll as bs
  | partialList as s, partialList bs t => sameAll as bs && same s t
  | expr o l r, expr p m s => o == p && same l m && same r s
  | _, _ => false

/-- Equal item by item, and as many. -/
def sameAll : List Term → List Term → Bool
  | [], [] => true
  | a :: as, b :: bs => same a b && sameAll as bs
  | _, _ => false

end

/-! ### Variables -/

mutual

/-- No variable occurs anywhere. -/
def isGround : Term → Bool
  | number _ | atom _ => true
  | var _ => false
  | compound _ args => allGround args
  | list items => allGround items
  | partialList items tail => allGround items && isGround tail
  | expr _ l r => isGround l && isGround r

/-- No variable occurs in any of the terms. -/
def allGround : List Term → Bool
  | [] => true
  | t :: ts => isGround t && allGround ts

end

mutual

/-- The variable names of a term after those already `seen`, each once, as they first occur. -/
def variablesAfter (seen : List String) : Term → List String
  | number _ | atom _ => seen
  | var name => if seen.contains name then seen else seen ++ [name]
  | compound _ args => allVariablesAfter seen args
  | list items => allVariablesAfter seen items
  | partialList items tail => variablesAfter (allVariablesAfter seen items) tail
  | expr _ l r => variablesAfter (variablesAfter seen l) r

/-- The variable names of several terms after those already `seen`. -/
def allVariablesAfter (seen : List String) : List Term → List String
  | [] => seen
  | t :: ts => allVariablesAfter (variablesAfter seen t) ts

end

/-- **The variable names of a term,** each once, in the order of first occurrence. -/
def variableNames (t : Term) : List String := variablesAfter [] t

/-! ### Arithmetic -/

/-- The value of a number or of an expression over numbers. -/
def evaluate : Term → Option Float
  | number x => some x
  | expr op l r => do
      let x ← evaluate l
      let y ← evaluate r
      some (op.apply x y)
  | _ => none

end Term

end RhythmLogic
