/-
**Programs: clauses and the goals in their bodies.**

A clause has a head and a body, and its body is a row of goals that are to be proved from left to
right.  A goal is a term that is called, or the negation of alternatives, each again a row of
goals.

Main definitions:

* `Goal`, `Clause`, `Program` — the syntax of programs, and `Program.text` — how it is written;
* `Program.predicates` — name and arity of every head, as first defined;
* `Program.clausesOf` — the clauses that a call tries;
* `Clause.rename` — a clause with a number added to every variable name.
-/

import RhythmLogic.Term.Text

set_option autoImplicit false

namespace RhythmLogic

/-- A step of a body or of a query. -/
inductive Goal where
  /-- A term to be called. -/
  | call (term : Term)
  /-- Succeeds, without binding anything, when no alternative can be proved. -/
  | negation (alternatives : List (List Goal))
deriving Repr, Inhabited

/-- A head that holds when the goals of the body hold; a fact has none. -/
structure Clause where
  head : Term
  body : List Goal
deriving Repr, Inhabited

/-- Clauses, in the order in which they are tried. -/
structure Program where
  clauses : List Clause
deriving Repr, Inhabited

/-! ### How programs are written -/

namespace Goal

mutual

/-- **The text of a goal.** -/
def text : Goal → String
  | call t => t.text
  | negation alternatives => "\\+ (" ++ alternativesText alternatives ++ ")"

/-- The texts of several goals, with commas between them. -/
def bodyText : List Goal → String
  | [] => ""
  | [g] => text g
  | g :: rest => text g ++ ", " ++ bodyText rest

/-- The texts of several bodies, with semicolons between them. -/
def alternativesText : List (List Goal) → String
  | [] => ""
  | [b] => bodyText b
  | b :: rest => bodyText b ++ " ; " ++ alternativesText rest

end

end Goal

namespace Clause

/-- No goal has to be proved. -/
def isFact (c : Clause) : Bool := c.body.isEmpty

/-- **The text of a clause,** with its final period. -/
def text (c : Clause) : String :=
  if c.body.isEmpty then c.head.text ++ "."
  else c.head.text ++ " :- " ++ Goal.bodyText c.body ++ "."

end Clause

namespace Program

/-- The program without clauses. -/
def empty : Program := ⟨[]⟩

/-- The number of clauses. -/
def size (p : Program) : Nat := p.clauses.length

/-- **The text of a program,** a clause a line. -/
def text (p : Program) : String := String.join (p.clauses.map fun c => c.text ++ "\n")

/-- **Name and arity of every head,** each once, as first defined. -/
def predicates (p : Program) : List (String × Nat) :=
  p.clauses.foldl (fun found c =>
    match c.head.functor? with
    | some f => if found.contains f then found else found ++ [f]
    | none => found) []

/-- **The clauses that a call of `name/arity` tries.** -/
def clausesOf (p : Program) (name : String) (arity : Nat) : List Clause :=
  p.clauses.filter fun c => c.head.functor? == some (name, arity)

end Program

/-! ### Renaming -/

/-- The name of a variable in the clause trial with a given number. -/
def renamed (number : Nat) (name : String) : String := name ++ "$" ++ naturalText number

mutual

/-- A term with every variable renamed. -/
def Term.rename (number : Nat) : Term → Term
  | .number x => .number x
  | .atom name => .atom name
  | .var name => .var (renamed number name)
  | .compound name args => .compound name (Term.renameAll number args)
  | .list items => .list (Term.renameAll number items)
  | .partialList items tail =>
      .partialList (Term.renameAll number items) (Term.rename number tail)
  | .expr op l r => .expr op (Term.rename number l) (Term.rename number r)

/-- Several terms with every variable renamed. -/
def Term.renameAll (number : Nat) : List Term → List Term
  | [] => []
  | t :: ts => Term.rename number t :: Term.renameAll number ts

end

mutual

/-- A goal with every variable renamed. -/
def Goal.rename (number : Nat) : Goal → Goal
  | .call t => .call (t.rename number)
  | .negation alternatives => .negation (Goal.renameAlternatives number alternatives)

/-- Several goals with every variable renamed. -/
def Goal.renameBody (number : Nat) : List Goal → List Goal
  | [] => []
  | g :: gs => Goal.rename number g :: Goal.renameBody number gs

/-- Several bodies with every variable renamed. -/
def Goal.renameAlternatives (number : Nat) : List (List Goal) → List (List Goal)
  | [] => []
  | b :: bs => Goal.renameBody number b :: Goal.renameAlternatives number bs

end

/-- **A clause with the number of its trial added to every variable name.**  Occurrences of one
variable stay linked, and the names of two trials differ. -/
def Clause.rename (number : Nat) (c : Clause) : Clause :=
  ⟨c.head.rename number, Goal.renameBody number c.body⟩

end RhythmLogic
