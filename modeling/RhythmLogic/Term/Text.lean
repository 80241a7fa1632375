/-
**How terms are written.**

The text of a term is source text again: names stand as they are, compounds as `f(a, b)`, lists as
`[a, b | T]`, and expressions are always in parentheses.

Main definitions:

* `Term.text` — the text of a term;
* `separated` — texts with a separator between them.
-/

import RhythmLogic.Term.Basic

set_option autoImplicit false

namespace RhythmLogic

/-- Texts with a separator between them. -/
def separated (separator : String) : List String → String
  | [] => ""
  | [s] => s
  | s :: rest => s ++ separator ++ separated separator rest

namespace Term

mutual

/-- **The text of a term.** -/
def text : Term → String
  | number x => numberText x
  | atom name => name
  | var name => name
  | compound name args => name ++ "(" ++ textAll args ++ ")"
  | list items => "[" ++ textAll items ++ "]"
  | partialList items tail =>
      let bar := if items.isEmpty then "| " else " | "
      "[" ++ textAll items ++ bar ++ text tail ++ "]"
  | expr op l r => "(" ++ text l ++ " " ++ op.symbol ++ " " ++ text r ++ ")"

/-- The texts of several terms, with commas between them. -/
def textAll : List Term → String
  | [] => ""
  | [t] => text t
  | t :: rest => text t ++ ", " ++ textAll rest

end

end Term

end RhythmLogic
