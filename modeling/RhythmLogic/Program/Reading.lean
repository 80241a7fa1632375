/-
**Reading programs, queries and terms.**

Main definitions:

* `Reading`, `readProgram` — what becomes of a program text: the program or the first error, the
  notices about dropped alternatives, and the tally of terms;
* `parseProgram` — the program of a text;
* `parseQuery` — the alternatives of a query, with or without a final period;
* `parseTerm` — one expression, and nothing after it;
* `queryVariables` — the variables that an answer shows.
-/

import RhythmLogic.Program.Grammar
import RhythmLogic.Notice

set_option autoImplicit false

namespace RhythmLogic

namespace Reader.SourceClause

/-- The alternatives of a clause body. -/
def alternatives (c : SourceClause) : List (List Goal) :=
  match c.body with
  | none => [[]]
  | some tree => tree.alternatives

/-- **The clause that is kept:** its body is the first alternative. -/
def kept (c : SourceClause) : Clause := ⟨c.head, c.alternatives.headD []⟩

/-- The notice about a body with several alternatives. -/
def dropped? (c : SourceClause) : Option Notice :=
  let count := c.alternatives.length
  if 1 < count then some (.alternatives c.head count) else none

end Reader.SourceClause

/-- What becomes of a program text. -/
structure Reading where
  result : Except ParseError Program
  notices : List Notice
  /-- How many terms were built. -/
  terms : Nat
  /-- How many distinct names they have. -/
  names : Nat

/-- **Reads a program text.**  The notices are those of the clauses before the first error. -/
def readProgram (text : String) : Reading :=
  match tokenize text.toList with
  | .error e => ⟨.error e, [], 0, 0⟩
  | .ok tokens =>
      let (clauses, error, c) := Reader.clausesF (tokens.length + 1) (.before tokens)
      let result :=
        match error with
        | some e => .error e
        | none => .ok ⟨clauses.map (·.kept)⟩
      ⟨result, clauses.filterMap (·.dropped?), c.terms, c.names.length⟩

/-- The program of a text. -/
def parseProgram (text : String) : Except ParseError Program := (readProgram text).result

/-- A query: goals and an optional period. -/
def Reader.query (fuel : Nat) : Reader GoalTree := do
  let tree ← goals fuel
  let _ ← eat .period
  if (← peek).kind = .eof then return tree
  else
    expect .period
    return tree

/-- **The alternatives of a query.** -/
def parseQuery (text : String) : Except ParseError (List (List Goal)) :=
  match tokenize text.toList with
  | .error e => .error e
  | .ok tokens =>
      match Reader.query (Reader.budget tokens) (.before tokens) with
      | (.ok tree, _) => .ok tree.alternatives
      | (.error e, _) => .error e

/-- Why a text is not one expression. -/
inductive TermError where
  | parse (error : ParseError)
  /-- Something follows the expression. -/
  | trailing (term : Term)

/-- **The one expression that a text is.** -/
def parseTerm (text : String) : Except TermError Term :=
  match tokenize text.toList with
  | .error e => .error (.parse e)
  | .ok tokens =>
      match Reader.expression (Reader.budget tokens) (.before tokens) with
      | (.error e, _) => .error (.parse e)
      | (.ok t, c) => if c.current.kind = .eof then .ok t else .error (.trailing t)

namespace Goal

/-- The variables of the called terms after those already `seen`; negations show nothing. -/
def shownAfter (seen : List String) : Goal → List String
  | call t => t.variablesAfter seen
  | negation _ => seen

end Goal

/-- **The variables that an answer shows:** those of the goals outside negations, as they first
occur, without names that start with an underscore. -/
def queryVariables (alternatives : List (List Goal)) : List String :=
  let all := alternatives.flatten.foldl Goal.shownAfter []
  all.filter fun name => name.toList.head? != some '_'

end RhythmLogic
