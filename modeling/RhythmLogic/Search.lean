/-
**Search: every solution of a row of goals.**

Goals are proved from left to right.  A builtin is computed and gives any number of solutions; any
other call tries the clauses of its predicate from top to bottom, each under fresh variable names,
and puts the body in front of the goals that are left.  A negation succeeds, binding nothing, when
none of its alternatives has a solution.  All solutions are found, in the order of the search.

A call is nested in the calls whose clause bodies led to it.  Calls that are nested as deep as the
limit are pruned, which is told once.

Main definitions:

* `Knowledge` — what a search works with: program, builtins, depth limit and tempo;
* `Progress` — what a search changes: the world, the number of clause trials, and the warning;
* `Pending` — a goal with the number of calls it is nested in;
* `gather`, `anyProof` — solutions one after the other, and whether there are any;
* `solveF`, `solve` — the worker and the search itself;
* `answerLine` — a solution as it is shown.
-/

import RhythmLogic.Builtin.Standard
import RhythmLogic.Program.Basic

set_option autoImplicit false

namespace RhythmLogic

/-! ### What a search works with -/

/-- The depth limit where none is set. -/
def defaultDepth : Nat := 512

/-- What a search works with. -/
structure Knowledge where
  program : Program
  builtins : BuiltinTable
  /-- Calls nested this deep are pruned. -/
  maxDepth : Nat
  bpm : Float

/-- What a search changes. -/
structure Progress where
  world : World
  /-- The number of clause trials, which makes variable names fresh. -/
  fresh : Nat
  /-- The depth limit was hit, and told. -/
  warned : Bool

/-- One more notice. -/
def Progress.tell (s : Progress) (n : Notice) : Progress := { s with world := s.world.tell n }

/-- A goal with the number of calls it is nested in. -/
structure Pending where
  goal : Goal
  depth : Nat

/-- Goals nested equally deep. -/
def pendingAt (depth : Nat) (goals : List Goal) : List Pending := goals.map fun g => ⟨g, depth⟩

/-- What a search comes to: solutions and what it changed. -/
abbrev Found : Type := Except Halt (List Bindings × Progress)

/-! ### One after the other -/

/-- The solutions of several runs, one run after the other. -/
def gather {α : Type} (run : α → Progress → Found) : List α → Progress → Found
  | [], s => .ok ([], s)
  | x :: rest, s =>
      match run x s with
      | .error h => .error h
      | .ok (found, s) =>
          match gather run rest s with
          | .error h => .error h
          | .ok (more, s) => .ok (found ++ more, s)

/-- Whether one of several runs has a solution.  Runs after the first that has are not made. -/
def anyProof {α : Type} (run : α → Progress → Found) :
    List α → Progress → Except Halt (Bool × Progress)
  | [], s => .ok (false, s)
  | x :: rest, s =>
      match run x s with
      | .error h => .error h
      | .ok (found, s) => if found.isEmpty then anyProof run rest s else .ok (true, s)

/-! ### The search -/

/-- A trial of one clause: its head, under fresh names, is unified with the call, and its body is
put in front of the goals that are left. -/
def tryClause (run : List Pending → Bindings → Progress → Found) (call : Term) (depth : Nat)
    (rest : List Pending) (e : Bindings) (c : Clause) (s : Progress) : Found :=
  let c := c.rename s.fresh
  let s := { s with fresh := s.fresh + 1 }
  match unify call c.head e with
  | .error h => .error h
  | .ok none => .ok ([], s)
  | .ok (some e) => run (pendingAt (depth + 1) c.body ++ rest) e s

/-- A call of a builtin.  What it pushed before a refusal is still explored. -/
def callBuiltin (run : List Pending → Bindings → Progress → Found) (b : Builtin) (bpm : Float)
    (name : String) (args : List Term) (rest : List Pending) (e : Bindings) (s : Progress) :
    Found :=
  let outcome := b.call bpm args e s.world
  let s := { s with world := outcome.world }
  match outcome.stop with
  | some (.halted h) => .error h
  | some (.refused error) =>
      gather (run rest) outcome.solutions (s.tell (.refused name args.length error))
  | none => gather (run rest) outcome.solutions s

/-- A call that is nested too deep: told the first time, and without solutions. -/
def prune (limit : Nat) (call : Term) (s : Progress) : Progress :=
  if s.warned then s else { s.tell (.depthLimit limit call) with warned := true }

/-- Proves a term that is called. -/
def callTerm (k : Knowledge) (run : List Pending → Bindings → Progress → Found) (t : Term)
    (depth : Nat) (rest : List Pending) (e : Bindings) (s : Progress) : Found :=
  let call := e.walk t
  match call.functor? with
  | none => .ok ([], s.tell (if call.isVar then .unbound t else .notCallable call))
  | some (name, arity) =>
      match k.builtins.find? name arity with
      | some b => callBuiltin run b k.bpm name call.args rest e s
      | none =>
          if k.maxDepth ≤ depth then .ok ([], prune k.maxDepth call s)
          else
            let clauses := k.program.clausesOf name arity
            let s := if clauses.isEmpty then s.tell (.undefinedCall name arity) else s
            gather (tryClause run call depth rest e) clauses s

/-- Proves a row of goals, going at most `fuel` goals deep. -/
def solveF (k : Knowledge) : Nat → List Pending → Bindings → Progress → Found
  | 0, _, _, _ => .error .search
  | _ + 1, [], e, s => .ok ([e], s)
  | fuel + 1, ⟨.negation alternatives, depth⟩ :: rest, e, s =>
      match anyProof (fun b => solveF k fuel (pendingAt depth b) e) alternatives s with
      | .error h => .error h
      | .ok (true, s) => .ok ([], s)
      | .ok (false, s) => solveF k fuel rest e s
  | fuel + 1, ⟨.call t, depth⟩ :: rest, e, s => callTerm k (solveF k fuel) t depth rest e s

/-- The budget of a search, in goals proved one inside the other. -/
def searchBudget : Nat := 4611686018427387904

/-- **Every solution of a row of goals,** in the order of the search. -/
def solve (k : Knowledge) (goals : List Goal) (e : Bindings) (s : Progress) : Found :=
  solveF k searchBudget (pendingAt 0 goals) e { s with warned := false }

/-! ### Answers -/

/-- **A solution as it is shown:** the values of some variables, or `true` where there are none. -/
def answerLine (names : List String) (e : Bindings) : String :=
  if names.isEmpty then "true"
  else separated ", " (names.map fun name => name ++ " = " ++ (e.subst (.var name)).text)

end RhythmLogic
