/-
**Programs as JSON, and back.**

A term is an object with one member that names its shape, a goal likewise, and a clause has a head
and a body.  Reading accepts exactly these shapes; a clause may have further members, which are
ignored, and clauses and programs may be written as arrays of their parts.

Main definitions:

* `Term.toJson`, `Goal.toJson`, `Clause.toJson`, `Program.toJson` — writing;
* `Term.ofJson?`, `Goal.ofJson?`, `Clause.ofJson?`, `Program.ofJson?` — reading.
-/

import RhythmLogic.Json.Basic
import RhythmLogic.Program.Basic

set_option autoImplicit false

namespace RhythmLogic

/-! ### Writing -/

/-- An object with one member. -/
def Json.tagged (tag : String) (v : Json) : Json := .object [(tag, v)]

/-- The name of an operator. -/
def Op.name : Op → String
  | .add => "Add"
  | .sub => "Sub"
  | .mul => "Mul"
  | .div => "Div"

mutual

/-- **A term as JSON.** -/
def Term.toJson : Term → Json
  | .number x => .tagged "Number" (.real x)
  | .atom name => .tagged "Atom" (.string name)
  | .var name => .tagged "Var" (.string name)
  | .compound name args =>
      .tagged "Compound" (.array [.string name, .array (Term.allToJson args)])
  | .list items => .tagged "List" (.array [.array (Term.allToJson items), .null])
  | .partialList items tail =>
      .tagged "List" (.array [.array (Term.allToJson items), Term.toJson tail])
  | .expr op l r =>
      .tagged "Expr" (.array [.string op.name, Term.toJson l, Term.toJson r])

/-- Several terms as JSON. -/
def Term.allToJson : List Term → List Json
  | [] => []
  | t :: ts => Term.toJson t :: Term.allToJson ts

end

mutual

/-- A goal as JSON. -/
def Goal.toJson : Goal → Json
  | .call t => .tagged "Term" t.toJson
  | .negation alternatives => .tagged "Not" (.array (Goal.alternativesToJson alternatives))

/-- Several goals as JSON. -/
def Goal.bodyToJson : List Goal → List Json
  | [] => []
  | g :: gs => Goal.toJson g :: Goal.bodyToJson gs

/-- Several bodies as JSON. -/
def Goal.alternativesToJson : List (List Goal) → List Json
  | [] => []
  | b :: bs => .array (Goal.bodyToJson b) :: Goal.alternativesToJson bs

end

/-- A clause as JSON. -/
def Clause.toJson (c : Clause) : Json :=
  .object [("head", c.head.toJson), ("body", .array (Goal.bodyToJson c.body))]

/-- **A program as JSON.** -/
def Program.toJson (p : Program) : Json :=
  .object [("clauses", .array (p.clauses.map Clause.toJson))]

/-! ### Reading -/

/-- The operator with a given name. -/
def Op.ofName? (name : String) : Option Op :=
  [Op.add, Op.sub, Op.mul, Op.div].find? fun op => op.name == name

/-- An operator, alone or as the tag of nothing. -/
def Op.ofJson? : Json → Option Op
  | .string name => Op.ofName? name
  | .object [(name, .null)] => Op.ofName? name
  | _ => none

mutual

/-- **The term that a value is.** -/
def Term.ofJson? : Json → Option Term
  | .object [(tag, .number d)] => if tag = "Number" then some (.number d.toFloat) else none
  | .object [(tag, .string s)] =>
      if tag = "Atom" then some (.atom s) else if tag = "Var" then some (.var s) else none
  | .object [(tag, .array [.string name, .array args])] =>
      if tag = "Compound" then (Term.allOfJson? args).map (.compound name) else none
  | .object [(tag, .array [.array items, .null])] =>
      if tag = "List" then (Term.allOfJson? items).map .list else none
  | .object [(tag, .array [.array items, tail])] =>
      if tag = "List" then do
        let items ← Term.allOfJson? items
        let tail ← Term.ofJson? tail
        some (.partialList items tail)
      else none
  | .object [(tag, .array [op, l, r])] =>
      if tag = "Expr" then do
        let op ← Op.ofJson? op
        let l ← Term.ofJson? l
        let r ← Term.ofJson? r
        some (.expr op l r)
      else none
  | _ => none

/-- The terms that several values are. -/
def Term.allOfJson? : List Json → Option (List Term)
  | [] => some []
  | v :: vs => do
      let t ← Term.ofJson? v
      let ts ← Term.allOfJson? vs
      some (t :: ts)

end

mutual

/-- The goal that a value is. -/
def Goal.ofJson? : Json → Option Goal
  | .object [(tag, .array alternatives)] =>
      if tag = "Not" then (Goal.alternativesOfJson? alternatives).map .negation else none
  | .object [(tag, v)] => if tag = "Term" then (Term.ofJson? v).map .call else none
  | _ => none

/-- The goals that several values are. -/
def Goal.bodyOfJson? : List Json → Option (List Goal)
  | [] => some []
  | v :: vs => do
      let g ← Goal.ofJson? v
      let gs ← Goal.bodyOfJson? vs
      some (g :: gs)

/-- The bodies that several values are. -/
def Goal.alternativesOfJson? : List Json → Option (List (List Goal))
  | [] => some []
  | .array v :: vs => do
      let b ← Goal.bodyOfJson? v
      let bs ← Goal.alternativesOfJson? vs
      some (b :: bs)
  | _ :: _ => none

end

/-- The clause that a value is. -/
def Clause.ofJson? (v : Json) : Option Clause := do
  let (head, body) ←
    match v with
    | .array [head, body] => some (head, body)
    | _ => do
        let head ← v.field? "head"
        let body ← v.field? "body"
        some (head, body)
  let head ← Term.ofJson? head
  let goals ← body.array?
  let body ← Goal.bodyOfJson? goals
  some ⟨head, body⟩

/-- **The program that a value is.** -/
def Program.ofJson? (v : Json) : Option Program := do
  let clauses ←
    match v with
    | .array [clauses] => some clauses
    | _ => v.field? "clauses"
  let items ← clauses.array?
  let clauses ← items.mapM Clause.ofJson?
  some ⟨clauses⟩

end RhythmLogic
