/-
**The variables that are made on the way.**

The clauses of a text show the variables that were kept.  A group of goals that is given up shows
none, though for each `_` in it a variable was made, with a number of its own, and the numbers are
not taken back.  So the clauses cannot say whether some name that was given away comes again.

Here the reader keeps a record.  It runs the same rules, and notes each variable that it makes
together with the place of the token that it is made for.  What was noted for a group stays in the
record when the group is given up, in front of what is noted when its tokens are read again.

Main definitions:

* `variableAt?`, `variablePlaces` — the tokens of a text that variables are made for;
* `Made`, `Recorder` — a variable that was made, and **a reading with a record of them**;
* `Recorder.named`, `Recorder.grouped` — names, and groups of goals that are tried;
* `Recorder.clausesF` — **the clauses of a text, and all variables that were made for it**.
-/

import Mathlib.Data.List.Infix
import RhythmLogic.Proofs.Rules

set_option autoImplicit false

namespace RhythmLogic

/-! ### Places -/

/-- The name that a variable is made for, where the tokens start with one: it starts like a
variable, and no parenthesis follows it. -/
def variableAt? : List Token → Option String
  | [] => none
  | t :: rest =>
      match t.kind with
      | .name x =>
          if Reader.isVariableName x ∧ (Cursor.before rest).current.kind ≠ .symbol .openParen then
            some x
          else none
      | _ => none

/-- **The places of the variables of a text**, in order.  A place is told by the tokens from it
on. -/
def variablePlaces (tokens : List Token) : List (List Token) :=
  tokens.tails.filter fun place => (variableAt? place).isSome

/-- A variable that was made, and the place of its token. -/
structure Made where
  place : List Token
  name : String

/-- It was made for a `_`. -/
def Made.isAnonymous (m : Made) : Bool := variableAt? m.place = some "_"

/-! ### Recorders -/

/-- **A reading with a record** of the variables that it makes, whether it succeeds or not. -/
def Recorder (α : Type) : Type := Cursor → List Made × Except ParseError α × Cursor

namespace Recorder

open Reader (peek eat continuesExpression SourceClause budget)

variable {α β : Type} {r : Recorder α} {c c₁ : Cursor} {record : List Made}

/-- A reading that makes no variables. -/
def silent (r : Reader α) : Recorder α := fun c => ([], r c)

/-- A reading after a reading.  Its record goes on where the first one ends. -/
def andThen (r : Recorder α) (f : α → Recorder β) : Recorder β := fun c =>
  match r c with
  | (record, .error e, c) => (record, .error e, c)
  | (record, .ok a, c) => (record ++ (f a c).1, (f a c).2)

instance : Monad Recorder where
  pure a := silent (pure a)
  bind := andThen

instance : MonadLift Reader Recorder := ⟨silent⟩

theorem bind_of_error {e : ParseError} (h : r c = (record, .error e, c₁)) (f : α → Recorder β) :
    (r >>= f) c = (record, .error e, c₁) := by
  change andThen r f c = _
  rw [andThen, h]

theorem bind_of_ok {a : α} (h : r c = (record, .ok a, c₁)) (f : α → Recorder β) :
    (r >>= f) c = (record ++ (f a c₁).1, (f a c₁).2) := by
  change andThen r f c = _
  rw [andThen, h]

/-- A step of the reader notes nothing. -/
theorem lift_bind {s : Reader α} {a : α} (h : s c = (.ok a, c₁)) (f : α → Recorder β) :
    (liftM s >>= f) c = f a c₁ := bind_of_ok (Prod.ext rfl h) f

theorem map_id (r : Recorder α) : id <$> r = r := by
  funext c
  change andThen r (fun a => silent (pure a)) c = r c
  rw [andThen]
  rcases r c with ⟨record, e | a, c₁⟩
  · rfl
  · exact Prod.ext (List.append_nil record) rfl

theorem andThen_assoc {γ : Type} (r : Recorder α) (f : α → Recorder β) (g : β → Recorder γ) :
    r >>= f >>= g = r >>= fun a => f a >>= g := by
  funext c
  rcases hr : r c with ⟨record, e | a, c₁⟩
  · rw [bind_of_error hr, bind_of_error (bind_of_error hr f)]
  · rw [bind_of_ok hr]
    rcases hf : f a c₁ with ⟨more, e | b, c₂⟩
    · rw [bind_of_error hf]
      exact bind_of_error (by rw [bind_of_ok hr, hf]) g
    · have hrf : (r >>= f) c = (record ++ more, .ok b, c₂) := by rw [bind_of_ok hr, hf]
      rw [bind_of_ok hf, bind_of_ok hrf]
      exact Prod.ext (List.append_assoc ..) rfl

instance : LawfulMonad Recorder :=
  LawfulMonad.mk' Recorder map_id (fun _ _ => rfl) andThen_assoc

/-! ### Names and groups -/

/-- Notes variables. -/
def note (record : List Made) : Recorder Unit := fun c => (record, .ok (), c)

/-- The place of the cursor. -/
def place : Reader (List Token) := do return (← get).tokens

/-- Runs a reading and takes its failure as a result. -/
def attempt (r : Recorder α) : Recorder (Except ParseError α) :=
  fun c => ((r c).1, .ok (r c).2.1, (r c).2.2)

/-- The term that a name at a place is.  If it is a variable, then that is noted. -/
def nameTerm (start : List Token) (name : String) : Recorder Term := do
  let t ← Reader.nameTerm name
  note (t.var?.toList.map fun x => ⟨start, x⟩)
  return t

/-- The term of a name, or the compound that it is the start of. -/
def named (name : String) (compound : Recorder Term) : Recorder Term := do
  let start ← place
  Reader.advance
  if ← eat .openParen then compound else nameTerm start name

/-- What is made of the result of a group that was tried. -/
def afterGroup (test : Recorder GoalTree) (start : List Token)
    (result : Except ParseError GoalTree) : Recorder GoalTree := do
  let after := (← peek).kind
  match result, continuesExpression after with
  | .ok inner, false => return inner
  | _, _ =>
      silent (modify fun c => { c with tokens := start })
      test

/-- A group, or the test in its place.  What was noted for a group stays noted when its tokens are
read again as a test. -/
def grouped (group test : Recorder GoalTree) : Recorder GoalTree := do
  let start ← place
  Reader.advance
  afterGroup test start (← attempt group)

/-- An expression that has to be a head. -/
def headed (expression : Recorder Term) : Recorder Term := do
  let start := (← peek).position
  let head ← expression
  if head.functor?.isNone then silent (throw ⟨.head head, start⟩) else return head

instance : TokenMonad Recorder where
  kind := do return (← peek).kind
  advance := silent Reader.advance
  fail cause := silent (Reader.fail cause)
  build t name := silent (Reader.build t name)
  named := named
  grouped := grouped
  headed := headed

section Group

variable {group : Recorder GoalTree} (test : Recorder GoalTree)

/-- What was noted for a group comes first in the record. -/
theorem grouped_apply (group : Recorder GoalTree) (c : Cursor) : grouped group test c =
    ((group c.advance).1 ++
        (afterGroup test c.tokens (group c.advance).2.1 (group c.advance).2.2).1,
      (afterGroup test c.tokens (group c.advance).2.1 (group c.advance).2.2).2) := rfl

theorem grouped_of_error {e : ParseError} (h : group c.advance = (record, .error e, c₁)) :
    grouped group test c = (record ++ (test { c₁ with tokens := c.tokens }).1,
      (test { c₁ with tokens := c.tokens }).2) := by
  rw [grouped_apply, h]
  rfl

theorem grouped_of_ok {inner : GoalTree} (h : group c.advance = (record, .ok inner, c₁)) :
    grouped group test c = if continuesExpression c₁.current.kind then
      (record ++ (test { c₁ with tokens := c.tokens }).1, (test { c₁ with tokens := c.tokens }).2)
    else (record, .ok inner, c₁) := by
  rw [grouped_apply, h]
  have hpeek : afterGroup test c.tokens (.ok inner) c₁ = if continuesExpression c₁.current.kind then
      test { c₁ with tokens := c.tokens } else ([], .ok inner, c₁) := by
    have hseen : peek c₁ = (.ok c₁.current, c₁) := rfl
    rw [afterGroup, lift_bind hseen]
    cases continuesExpression c₁.current.kind <;> rfl
  rw [hpeek]
  split
  · rfl
  · exact Prod.ext (List.append_nil record) rfl

end Group

/-! ### Clauses -/

/-- The rule of clauses, recorded. -/
def clause (depth : ℕ) : Recorder SourceClause := (Rules.ofDepth depth).clause

/-- **The clauses up to the end of the text or to the first error**, after all variables that were
made for them. -/
def clausesF : ℕ → Cursor → List Made × List SourceClause × Option ParseError × Cursor
  | 0, c => ([], [], some ⟨.tooDeep, c.current.position⟩, c)
  | fuel + 1, c =>
      if c.current.kind = .eof then ([], [], none, c)
      else
        match clause (budget c.tokens) c with
        | (record, .error e, c) => (record, [], some e, c)
        | (record, .ok first, c) =>
            let (more, rest, error, c) := clausesF fuel c
            (record ++ more, first :: rest, error, c)

end Recorder

end RhythmLogic
