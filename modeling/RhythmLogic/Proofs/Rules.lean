/-
**The rules of the grammar, for any way of reading.**

The reader is not the only thing that runs the rules of the grammar.  A reading may keep a record on
the way, and what is shown of the rules is shown rule by rule as well, whatever it is.  So the rules
are written once more here, for any monad that can look at a token, pass it and fail; and at every
depth they are those of the reader.

Two rules do more than to look ahead.  A name may be the start of a compound, and a parenthesis where
a goal may start is tried as a group of goals.  A monad says what it does with them.

Main definitions:

* `TokenMonad` — a monad in which tokens are read;
* `Rules`, `Rules.deeper`, `Rules.ofDepth` — **the rules of the grammar, one level above others and
  at a depth**;
* `Rules.clause` — the rule of clauses.

Main result:

* `Reader.rules_eq` — **the rules of the reader are these rules**, at every depth.
-/

import RhythmLogic.Program.Grammar
import Mathlib.Data.Nat.Notation

set_option autoImplicit false

namespace RhythmLogic

/-- **A monad in which tokens are read.** -/
class TokenMonad (m : Type → Type) extends Monad m where
  /-- The kind of the token under the cursor. -/
  kind : m TokenKind
  /-- Passes the token under the cursor. -/
  advance : m Unit
  /-- Fails at the token under the cursor. -/
  fail {α : Type} (cause : ParseError.Cause) : m α
  /-- A term that is built, with the name it brings. -/
  build (t : Term) (name : Option String) : m Term
  /-- Passes a name, and a parenthesis if it follows.  With one, a compound is read on; without one,
  the name is a term. -/
  named (name : String) (compound : m Term) : m Term
  /-- Passes a parenthesis and reads a group.  If that fails or the text goes on as an expression, it
  returns to the parenthesis and reads a test. -/
  grouped (group test : m GoalTree) : m GoalTree
  /-- An expression that is refused where it starts unless it is an atom or a compound. -/
  headed (expression : m Term) : m Term

namespace TokenMonad

variable {m : Type → Type} [TokenMonad m] {α : Type}

/-- Fails since no rule starts with the token under the cursor. -/
def unexpected : m α := do
  match ← kind with
  | .eof => fail .unexpectedEnd
  | found => fail (.unexpectedToken found)

/-- The symbol is under the cursor. -/
def sees (s : Sym) : m Bool := do return decide ((← kind) = .symbol s)

/-- Passes the symbol if it is under the cursor, and tells whether it was. -/
def eat (s : Sym) : m Bool := do
  if ← sees s then
    advance
    return true
  else return false

/-- Passes the symbol, which has to be under the cursor. -/
def expect (s : Sym) : m Unit := do
  if ← eat s then return ()
  else fail (.expected s (← kind))

end TokenMonad

/-! ### The rules -/

/-- The rules of expressions and of goals. -/
structure Rules (m : Type → Type) where
  expression : m Term
  sumRest (left : Term) : m Term
  product : m Term
  productRest (left : Term) : m Term
  factor : m Term
  primary : m Term
  items (close : Sym) : m (List Term)
  itemsRest (read : List Term) : m (List Term)
  goals : m GoalTree
  goalsRest (left : GoalTree) : m GoalTree
  conjunction : m GoalTree
  conjunctionRest (left : GoalTree) : m GoalTree
  unit : m GoalTree

namespace Rules

open TokenMonad
open Reader (comparison? sumOp? productOp? SourceClause)

variable {m : Type → Type} [TokenMonad m]

/-- Rules that are nested too deeply. -/
def tooDeep : Rules m where
  expression := fail .tooDeep
  sumRest _ := fail .tooDeep
  product := fail .tooDeep
  productRest _ := fail .tooDeep
  factor := fail .tooDeep
  primary := fail .tooDeep
  items _ := fail .tooDeep
  itemsRest _ := fail .tooDeep
  goals := fail .tooDeep
  goalsRest _ := fail .tooDeep
  conjunction := fail .tooDeep
  conjunctionRest _ := fail .tooDeep
  unit := fail .tooDeep

variable (r : Rules m)

/-- `expr (comparison expr)?` -/
def test : m GoalTree := do
  let left ← r.expression
  match comparison? (← kind) with
  | none => return .call left
  | some name =>
      advance
      let right ← r.expression
      let goal ← build (.compound name [left, right]) (some name)
      return .call goal

/-- What comes after a parenthesis in a group of goals. -/
def group : m GoalTree := do
  let inner ← r.goals
  expect .closeParen
  return inner

/-- `expr (':-' goals)? '.'`, where the head is an atom or a compound. -/
def clause : m SourceClause := do
  let head ← headed r.expression
  let body ← if ← eat .neck then (do return some (← r.goals)) else pure none
  expect .period
  return ⟨head, body⟩

/-- **The rules one level above others.** -/
def deeper : Rules m where
  expression := do
    let left ← r.product
    r.sumRest left
  sumRest left := do
    match sumOp? (← kind) with
    | none => return left
    | some op =>
        advance
        let right ← r.product
        let node ← build (.expr op left right) none
        r.sumRest node
  product := do
    let left ← r.factor
    r.productRest left
  productRest left := do
    match productOp? (← kind) with
    | none => return left
    | some op =>
        advance
        let right ← r.factor
        let node ← build (.expr op left right) none
        r.productRest node
  factor := do
    if ← eat .minus then
      match ← kind with
      | .number x =>
          advance
          build (.number (-x)) none
      | _ =>
          let operand ← r.factor
          let zero ← build (.number 0.0) none
          build (.expr .sub zero operand) none
    else r.primary
  primary := do
    match ← kind with
    | .number x =>
        advance
        build (.number x) none
    | .name name =>
        named name do
          let args ← r.items .closeParen
          expect .closeParen
          build (.compound name args) (some name)
    | .symbol .openBracket =>
        advance
        let members ← r.items .closeBracket
        let goesOn ← if members.isEmpty then pure false else eat .bar
        if goesOn then
          let tail ← r.expression
          expect .closeBracket
          build (.partialList members tail) none
        else
          expect .closeBracket
          build (.list members) none
    | .symbol .openParen =>
        advance
        let inner ← r.expression
        expect .closeParen
        return inner
    | _ => unexpected
  items close := do
    if ← sees close then return []
    else
      let first ← r.expression
      r.itemsRest [first]
  itemsRest read := do
    if ← eat .comma then
      let next ← r.expression
      r.itemsRest (next :: read)
    else return read.reverse
  goals := do
    let left ← r.conjunction
    r.goalsRest left
  goalsRest left := do
    if ← eat .semicolon then
      let right ← r.conjunction
      r.goalsRest (.either left right)
    else return left
  conjunction := do
    let left ← r.unit
    r.conjunctionRest left
  conjunctionRest left := do
    if ← eat .comma then
      let right ← r.unit
      r.conjunctionRest (.both left right)
    else return left
  unit := do
    if ← eat .not then
      let inner ← r.unit
      return .negation inner
    else if ← sees .openParen then grouped r.group r.test
    else r.test

/-- **The rules at a depth.** -/
def ofDepth : ℕ → Rules m
  | 0 => tooDeep
  | depth + 1 => (ofDepth depth).deeper

end Rules

/-! ### Steps of the reader -/

namespace Reader

variable {α β : Type} {c c₁ : Cursor}

/-- The second reading starts where the first one has come to. -/
theorem bind_apply (r : Reader α) (f : α → Reader β) (c : Cursor) :
    (r >>= f) c = ExceptT.bindCont f (r c).1 (r c).2 := rfl

theorem bind_of_ok {r : Reader α} {a : α} (h : r c = (.ok a, c₁)) (f : α → Reader β) :
    (r >>= f) c = f a c₁ := by
  rw [bind_apply, h]
  rfl

theorem bind_of_error {r : Reader α} {e : ParseError} (h : r c = (.error e, c₁))
    (f : α → Reader β) : (r >>= f) c = (.error e, c₁) := by
  rw [bind_apply, h]
  rfl

/-- Looking at a token leaves the cursor where it is. -/
theorem peek_bind_apply (f : Token → Reader β) (c : Cursor) : (peek >>= f) c = f c.current c := rfl

theorem sees_bind_apply (s : Sym) (f : Bool → Reader β) (c : Cursor) :
    (sees s >>= f) c = f (decide (c.current.kind = .symbol s)) c := rfl

/-- A symbol is passed if it is under the cursor. -/
theorem eat_bind_apply (s : Sym) (f : Bool → Reader β) (c : Cursor) :
    (eat s >>= f) c =
      if c.current.kind = .symbol s then f true c.advance else f false c := by
  rw [Reader.eat, bind_assoc, sees_bind_apply]
  by_cases hs : c.current.kind = .symbol s
  · rw [decide_eq_true hs, if_pos rfl, if_pos hs]
    rfl
  · rw [decide_eq_false hs, if_neg Bool.false_ne_true, if_neg hs]
    rfl

theorem expect_bind_apply (s : Sym) (f : Unit → Reader β) (c : Cursor) :
    (expect s >>= f) c = if c.current.kind = .symbol s then f () c.advance
      else (.error ⟨.expected s c.current.kind, c.current.position⟩, c) := by
  rw [expect, bind_assoc, eat_bind_apply]
  rfl

/-- The term of a name, or the compound that it is the start of. -/
def named (name : String) (compound : Reader Term) : Reader Term := do
  advance
  if ← eat .openParen then compound else nameTerm name

theorem named_apply (x : String) (compound : Reader Term) (c : Cursor) :
    named x compound c = if c.advance.current.kind = .symbol .openParen then
      compound c.advance.advance else nameTerm x c.advance := by
  have hnamed : named x compound c =
      (eat .openParen >>= fun b => if b then compound else nameTerm x) c.advance := rfl
  rw [hnamed, eat_bind_apply]
  rfl

/-- What is made of the result of a group that was tried: it is kept where no operator and no
comparison follows it, and otherwise the reader goes back and reads a test. -/
def afterGroup (test : Reader GoalTree) (start : List Token)
    (result : Except ParseError GoalTree) : Reader GoalTree := do
  let after := (← peek).kind
  match result, continuesExpression after with
  | .ok inner, false => return inner
  | _, _ =>
      modify fun c => { c with tokens := start }
      test

/-- A group, or the test in its place. -/
def grouped (group test : Reader GoalTree) : Reader GoalTree := do
  let start := (← get).tokens
  advance
  afterGroup test start (← attempt group)

section Group

variable {group : Reader GoalTree} (test : Reader GoalTree)

theorem grouped_of_error {e : ParseError} (h : group c.advance = (.error e, c₁)) :
    grouped group test c = test { c₁ with tokens := c.tokens } := by
  have hgrouped : grouped group test c =
      afterGroup test c.tokens (group c.advance).1 (group c.advance).2 := rfl
  rw [hgrouped, h]
  rfl

theorem grouped_of_ok {inner : GoalTree} (h : group c.advance = (.ok inner, c₁)) :
    grouped group test c = if continuesExpression c₁.current.kind then
      test { c₁ with tokens := c.tokens } else (.ok inner, c₁) := by
  have hgrouped : grouped group test c =
      afterGroup test c.tokens (group c.advance).1 (group c.advance).2 := rfl
  rw [hgrouped, h, afterGroup, peek_bind_apply]
  cases continuesExpression c₁.current.kind <;> rfl

/-- **A group that is tried is kept, or a test is read in its place.** -/
theorem grouped_cases (group test : Reader GoalTree) (c : Cursor) :
    (∃ inner c₁, group c.advance = (.ok inner, c₁) ∧
      continuesExpression c₁.current.kind = false ∧ grouped group test c = (.ok inner, c₁)) ∨
    (∀ inner c₁, group c.advance = (.ok inner, c₁) →
      continuesExpression c₁.current.kind = true) ∧
      grouped group test c = test { (group c.advance).2 with tokens := c.tokens } := by
  rcases hgroup : group c.advance with ⟨e | inner, c₁⟩
  · exact .inr ⟨nofun, grouped_of_error test hgroup⟩
  · rw [grouped_of_ok test hgroup]
    cases hcontinues : continuesExpression c₁.current.kind with
    | false => exact .inl ⟨inner, c₁, rfl, hcontinues, rfl⟩
    | true =>
        refine .inr ⟨?_, rfl⟩
        rintro _ _ ⟨⟩
        exact hcontinues

end Group

/-- An expression that has to be a head. -/
def headed (expression : Reader Term) : Reader Term := do
  let start := (← peek).position
  let head ← expression
  if head.functor?.isNone then throw ⟨.head head, start⟩ else return head

theorem headed_of_error {expression : Reader Term} {e : ParseError}
    (h : expression c = (.error e, c₁)) : headed expression c = (.error e, c₁) := by
  rw [headed, peek_bind_apply, bind_of_error h]

theorem headed_of_ok {expression : Reader Term} {head : Term} (h : expression c = (.ok head, c₁)) :
    headed expression c = if head.functor?.isNone then
      (.error ⟨.head head, c.current.position⟩, c₁) else (.ok head, c₁) := by
  rw [headed, peek_bind_apply, bind_of_ok h]
  split <;> rfl

/-! ### The rules of the reader -/

instance : TokenMonad Reader where
  kind := do return (← peek).kind
  advance := advance
  fail := fail
  build := build
  named := named
  grouped := grouped
  headed := headed

/-- **The rules of the reader** at a depth. -/
def rules (depth : ℕ) : Rules Reader where
  expression := expression depth
  sumRest := sumRest depth
  product := product depth
  productRest := productRest depth
  factor := factor depth
  primary := primary depth
  items := items depth
  itemsRest := itemsRest depth
  goals := goals depth
  goalsRest := goalsRest depth
  conjunction := conjunction depth
  conjunctionRest := conjunctionRest depth
  unit := unit depth

/-- **They are the rules of the grammar.** -/
theorem rules_eq (depth : ℕ) : rules depth = Rules.ofDepth depth := by
  induction depth with
  | zero => rfl
  | succ depth ih =>
      -- one level above the rules of the reader are its own, by what they are defined to be
      rw [Rules.ofDepth, ← ih]
      rfl

theorem expression_eq (depth : ℕ) : expression depth = (Rules.ofDepth depth).expression :=
  congrArg Rules.expression (rules_eq depth)

theorem goals_eq (depth : ℕ) : goals depth = (Rules.ofDepth depth).goals :=
  congrArg Rules.goals (rules_eq depth)

/-- The rule of clauses is that of the grammar. -/
theorem clause_eq (depth : ℕ) : clause depth = (Rules.ofDepth depth).clause := by
  rw [← rules_eq, Rules.clause]
  change _ = headed (expression depth) >>= _
  -- the reader looks at the head before it goes on, so the two only associate differently
  simp only [clause, headed, bind_assoc]
  refine bind_congr fun start => bind_congr fun head => ?_
  split
  · rfl
  · rw [pure_bind]
    rfl

/-- What comes after a parenthesis in a group of goals. -/
def group (depth : ℕ) : Reader GoalTree := do
  let inner ← goals depth
  expect .closeParen
  return inner

theorem group_eq (depth : ℕ) : group depth = (Rules.ofDepth depth).group := by
  rw [← rules_eq]
  rfl

/-- **At a parenthesis** a group is tried. -/
theorem unit_paren (depth : ℕ) (hparen : c.current.kind = .symbol .openParen) :
    unit (depth + 1) c = grouped (group depth) (test depth) c := by
  have hnot : c.current.kind ≠ .symbol .not := by simp [hparen]
  rw [unit, eat_bind_apply, if_neg hnot, if_neg Bool.false_ne_true, sees_bind_apply,
    decide_eq_true hparen, if_pos rfl]
  rfl

end Reader

end RhythmLogic
