/-
**From tokens to clauses and goals.**

The grammar, with `,` binding tighter than `;` and all binary operators grouping leftwards:

    clause   := expr (':-' goals)? '.'
    goals    := conj (';' conj)*
    conj     := unit (',' unit)*
    unit     := '\+' unit | '(' goals ')' | test
    test     := expr (comparison expr)?
    expr     := product (('+' | '-') product)*
    product  := factor (('*' | '/') factor)*
    factor   := '-' factor | primary
    primary  := number | name | name '(' exprs? ')' | '[' ']' | '[' exprs ('|' expr)? ']'
              | '(' expr ')'

A parenthesis where a goal may start is first read as a group of goals.  If that fails, or if the
text goes on as an expression, the reader returns to the parenthesis and reads an expression.  What
was counted on the way stays counted: the numbers of anonymous variables and the tally of terms
are not taken back.

Main definitions:

* `Cursor` — the tokens that are left, and the counts;
* `Reader` — a reading of tokens, whose counts survive a failure;
* `Reader.expression`, `Reader.goals`, `Reader.clause` — the rules of the grammar;
* `Reader.clausesF` — the clauses of a text up to its end or to the first error.
-/

import RhythmLogic.Token.Scan
import RhythmLogic.GoalTree

set_option autoImplicit false

namespace RhythmLogic

/-- What a reader has before it and what it has counted. -/
structure Cursor where
  /-- The tokens that are left. -/
  tokens : List Token
  /-- How many anonymous variables were read. -/
  anonymous : Nat
  /-- How many terms were built. -/
  terms : Nat
  /-- The distinct names in them. -/
  names : List String
deriving Inhabited

namespace Cursor

/-- A cursor before some tokens. -/
def before (tokens : List Token) : Cursor := ⟨tokens, 0, 0, []⟩

/-- The token under the cursor. -/
def current (c : Cursor) : Token := c.tokens.headD ⟨.eof, .start⟩

/-- The cursor after its token.  The end mark is never passed. -/
def advance (c : Cursor) : Cursor :=
  if c.current.kind = .eof then c else { c with tokens := c.tokens.tail }

/-- One more term, and perhaps one more name. -/
def count (c : Cursor) (name : Option String) : Cursor :=
  let names :=
    match name with
    | some s => if c.names.contains s then c.names else s :: c.names
    | none => c.names
  { c with terms := c.terms + 1, names := names }

end Cursor

/-- A reading of tokens.  A failure keeps the cursor that it left behind. -/
abbrev Reader (α : Type) : Type := ExceptT ParseError (StateM Cursor) α

namespace Reader

/-! ### Single tokens -/

/-- The token under the cursor. -/
def peek : Reader Token := do return (← get).current

/-- Passes the token under the cursor. -/
def advance : Reader Unit := modify Cursor.advance

/-- Fails at the token under the cursor. -/
def fail {α : Type} (cause : ParseError.Cause) : Reader α := do
  throw ⟨cause, (← peek).position⟩

/-- Fails since no rule starts with the token under the cursor. -/
def unexpected {α : Type} : Reader α := do
  match (← peek).kind with
  | .eof => fail .unexpectedEnd
  | found => fail (.unexpectedToken found)

/-- The symbol is under the cursor. -/
def sees (s : Sym) : Reader Bool := do return decide ((← peek).kind = .symbol s)

/-- Passes the symbol if it is under the cursor, and tells whether it was. -/
def eat (s : Sym) : Reader Bool := do
  if ← sees s then
    advance
    return true
  else return false

/-- Passes the symbol, which has to be under the cursor. -/
def expect (s : Sym) : Reader Unit := do
  if ← eat s then return ()
  else fail (.expected s (← peek).kind)

/-- Runs a reading and takes its failure as a result. -/
def attempt {α : Type} (r : Reader α) : Reader (Except ParseError α) :=
  fun c => let (result, c) := r c; (.ok result, c)

/-! ### Building terms -/

/-- A term that is built, counted with the name it brings. -/
def build (t : Term) (name : Option String) : Reader Term := do
  modify fun c => c.count name
  return t

/-- The name of the anonymous variable with a given number. -/
def anonymousName (number : Nat) : String := "_#" ++ naturalText number

/-- A name that starts like a variable: with a capital letter or an underscore. -/
def isVariableName (name : String) : Bool :=
  match name.toList with
  | c :: _ => c.isUpper || c == '_'
  | [] => false

/-- The term that a name is.  Every `_` is another variable. -/
def nameTerm (name : String) : Reader Term := do
  if name = "_" then
    modify fun c => { c with anonymous := c.anonymous + 1 }
    let fresh := anonymousName (← get).anonymous
    build (.var fresh) (some fresh)
  else if isVariableName name then build (.var name) (some name)
  else build (.atom name) (some name)

/-! ### Operators -/

/-- The predicate that a comparison calls. -/
def comparison? : TokenKind → Option String
  | .symbol .equal => some "="
  | .symbol .sameNumber => some "=:="
  | .symbol .otherNumber => some "=\\="
  | .symbol .less => some "<"
  | .symbol .greater => some ">"
  | .symbol .atMost => some "=<"
  | .symbol .atLeast => some ">="
  | .symbol .assign => some "is"
  | .name name => if name = "is" then some "is" else none
  | _ => none

/-- Operators between products. -/
def sumOp? : TokenKind → Option Op
  | .symbol .plus => some .add
  | .symbol .minus => some .sub
  | _ => none

/-- Operators between factors. -/
def productOp? : TokenKind → Option Op
  | .symbol .star => some .mul
  | .symbol .slash => some .div
  | _ => none

/-- The text goes on as an expression or a comparison. -/
def continuesExpression (k : TokenKind) : Bool :=
  (comparison? k).isSome || (sumOp? k).isSome || (productOp? k).isSome

/-! ### Expressions -/

mutual

/-- `product (('+' | '-') product)*` -/
def expression : Nat → Reader Term
  | 0 => fail .tooDeep
  | fuel + 1 => do
      let left ← product fuel
      sumRest fuel left

/-- The operators and products after the first product of an expression. -/
def sumRest : Nat → Term → Reader Term
  | 0, _ => fail .tooDeep
  | fuel + 1, left => do
      match sumOp? (← peek).kind with
      | none => return left
      | some op =>
          advance
          let right ← product fuel
          let node ← build (.expr op left right) none
          sumRest fuel node

/-- `factor (('*' | '/') factor)*` -/
def product : Nat → Reader Term
  | 0 => fail .tooDeep
  | fuel + 1 => do
      let left ← factor fuel
      productRest fuel left

/-- The operators and factors after the first factor of a product. -/
def productRest : Nat → Term → Reader Term
  | 0, _ => fail .tooDeep
  | fuel + 1, left => do
      match productOp? (← peek).kind with
      | none => return left
      | some op =>
          advance
          let right ← factor fuel
          let node ← build (.expr op left right) none
          productRest fuel node

/-- `'-' factor | primary`.  A minus before a numeral belongs to it; before anything else it
subtracts from zero. -/
def factor : Nat → Reader Term
  | 0 => fail .tooDeep
  | fuel + 1 => do
      if ← eat .minus then
        match (← peek).kind with
        | .number x =>
            advance
            build (.number (-x)) none
        | _ =>
            let operand ← factor fuel
            let zero ← build (.number 0.0) none
            build (.expr .sub zero operand) none
      else primary fuel

/-- A number, a name, a compound, a list or an expression in parentheses. -/
def primary : Nat → Reader Term
  | 0 => fail .tooDeep
  | fuel + 1 => do
      match (← peek).kind with
      | .number x =>
          advance
          build (.number x) none
      | .name name =>
          advance
          if ← eat .openParen then
            let args ← items fuel .closeParen
            expect .closeParen
            build (.compound name args) (some name)
          else nameTerm name
      | .symbol .openBracket =>
          advance
          let members ← items fuel .closeBracket
          let goesOn ← if members.isEmpty then pure false else eat .bar
          if goesOn then
            let tail ← expression fuel
            expect .closeBracket
            build (.partialList members tail) none
          else
            expect .closeBracket
            build (.list members) none
      | .symbol .openParen =>
          advance
          let inner ← expression fuel
          expect .closeParen
          return inner
      | _ => unexpected

/-- Expressions with commas between them; none when the closing symbol follows at once. -/
def items : Nat → Sym → Reader (List Term)
  | 0, _ => fail .tooDeep
  | fuel + 1, close => do
      if ← sees close then return []
      else
        let first ← expression fuel
        itemsRest fuel [first]

/-- The expressions after those already read, which are kept last first. -/
def itemsRest : Nat → List Term → Reader (List Term)
  | 0, _ => fail .tooDeep
  | fuel + 1, read => do
      if ← eat .comma then
        let next ← expression fuel
        itemsRest fuel (next :: read)
      else return read.reverse

end

/-! ### Goals -/

/-- `expr (comparison expr)?` -/
def test (fuel : Nat) : Reader GoalTree := do
  let left ← expression fuel
  match comparison? (← peek).kind with
  | none => return .call left
  | some name =>
      advance
      let right ← expression fuel
      let goal ← build (.compound name [left, right]) (some name)
      return .call goal

mutual

/-- `conj (';' conj)*` -/
def goals : Nat → Reader GoalTree
  | 0 => fail .tooDeep
  | fuel + 1 => do
      let left ← conjunction fuel
      goalsRest fuel left

/-- The alternatives after the first. -/
def goalsRest : Nat → GoalTree → Reader GoalTree
  | 0, _ => fail .tooDeep
  | fuel + 1, left => do
      if ← eat .semicolon then
        let right ← conjunction fuel
        goalsRest fuel (.either left right)
      else return left

/-- `unit (',' unit)*` -/
def conjunction : Nat → Reader GoalTree
  | 0 => fail .tooDeep
  | fuel + 1 => do
      let left ← unit fuel
      conjunctionRest fuel left

/-- The goals after the first. -/
def conjunctionRest : Nat → GoalTree → Reader GoalTree
  | 0, _ => fail .tooDeep
  | fuel + 1, left => do
      if ← eat .comma then
        let right ← unit fuel
        conjunctionRest fuel (.both left right)
      else return left

/-- A negation, a group of goals, or a test.  A group that fails, or that is followed by an
operator or a comparison, is read again as a test. -/
def unit : Nat → Reader GoalTree
  | 0 => fail .tooDeep
  | fuel + 1 => do
      if ← eat .not then
        let inner ← unit fuel
        return .negation inner
      else if ← sees .openParen then
        let start := (← get).tokens
        advance
        let group ← attempt (do
          let inner ← goals fuel
          expect .closeParen
          return inner)
        let after := (← peek).kind
        match group, continuesExpression after with
        | .ok inner, false => return inner
        | _, _ =>
            modify fun c => { c with tokens := start }
            test fuel
      else test fuel

end

/-! ### Clauses -/

/-- A clause whose body is still a tree. -/
structure SourceClause where
  head : Term
  body : Option GoalTree
deriving Repr, Inhabited

/-- `expr (':-' goals)? '.'`, where the head is an atom or a compound. -/
def clause (fuel : Nat) : Reader SourceClause := do
  let start := (← peek).position
  let head ← expression fuel
  if head.functor?.isNone then throw ⟨.head head, start⟩
  else
    let body ← if ← eat .neck then (do return some (← goals fuel)) else pure none
    expect .period
    return ⟨head, body⟩

/-- A reading budget for some tokens: no rule is nested deeper than a few levels a token. -/
def budget (tokens : List Token) : Nat := 16 * tokens.length + 16

/-- **The clauses up to the end of the text or to the first error.**  At most `fuel` are read. -/
def clausesF : Nat → Cursor → List SourceClause × Option ParseError × Cursor
  | 0, c => ([], some ⟨.tooDeep, c.current.position⟩, c)
  | fuel + 1, c =>
      if c.current.kind = .eof then ([], none, c)
      else
        match clause (budget c.tokens) c with
        | (.error e, c) => ([], some e, c)
        | (.ok first, c) =>
            let (rest, error, c) := clausesF fuel c
            (first :: rest, error, c)

end Reader

end RhythmLogic
