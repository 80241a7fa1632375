/-
**Tokens and positions.**

Source text is read as tokens: names, numbers and symbols, and one mark for the end.  Each token
knows the line and column of its first character, counted in characters from one.

Main definitions:

* `Position`, `Position.advance` — a place in a text, and the place after some characters;
* `Sym`, `Sym.text` — the symbols and their spelling;
* `TokenKind`, `Token` — tokens, and `TokenKind.text` — how messages name them;
* `ParseError`, `ParseError.text` — why a text is refused, and where.
-/

import RhythmLogic.Term.Text

set_option autoImplicit false

namespace RhythmLogic

/-! ### Positions -/

/-- A place in a text: line and column, counted from one. -/
structure Position where
  line : Nat
  column : Nat
deriving DecidableEq, Repr, Inhabited

namespace Position

/-- The first place. -/
def start : Position := ⟨1, 1⟩

/-- The place after one character. -/
def next (p : Position) (c : Char) : Position :=
  if c = '\n' then ⟨p.line + 1, 1⟩ else ⟨p.line, p.column + 1⟩

/-- **The place after some characters.** -/
def advance (p : Position) (cs : List Char) : Position := cs.foldl next p

@[simp] theorem advance_nil (p : Position) : p.advance [] = p := rfl

@[simp] theorem advance_cons (p : Position) (c : Char) (cs : List Char) :
    p.advance (c :: cs) = (p.next c).advance cs := rfl

theorem advance_append (p : Position) (cs ds : List Char) :
    p.advance (cs ++ ds) = (p.advance cs).advance ds := by
  simp [advance, List.foldl_append]

end Position

/-! ### Tokens -/

/-- The symbols. -/
inductive Sym where
  | openParen | closeParen | openBracket | closeBracket
  | comma | period | semicolon | bar
  | plus | minus | star | slash
  | less | greater | equal | atMost | atLeast
  | sameNumber | otherNumber | neck | assign | not
deriving DecidableEq, Repr

namespace Sym

/-- How a symbol is written. -/
def text : Sym → String
  | openParen => "("
  | closeParen => ")"
  | openBracket => "["
  | closeBracket => "]"
  | comma => ","
  | period => "."
  | semicolon => ";"
  | bar => "|"
  | plus => "+"
  | minus => "-"
  | star => "*"
  | slash => "/"
  | less => "<"
  | greater => ">"
  | equal => "="
  | atMost => "=<"
  | atLeast => ">="
  | sameNumber => "=:="
  | otherNumber => "=\\="
  | neck => ":-"
  | assign => ":="
  | not => "\\+"

end Sym

/-- What a token is. -/
inductive TokenKind where
  | name (text : String)
  | number (value : Float)
  | symbol (sym : Sym)
  | eof
deriving DecidableEq, Repr, Inhabited

/-- How messages name a token. -/
def TokenKind.text : TokenKind → String
  | name s => "'" ++ s ++ "'"
  | number x => "'" ++ numberText x ++ "'"
  | symbol s => "'" ++ s.text ++ "'"
  | eof => "end of input"

/-- A token and the place of its first character. -/
structure Token where
  kind : TokenKind
  position : Position
deriving DecidableEq, Repr, Inhabited

/-! ### Errors -/

/-- Why a text is refused. -/
inductive ParseError.Cause where
  /-- A character that starts no token. -/
  | invalidCharacter (c : Char)
  /-- A numeral that does not name a number. -/
  | malformedNumber (text : String)
  /-- The text ended too early. -/
  | unexpectedEnd
  /-- A token that starts no expression. -/
  | unexpectedToken (found : TokenKind)
  /-- Another symbol had to come. -/
  | expected (wanted : Sym) (found : TokenKind)
  /-- A head that cannot be called. -/
  | head (found : Term)
  /-- The reader went deeper than its budget. -/
  | tooDeep
deriving Repr, Inhabited

/-- Why a text is refused, in words. -/
def ParseError.Cause.text : ParseError.Cause → String
  | invalidCharacter c => "invalid character '" ++ String.singleton c ++ "'"
  | malformedNumber s => "malformed number '" ++ s ++ "'"
  | unexpectedEnd => "unexpected end of input"
  | unexpectedToken found => "unexpected token " ++ found.text
  | expected wanted found => "expected '" ++ wanted.text ++ "' but found " ++ found.text
  | head found => "clause head must be an atom or compound term, found " ++ found.text
  | tooDeep => "nesting too deep"

/-- Why a text is refused, and where. -/
structure ParseError where
  cause : ParseError.Cause
  position : Position
deriving Repr, Inhabited

/-- **The message of a refusal.** -/
def ParseError.text (e : ParseError) : String :=
  "parse error at " ++ naturalText e.position.line ++ ":" ++ naturalText e.position.column ++ ": " ++
    e.cause.text

end RhythmLogic
