/-
**From characters to tokens.**

A text is blanks and comments, a lexeme, blanks and comments, and so on to the end.  Each lexeme is
the longest one that starts where it starts; a period belongs to a number only when a digit
follows.

Main definitions:

* `skipTrivia` — the text after blanks and `%` comments;
* `symbolAt?` — the longest symbol at the start of a text;
* `Lexeme`, `lexemeAt` — the token at the start of a text and the characters it takes;
* `tokenize` — all tokens of a text, with the end mark last.
-/

import RhythmLogic.Token.Basic
import RhythmLogic.Text.Blank

set_option autoImplicit false

namespace RhythmLogic

/-! ### Between the lexemes -/

/-- The text after blanks and comments.  A comment goes from `%` to the end of its line, and
`comment` says that the text starts inside one. -/
def skipTrivia (comment : Bool) (p : Position) : List Char → Position × List Char
  | [] => (p, [])
  | c :: cs =>
      if comment then skipTrivia (c != '\n') (p.next c) cs
      else if isBlank c then skipTrivia false (p.next c) cs
      else if c = '%' then skipTrivia true (p.next c) cs
      else (p, c :: cs)

/-! ### Lexemes -/

/-- The longest symbol at the start of a text. -/
def symbolAt? : List Char → Option Sym
  | '=' :: ':' :: '=' :: _ => some .sameNumber
  | '=' :: '\\' :: '=' :: _ => some .otherNumber
  | '=' :: '<' :: _ => some .atMost
  | '>' :: '=' :: _ => some .atLeast
  | ':' :: '-' :: _ => some .neck
  | '\\' :: '+' :: _ => some .not
  | ':' :: '=' :: _ => some .assign
  | '(' :: _ => some .openParen
  | ')' :: _ => some .closeParen
  | '[' :: _ => some .openBracket
  | ']' :: _ => some .closeBracket
  | ',' :: _ => some .comma
  | '.' :: _ => some .period
  | ';' :: _ => some .semicolon
  | '|' :: _ => some .bar
  | '+' :: _ => some .plus
  | '-' :: _ => some .minus
  | '*' :: _ => some .star
  | '/' :: _ => some .slash
  | '<' :: _ => some .less
  | '>' :: _ => some .greater
  | '=' :: _ => some .equal
  | _ => none

/-- A character that may stand in a name: an ASCII letter or digit, or an underscore. -/
def isNameChar (c : Char) : Bool := c.isAlphanum || c == '_'

/-- A character that may start a name. -/
def isNameStart (c : Char) : Bool := c.isAlpha || c == '_'

/-- The numeral at the start of a text that starts with a digit. -/
def numeralAt (cs : List Char) : List Char :=
  let whole := cs.takeWhile Char.isDigit
  match cs.dropWhile Char.isDigit with
  | '.' :: d :: rest =>
      if d.isDigit then whole ++ '.' :: d :: rest.takeWhile Char.isDigit else whole
  | _ => whole

/-- A token and the characters it takes. -/
structure Lexeme where
  kind : TokenKind
  spelling : List Char
deriving Repr

/-- **The lexeme at the start of a text** whose first character is `c`. -/
def lexemeAt (c : Char) (cs : List Char) : Except ParseError.Cause Lexeme :=
  if c.isDigit then
    let spelling := numeralAt (c :: cs)
    match Numeral.unsigned? false spelling with
    | some d => .ok ⟨.number d.toFloat, spelling⟩
    | none => .error (.malformedNumber (String.ofList spelling))
  else if isNameStart c then
    let spelling := c :: cs.takeWhile isNameChar
    .ok ⟨.name (String.ofList spelling), spelling⟩
  else
    match symbolAt? (c :: cs) with
    | some s => .ok ⟨.symbol s, s.text.toList⟩
    | none => .error (.invalidCharacter c)

/-! ### All tokens -/

/-- The tokens of a text that starts at `p`, at most `fuel` of them. -/
def tokenizeF : Nat → Position → List Char → Except ParseError (List Token)
  | 0, p, _ => .error ⟨.tooDeep, p⟩
  | fuel + 1, p, cs =>
      match skipTrivia false p cs with
      | (p, []) => .ok [⟨.eof, p⟩]
      | (p, c :: cs) =>
          match lexemeAt c cs with
          | .error cause => .error ⟨cause, p⟩
          | .ok l =>
              match tokenizeF fuel (p.advance l.spelling) ((c :: cs).drop l.spelling.length) with
              | .error e => .error e
              | .ok rest => .ok (⟨l.kind, p⟩ :: rest)

/-- **The tokens of a text,** the last of which marks the end.  A lexeme is never empty, so there
are no more of them than characters. -/
def tokenize (cs : List Char) : Except ParseError (List Token) :=
  tokenizeF (cs.length + 1) .start cs

end RhythmLogic
