/-
**Numbers, dates and strings of TOML.**

A number or date is read from the whole run of characters that it may consist of, so it has to match
from end to end.

Main definitions:

* `Toml.digitRow?` — digits with single underscores between them;
* `Toml.integer?`, `Toml.float?`, `Toml.datetime?`, `Toml.scalar?` — the scalars;
* `Toml.oneLineF`, `Toml.manyLinesF`, `Toml.stringAt` — the four kinds of strings.
-/

import RhythmLogic.Numeric.Numeral
import RhythmLogic.Toml.Basic

set_option autoImplicit false

namespace RhythmLogic.Toml

/-! ### Numbers -/

/-- The digits of a row in which single underscores may stand between digits. -/
def digitRow? (isDigit : Char → Bool) : List Char → Option (List Char)
  | [] => none
  | [c] => if isDigit c then some [c] else none
  | c :: '_' :: rest => if isDigit c then (digitRow? isDigit rest).map (c :: ·) else none
  | c :: rest => if isDigit c then (digitRow? isDigit rest).map (c :: ·) else none

/-- The value of a digit in any base up to sixteen. -/
def baseDigit (c : Char) : Nat :=
  if c.isDigit then digitValue c else c.toLower.toNat - 'a'.toNat + 10

/-- A hexadecimal digit. -/
def isHex (c : Char) : Bool := c.isDigit || ('a' ≤ c.toLower && c.toLower ≤ 'f')

/-- An octal digit. -/
def isOctal (c : Char) : Bool := '0' ≤ c && c ≤ '7'

/-- A binary digit. -/
def isBinary (c : Char) : Bool := c == '0' || c == '1'

/-- The digits of a whole number without idle zeros. -/
def plainDigits? (cs : List Char) : Option (List Char) :=
  match digitRow? Char.isDigit cs with
  | some ('0' :: _ :: _) => none
  | other => other

/-- A sign and what follows it. -/
def signAt : List Char → Bool × List Char
  | '-' :: rest => (true, rest)
  | '+' :: rest => (false, rest)
  | rest => (false, rest)

/-- The number of a row of digits in some base, if it has 64 bits with its sign. -/
def inBase (base : Nat) (isDigit : Char → Bool) (cs : List Char) : Option Int := do
  let digits ← digitRow? isDigit cs
  let n := Int.ofNat (digits.foldl (fun n c => base * n + baseDigit c) 0)
  if n ≤ maxIndex then some n else none

/-- **A whole number:** decimal with a sign, or hexadecimal, octal or binary without. -/
def integer? (cs : List Char) : Option Int :=
  match cs with
  | '0' :: 'x' :: rest => inBase 16 isHex rest
  | '0' :: 'o' :: rest => inBase 8 isOctal rest
  | '0' :: 'b' :: rest => inBase 2 isBinary rest
  | _ => do
      let (negative, rest) := signAt cs
      let digits ← plainDigits? rest
      let n := signed negative (naturalOfDigits digits)
      if minIndex ≤ n ∧ n ≤ maxIndex then some n else none

/-- The digits of an exponent, with its sign. -/
def exponent? (cs : List Char) : Option Int := do
  let (negative, rest) := signAt cs
  let digits ← digitRow? Char.isDigit rest
  some (signed negative (naturalOfDigits digits))

/-- The two parts of a text around its first exponent mark. -/
def splitExponent (cs : List Char) : List Char × Option (List Char) :=
  let isMark := fun c : Char => c == 'e' || c == 'E'
  let head := cs.takeWhile fun c => !isMark c
  match cs.dropWhile fun c => !isMark c with
  | [] => (head, none)
  | _ :: rest => (head, some rest)

/-- The two parts of a text around its first point. -/
def splitPoint (cs : List Char) : List Char × Option (List Char) :=
  let head := cs.takeWhile fun c => c != '.'
  match cs.dropWhile fun c => c != '.' with
  | [] => (head, none)
  | _ :: rest => (head, some rest)

/-- **A number with a fraction or an exponent,** or one of the names `inf` and `nan`.  A numeral
beyond the greatest double is refused. -/
def float? (cs : List Char) : Option Float :=
  let (negative, body) := signAt cs
  if body = ['i', 'n', 'f'] then some (if negative then -(1.0 / 0.0) else 1.0 / 0.0)
  else if body = ['n', 'a', 'n'] then some (0.0 / 0.0)
  else do
    let (mantissa, power) := splitExponent body
    let (whole, fraction) := splitPoint mantissa
    if power.isNone && fraction.isNone then none
    else
      let digits ← plainDigits? whole
      let places ←
        match fraction with
        | some f => digitRow? Char.isDigit f
        | none => some []
      let e ←
        match power with
        | some p => exponent? p
        | none => some 0
      let d : Numeral :=
        ⟨negative, naturalOfDigits (digits ++ places), e - Int.ofNat places.length⟩
      let x := d.toFloat
      if x.isInf && !negative then none else some x

/-! ### Dates -/

/-- A number of exactly so many digits in a range, and the rest. -/
def fixedDigits (count least greatest : Nat) (cs : List Char) : Option (Nat × List Char) :=
  let digits := cs.take count
  let n := naturalOfDigits digits
  if digits.length = count && digits.all Char.isDigit && least ≤ n && n ≤ greatest then
    some (n, cs.drop count)
  else none

/-- The text after a character that has to come. -/
def after (c : Char) : List Char → Option (List Char)
  | d :: rest => if c = d then some rest else none
  | [] => none

/-- The number of days in a month. -/
def daysIn (year month : Nat) : Nat :=
  if month = 2 then
    if year % 4 = 0 && (year % 100 != 0 || year % 400 = 0) then 29 else 28
  else if month = 4 || month = 6 || month = 9 || month = 11 then 30
  else 31

/-- A date at the start of a text. -/
def dateAt (cs : List Char) : Option (List Char) := do
  let (year, rest) ← fixedDigits 4 0 9999 cs
  let (month, rest) ← fixedDigits 2 1 12 (← after '-' rest)
  let (_, rest) ← fixedDigits 2 1 (daysIn year month) (← after '-' rest)
  some rest

/-- A time of day at the start of a text. -/
def timeAt (cs : List Char) : Option (List Char) := do
  let (_, rest) ← fixedDigits 2 0 23 cs
  let (_, rest) ← fixedDigits 2 0 59 (← after ':' rest)
  let (_, rest) ← fixedDigits 2 0 60 (← after ':' rest)
  match rest with
  | '.' :: more =>
      let digits := more.takeWhile Char.isDigit
      if digits.isEmpty then none else some (more.dropWhile Char.isDigit)
  | more => some more

/-- An offset from universal time, or nothing, up to the end of a text. -/
def isOffset : List Char → Bool
  | [] => true
  | ['Z'] => true
  | ['z'] => true
  | c :: rest =>
      if c == '+' || c == '-' then
        match fixedDigits 2 0 23 rest with
        | some (_, ':' :: minutes) =>
            match fixedDigits 2 0 59 minutes with
            | some (_, []) => true
            | _ => false
        | _ => false
      else false

/-- **A date, a time, or both** with or without an offset. -/
def datetime? (cs : List Char) : Option Toml :=
  match dateAt cs with
  | some [] => some .datetime
  | some (mark :: rest) =>
      if mark == 'T' || mark == 't' || mark == ' ' then
        match timeAt rest with
        | some offset => if isOffset offset then some .datetime else none
        | none => none
      else none
  | none =>
      match timeAt cs with
      | some [] => some .datetime
      | _ => none

/-- **A number, a date or a truth value.** -/
def scalar? (cs : List Char) : Option Toml :=
  if cs = ['t', 'r', 'u', 'e'] then some (.boolean true)
  else if cs = ['f', 'a', 'l', 's', 'e'] then some (.boolean false)
  else
    match datetime? cs with
    | some v => some v
    | none =>
        match float? cs with
        | some x => some (.float x)
        | none => (integer? cs).map .integer

/-! ### Strings -/

/-- A control character other than the tab. -/
def isControl (c : Char) : Bool := (c.toNat < 32 && c != '\t') || c.toNat == 127

/-- The text after a line end, if it starts with one. -/
def newlineAt : List Char → Option (List Char)
  | '\n' :: rest => some rest
  | '\x0d' :: '\n' :: rest => some rest
  | _ => none

/-- A code point in so many hexadecimal digits. -/
def codePoint (count : Nat) (cs : List Char) : Option (Char × List Char) :=
  let digits := cs.take count
  let n := digits.foldl (fun n c => 16 * n + baseDigit c) 0
  if digits.length = count && digits.all isHex &&
      (n < 0xd800 || (0xe000 ≤ n && n < 0x110000)) then
    some (Char.ofNat n, cs.drop count)
  else none

/-- The character of an escape, after its backslash. -/
def escapeAt : List Char → Option (Char × List Char)
  | 'b' :: rest => some ('\x08', rest)
  | 't' :: rest => some ('\t', rest)
  | 'n' :: rest => some ('\n', rest)
  | 'f' :: rest => some ('\x0c', rest)
  | 'r' :: rest => some ('\x0d', rest)
  | '"' :: rest => some ('"', rest)
  | '\\' :: rest => some ('\\', rest)
  | 'u' :: rest => codePoint 4 rest
  | 'U' :: rest => codePoint 8 rest
  | _ => none

/-- The text after blanks and line ends. -/
def skipLines : List Char → List Char
  | [] => []
  | '\x0d' :: '\n' :: rest => skipLines rest
  | c :: rest => if c == ' ' || c == '\t' || c == '\n' then skipLines rest else c :: rest

/-- The text after a backslash that ends its line, and after the blanks that follow. -/
def lineJoin (cs : List Char) : Option (List Char) :=
  let rest := cs.dropWhile fun c => c == ' ' || c == '\t'
  (newlineAt rest).map skipLines

/-- The rest of a string between single delimiters; `read` holds its characters, last first. -/
def oneLineF (quote : Char) (escapes : Bool) :
    Nat → List Char → List Char → Option (String × List Char)
  | 0, _, _ => none
  | _ + 1, _, [] => none
  | fuel + 1, read, c :: rest =>
      if c = quote then some (String.ofList read.reverse, rest)
      else if escapes && c == '\\' then
        match escapeAt rest with
        | some (c, rest) => oneLineF quote escapes fuel (c :: read) rest
        | none => none
      else if isControl c then none
      else oneLineF quote escapes fuel (c :: read) rest

/-- The rest of a string between triple delimiters.  Up to two quotes may stand before its end. -/
def manyLinesF (quote : Char) (escapes : Bool) :
    Nat → List Char → List Char → Option (String × List Char)
  | 0, _, _ => none
  | _ + 1, _, [] => none
  | fuel + 1, read, c :: rest =>
      if c = quote then
        let quotes := (c :: rest).takeWhile fun d => d == quote
        let more := (c :: rest).dropWhile fun d => d == quote
        if quotes.length < 3 then manyLinesF quote escapes fuel (quotes ++ read) more
        else
          let inside := quotes.length - 3
          if inside ≤ 2 then
            some (String.ofList (List.replicate inside quote ++ read).reverse, more)
          else none
      else if escapes && c == '\\' then
        match lineJoin rest with
        | some rest => manyLinesF quote escapes fuel read rest
        | none =>
            match escapeAt rest with
            | some (c, rest) => manyLinesF quote escapes fuel (c :: read) rest
            | none => none
      else
        match newlineAt (c :: rest) with
        | some rest => manyLinesF quote escapes fuel ('\n' :: read) rest
        | none =>
            if isControl c then none else manyLinesF quote escapes fuel (c :: read) rest

/-- A string between single delimiters at the start of a text, as keys may be. -/
def simpleStringAt (cs : List Char) : Option (String × List Char) :=
  match cs with
  | '"' :: rest => oneLineF '"' true (rest.length + 1) [] rest
  | '\'' :: rest => oneLineF '\'' false (rest.length + 1) [] rest
  | _ => none

/-- The text after the line end that may follow an opening triple delimiter. -/
def openingLine (cs : List Char) : List Char := (newlineAt cs).getD cs

/-- **A string at the start of a text.** -/
def stringAt (cs : List Char) : Option (String × List Char) :=
  match cs with
  | '"' :: '"' :: '"' :: rest =>
      let rest := openingLine rest
      manyLinesF '"' true (rest.length + 1) [] rest
  | '\'' :: '\'' :: '\'' :: rest =>
      let rest := openingLine rest
      manyLinesF '\'' false (rest.length + 1) [] rest
  | _ => simpleStringAt cs

end RhythmLogic.Toml
