/-
**JSON values and how they are written.**

Numbers are kept as the decimal numerals that their text spells, so that a whole number beyond the
precision of a double and the sign of a zero both survive.

Main definitions:

* `Json` — values, with the members of an object in order;
* `Json.real` — the value of a double: a numeral, or `null` where it has none;
* `Json.numeralText` — plain text near one, an exponent far from it, and always a fraction;
* `Json.compact`, `Json.pretty` — texts without blanks, and with a line a member.
-/

import RhythmLogic.Numeric.Shortest
import RhythmLogic.Term.Text

set_option autoImplicit false

namespace RhythmLogic

/-- A JSON value. -/
inductive Json where
  | null
  | bool (value : Bool)
  | number (value : Numeral)
  | string (value : String)
  | array (items : List Json)
  | object (members : List (String × Json))
deriving Repr, Inhabited

namespace Json

/-- The value of a double: its shortest numeral, and `null` for NaN and the infinities. -/
def real (x : Float) : Json :=
  match Binary.ofFloat x with
  | .finite negative m e => number (Numeral.shortest .toEven negative m e)
  | _ => null

/-! ### Numbers -/

/-- The magnitude of a numeral.  Its first digit stands for `10 ^ (places - 1)`; from `10 ^ -5` up
to, but not including, `10 ^ 16` no exponent is written, and a whole number gets the fraction
`.0`. -/
def magnitudeText (mantissa : Nat) (exponent : Int) : List Char :=
  if mantissa = 0 then ['0', '.', '0']
  else
    let digits := decimalText mantissa
    let places := Int.ofNat digits.length + exponent
    if -5 < places ∧ places ≤ 16 then
      match exponent with
      | .ofNat k => digits ++ List.replicate k '0' ++ ['.', '0']
      | .negSucc k => Numeral.pointed digits (k + 1)
    else
      let shown :=
        match digits with
        | [d] => [d]
        | d :: rest => d :: '.' :: rest
        | [] => []
      let power := places - 1
      let sign := if power < 0 then '-' else '+'
      shown ++ 'e' :: sign :: decimalText power.natAbs

/-- How a numeral is written. -/
def numeralText (d : Numeral) : String :=
  String.ofList (signText d.negative ++ magnitudeText d.mantissa d.exponent)

/-! ### Strings -/

/-- One hexadecimal digit. -/
def hexDigit (n : Nat) : Char :=
  if n < 10 then Char.ofNat (n + '0'.toNat) else Char.ofNat (n - 10 + 'a'.toNat)

/-- A character inside quotes.  Quotes, backslashes and control characters are escaped. -/
def escaped (c : Char) : List Char :=
  if c = '"' then ['\\', '"']
  else if c = '\\' then ['\\', '\\']
  else if c = '\n' then ['\\', 'n']
  else if c = '\r' then ['\\', 'r']
  else if c = '\t' then ['\\', 't']
  else if c.toNat = 8 then ['\\', 'b']
  else if c.toNat = 12 then ['\\', 'f']
  else if c.toNat < 32 then ['\\', 'u', '0', '0', hexDigit (c.toNat / 16), hexDigit (c.toNat % 16)]
  else [c]

/-- **A string in quotes.** -/
def quoted (s : String) : String := String.ofList ('"' :: s.toList.flatMap escaped ++ ['"'])

/-! ### Compact text -/

mutual

/-- **The text of a value without any blanks.** -/
def compact : Json → String
  | null => "null"
  | bool true => "true"
  | bool false => "false"
  | number d => numeralText d
  | string s => quoted s
  | array items => "[" ++ compactItems items ++ "]"
  | object members => "\x7b" ++ compactMembers members ++ "\x7d"

/-- The texts of several values, with commas between them. -/
def compactItems : List Json → String
  | [] => ""
  | [v] => compact v
  | v :: rest => compact v ++ "," ++ compactItems rest

/-- The texts of several members, with commas between them. -/
def compactMembers : List (String × Json) → String
  | [] => ""
  | [(key, v)] => quoted key ++ ":" ++ compact v
  | (key, v) :: rest => quoted key ++ ":" ++ compact v ++ "," ++ compactMembers rest

end

/-! ### Text on several lines -/

/-- The start of a line at some depth. -/
def lineStart (depth : Nat) : String := "\n" ++ String.ofList (List.replicate (2 * depth) ' ')

mutual

/-- The text of a value inside `depth` others. -/
def prettyAt (depth : Nat) : Json → String
  | array [] => "[]"
  | array (v :: rest) =>
      "[" ++ lineStart (depth + 1) ++ prettyAt (depth + 1) v ++ prettyItems (depth + 1) rest ++
        lineStart depth ++ "]"
  | object [] => "\x7b\x7d"
  | object ((key, v) :: rest) =>
      "\x7b" ++ lineStart (depth + 1) ++ quoted key ++ ": " ++ prettyAt (depth + 1) v ++
        prettyMembers (depth + 1) rest ++ lineStart depth ++ "\x7d"
  | null => "null"
  | bool true => "true"
  | bool false => "false"
  | number d => numeralText d
  | string s => quoted s

/-- The texts of the values after the first, each on its line. -/
def prettyItems (depth : Nat) : List Json → String
  | [] => ""
  | v :: rest => "," ++ lineStart depth ++ prettyAt depth v ++ prettyItems depth rest

/-- The texts of the members after the first, each on its line. -/
def prettyMembers (depth : Nat) : List (String × Json) → String
  | [] => ""
  | (key, v) :: rest =>
      "," ++ lineStart depth ++ quoted key ++ ": " ++ prettyAt depth v ++ prettyMembers depth rest

end

/-- **The text of a value with a line a member,** indented by two blanks a level. -/
def pretty (v : Json) : String := prettyAt 0 v

/-! ### Looking inside -/

/-- The value of the last member with a given name. -/
def field? (name : String) : Json → Option Json
  | object members => members.reverse.lookup name
  | _ => none

/-- The text of a string. -/
def string? : Json → Option String
  | string s => some s
  | _ => none

/-- The items of an array. -/
def array? : Json → Option (List Json)
  | array items => some items
  | _ => none

/-- The double nearest to a number. -/
def real? : Json → Option Float
  | number d => some d.toFloat
  | _ => none

end Json

end RhythmLogic
