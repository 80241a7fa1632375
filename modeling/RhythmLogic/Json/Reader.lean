/-
**Reading JSON.**

The reader accepts exactly the JSON grammar: four kinds of blanks, numbers without idle zeros, and
strings whose escapes may be pairs of UTF-16 units.

Main definitions:

* `Json.stringTail` — the rest of a string after its opening quote;
* `Json.numberAt` — a number at the start of a text;
* `Json.valueF` — a value at the start of a text;
* `Json.parse` — the value that a text is.
-/

import RhythmLogic.Json.Basic

set_option autoImplicit false

namespace RhythmLogic.Json

/-! ### Blanks and digits -/

/-- The blanks of the grammar. -/
def isGap (c : Char) : Bool := c == ' ' || c == '\n' || c == '\r' || c == '\t'

/-- The text after blanks. -/
def skip (cs : List Char) : List Char := cs.dropWhile isGap

/-- The value of a hexadecimal digit. -/
def hexValue? (c : Char) : Option Nat :=
  if c.isDigit then some (digitValue c)
  else if 'a' ≤ c ∧ c ≤ 'f' then some (c.toNat - 'a'.toNat + 10)
  else if 'A' ≤ c ∧ c ≤ 'F' then some (c.toNat - 'A'.toNat + 10)
  else none

/-- Four hexadecimal digits at the start of a text, and the rest. -/
def hexUnit? : List Char → Option (Nat × List Char)
  | a :: b :: c :: d :: rest => do
      let a ← hexValue? a
      let b ← hexValue? b
      let c ← hexValue? c
      let d ← hexValue? d
      some (((a * 16 + b) * 16 + c) * 16 + d, rest)
  | _ => none

/-- The character of one or two UTF-16 units, the first of which was read. -/
def unitTail? (first : Nat) (rest : List Char) : Option (Char × List Char) :=
  if 0xd800 ≤ first ∧ first < 0xdc00 then
    match rest with
    | '\\' :: 'u' :: more => do
        let (second, rest) ← hexUnit? more
        if 0xdc00 ≤ second ∧ second < 0xe000 then
          some (Char.ofNat (0x10000 + (first - 0xd800) * 0x400 + (second - 0xdc00)), rest)
        else none
    | _ => none
  else if 0xdc00 ≤ first ∧ first < 0xe000 then none
  else some (Char.ofNat first, rest)

/-- The character of an escape, after its backslash. -/
def escapeTail? : List Char → Option (Char × List Char)
  | '"' :: rest => some ('"', rest)
  | '\\' :: rest => some ('\\', rest)
  | '/' :: rest => some ('/', rest)
  | 'b' :: rest => some ('\x08', rest)
  | 'f' :: rest => some ('\x0c', rest)
  | 'n' :: rest => some ('\n', rest)
  | 'r' :: rest => some ('\r', rest)
  | 't' :: rest => some ('\t', rest)
  | 'u' :: rest => do
      let (first, rest) ← hexUnit? rest
      unitTail? first rest
  | _ => none

/-! ### Strings and numbers -/

/-- The rest of a string after its opening quote; `read` holds its characters, last first. -/
def stringTailF : Nat → List Char → List Char → Option (String × List Char)
  | 0, _, _ => none
  | _ + 1, _, [] => none
  | fuel + 1, read, c :: rest =>
      if c = '"' then some (String.ofList read.reverse, rest)
      else if c = '\\' then
        match escapeTail? rest with
        | some (c, rest) => stringTailF fuel (c :: read) rest
        | none => none
      else if c.toNat < 32 then none
      else stringTailF fuel (c :: read) rest

/-- The rest of a string after its opening quote. -/
def stringTail (cs : List Char) : Option (String × List Char) := stringTailF (cs.length + 1) [] cs

/-- The digits after the point, which have to come if there is a point. -/
def fractionAt (cs : List Char) : Option (List Char × List Char) :=
  match cs with
  | '.' :: rest =>
      let digits := rest.takeWhile Char.isDigit
      if digits.isEmpty then none else some (digits, rest.dropWhile Char.isDigit)
  | rest => some ([], rest)

/-- A number at the start of a text. -/
def numberAt (cs : List Char) : Option (Numeral × List Char) := do
  let (negative, cs) :=
    match cs with
    | '-' :: rest => (true, rest)
    | rest => (false, rest)
  let whole := cs.takeWhile Char.isDigit
  if whole.isEmpty || (whole.length != 1 && whole.head? == some '0') then none
  else
    let (places, rest) ← fractionAt (cs.dropWhile Char.isDigit)
    let (e, rest) ← Numeral.exponentPart rest
    some (⟨negative, naturalOfDigits (whole ++ places), e - Int.ofNat places.length⟩, rest)

/-! ### Values -/

/-- The text after a word that has to come. -/
def word? : List Char → List Char → Option (List Char)
  | [], cs => some cs
  | w :: ws, c :: cs => if w = c then word? ws cs else none
  | _ :: _, [] => none

mutual

/-- A value at the start of a text, and the rest. -/
def valueF : Nat → List Char → Option (Json × List Char)
  | 0, _ => none
  | fuel + 1, cs =>
      match skip cs with
      | '\x7b' :: rest =>
          match skip rest with
          | '\x7d' :: rest => some (.object [], rest)
          | rest => do
              let (members, rest) ← membersF fuel rest
              some (.object members, rest)
      | '[' :: rest =>
          match skip rest with
          | ']' :: rest => some (.array [], rest)
          | rest => do
              let (items, rest) ← itemsF fuel rest
              some (.array items, rest)
      | '"' :: rest => do
          let (s, rest) ← stringTail rest
          some (.string s, rest)
      | 'n' :: rest => (word? ['u', 'l', 'l'] rest).map fun rest => (.null, rest)
      | 't' :: rest => (word? ['r', 'u', 'e'] rest).map fun rest => (.bool true, rest)
      | 'f' :: rest => (word? ['a', 'l', 's', 'e'] rest).map fun rest => (.bool false, rest)
      | rest => do
          let (d, rest) ← numberAt rest
          some (.number d, rest)

/-- The items of an array up to its closing bracket, and the rest. -/
def itemsF : Nat → List Char → Option (List Json × List Char)
  | 0, _ => none
  | fuel + 1, cs => do
      let (v, rest) ← valueF fuel cs
      match skip rest with
      | ',' :: rest =>
          let (items, rest) ← itemsF fuel rest
          some (v :: items, rest)
      | ']' :: rest => some ([v], rest)
      | _ => none

/-- The members of an object up to its closing brace, and the rest. -/
def membersF : Nat → List Char → Option (List (String × Json) × List Char)
  | 0, _ => none
  | fuel + 1, cs =>
      match skip cs with
      | '"' :: rest => do
          let (key, rest) ← stringTail rest
          match skip rest with
          | ':' :: rest =>
              let (v, rest) ← valueF fuel rest
              match skip rest with
              | ',' :: rest =>
                  let (members, rest) ← membersF fuel rest
                  some ((key, v) :: members, rest)
              | '\x7d' :: rest => some ([(key, v)], rest)
              | _ => none
          | _ => none
      | _ => none

end

/-- **The value that a text is.** -/
def parse (text : String) : Option Json :=
  let cs := text.toList
  match valueF (cs.length + 1) cs with
  | some (v, rest) => if (skip rest).isEmpty then some v else none
  | none => none

end RhythmLogic.Json
