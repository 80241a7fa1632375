/-
**Reading TOML.**

Main definitions:

* `Toml.keyAt`, `Toml.dottedAt` — keys;
* `Toml.valueF` — a value at the start of a text;
* `Toml.Document`, `Toml.statement` — what was read so far, and one line of it;
* `Toml.parse` — the table that a text is.
-/

import RhythmLogic.Toml.Scalar

set_option autoImplicit false

namespace RhythmLogic.Toml

/-! ### Blanks, comments and keys -/

/-- The text after blanks on its line. -/
def skipBlank (cs : List Char) : List Char := cs.dropWhile fun c => c == ' ' || c == '\t'

/-- The text after a comment, if it starts with one.  Control characters end it. -/
def skipComment (cs : List Char) : List Char :=
  match cs with
  | '#' :: rest => rest.dropWhile fun c => !isControl c
  | other => other

/-- The text after blanks, a comment and the end of the line or of the text. -/
def lineEnd (cs : List Char) : Option (List Char) :=
  match skipComment (skipBlank cs) with
  | [] => some []
  | other => newlineAt other

/-- A character of a bare key. -/
def isBare (c : Char) : Bool := c.isAlphanum || c == '_' || c == '-'

/-- A simple key at the start of a text. -/
def keyAt (cs : List Char) : Option (String × List Char) :=
  match simpleStringAt cs with
  | some key => some key
  | none =>
      let bare := cs.takeWhile isBare
      if bare.isEmpty then none else some (String.ofList bare, cs.dropWhile isBare)

/-- A dotted key at the start of a text: its path, its last part, and the rest. -/
def dottedF : Nat → List Char → Option (List String × String × List Char)
  | 0, _ => none
  | fuel + 1, cs => do
      let (key, rest) ← keyAt (skipBlank cs)
      match skipBlank rest with
      | '.' :: more =>
          let (path, last, rest) ← dottedF fuel more
          some (key :: path, last, rest)
      | more => some ([], key, more)

/-- The most parts that a key has, and the most levels that a value has. -/
def levelLimit : Nat := 79

/-- A dotted key at the start of a text. -/
def dottedAt (cs : List Char) : Option (List String × String × List Char) := do
  let (path, last, rest) ← dottedF (cs.length + 1) cs
  if path.length + 1 ≤ levelLimit then some (path, last, rest) else none

/-! ### Values -/

/-- A character of a number, a date or a truth value. -/
def isScalarChar (c : Char) : Bool :=
  c.isAlphanum || c == '_' || c == '+' || c == '-' || c == '.' || c == ':'

/-- The run of characters that a scalar may consist of.  One blank may stand between a date and a
time. -/
def scalarRun (cs : List Char) : List Char × List Char :=
  let run := cs.takeWhile isScalarChar
  let rest := cs.dropWhile isScalarChar
  match dateAt run, rest with
  | some [], ' ' :: d :: more =>
      if d.isDigit then
        (run ++ ' ' :: (d :: more).takeWhile isScalarChar, (d :: more).dropWhile isScalarChar)
      else (run, rest)
  | _, _ => (run, rest)

/-- The text after blanks, line ends and comments inside an array. -/
def skipSpaceF : Nat → List Char → Option (List Char)
  | 0, _ => none
  | fuel + 1, cs =>
      match skipBlank cs with
      | '#' :: rest =>
          match lineEnd ('#' :: rest) with
          | some rest => skipSpaceF fuel rest
          | none => none
      | rest =>
          match newlineAt rest with
          | some rest => skipSpaceF fuel rest
          | none => some rest

/-- The text after blanks, line ends and comments inside an array. -/
def skipSpace (cs : List Char) : Option (List Char) := skipSpaceF (cs.length + 1) cs

mutual

/-- A value at the start of a text, nested in at most `levels` others, and the rest. -/
def valueF : Nat → Nat → List Char → Option (Toml × List Char)
  | 0, _, _ => none
  | fuel + 1, levels, cs =>
      match cs with
      | '"' :: _ => (stringAt cs).map fun (s, rest) => (.string s, rest)
      | '\'' :: _ => (stringAt cs).map fun (s, rest) => (.string s, rest)
      | '[' :: rest =>
          match levels with
          | 0 => none
          | levels + 1 => (itemsF fuel levels rest).map fun (items, rest) => (.array items, rest)
      | '\x7b' :: rest =>
          match levels with
          | 0 => none
          | levels + 1 =>
              match skipBlank rest with
              | '\x7d' :: rest => some (.table .closed [], rest)
              | rest => (pairsF fuel levels [] rest).map fun (t, rest) => (.table .closed t, rest)
      | _ =>
          let (run, rest) := scalarRun cs
          (scalar? run).map fun v => (v, rest)

/-- The items of an array up to its closing bracket, and the rest. -/
def itemsF : Nat → Nat → List Char → Option (List Toml × List Char)
  | 0, _, _ => none
  | fuel + 1, levels, cs => do
      match ← skipSpace cs with
      | ']' :: rest => some ([], rest)
      | start =>
          let (v, rest) ← valueF fuel levels start
          match ← skipSpace rest with
          | ',' :: rest =>
              let (items, rest) ← itemsF fuel levels rest
              some (v :: items, rest)
          | ']' :: rest => some ([v], rest)
          | _ => none

/-- The entries of an inline table up to its closing brace, and the rest. -/
def pairsF : Nat → Nat → Table → List Char → Option (Table × List Char)
  | 0, _, _, _ => none
  | fuel + 1, levels, t, cs => do
      let (path, key, rest) ← dottedAt cs
      let rest ← after '=' rest
      let (v, rest) ← valueF fuel levels (skipBlank rest)
      let t ← t.putDotted path key v
      match skipBlank rest with
      | ',' :: rest => pairsF fuel levels t rest
      | '\x7d' :: rest => some (t, rest)
      | _ => none

end

/-- A value at the start of a text, and the rest. -/
def valueAt (cs : List Char) : Option (Toml × List Char) := valueF (cs.length + 1) levelLimit cs

/-! ### Documents -/

/-- What was read so far: the table of the document, and the path of the latest header. -/
structure Document where
  root : Table
  header : List String

/-- A header with one or two brackets, of which the first was read, and the rest. -/
def headerAt (d : Document) (cs : List Char) : Option (Document × List Char) :=
  match cs with
  | '[' :: rest => do
      let (path, key, rest) ← dottedAt rest
      let rest ← after ']' rest
      let rest ← after ']' rest
      let root ← d.root.openElement path key
      some (⟨root, path ++ [key]⟩, rest)
  | rest => do
      let (path, key, rest) ← dottedAt rest
      let rest ← after ']' rest
      let root ← d.root.openTable path key
      some (⟨root, path ++ [key]⟩, rest)

/-- One statement at the start of a text: a header, or a key with its value. -/
def statement (d : Document) (cs : List Char) : Option (Document × List Char) :=
  match cs with
  | '[' :: rest => headerAt d rest
  | _ => do
      let (path, key, rest) ← dottedAt cs
      let rest ← after '=' rest
      let (v, rest) ← valueAt (skipBlank rest)
      let root ← d.root.putKey d.header path key v
      some ({ d with root := root }, rest)

/-- The lines of a document. -/
def linesF : Nat → Document → List Char → Option Document
  | 0, _, _ => none
  | fuel + 1, d, cs =>
      match skipBlank cs with
      | [] => some d
      | c :: rest =>
          let start := c :: rest
          if c = '#' || (newlineAt start).isSome then
            match lineEnd start with
            | some rest => linesF fuel d rest
            | none => none
          else
            match statement d start with
            | none => none
            | some (d, rest) =>
                match lineEnd rest with
                | some rest => linesF fuel d rest
                | none => none

/-- **The table that a text is,** or nothing if it is not a document. -/
def parse (text : String) : Option Table :=
  let cs :=
    match text.toList with
    | c :: rest => if c.toNat = 0xfeff then rest else c :: rest
    | [] => []
  (linesF (cs.length + 1) ⟨[], []⟩ cs).map Document.root

end RhythmLogic.Toml
