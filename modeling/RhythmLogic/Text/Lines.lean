/-
**Lines of a text.**

Main definitions:

* `splitLines` — the lines, without their ends.
-/

set_option autoImplicit false

namespace RhythmLogic

/-- A line without the carriage return that may stand before its end. -/
def withoutReturn (line : List Char) : List Char :=
  if line.getLast? == some '\r' then line.dropLast else line

/-- The lines of a text: `current` holds the line being read, last character first. -/
def linesFrom (current : List Char) : List Char → List (List Char)
  | [] => if current.isEmpty then [] else [current.reverse]
  | c :: cs =>
      if c = '\n' then withoutReturn current.reverse :: linesFrom [] cs
      else linesFrom (c :: current) cs

/-- **The lines of a text.**  The last line may end with the text. -/
def splitLines (text : String) : List String := (linesFrom [] text.toList).map String.ofList

end RhythmLogic
