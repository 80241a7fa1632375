/-
**The editor: the last source that was accepted.**

Source that is typed while a program plays is trimmed and gets the final period that is usually left
out.  An edit that cannot be read leaves the accepted program as it is.

Main definitions:

* `completed` — source without blanks around it, and with its final period;
* `readCompleted` — what becomes of a source as it would be evaluated;
* `Editor`, `Editor.evaluate` — the accepted source, and an edit.
-/

import RhythmLogic.Program.Reading
import RhythmLogic.Signal
import RhythmLogic.Subscribers

set_option autoImplicit false

namespace RhythmLogic

/-- **Source without blanks around it,** and with a final period unless it is blank or has one. -/
def completed (text : String) : String :=
  let trimmed := trimBlank text.toList
  if trimmed.isEmpty || trimmed.getLast? == some '.' then String.ofList trimmed
  else String.ofList (trimmed ++ ['.'])

/-- What becomes of a source as it would be evaluated.  Blank source is the program without
clauses. -/
def readCompleted (text : String) : Reading :=
  let code := completed text
  if code.isEmpty then ⟨.ok .empty, [], 0, 0⟩ else readProgram code

/-- The last source that was accepted, its program, and who is told about edits. -/
structure Editor where
  code : String
  program : Option Program
  listeners : Subscribers Nat

namespace Editor

/-- Nothing was accepted yet. -/
def new : Editor := ⟨"", none, .empty⟩

/-- Every listener is told the outcome of an edit, in the order in which they came. -/
def notify (s : Editor) (event : Validation) : List Signal :=
  s.listeners.tags.map fun listener => .validated listener event

/-- **An edit.**  It takes effect only if it can be read. -/
def evaluate (s : Editor) (text : String) : Step Editor (Except ParseError Program) :=
  let code := completed text
  let reading := readCompleted code
  let told := reading.notices.map Signal.notice
  match reading.result with
  | .ok p =>
      ⟨{ s with code := code, program := some p }, .ok p,
        told ++ .notice (.accepted p.size) :: s.notify ⟨code, .ok p⟩⟩
  | .error e =>
      ⟨s, .error e, told ++ .notice (.rejected e) :: s.notify ⟨code, .error e⟩⟩

end Editor

end RhythmLogic
