/-
**Checking a program, and asking it.**

Main definitions:

* `readSource` — the text of a file;
* `printClauses` — the clauses of a file;
* `printSolutions` — the solutions of a goal against a file.
-/

import RhythmLogic.Builtin.Standard
import RhythmLogic.CommandLine.Console
import RhythmLogic.CommandLine.Mixer
import RhythmLogic.Configuration
import RhythmLogic.Program.Json
import RhythmLogic.Program.Reading
import RhythmLogic.Search

set_option autoImplicit false

namespace RhythmLogic

/-- The text of a file. -/
def readSource (read : FileReader) (file : String) : Act String :=
  match read file with
  | .ok text => pure text
  | .error e => throw ⟨"reading " ++ file, [e.text]⟩

/-- The program of a file. -/
def readFile (read : FileReader) (file : String) : Act Program := do
  let r := readProgram (← readSource read file)
  r.notices.forM Act.tell
  match r.result with
  | .ok p => pure p
  | .error e => throw (.plain (file ++ ": " ++ e.text))

/-! ### Checking -/

/-- The line after the clauses of a program. -/
def summary (p : Program) : String :=
  "% " ++ naturalText p.size ++ " clauses: " ++
    separated ", " (p.predicates.map fun f => f.1 ++ "/" ++ naturalText f.2)

/-- **Prints the clauses of a file,** or its JSON value. -/
def printClauses (read : FileReader) (file : String) (asJson : Bool) : Act Unit := do
  let p ← readFile read file
  if asJson then Act.print p.toJson.pretty
  else
    p.clauses.forM fun c => Act.print c.text
    Act.print (summary p)

/-! ### Asking -/

/-- Prints the solutions of some alternatives, one alternative after the other, and tells whether
there were any. -/
def printAnswers (k : Knowledge) (names : List String) :
    List (List Goal) → Progress → Act Bool
  | [], _ => pure false
  | goals :: rest, s =>
      match solve k goals .empty s with
      | .error h => throw (.halted h)
      | .ok (found, s) => do
          s.world.notices.reverse.forM Act.tell
          found.forM fun e => Act.print (answerLine names e)
          let more ← printAnswers k names rest { s with world := { s.world with notices := [] } }
          pure (!found.isEmpty || more)

/-- **Prints the solutions of a goal against a file.** -/
def printSolutions (c : Configuration) (read : FileReader) (file goal : String) : Act Unit := do
  let p ← readFile read file
  match parseQuery goal with
  | .error e => throw (.plain ("query: " ++ e.text))
  | .ok branches =>
      let k : Knowledge := ⟨p, .standard, max 1 c.maxDepth, c.timing.bpm⟩
      let world : World := ⟨.empty, .ofSeed (c.seed.getD 0), []⟩
      let any ← printAnswers k (queryVariables branches) branches ⟨world, 0, false⟩
      if any then pure () else Act.print "false"

end RhythmLogic
