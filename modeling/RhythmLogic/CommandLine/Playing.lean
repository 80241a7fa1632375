/-
**Playing a file, and the interactive session.**

Both are a session over an output that tells its notes.  What happens between two readings of the
clock is one step here; a host supplies the readings, and the lines.

Main definitions:

* `openSession`, `tickSession`, `closeSession` — the start, one tick, and the end;
* `startPlaying` — a file is played;
* `startDialog`, `answerTyped` — the interactive session, and one line of it.
-/

import RhythmLogic.CommandLine.Asking
import RhythmLogic.CommandLine.Usage
import RhythmLogic.Session
import RhythmLogic.Text.Blank

set_option autoImplicit false

namespace RhythmLogic

/-! ### Sessions on a console -/

/-- A session in which nothing plays yet. -/
def openSession (c : Configuration) : Act (Session Float) := do
  let (transport, signals) := c.transport (.narrator 0.0 0) .standard
  Act.observe signals
  pure (.new transport c.handover)

/-- The session when its output shows a time. -/
def Session.atTime (s : Session Float) (now : Float) : Session Float :=
  { s with transport := { s.transport with output := s.transport.output.setClock now } }

/-- **One tick** at a time. -/
def tickSession (now : Float) (s : Session Float) : Act (Session Float) :=
  match (s.atTime now).tick with
  | .error h => throw (.halted h)
  | .ok step => do
      Act.observe step.signals
      pure step.state

/-- The transport stands at the end. -/
def closeSession (s : Session Float) : Act Unit := Act.observe s.transport.stop.2

/-! ### Playing a file -/

/-- The settings with the tempo and the swing of an invocation. -/
def Configuration.tuned (c : Configuration) (bpm swing : Option Float) : Configuration :=
  { c with timing :=
    { c.timing with bpm := bpm.getD c.timing.bpm, swing := swing.getD c.timing.swing } }

/-- A failure of a session as a failure of the run. -/
def SessionError.failure (e : SessionError) : Failure := ⟨e.text, [e.cause]⟩

/-- A failure of the settings as a failure of the run. -/
def ConfigurationError.failure (e : ConfigurationError) : Failure := ⟨e.text, e.cause?.toList⟩

/-- **A file starts to play.** -/
def startPlaying (c : Configuration) (read : FileReader) (file : String) :
    Act (Session Float) := do
  let s ← openSession c
  let step := s.loadFile read file
  Act.observe step.signals
  match step.result with
  | .error e => throw e.failure
  | .ok _ =>
      Act.tell (.playing file)
      pure step.state

/-- A file that changed is read again. -/
def reload (read : FileReader) (file : String) (s : Session Float) : Act (Session Float) := do
  let step := s.loadFile read file
  Act.observe step.signals
  match step.result with
  | .error e => Act.tell (.notReloaded e.text)
  | .ok install => Act.tell (.reloaded file (Reply.text (.installed install)))
  pure step.state

/-! ### The interactive session -/

/-- What the interactive session starts with. -/
def greeting : String :=
  programName ++ ": logic programming for rhythm and melody (" ++ version ++ ")"

/-- The mark that a line is awaited. -/
def prompt : Act Unit := Act.write "bog> "

/-- The words for a failure that the interactive session goes on after. -/
def complaint (words : String) : String := "error: " ++ words

/-- **The interactive session starts.** -/
def startDialog (c : Configuration) (read : FileReader) (file : Option String) :
    Act (Session Float) := do
  let s ← openSession c
  Act.print greeting
  Act.print "type :help for commands"
  let s ←
    match file with
    | none => pure s
    | some path => do
        let step := s.loadFile read path
        Act.observe step.signals
        match step.result with
        | .ok install => Act.print (Reply.text (.installed install))
        | .error e => Act.print (complaint e.text)
        pure step.state
  prompt
  pure s

/-- A command in the interactive session.  There is no next session after the last command. -/
def answerCommand (read : FileReader) (command : Command) (s : Session Float) :
    Act (Option (Session Float)) := do
  let step := s.execute read command
  Act.observe step.signals
  match step.result with
  | .error e =>
      Act.print (complaint e.text)
      pure (some step.state)
  | .ok reply =>
      Act.print reply.text
      match reply with
      | .bye => pure none
      | _ => pure (some step.state)

/-- **A line of the interactive session.**  Blank lines are passed over. -/
def answerTyped (read : FileReader) (line : String) (s : Session Float) :
    Act (Option (Session Float)) := do
  let next ←
    if (trimBlank line.toList).isEmpty then pure (some s)
    else
      match Command.parse line with
      | .error e => do
          Act.print (complaint e.text)
          pure (some s)
      | .ok command => answerCommand read command s
  if next.isSome then prompt
  pure next

end RhythmLogic
