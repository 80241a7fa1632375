/-
**Sessions: editing while a program plays.**

A session joins the editor, the handover and the transport.  The first program starts to play at
once; while one plays, an accepted edit waits for the next bar line.  A command that fails changes
nothing that plays.

Main definitions:

* `Session`, `Session.evaluate`, `Session.loadFile`, `Session.execute` — the joined state, an edit,
  a file, and a command;
* `Session.tickAt` — hands over a program that is due, then ticks the transport;
* `Install`, `Status`, `Reply`, `SessionError` — what is answered, and `Reply.text` — its words.
-/

import RhythmLogic.Command
import RhythmLogic.Editor
import RhythmLogic.FileTree
import RhythmLogic.Handover

set_option autoImplicit false

namespace RhythmLogic

open Quantity

/-! ### Answers -/

/-- When an accepted program takes over. -/
inductive Install (α : Type) where
  | immediate
  | atBoundary (boundary : α)

/-- The state of the transport, as it is shown. -/
structure Status (α : Type) where
  running : Bool
  bpm : α
  swing : α
  beat : Int
  clauses : Nat
  boundary : Option α

/-- What a command did. -/
inductive Reply (α : Type) where
  | help
  | installed (when : Install α)
  | tempo (bpm : α)
  | swing (amount : α)
  | started
  | stopped
  | status (s : Status α)
  | bye

/-- Why a command failed. -/
inductive SessionError where
  | parse (error : ParseError)
  | file (path : String) (error : FileError)

/-- The words for a failed command. -/
def SessionError.text : SessionError → String
  | parse e => e.text
  | file path e => "cannot read " ++ path ++ ": " ++ e.text

/-- The words for what lies behind a failed command. -/
def SessionError.cause : SessionError → String
  | parse e => e.text
  | file _ e => e.text

section Text

variable {α : Type} [Quantity α]

/-- The line of `:status`. -/
def Status.text (s : Status α) : String :=
  let next :=
    match s.boundary with
    | some t => " | next program at " ++ fixedText 3 (toFloat t) ++ "s"
    | none => ""
  (if s.running then "running" else "stopped") ++ " | " ++ floatText (toFloat s.bpm) ++
    " bpm | swing " ++ floatText (toFloat s.swing) ++ " | beat " ++ integerText s.beat ++ " | " ++
    naturalText s.clauses ++ " clauses" ++ next

/-- **The words of a reply.** -/
def Reply.text : Reply α → String
  | help => helpText
  | installed .immediate => "ok"
  | installed (.atBoundary t) => "ok, playing from " ++ fixedText 3 (toFloat t) ++ "s"
  | tempo bpm => "tempo " ++ floatText (toFloat bpm) ++ " bpm"
  | swing amount => "swing " ++ floatText (toFloat amount)
  | started => "started"
  | stopped => "stopped"
  | status s => s.text
  | bye => "bye"

end Text

/-! ### Sessions -/

/-- The editor, the handover and the transport. -/
structure Session (α : Type) where
  transport : Transport α
  handover : Handover α
  editor : Editor

namespace Session

variable {α : Type} [Quantity α]

/-- A session in which nothing was edited yet. -/
def new (transport : Transport α) (handover : Handover α) : Session α :=
  ⟨transport, handover, .new⟩

/-- An accepted program takes over: at the next bar line if one plays, and at once otherwise. -/
def install (s : Session α) (p : Program) : Step (Session α) (Install α) :=
  if s.transport.running && s.transport.program.isSome then
    let queued := s.handover.schedule p s.transport.now s.transport
    ⟨{ s with handover := queued.state }, .atBoundary queued.result, queued.signals⟩
  else
    let (transport, signals) := s.transport.setProgram p
    let (transport, more) := if transport.running then (transport, []) else transport.start
    ⟨{ s with transport := transport, handover := s.handover.cancel }, .immediate, signals ++ more⟩

/-- **An edit.** -/
def evaluate (s : Session α) (text : String) :
    Step (Session α) (Except SessionError (Install α)) :=
  let edit := s.editor.evaluate text
  match edit.result with
  | .error e => ⟨{ s with editor := edit.state }, .error (.parse e), edit.signals⟩
  | .ok p =>
      let installed := install { s with editor := edit.state } p
      ⟨installed.state, .ok installed.result, edit.signals ++ installed.signals⟩

/-- **A file is read and evaluated.** -/
def loadFile (s : Session α) (read : FileReader) (path : String) :
    Step (Session α) (Except SessionError (Install α)) :=
  match read path with
  | .error e => ⟨s, .error (.file path e), []⟩
  | .ok source =>
      let edit := s.evaluate source
      { edit with signals := .notice (.loading path) :: edit.signals }

/-- The state of the transport, as it is shown. -/
def status (s : Session α) : Status α where
  running := s.transport.running
  bpm := s.transport.timing.bpm
  swing := s.transport.timing.swing
  beat := s.transport.beat
  clauses := (s.transport.program.map Program.size).getD 0
  boundary := s.handover.waiting.map Waiting.boundary

/-- A step of the transport as a step of the session. -/
def onTransport (s : Session α) (next : Transport α × List Signal)
    (reply : Transport α → Reply α) : Step (Session α) (Except SessionError (Reply α)) :=
  ⟨{ s with transport := next.1 }, .ok (reply next.1), next.2⟩

/-- A command that only looks. -/
def looking (s : Session α) (reply : Reply α) :
    Step (Session α) (Except SessionError (Reply α)) := ⟨s, .ok reply, []⟩

/-- An edit as a command. -/
def editing (edit : Step (Session α) (Except SessionError (Install α))) :
    Step (Session α) (Except SessionError (Reply α)) :=
  ⟨edit.state, edit.result.map .installed, edit.signals⟩

/-- **A command.** -/
def execute (s : Session α) (read : FileReader) :
    Command → Step (Session α) (Except SessionError (Reply α))
  | .help => s.looking .help
  | .tempo bpm =>
      s.onTransport (s.transport.setBpm (ofFloat bpm)) fun t => .tempo t.timing.bpm
  | .swing amount =>
      s.onTransport (s.transport.setSwing (ofFloat amount)) fun t => .swing t.timing.swing
  | .play path => editing (s.loadFile read path)
  | .stop =>
      onTransport { s with handover := s.handover.cancel } s.transport.stop fun _ => .stopped
  | .start =>
      if s.transport.running then s.looking .started
      else s.onTransport s.transport.start fun _ => .started
  | .status => s.looking (.status s.status)
  | .quit => s.looking .bye
  | .source text => editing (s.evaluate text)

/-- **One tick:** a program that is due takes over, and the transport is ticked. -/
def tickAt (s : Session α) (now : α) : Except Halt (Step (Session α) Nat) :=
  let handed := s.handover.process now s.transport
  let (handover, transport) := handed.state
  match transport.tickAt now with
  | .error h => .error h
  | .ok tick =>
      .ok ⟨{ s with transport := tick.state, handover := handover }, tick.result,
        handed.signals ++ tick.signals⟩

/-- One tick at the time that the output shows. -/
def tick (s : Session α) : Except Halt (Step (Session α) Nat) := s.tickAt s.transport.now

end Session

end RhythmLogic
