/-
**Notices: what the program tells while it works.**

Every notice is one of a few causes with its data.  Its severity and its words are functions of the
cause, so that what is told is fixed in one place.

Main definitions:

* `Severity` — how grave a notice is, from the gravest down;
* `Message`, `Message.text` — a severity with words, as it is logged;
* `Notice`, `Notice.severity`, `Notice.words`, `Notice.message` — the causes and their messages.
-/

import RhythmLogic.Token.Basic
import RhythmLogic.Builtin.Argument
import RhythmLogic.Voice

set_option autoImplicit false

namespace RhythmLogic

/-! ### Messages -/

/-- How grave a message is. -/
inductive Severity where
  | fatal | error | warn | info | debug
deriving DecidableEq, Repr

namespace Severity

/-- All severities, the gravest first. -/
def all : List Severity := [fatal, error, warn, info, debug]

/-- The rank of a severity: the gravest has rank zero. -/
def rank : Severity → Nat
  | fatal => 0
  | error => 1
  | warn => 2
  | info => 3
  | debug => 4

/-- The name of a severity. -/
def name : Severity → String
  | fatal => "fatal"
  | error => "error"
  | warn => "warn"
  | info => "info"
  | debug => "debug"

/-- The mark that a message begins with. -/
def tag : Severity → String
  | fatal => "[FATAL]"
  | error => "[ERROR]"
  | warn => "[WARN]"
  | info => "[INFO]"
  | debug => "[DEBUG]"

/-- The severity with exactly this name. -/
def ofName? (s : String) : Option Severity := all.find? fun v => v.name == s

/-- The severity that a person means: in any case of letters, and also `warning`. -/
def read? (s : String) : Option Severity :=
  let s := String.ofList (s.toList.map Char.toLower)
  if s == "warning" then some warn else ofName? s

/-- A message of this severity is told at a given level. -/
def shownAt (s level : Severity) : Bool := s.rank ≤ level.rank

end Severity

/-- A severity with words. -/
structure Message where
  severity : Severity
  words : String
deriving DecidableEq, Repr

/-- **The line that a message is logged as.** -/
def Message.text (m : Message) : String := m.severity.tag ++ " " ++ m.words

/-! ### Notices -/

/-- What the program tells while it works. -/
inductive Notice where
  /-- A clause body has several alternatives, and the first is kept. -/
  | alternatives (head : Term) (count : Nat)
  /-- A goal is a variable that stands for nothing. -/
  | unbound (goal : Term)
  /-- A goal has a shape that cannot be called. -/
  | notCallable (goal : Term)
  /-- A builtin refused its arguments. -/
  | refused (name : String) (arity : Nat) (error : ArgumentError)
  /-- A call was too deeply nested. -/
  | depthLimit (limit : Nat) (goal : Term)
  /-- A call has no clauses. -/
  | undefinedCall (name : String) (arity : Nat)
  /-- An enumeration was cut off. -/
  | rangeCut (first last step : Float) (limit : Nat)
  /-- The transport plays another program. -/
  | programSet (clauses : Nat)
  /-- The settings of the transport. -/
  | settings (bpm swing lookahead grid : Float)
  /-- The transport runs. -/
  | started (bpm : Float)
  /-- The transport stands. -/
  | stopped
  /-- An event names a voice that does not exist. -/
  | unknownVoice (time : Float) (name : String)
  /-- The voice of an event is not a name. -/
  | notAVoice (time : Float) (found : Term)
  /-- The logging output is ready. -/
  | outputReady
  /-- A note was played to the log. -/
  | played (trigger : Trigger)
  /-- A program waits for its bar. -/
  | queued (boundary : Float)
  /-- A program takes over at its bar. -/
  | swapping (boundary : Float)
  /-- An edit was accepted. -/
  | accepted (clauses : Nat)
  /-- An edit was refused. -/
  | rejected (error : ParseError)
  /-- A file is read. -/
  | loading (path : String)
  /-- A file is played from the command line. -/
  | playing (path : String)
  /-- A file that changed was read again. -/
  | reloaded (path reply : String)
  /-- A file that changed could not be read again. -/
  | notReloaded (reason : String)
deriving Repr

namespace Notice

/-- How grave a notice is. -/
def severity : Notice → Severity
  | alternatives .. | unbound _ | notCallable _ | refused .. | depthLimit .. | rangeCut ..
  | rejected _ => .warn
  | undefinedCall .. | unknownVoice .. | notAVoice .. => .debug
  | notReloaded _ => .error
  | _ => .info

/-- The words of a notice. -/
def words : Notice → String
  | alternatives head count =>
      "clause " ++ head.text ++ " has " ++ naturalText count ++
        " alternative bodies; only the first is kept"
  | unbound goal => "goal " ++ goal.text ++ " is unbound"
  | notCallable goal => goal.text ++ " is not callable"
  | refused name arity error => name ++ "/" ++ naturalText arity ++ ": " ++ error.text
  | depthLimit limit goal =>
      "depth limit " ++ naturalText limit ++ " reached while proving " ++ goal.text ++
        "; branch pruned"
  | undefinedCall name arity => "no clauses for " ++ name ++ "/" ++ naturalText arity
  | rangeCut first last step limit =>
      "range(" ++ floatText first ++ ", " ++ floatText last ++ ", " ++ floatText step ++
        ") truncated to " ++ naturalText limit ++ " values"
  | programSet clauses => "scheduler: program set (" ++ naturalText clauses ++ " clauses)"
  | settings bpm swing lookahead grid =>
      "scheduler: " ++ floatText bpm ++ " bpm, swing " ++ floatText swing ++ ", lookahead " ++
        floatText lookahead ++ " ms, grid " ++ floatText grid ++ " beats"
  | started bpm => "scheduler: started at " ++ floatText bpm ++ " bpm"
  | stopped => "scheduler: stopped"
  | unknownVoice time name =>
      "event at " ++ floatText time ++ ": " ++ Voice.unknownText name
  | notAVoice time found =>
      "event at " ++ floatText time ++ ": voice " ++ found.text ++ " is not an atom"
  | outputReady => "log backend ready"
  | played trigger => trigger.text
  | queued boundary => "transition: program queued for " ++ fixedText 3 boundary ++ "s"
  | swapping boundary => "transition: swapping program at " ++ fixedText 3 boundary ++ "s"
  | accepted clauses => "live: accepted " ++ naturalText clauses ++ " clauses"
  | rejected error => "live: " ++ error.text
  | loading path => "session: loading " ++ path
  | playing path => "playing " ++ path ++ " (ctrl-c to stop)"
  | reloaded path reply => "reloaded " ++ path ++ ": " ++ reply
  | notReloaded reason => reason

/-- **The message of a notice.** -/
def message (n : Notice) : Message := ⟨n.severity, n.words⟩

end Notice

end RhythmLogic
