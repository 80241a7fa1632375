/-
**Commands: what a line of a session means.**

A line that starts with a colon is a command; anything else is source.

Main definitions:

* `Command`, `Command.parse` — commands, and the reading of a line;
* `CommandError`, `CommandError.text` — why a command is refused;
* `helpText` — the text of `:help`.
-/

import RhythmLogic.Term.Text
import RhythmLogic.Text.Blank

set_option autoImplicit false

namespace RhythmLogic

/-- What a line means. -/
inductive Command where
  | help
  | tempo (bpm : Float)
  | swing (amount : Float)
  | play (path : String)
  | stop
  | start
  | status
  | quit
  | source (text : String)
deriving Repr, Inhabited

/-- Why a command is refused. -/
inductive CommandError where
  | missingArgument (command : String)
  | invalidNumber (text : String)
  | outOfRange (what : String) (value least greatest : Float)
  | unknown (command : String)
deriving Repr

/-- The words for a refusal. -/
def CommandError.text : CommandError → String
  | missingArgument command => ":" ++ command ++ " needs an argument"
  | invalidNumber text => "'" ++ text ++ "' is not a number"
  | outOfRange what value least greatest =>
      what ++ " " ++ floatText value ++ " out of range (" ++ floatText least ++ "-" ++
        floatText greatest ++ ")"
  | unknown command => "unknown command '" ++ command ++ "' (try :help)"

/-- The slowest tempo. -/
def leastBpm : Float := 20.0

/-- The fastest tempo. -/
def greatestBpm : Float := 400.0

/-- The value lies in a range with its ends. -/
def liesIn (value least greatest : Float) : Bool := least ≤ value && value ≤ greatest

/-- The number that a command takes. -/
def rangedArgument (command : String) (least greatest : Float) (argument : Option (List Char)) :
    Except CommandError Float :=
  match argument with
  | none => .error (.missingArgument command)
  | some word =>
      match readFloat? word with
      | none => .error (.invalidNumber (String.ofList word))
      | some value =>
          if liesIn value least greatest then .ok value
          else .error (.outOfRange command value least greatest)

/-- The path that `:play` takes: the rest of the line, which may contain blanks. -/
def pathArgument (rest : List Char) : Except CommandError Command :=
  let path := trimBlank (rest.drop 4)
  if path.isEmpty then .error (.missingArgument "play") else .ok (.play (String.ofList path))

/-- The command with a given name; `rest` is the line from the name on. -/
def Command.named (name : String) (argument : Option (List Char)) (rest : List Char) :
    Except CommandError Command :=
  match name with
  | "help" | "h" | "?" => .ok .help
  | "tempo" => (rangedArgument "tempo" leastBpm greatestBpm argument).map .tempo
  | "swing" => (rangedArgument "swing" 0.0 1.0 argument).map .swing
  | "play" => pathArgument rest
  | "stop" => .ok .stop
  | "start" => .ok .start
  | "status" => .ok .status
  | "quit" | "q" => .ok .quit
  | other => .error (.unknown (":" ++ other))

/-- **What a line means.** -/
def Command.parse (line : String) : Except CommandError Command :=
  match trimBlank line.toList with
  | ':' :: more =>
      let rest := trimStart more
      match words rest with
      | [] => Command.named "" none rest
      | name :: arguments => Command.named (String.ofList name) arguments.head? rest
  | _ => .ok (.source line)

/-- The text of `:help`. -/
def helpText : String :=
  separated "\n"
    [ "Commands:"
    , "  :help, :h, :?     Show this help"
    , "  :tempo BPM        Set tempo (20-400)"
    , "  :swing AMOUNT     Set swing (0.0-1.0)"
    , "  :play FILE        Load and evaluate a Bog file"
    , "  :stop             Stop the transport"
    , "  :start            Start the transport"
    , "  :status           Show transport state"
    , "  :quit, :q         Leave the REPL"
    , ""
    , "Anything else is evaluated as Bog source, e.g."
    , "  event(kick, 36, 0.9, T) :- every(T, 1)."
    , "  event(hat, 42, 0.5, T) :- every(T, 0.25)."
    , "  event(sine, N, 0.6, T) :- every(T, 2), scale(60, dorian, 3, 0, N)."
    , ""
    , "Voices: kick snare hat clap noise (drums), sine square triangle (melodic)" ]

end RhythmLogic
