/-
**The logger: which messages are told, and where.**

Main definitions:

* `Route` — where messages go;
* `Logger`, `Logger.silent`, `Logger.toFile`, `Logger.toBoth` — a route with the gravity that is
  asked for, and the archive once there is one;
* `Delivery`, `Logger.log` — what a logger brings out, and what becomes of a message.
-/

import RhythmLogic.Json.Basic
import RhythmLogic.Log.Archive

set_option autoImplicit false

namespace RhythmLogic

/-- A message as a JSON value. -/
def Message.toJson (m : Message) : Json :=
  .object [("level", .string m.severity.name), ("msg", .string m.words)]

/-- Where messages go. -/
inductive Route where
  | terminal
  | host
  | file
  | fileAndTerminal
  | nowhere
deriving DecidableEq, Repr

/-- Where messages go, and which ones. -/
structure Logger where
  route : Route
  /-- Less grave messages are dropped. -/
  level : Severity
  /-- The host has not closed its ear yet. -/
  hostListens : Bool
  /-- The archive, once messages went to it. -/
  archive : Option Archive

/-- What a logger brings out: a message, or the reason why the archive lost one. -/
inductive Delivery where
  | terminal (m : Message)
  | host (m : Message)
  | unwritten (error : FileError)

namespace Logger

/-- A logger with a route of its own. -/
def new (route : Route) : Logger := ⟨route, .info, true, none⟩

/-- The logger with its archive, which is `found` unless it has one already. -/
def withArchive (l : Logger) (found : Archive) : Logger :=
  { l with archive := some (l.archive.getD found) }

/-- Messages go to the archive. -/
def toFile (l : Logger) (found : Archive) : Logger :=
  { l with route := .file }.withArchive found

/-- Messages go to the archive and to the terminal. -/
def toBoth (l : Logger) (found : Archive) : Logger :=
  { l with route := .fileAndTerminal }.withArchive found

/-- The host stops listening for good. -/
def close (l : Logger) : Logger := { l with hostListens := false }

/-- The logger after a message was written to its archive, and why it was lost if it was. -/
def write (l : Logger) (m : Message) : Logger × List Delivery :=
  match l.archive with
  | none => (l, [])
  | some a =>
      match a.append m with
      | (a, .ok ()) => ({ l with archive := some a }, [])
      | (a, .error e) => ({ l with archive := some a }, [.unwritten e])

/-- **What becomes of a message.** -/
def log (l : Logger) (m : Message) : Logger × List Delivery :=
  if !m.severity.shownAt l.level then (l, [])
  else
    match l.route with
    | .terminal => (l, [.terminal m])
    | .host => (l, if l.hostListens then [.host m] else [])
    | .file => l.write m
    | .fileAndTerminal =>
        let (l, lost) := l.write m
        (l, lost ++ [.terminal m])
    | .nowhere => (l, [])

end Logger

/-- Why there is no archive. -/
def noArchiveText (e : FileError) : String := "Failed to create log file writer: " ++ e.text

/-- Why the archive lost a message. -/
def unwrittenText (e : FileError) : String := "Failed to write to log file: " ++ e.text

/-- Why a severity is not known. -/
def unknownLevelText (name : String) : String :=
  "unknown log level '" ++ String.ofList (name.toList.map Char.toLower) ++ "'"

end RhythmLogic
