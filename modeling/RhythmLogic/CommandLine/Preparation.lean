/-
**Preparation: what a run needs before its job.**

The settings decide which messages are told and whether they also go to the log file, so they are
read before anything else happens.

Main definitions:

* `settingsPath`, `logDirectory` — where settings and log files lie;
* `Surroundings` — what a run finds around it;
* `prepare` — the settings of an invocation, and the logger that they ask for;
* `tunedSettings` — the settings for playing.
-/

import RhythmLogic.CommandLine.Playing

set_option autoImplicit false

namespace RhythmLogic

/-- Where the settings lie, in a directory for settings. -/
def settingsPath (home : String) : String := home ++ "/" ++ programName ++ "/config.toml"

/-- Where the log files lie, in a directory for settings. -/
def logDirectory (home : String) : String := home ++ "/" ++ programName ++ "/logs"

/-- What a run finds around it. -/
structure Surroundings where
  read : FileReader
  /-- The path of the settings that are taken where none are named, if there are such. -/
  standardSettings : Option String
  /-- The log files, or why there can be none. -/
  archive : Except FileError Archive

/-- A failure of the settings, with what was tried. -/
def ConfigurationError.within (e : ConfigurationError) (attempt : String) : Failure :=
  ⟨attempt, e.text :: e.cause?.toList⟩

/-- The settings under a path, or the failure to read them. -/
def loadSettings (w : Surroundings) (attempt path : String) : Except Failure Configuration :=
  (Configuration.load w.read path).mapError fun e => e.within attempt

/-- The settings of an invocation. -/
def settingsFor (i : Invocation) (w : Surroundings) : Except Failure Configuration :=
  match i.configPath, w.standardSettings with
  | some path, _ => loadSettings w ("loading " ++ path) path
  | none, some path => loadSettings w "loading default config" path
  | none, none => .ok .standard

/-- From here on messages also go to the log files, or only to the terminal where there can be
none. -/
def Console.archiving (c : Console) : Except FileError Archive → Console
  | .ok found => { c with logger := c.logger.toBoth found }
  | .error e => c.write .error (noArchiveText e ++ "\n")

/-- **The settings of an invocation.**  From here on messages are told as they ask. -/
def prepare (i : Invocation) (w : Surroundings) : Act Configuration :=
  match settingsFor i w with
  | .error f => throw f
  | .ok c => do
      modify fun console =>
        let console := { console with logger := { console.logger with level := c.level } }
        if i.logsToFile || c.logsToFile then console.archiving w.archive else console
      pure c

/-- **The settings for playing,** with the tempo and the swing of the invocation. -/
def tunedSettings (c : Configuration) (bpm swing : Option Float) : Act Configuration :=
  match (c.tuned bpm swing).checked with
  | .error e => throw e.failure
  | .ok c => pure c

end RhythmLogic
