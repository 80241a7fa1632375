/-
**Rehearsal: a run whose clock advances from tick to tick.**

Everything that a run reads is given, and everything that it writes is returned; what it logs can be
read again.  Typed lines follow each other without a pause, so the clock shows the same moment for
all of them; while a file plays, the clock advances by the cadence of the settings.

Main definitions:

* `Outcome` — what a run leaves;
* `Scenery`, `Scenery.reader` — the files around a run, and what can be read of them now;
* `rehearsePlaying`, `rehearseDialog` — the two jobs that need a clock;
* `rehearse` — a run.
-/

import RhythmLogic.CommandLine.Preparation
import RhythmLogic.Text.Lines

set_option autoImplicit false

namespace RhythmLogic

/-- What a run leaves: its exit code, its two outputs, and the log file. -/
structure Outcome where
  code : Nat
  output : String
  errors : String
  log : Option String
deriving Repr

/-- The time that a clock shows right after it was started, in seconds. -/
def firstMoment : Float := 0.000001

/-! ### Places -/

/-- Where a run happens: some files, and the directory for settings among them. -/
structure Scenery where
  files : FileTree
  home : String

namespace Scenery

/-- What a run finds around it. -/
def surroundings (w : Scenery) : Surroundings where
  read := w.files.read
  standardSettings :=
    if w.files.exists? (settingsPath w.home) then some (settingsPath w.home) else none
  archive := w.files.archive (logDirectory w.home)

/-- The text of the log file before the run. -/
def earlierLog (w : Scenery) : Option String :=
  match w.surroundings.archive with
  | .ok a => a.text?
  | .error _ => none

/-- **The reader of the files as they are now,** with what was logged until now. -/
def reader (w : Scenery) : Act FileReader := do
  match (← get).logger.archive with
  | some a => pure (w.files.withArchive (logDirectory w.home) a).read
  | none => pure w.files.read

end Scenery

/-! ### Playing -/

/-- Ticks from a moment on, until an end has come or no ticks are left. -/
def rehearseTicks (finish cadence : Float) : Nat → Float → Session Float → Act (Session Float)
  | 0, _, s => pure s
  | left + 1, now, s =>
      if finish ≤ now then pure s
      else do
        let s ← tickSession now s
        rehearseTicks finish cadence left (now + cadence) s

/-- **A file is played** for some seconds.  Where no end is given, one tick is rehearsed. -/
def rehearsePlaying (c : Configuration) (w : Scenery) (file : String) (seconds : Option Float) :
    Act Unit := do
  let s ← startPlaying c (← w.reader) file
  let cadence := c.cadence.toFloat / 1000.0
  let s ←
    match seconds with
    | some finish =>
        rehearseTicks finish cadence ((finish / cadence).toUInt64.toNat + 1) firstMoment s
    | none => tickSession firstMoment s
  closeSession s

/-! ### The interactive session -/

/-- Lines that are typed, each followed by a tick. -/
def rehearseLines (w : Scenery) : List String → Session Float → Act (Session Float)
  | [], s => pure s
  | line :: rest, s => do
      match ← answerTyped (← w.reader) line (s.atTime firstMoment) with
      | none => pure s
      | some s => do
          let s ← tickSession firstMoment s
          rehearseLines w rest s

/-- **The interactive session** with some input. -/
def rehearseDialog (c : Configuration) (w : Scenery) (file : Option String) (input : String) :
    Act Unit := do
  let s ← startDialog c (← w.reader) file
  let s ← rehearseLines w (splitLines input) s
  closeSession s

/-! ### Runs -/

/-- An invocation with some input. -/
def rehearseInvocation (i : Invocation) (w : Scenery) (input : String) : Act Unit := do
  let c ← prepare i w.surroundings
  match i.job with
  | .check file asJson => printClauses (← w.reader) file asJson
  | .query file goal => printSolutions c (← w.reader) file goal
  | .play file bpm swing seconds => do
      let c ← tunedSettings c bpm swing
      rehearsePlaying c w file seconds
  | .repl file => rehearseDialog c w file input

/-- **A run** with some arguments and some input. -/
def rehearse (arguments : List String) (w : Scenery) (input : String) : Outcome :=
  match Request.ofArguments arguments with
  | .version => ⟨0, versionText, "", w.earlierLog⟩
  | .help topic long => ⟨0, usage topic long, "", w.earlierLog⟩
  | .misuse => ⟨2, "", usage .program false, w.earlierLog⟩
  | .invoke i =>
      let (result, console) := (rehearseInvocation i w input).run (.new (.new .terminal))
      let (code, console) :=
        match result with
        | .ok _ => (0, console)
        | .error f => (1, console.write .error f.report)
      let log :=
        match console.logger.archive with
        | some a => a.text?
        | none => w.earlierLog
      ⟨code, console.text .output, console.text .error, log⟩

end RhythmLogic
