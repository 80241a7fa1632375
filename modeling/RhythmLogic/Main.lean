/-
**The program: files, clock, keyboard and screen.**

Every decision is made by the library; here files are read, the clock is asked, lines are awaited,
and what was written reaches the screen and the log files.

Main definitions:

* `readDisk` — the text of a file;
* `perform` — an act whose writing reaches the screen and the log files;
* `playOnClock`, `talkOnClock` — the two jobs that need a clock;
* `main` — the program.
-/

import RhythmLogic.CommandLine.Preparation
import RhythmLogic.Text.Lines

set_option autoImplicit false

namespace RhythmLogic

/-! ### Files -/

/-- The number of an error, which some calls report with a minus sign. -/
def plainCode (code : UInt32) : UInt32 := if 0x80000000 ≤ code then 0 - code else code

/-- Why a file could not be used. -/
def fileErrorOf (e : IO.Error) : FileError :=
  match e with
  | .noFileOrDirectory .. => .notFound
  | .alreadyExists .. => .alreadyExists
  | .inappropriateType _ code _ =>
      if plainCode code = 21 then .isDirectory
      else if plainCode code = 20 then .notDirectory
      else .other (toString e)
  | .invalidArgument _ code _ =>
      if plainCode code = 36 then .nameTooLong else .other (toString e)
  | other => .other (toString other)

/-- The text of a file. -/
def readDisk (path : String) : IO (Except FileError String) := do
  try
    match String.fromUTF8? (← IO.FS.readBinFile path) with
    | some text => return .ok text
    | none => return .error .notText
  catch e => return .error (fileErrorOf e)

/-- The time at which a file was changed last, if it can be told. -/
def changedAt (path : String) : IO (Option IO.FS.SystemTime) := do
  try
    return some (← (← IO.FS.realPath path).metadata).modified
  catch _ => return none

/-- The directory for settings. -/
def settingsHome : IO String := do
  match ← IO.getEnv "XDG_CONFIG_HOME" with
  | some home => if home.startsWith "/" then return home
  | none => pure ()
  return ((← IO.getEnv "HOME").getD "") ++ "/.config"

/-- What stands under a name of the log on disk. -/
def readEntry (path : String) : IO (Option LogEntry) := do
  match ← readDisk path with
  | .ok text => return some (.file text)
  | .error .isDirectory => return some .directory
  | .error _ => return none

/-- The log files on disk, or why there can be none. -/
def readArchive (directory : String) : IO (Except FileError Archive) := do
  match ← readDisk directory with
  | .error .isDirectory =>
      let found ← Archive.names.filterMapM fun name => do
        return (← readEntry (within directory name)).map fun entry => (name, entry)
      return .ok (.ofEntries found)
  | .error .notFound => return .ok .empty
  | .error e => if e == .notText then return .error .alreadyExists else return .error e
  | .ok _ => return .error .alreadyExists

/-- Brings the log files on disk from one state to another. -/
def saveArchive (directory : String) (before after : Archive) : IO Unit := do
  if before.earlier == after.earlier then
    let written := (before.text?.getD "").utf8ByteSize
    let all := (after.text?.getD "").toUTF8
    if written < all.size then
      let handle ← IO.FS.Handle.mk (within directory Archive.fileName) .append
      handle.write (all.extract written all.size)
  else
    for name in Archive.names do
      if (before.files.lookup name).isSome && (after.files.lookup name).isNone then
        IO.FS.removeFile (within directory name)
    for (name, text) in after.files do
      IO.FS.writeFile (within directory name) text

/-! ### Acting -/

/-- What a run holds: the console, and the directory of the log files. -/
structure Desk where
  console : IO.Ref Console
  logs : String
  /-- The log files before the run. -/
  found : Archive

/-- A run: it acts in the world, and may fail. -/
abbrev Run (α : Type) : Type := ReaderT Desk (ExceptT Failure IO) α

/-- Brings what was written to the screen. -/
def bringOut (written : List (Sink × String)) : IO Unit := do
  let output ← IO.getStdout
  let errors ← IO.getStderr
  for (sink, text) in written do
    let target := if sink == .output then output else errors
    target.putStr text
    target.flush

/-- **An act whose writing reaches the screen and the log files.** -/
def perform {α : Type} (act : Act α) : Run α := do
  let desk ← read
  let before ← desk.console.get
  let (result, after) := act.run before
  bringOut after.written.reverse
  match after.logger.archive with
  | some archive =>
      if before.logger.archive.isNone then IO.FS.createDirAll desk.logs
      saveArchive desk.logs (before.logger.archive.getD desk.found) archive
  | none => pure ()
  desk.console.set { after with written := [] }
  match result with
  | .ok value => return value
  | .error f => throw f

/-- The seconds since a reading of the clock in nanoseconds. -/
def secondsSince (origin : Nat) : IO Float := do
  return ((← IO.monoNanosNow) - origin).toFloat / 1000000000.0

/-! ### Playing a file -/

/-- Ticks until an end has come.  A file that changed is read again. -/
partial def playTicks (c : Configuration) (file : String) (seconds : Option Float) (origin : Nat)
    (stamp : Option IO.FS.SystemTime) (s : Session Float) : Run (Session Float) := do
  let now ← secondsSince origin
  if (seconds.map fun finish => finish ≤ now : Option Bool) == some true then return s
  let current ← changedAt file
  let s ←
    if current == stamp then pure s
    else
      let text ← readDisk file
      perform (reload (fun _ => text) file (s.atTime now))
  let s ← perform (tickSession now s)
  IO.sleep c.cadence.toUInt32
  playTicks c file seconds origin current s

/-- **A file is played.** -/
def playOnClock (c : Configuration) (file : String) (seconds : Option Float) : Run Unit := do
  let stamp ← changedAt file
  let text ← readDisk file
  let s ← perform (startPlaying c (fun _ => text) file)
  let s ← playTicks c file seconds (← IO.monoNanosNow) stamp s
  perform (closeSession s)

/-! ### The interactive session -/

/-- Waits for something, at most for some milliseconds, and tells whether it has come. -/
def awaitFor {α : Type} (pending : Task α) : Nat → IO Bool
  | 0 => IO.hasFinished pending
  | left + 1 => do
      if ← IO.hasFinished pending then return true
      IO.sleep 1
      awaitFor pending left

/-- A line without its end, or nothing at the end of the input. -/
def typedLine (raw : String) : Option String :=
  if raw.isEmpty then none else (splitLines raw).head?

/-- The file that a line asks for. -/
def readTyped (line : String) : IO FileReader := do
  match Command.parse line with
  | .ok (.play path) =>
      let text ← readDisk path
      return fun _ => text
  | _ => return fun _ => .error .notFound

/-- Lines and ticks until the last command, or the end of the input. -/
partial def talk (c : Configuration) (input : IO.FS.Stream)
    (pending : Task (Except IO.Error String)) (origin : Nat) (s : Session Float) :
    Run (Session Float) := do
  if ← awaitFor pending c.cadence then
    match pending.get with
    | .error _ => return s
    | .ok raw =>
        match typedLine raw with
        | none => return s
        | some line =>
            let read ← readTyped line
            match ← perform (answerTyped read line (s.atTime (← secondsSince origin))) with
            | none => return s
            | some next =>
                let started := next.transport.running && !s.transport.running
                let origin ← if started then IO.monoNanosNow else pure origin
                let next ← perform (tickSession (← secondsSince origin) next)
                talk c input (← IO.asTask input.getLine .dedicated) origin next
  else
    let s ← perform (tickSession (← secondsSince origin) s)
    talk c input pending origin s

/-- **The interactive session.** -/
def talkOnClock (c : Configuration) (file : Option String) : Run Unit := do
  let text ←
    match file with
    | some path => readDisk path
    | none => pure (.error .notFound)
  let s ← perform (startDialog c (fun _ => text) file)
  let input ← IO.getStdin
  let pending ← IO.asTask input.getLine .dedicated
  let s ← talk c input pending (← IO.monoNanosNow) s
  perform (closeSession s)

/-! ### The program -/

/-- Settings with a seed, drawn where none is given. -/
def seeded (c : Configuration) : IO Configuration := do
  match c.seed with
  | some _ => return c
  | none => return { c with seed := some (← IO.rand 0 4294967295) }

/-- An invocation. -/
def runInvocation (i : Invocation) (home : String) (found : Except FileError Archive) :
    Run Unit := do
  let path := settingsPath home
  let standard ← readDisk path
  let named ←
    match i.configPath with
    | some path => readDisk path
    | none => pure standard
  let isMissing := standard matches .error .notFound | .error .notDirectory
  let w : Surroundings :=
    { read := fun _ => named
      standardSettings := if isMissing then none else some path
      archive := found }
  let c ← seeded (← perform (prepare i w))
  match i.job with
  | .check file asJson =>
      let text ← readDisk file
      perform (printClauses (fun _ => text) file asJson)
  | .query file goal =>
      let text ← readDisk file
      perform (printSolutions c (fun _ => text) file goal)
  | .play file bpm swing seconds => playOnClock (← perform (tunedSettings c bpm swing)) file seconds
  | .repl file => talkOnClock c file

/-- **The program.** -/
def runProgram (arguments : List String) : IO UInt32 := do
  match Request.ofArguments arguments with
  | .version =>
      bringOut [(.output, versionText)]
      return 0
  | .help topic long =>
      bringOut [(.output, usage topic long)]
      return 0
  | .misuse =>
      bringOut [(.error, usage .program false)]
      return 2
  | .invoke i =>
      let home ← settingsHome
      let logs := logDirectory home
      let found ← readArchive logs
      let console ← IO.mkRef (Console.new (.new .terminal))
      let desk : Desk := ⟨console, logs, found.toOption.getD .empty⟩
      match ← (runInvocation i home found).run desk with
      | .ok _ => return 0
      | .error f =>
          bringOut [(.error, f.report)]
          return 1

end RhythmLogic

/-- The program. -/
def main (arguments : List String) : IO UInt32 := RhythmLogic.runProgram arguments
