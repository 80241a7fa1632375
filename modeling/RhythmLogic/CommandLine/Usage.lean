/-
**Usage: how the program explains itself.**

Main definitions:

* `versionText` — the line with the version;
* `usage` — the explanation of the program, of a job, or of the explanations.
-/

import RhythmLogic.CommandLine.Request
import RhythmLogic.Term.Text

set_option autoImplicit false

namespace RhythmLogic

/-- The name of the program. -/
def programName : String := "bog"

/-- The version of the program. -/
def version : String := "0.1.0"

/-- The line with the version. -/
def versionText : String := programName ++ " " ++ version ++ "\n"

/-- What a job does. -/
def JobName.about : JobName → String
  | check => "Parse a file and list its clauses"
  | query => "Print every solution of a goal against a file"
  | play => "Play a file, reloading it when it changes on disk"
  | repl => "Interactive session"

/-- The words that a job takes. -/
def JobName.wordNames : JobName → List String
  | check | play => ["<FILE>"]
  | query => ["<FILE>", "<GOAL>"]
  | repl => ["[FILE]"]

/-- An option with what it is for. -/
structure OptionHelp where
  mark : String
  about : String

/-- The option that names a document with settings. -/
def configHelp : OptionHelp :=
  ⟨"    --config <PATH>", "Configuration file (default: <config dir>/bog/config.toml)"⟩

/-- The option that also writes messages to the log file. -/
def logFileHelp : OptionHelp := ⟨"    --log-file", "Also write logs to the rotating log file"⟩

/-- The options of a job. -/
def JobName.optionHelps : JobName → List OptionHelp
  | check => [configHelp, ⟨"    --json", "Dump the parsed program as JSON"⟩, logFileHelp]
  | play =>
      [ ⟨"    --bpm <BPM>", ""⟩, configHelp, logFileHelp, ⟨"    --swing <SWING>", ""⟩
      , ⟨"    --seconds <SECONDS>", "Stop after this many seconds"⟩ ]
  | query | repl => [configHelp, logFileHelp]

/-- Two columns, the first one as wide as its widest entry. -/
def columns (rows : List (String × String)) : List String :=
  let width := (rows.map fun r => r.1.length).foldl max 0
  rows.map fun (left, right) =>
    "  " ++ left ++ String.ofList (List.replicate (width - left.length) ' ') ++ "  " ++ right

/-- The lines about options, a line an option. -/
def optionLines (options : List OptionHelp) : List String :=
  "Options:" :: columns (options.map fun o => (o.mark, o.about))

/-- The lines about options, with a paragraph an option. -/
def optionParagraphs (options : List OptionHelp) : List String :=
  let paragraphs := options.map fun o => ["  " ++ o.mark, "          " ++ o.about]
  "Options:" :: [""].intercalate paragraphs

/-- The explanation of a job. -/
def JobName.usage (t : JobName) : List String :=
  [t.about, "", separated " " (["Usage:", programName, t.word, "[OPTIONS]"] ++ t.wordNames), "",
    "Arguments:"] ++ columns (t.wordNames.map fun w => (w, "")) ++ [""] ++
    optionLines (t.optionHelps ++ [⟨"-h, --help", "Print help"⟩])

/-- What the explanations are. -/
def helpAbout : String := "Print this message or the help of the given subcommand(s)"

/-- The explanation of the explanations. -/
def helpUsage : List String :=
  let word := "[COMMAND]..."
  [helpAbout, "", separated " " ["Usage:", programName, helpWord, word], "", "Arguments:"] ++
    columns [(word, "Print help for the subcommand(s)")]

/-- The lines about jobs. -/
def jobLines : List String :=
  "Commands:" :: columns (JobName.all.map (fun t => (t.word, t.about)) ++ [(helpWord, helpAbout)])

/-- The explanation of the program. -/
def programUsage (long : Bool) : List String :=
  let call := separated " " ["Usage:", programName, "[OPTIONS]", "<COMMAND>"]
  let versionHelp : OptionHelp := ⟨"-V, --version", "Print version"⟩
  if long then
    ["Bog samples `event(Voice, Pitch, Vel, T)` on a beat grid and plays every solution. " ++
        "Edits take effect on the next bar.", "", call, ""] ++ jobLines ++ [""] ++
      optionParagraphs [configHelp, logFileHelp,
        ⟨"-h, --help", "Print help (see a summary with '-h')"⟩, versionHelp]
  else
    ["Bog: a live coding language where patterns are Prolog-style clauses.", "", call, ""] ++
      jobLines ++ [""] ++ optionLines [configHelp, logFileHelp,
        ⟨"-h, --help", "Print help (see more with '--help')"⟩, versionHelp]

/-- **The explanation of a topic.** -/
def usage (topic : Topic) (long : Bool) : String :=
  let lines :=
    match topic with
    | .program => programUsage long
    | .job t => t.usage
    | .help => helpUsage
  String.join (lines.map fun line => line ++ "\n")

end RhythmLogic
