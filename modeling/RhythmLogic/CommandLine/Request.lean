/-
**Requests: what the arguments of the program ask for.**

A job is named by a word.  Options may stand before and after that word, and those that stand
after it belong to the job; an option may be given once at each of the two places.  A value may
follow its option or be joined to it by an equals sign, but then only a joined value may start with
a hyphen.  Everything after `--` is taken as it is.  The first fault counts, except that an
explanation of the job is given before a fault in the last value before the name of that job.

Main definitions:

* `Job`, `Invocation`, `Topic`, `Request` — what can be asked for;
* `Form`, `Given`, `Form.scan` — the options and words that a place takes, what was found there, and
  finding it;
* `Request.ofArguments` — the request of some arguments.
-/

import RhythmLogic.Numeric.Text

set_option autoImplicit false

namespace RhythmLogic

/-! ### Requests -/

/-- What is done with a program. -/
inductive Job where
  | check (file : String) (asJson : Bool)
  | query (file goal : String)
  | play (file : String) (bpm swing seconds : Option Float)
  | repl (file : Option String)
deriving Repr

/-- A job, and the options that every job has. -/
structure Invocation where
  configPath : Option String
  logsToFile : Bool
  job : Job
deriving Repr

/-- The names of the jobs. -/
inductive JobName where
  | check | query | play | repl
deriving DecidableEq, Repr

namespace JobName

/-- All jobs. -/
def all : List JobName := [check, query, play, repl]

/-- The word that names a job. -/
def word : JobName → String
  | check => "check"
  | query => "query"
  | play => "play"
  | repl => "repl"

/-- The job that a word names. -/
def ofWord? (s : String) : Option JobName := all.find? fun t => t.word == s

end JobName

/-- What can be explained. -/
inductive Topic where
  | program
  | job (name : JobName)
  /-- The explanations themselves. -/
  | help
deriving DecidableEq, Repr

/-- What the arguments ask for. -/
inductive Request where
  | invoke (i : Invocation)
  /-- The version of the program. -/
  | version
  /-- An explanation; `long` is the fuller one. -/
  | help (topic : Topic) (long : Bool)
  /-- The arguments do not fit. -/
  | misuse
deriving Repr

/-! ### Options and words -/

/-- What a value has to be. -/
inductive ValueKind where
  | path
  | number
  | text
deriving DecidableEq, Repr

/-- A value is of a kind. -/
def ValueKind.fits : ValueKind → String → Bool
  | path, s => !s.isEmpty
  | number, s => (readFloat? s.toList).isSome
  | text, _ => true

/-- What may stand at a place: options with a value, options without, and words. -/
structure Form where
  options : List (String × ValueKind)
  flags : List String
  words : List ValueKind
  /-- The version may be asked for. -/
  hasVersion : Bool

/-- What was found at a place. -/
structure Given where
  values : List (String × String)
  flags : List String
  words : List String
  /-- The value right before the end of the place does not fit. -/
  misfit : Bool

namespace Given

/-- Nothing. -/
def empty : Given := ⟨[], [], [], false⟩

/-- The value of an option. -/
def value? (g : Given) (name : String) : Option String := g.values.lookup name

/-- The number that is the value of an option. -/
def number? (g : Given) (name : String) : Option Float :=
  (g.value? name).bind fun s => readFloat? s.toList

end Given

/-- The two sides of an equals sign, if there is one. -/
def splitEquals (cs : List Char) : List Char × Option (List Char) :=
  let name := cs.takeWhile fun c => c != '='
  match cs.dropWhile fun c => c != '=' with
  | [] => (name, none)
  | _ :: rest => (name, some rest)

/-- An argument, by the look of its start. -/
inductive Argument where
  /-- A word, which may be a single hyphen. -/
  | word (text : String)
  /-- The mark after which all arguments are words. -/
  | divider
  | option (name : String) (value : Option String)
  /-- Options of one letter. -/
  | letters (first : Char)

/-- What an argument looks like. -/
def Argument.of (s : String) : Argument :=
  match s.toList with
  | ['-', '-'] => divider
  | '-' :: '-' :: rest =>
      let (name, value) := splitEquals rest
      option (String.ofList name) (value.map String.ofList)
  | '-' :: first :: _ => letters first
  | _ => word s

namespace Form

/-- An option with its value, unless the value does not fit or is the second one. -/
def put (f : Form) (g : Given) (name value : String) : Except Request Given :=
  match f.options.lookup name with
  | none => .error .misuse
  | some kind =>
      if kind.fits value && (g.value? name).isNone then
        .ok { g with values := g.values ++ [(name, value)] }
      else .error .misuse

/-- An option without a value, unless it is given twice. -/
def raise (g : Given) (name : String) : Except Request Given :=
  if g.flags.contains name then .error .misuse else .ok { g with flags := g.flags ++ [name] }

/-- The next word, unless there are enough or it does not fit. -/
def addWord (f : Form) (g : Given) (text : String) : Except Request Given :=
  match f.words[g.words.length]? with
  | none => .error .misuse
  | some kind =>
      if kind.fits text then .ok { g with words := g.words ++ [text] } else .error .misuse

/-- The words after the divider. -/
def addWords (f : Form) (g : Given) (texts : List String) : Except Request Given :=
  texts.foldlM f.addWord g

/-- An option that stands alone: what was found, and the option that now waits for its value. -/
def option (f : Form) (topic : Topic) (g : Given) (name : String) :
    Option String → Except Request (Given × Option String)
  | some value => (f.put g name value).map fun g => (g, none)
  | none =>
      if (f.options.lookup name).isSome then .ok (g, some name)
      else if f.flags.contains name then (raise g name).map fun g => (g, none)
      else if name = "help" then .error (.help topic true)
      else if name = "version" && f.hasVersion then .error .version
      else .error .misuse

/-- An option of one letter. -/
def letter (f : Form) (topic : Topic) (c : Char) : Request :=
  if c = 'h' then .help topic false
  else if c = 'V' && f.hasVersion then .version
  else .misuse

/-- A value that does not fit.  Right before the end of the place it is only noted, since it shows
after what follows was looked at. -/
def misfitting (ends : String → Bool) (g : Given) (r : Request) :
    List String → Except Request (Given × List String)
  | [] => .error r
  | s :: rest => if ends s then .ok ({ g with misfit := true }, s :: rest) else .error r

/-- **What is found at a place,** up to the first word that ends it, and the arguments from that
word on.  `waiting` is an option whose value comes next. -/
def scan (f : Form) (topic : Topic) (ends : String → Bool) :
    Option String → Given → List String → Except Request (Given × List String)
  | none, g, [] => .ok (g, [])
  | some _, _, [] => .error .misuse
  | some name, g, s :: rest =>
      match Argument.of s with
      | .word value =>
          match f.put g name value with
          | .ok g => scan f topic ends none g rest
          | .error r => misfitting ends g r rest
      | _ => .error .misuse
  | none, g, s :: rest =>
      match Argument.of s with
      | .word text =>
          if ends text then .ok (g, s :: rest)
          else
            match f.addWord g text with
            | .ok g => scan f topic ends none g rest
            | .error r => .error r
      | .divider => (f.addWords g rest).map fun g => (g, [])
      | .option name value =>
          match f.option topic g name value with
          | .ok (g, waiting) => scan f topic ends waiting g rest
          | .error r => .error r
      | .letters c => .error (f.letter topic c)

end Form

/-! ### The places -/

/-- The option that names a document with settings. -/
def configOption : String := "config"

/-- The option that also writes messages to the log file. -/
def logFileOption : String := "log-file"

/-- What may stand before the name of a job. -/
def Form.outer : Form := ⟨[(configOption, .path)], [logFileOption], [], true⟩

/-- What may stand after the name of a job. -/
def JobName.form : JobName → Form
  | check => ⟨[(configOption, .path)], [logFileOption, "json"], [.path], false⟩
  | query => ⟨[(configOption, .path)], [logFileOption], [.path, .text], false⟩
  | play =>
      ⟨[(configOption, .path), ("bpm", .number), ("swing", .number), ("seconds", .number)],
        [logFileOption], [.path], false⟩
  | repl => ⟨[(configOption, .path)], [logFileOption], [.path], false⟩

/-- The job with its options, unless a word is missing. -/
def JobName.job? (t : JobName) (g : Given) : Option Job :=
  match t, g.words with
  | check, [file] => some (.check file (g.flags.contains "json"))
  | query, [file, goal] => some (.query file goal)
  | play, [file] => some (.play file (g.number? "bpm") (g.number? "swing") (g.number? "seconds"))
  | repl, words => some (.repl words.head?)
  | _, _ => none

/-- The word that asks for an explanation. -/
def helpWord : String := "help"

/-- The request of the arguments after the name of a job.  Of an option that stands at both places
the inner value is taken. -/
def JobName.request (t : JobName) (outer : Given) (arguments : List String) : Request :=
  match t.form.scan (.job t) (fun _ => false) none .empty arguments with
  | .error r => r
  | .ok (inner, _) =>
      match t.job? inner with
      | none => .misuse
      | some job =>
          .invoke
            { configPath := (inner.value? configOption) <|> (outer.value? configOption)
              logsToFile := inner.flags.contains logFileOption || outer.flags.contains logFileOption
              job := job }

/-- What a word names. -/
def Topic.ofWord? (s : String) : Option Topic :=
  if s = helpWord then some help else (JobName.ofWord? s).map job

/-- The request for an explanation. -/
def helpRequest : List String → Request
  | [] => .help .program true
  | [word] =>
      match Topic.ofWord? word with
      | some topic => .help topic true
      | none => .misuse
  | _ => .misuse

/-- A request that is answered even where a value before it does not fit. -/
def Request.isHelp : Request → Bool
  | help .. => true
  | _ => false

/-- **The request of some arguments.** -/
def Request.ofArguments (arguments : List String) : Request :=
  match Form.outer.scan .program (fun s => (Topic.ofWord? s).isSome) none .empty arguments with
  | .error r => r
  | .ok (_, []) => .misuse
  | .ok (outer, name :: rest) =>
      let request :=
        match JobName.ofWord? name with
        | some t => t.request outer rest
        | none => helpRequest rest
      if outer.misfit && !request.isHelp then .misuse else request

end RhythmLogic
