/-
**The console: what a run of the program writes.**

Main definitions:

* `Sink`, `Console` — the two outputs, and what was written to them;
* `Console.print`, `Console.tell`, `Console.observe` — lines, messages, and the messages among some
  signals;
* `Failure`, `Failure.report` — why a run fails, and the report of it;
* `Act` — what may write, and may fail.
-/

import RhythmLogic.Halt
import RhythmLogic.Log.Logger
import RhythmLogic.Signal

set_option autoImplicit false

namespace RhythmLogic

/-- The two outputs. -/
inductive Sink where
  | output | error
deriving DecidableEq, Repr

/-- What was written, the latest first, and the logger that messages go through. -/
structure Console where
  logger : Logger
  written : List (Sink × String)

namespace Console

/-- Nothing was written yet. -/
def new (logger : Logger) : Console := ⟨logger, []⟩

/-- Writes a text. -/
def write (c : Console) (sink : Sink) (text : String) : Console :=
  { c with written := (sink, text) :: c.written }

/-- Writes a line to the output. -/
def print (c : Console) (line : String) : Console := c.write .output (line ++ "\n")

/-- The output that a message goes to: grave messages go to the errors. -/
def sinkOf (m : Message) : Sink :=
  match m.severity with
  | .fatal | .error => .error
  | _ => .output

/-- What a logger brings out: messages on the terminal, and complaints among the errors. -/
def deliver (c : Console) : Delivery → Console
  | .terminal m => c.write (sinkOf m) (m.text ++ "\n")
  | .host _ => c
  | .unwritten e => c.write .error (unwrittenText e ++ "\n")

/-- **Tells a message,** wherever the logger sends it. -/
def tell (c : Console) (m : Message) : Console :=
  let (logger, deliveries) := c.logger.log m
  deliveries.foldl deliver { c with logger := logger }

/-- Tells the messages among some signals. -/
def observe (c : Console) (signals : List Signal) : Console :=
  (Signal.notices signals).foldl (fun c n => c.tell n.message) c

/-- Everything that was written to one of the outputs. -/
def text (c : Console) (sink : Sink) : String :=
  String.join ((c.written.reverse.filter fun w => w.1 == sink).map (·.2))

end Console

/-! ### Failures -/

/-- Why a run fails: the words, and what lies behind them. -/
structure Failure where
  words : String
  causes : List String
deriving Repr

namespace Failure

/-- A failure that stands for itself. -/
def plain (words : String) : Failure := ⟨words, []⟩

/-- A run without a result. -/
def halted (h : Halt) : Failure := plain h.text

/-- A cause with its number among several. -/
def numbered (cause : String) (number : Nat) : String :=
  "    " ++ naturalText number ++ ": " ++ cause ++ "\n"

/-- **The report of a failure.**  Several causes are numbered. -/
def report (f : Failure) : String :=
  let causes :=
    match f.causes with
    | [] => ""
    | [cause] => "\nCaused by:\n    " ++ cause ++ "\n"
    | several => "\nCaused by:\n" ++ String.join (several.mapIdx fun i cause => numbered cause i)
  "Error: " ++ f.words ++ "\n" ++ causes

end Failure

/-! ### Acting -/

/-- What may write to a console, and may fail. -/
abbrev Act (α : Type) : Type := ExceptT Failure (StateM Console) α

namespace Act

/-- Writes a line. -/
def print (line : String) : Act Unit := modify fun c => c.print line

/-- Writes a text that does not end its line. -/
def write (text : String) : Act Unit := modify fun c => c.write .output text

/-- Tells a notice. -/
def tell (n : Notice) : Act Unit := modify fun c => c.tell n.message

/-- Tells the notices among some signals. -/
def observe (signals : List Signal) : Act Unit := modify fun c => c.observe signals

end Act

end RhythmLogic
