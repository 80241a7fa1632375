/-
**Signals: everything a host can observe.**

An operation returns its signals in the order in which they happen: notices, beats that listeners
are told, notes that reach the output, and outcomes of edits.

Main definitions:

* `Validation` — the outcome of an edit;
* `Signal` — one thing that a host observes;
* `Step` — a new state, a result, and the signals on the way.
-/

import RhythmLogic.Notice
import RhythmLogic.Program.Basic

set_option autoImplicit false

namespace RhythmLogic

/-- The outcome of an edit: its text, completed, and the program or the refusal. -/
structure Validation where
  text : String
  outcome : Except ParseError Program

/-- The edit was accepted. -/
def Validation.success (v : Validation) : Bool :=
  match v.outcome with
  | .ok _ => true
  | .error _ => false

/-- The program of an accepted edit. -/
def Validation.program? (v : Validation) : Option Program :=
  match v.outcome with
  | .ok p => some p
  | .error _ => none

/-- Why the edit was refused. -/
def Validation.error? (v : Validation) : Option ParseError :=
  match v.outcome with
  | .ok _ => none
  | .error e => some e

/-- One thing that a host observes. -/
inductive Signal where
  /-- A notice is told. -/
  | notice (n : Notice)
  /-- A listener is told the number of the beat. -/
  | beat (listener : Nat) (number : Int)
  /-- A note reaches the output. -/
  | note (trigger : Trigger)
  /-- A listener is told the outcome of an edit. -/
  | validated (listener : Nat) (event : Validation)

namespace Signal

/-- The notices among some signals. -/
def notices (signals : List Signal) : List Notice :=
  signals.filterMap fun
    | notice n => some n
    | _ => none

/-- The notes among some signals. -/
def notes (signals : List Signal) : List Trigger :=
  signals.filterMap fun
    | note t => some t
    | _ => none

/-- The beats that listeners are told. -/
def beats (signals : List Signal) : List (Nat × Int) :=
  signals.filterMap fun
    | beat listener number => some (listener, number)
    | _ => none

/-- The outcomes of edits that listeners are told. -/
def validations (signals : List Signal) : List (Nat × Validation) :=
  signals.filterMap fun
    | validated listener event => some (listener, event)
    | _ => none

end Signal

/-- A new state, a result, and the signals on the way. -/
structure Step (σ ρ : Type) where
  state : σ
  result : ρ
  signals : List Signal

end RhythmLogic
