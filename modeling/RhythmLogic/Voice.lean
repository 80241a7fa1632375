/-
**Voices and the triggers that sound them.**

A solution of the event query names a voice.  Drums are struck with a velocity only; melodic voices
have a pitch too.

Main definitions:

* `Voice`, `Voice.name`, `Voice.ofName?` — the voices and their names;
* `Trigger`, `Trigger.of`, `Trigger.text` — one scheduled note, how a voice makes it, and its text.
-/

import RhythmLogic.Numeric.Text

set_option autoImplicit false

namespace RhythmLogic

/-- The voices that an event may name. -/
inductive Voice where
  | kick | snare | hat | clap | noise
  | sine | square | triangle
deriving DecidableEq, Repr

namespace Voice

/-- All voices. -/
def all : List Voice := [kick, snare, hat, clap, noise, sine, square, triangle]

/-- The name of a voice. -/
def name : Voice → String
  | kick => "kick"
  | snare => "snare"
  | hat => "hat"
  | clap => "clap"
  | noise => "noise"
  | sine => "sine"
  | square => "square"
  | triangle => "triangle"

/-- The voice with a given name. -/
def ofName? (s : String) : Option Voice := all.find? fun v => v.name == s

/-- Why there is no voice of a given name. -/
def unknownText (s : String) : String := "unknown voice '" ++ s ++ "'"

/-- Melodic voices take a pitch. -/
def isMelodic : Voice → Bool
  | sine | square | triangle => true
  | _ => false

theorem ofName?_name (v : Voice) : ofName? v.name = some v := by cases v <;> rfl

end Voice

/-- One scheduled note. -/
structure Trigger where
  voice : Voice
  time : Float
  pitch : Option Float
  velocity : Float
deriving Repr

namespace Trigger

/-- **The note of a voice:** drums ignore the pitch. -/
def of (voice : Voice) (time pitch velocity : Float) : Trigger :=
  ⟨voice, time, if voice.isMelodic then some pitch else none, velocity⟩

/-- **The text of a note.** -/
def text (t : Trigger) : String :=
  let pitch :=
    match t.pitch with
    | some p => " pitch " ++ floatText p
    | none => ""
  fixedText 3 t.time ++ "s " ++ t.voice.name ++ pitch ++ " vel " ++ fixedText 2 t.velocity

end Trigger

end RhythmLogic
