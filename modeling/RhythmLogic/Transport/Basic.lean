/-
**The transport: what plays, and when.**

A host ticks the transport every few hundredths of a second.  A tick asks the program at every grid
time in the window between the present and the lookahead that was not asked before, and sends each
solution of the event query to the output as a note.

Main definitions:

* `Output` — where notes go: a recorder, a narrator that tells them, or nothing;
* `Transport` — program, timing, memory, and the state of the clock;
* `Transport.setProgram`, `Transport.configure`, `Transport.start`, `Transport.stop`;
* `Transport.dispatch`, `Transport.tickAt` — one grid time, and one tick.
-/

import RhythmLogic.Search
import RhythmLogic.Signal
import RhythmLogic.Subscribers
import RhythmLogic.Transport.Timing

set_option autoImplicit false

namespace RhythmLogic

open Quantity

/-! ### Outputs -/

/-- Where notes go.  `clock` is the time that the output shows. -/
inductive Output (α : Type) where
  /-- Keeps the notes; its clock is set by hand. -/
  | recorder (clock : α) (inits : Nat)
  /-- Tells each note; its clock starts with the transport. -/
  | narrator (clock : α) (played : Nat)
  /-- Drops the notes. -/
  | silent (clock : α)

namespace Output

variable {α : Type} [Quantity α]

/-- The time that the output shows. -/
def clock : Output α → α
  | recorder clock _ => clock
  | narrator clock _ => clock
  | silent clock => clock

/-- The output at another time. -/
def setClock (clock : α) : Output α → Output α
  | recorder _ inits => recorder clock inits
  | narrator _ played => narrator clock played
  | silent _ => silent clock

/-- The output when the transport starts. -/
def init : Output α → Output α × List Signal
  | recorder clock inits => (recorder clock (inits + 1), [])
  | narrator _ played => (narrator (ofInt 0) played, [.notice .outputReady])
  | silent clock => (silent clock, [])

/-- The output after a note. -/
def play (t : Trigger) : Output α → Output α × List Signal
  | narrator clock played => (narrator clock (played + 1), [.notice (.played t), .note t])
  | other => (other, [.note t])

end Output

/-! ### The transport -/

/-- What plays, and when.  Listeners are named by numbers. -/
structure Transport (α : Type) where
  output : Output α
  builtins : BuiltinTable
  program : Option Program
  memory : Memory
  chance : Chance
  timing : Timing α
  maxDepth : Nat
  running : Bool
  /-- The beat of the latest tick. -/
  beat : Int
  /-- The latest grid time that was dispatched. -/
  last : Option α
  listeners : Subscribers Nat

namespace Transport

/-- The pitch of an event without one. -/
def defaultPitch : Float := 48.0

/-- The velocity of an event without one. -/
def defaultVelocity : Float := 0.7

variable {α : Type} [Quantity α]

/-- A transport that stands, without a program. -/
def new [Generator] (output : Output α) (builtins : BuiltinTable) (seed : Nat) :
    Transport α where
  output := output
  builtins := builtins
  program := none
  memory := .empty
  chance := .ofSeed seed
  timing := .standard
  maxDepth := defaultDepth
  running := false
  beat := 0
  last := none
  listeners := .empty

/-- Plays another program. -/
def setProgram (s : Transport α) (p : Program) : Transport α × List Signal :=
  ({ s with program := some p }, [.notice (.programSet p.size)])

/-- Plays no program. -/
def clearProgram (s : Transport α) : Transport α := { s with program := none }

/-- Changes the timing. -/
def configure (s : Transport α) (bpm swing lookahead grid : α) : Transport α × List Signal :=
  let timing := s.timing.configure bpm swing lookahead grid
  ({ s with timing := timing },
    [.notice (.settings (toFloat timing.bpm) (toFloat timing.swing) (toFloat timing.lookahead)
      (toFloat timing.grid))])

/-- Changes the tempo alone. -/
def setBpm (s : Transport α) (bpm : α) : Transport α × List Signal :=
  s.configure bpm s.timing.swing (ofInt 0) (ofInt 0)

/-- Changes the swing alone. -/
def setSwing (s : Transport α) (swing : α) : Transport α × List Signal :=
  s.configure (ofInt 0) swing (ofInt 0) (ofInt 0)

/-- Every listener is told a beat, in the order in which they came. -/
def notifyBeat (s : Transport α) (number : Int) : List Signal :=
  s.listeners.tags.map fun listener => .beat listener number

/-- The transport runs. -/
def start (s : Transport α) : Transport α × List Signal :=
  let (output, signals) := s.output.init
  ({ s with output := output, running := true },
    signals ++ [.notice (.started (toFloat s.timing.bpm))])

/-- **The transport stands:** the memory is empty, the grid starts anew, and listeners are told the
beat zero. -/
def stop (s : Transport α) : Transport α × List Signal :=
  ({ s with running := false, beat := 0, last := none, memory := .empty },
    .notice .stopped :: s.notifyBeat 0)

/-- The time that the output shows. -/
def now (s : Transport α) : α := s.output.clock

/-! ### Grid times -/

/-- The query that is asked at a grid time. -/
def eventQuery (t : α) : List Goal :=
  [.call (.compound "event" [.var "Voice", .var "Pitch", .var "Vel", .number (toFloat t)])]

/-- The velocity of a solution, from zero to one. -/
def velocityOf (e : Bindings) : Float :=
  match (e.subst (.var "Vel")).evaluate with
  | some v => clampUnit v
  | none => defaultVelocity

/-- The pitch of a solution. -/
def pitchOf (e : Bindings) : Float := ((e.subst (.var "Pitch")).evaluate).getD defaultPitch

/-- What a solution of the event query becomes: a note, or a notice that it names no voice. -/
def noteOf (t sounding : Float) (e : Bindings) : Except Notice Trigger :=
  match e.subst (.var "Voice") with
  | .atom name =>
      match Voice.ofName? name with
      | some voice => .ok (.of voice sounding (pitchOf e) (velocityOf e))
      | none => .error (.unknownVoice t name)
  | other => .error (.notAVoice t other)

/-- The solutions of one grid time, sent to the output in order.  The notes are counted. -/
def playAll (t sounding : Float) :
    List Bindings → Output α → Nat → Output α × Nat × List Signal
  | [], output, fired => (output, fired, [])
  | e :: rest, output, fired =>
      match noteOf t sounding e with
      | .error n =>
          let (output, fired, signals) := playAll t sounding rest output fired
          (output, fired, .notice n :: signals)
      | .ok trigger =>
          let (output, first) := output.play trigger
          let (output, fired, signals) := playAll t sounding rest output (fired + 1)
          (output, fired, first ++ signals)

/-- **One grid time:** the program is asked for events, and each solution is played. -/
def dispatch (s : Transport α) (p : Program) (t : α) :
    Except Halt (Step (Transport α) Nat) :=
  let k : Knowledge := ⟨p, s.builtins, max 1 s.maxDepth, toFloat s.timing.bpm⟩
  match solve k (eventQuery t) .empty ⟨⟨s.memory, s.chance, []⟩, 0, false⟩ with
  | .error h => .error h
  | .ok (found, progress) =>
      let sounding := toFloat (swingAdjust t s.timing.bpm s.timing.swing)
      let (output, fired, signals) := playAll (toFloat t) sounding found s.output 0
      let w := progress.world
      let s := { s with
        output := output, memory := w.memory, chance := w.chance, last := some t }
      .ok ⟨s, fired, w.notices.reverse.map .notice ++ signals⟩

/-- Several grid times, one after the other.  The notes are counted. -/
def dispatchAll (p : Program) : List α → Transport α → Except Halt (Step (Transport α) Nat)
  | [], s => .ok ⟨s, 0, []⟩
  | t :: rest, s =>
      match dispatch s p t with
      | .error h => .error h
      | .ok first =>
          match dispatchAll p rest first.state with
          | .error h => .error h
          | .ok more =>
              .ok ⟨more.state, first.result + more.result, first.signals ++ more.signals⟩

/-- **One tick:** listeners are told a new beat, and the grid times that are due are dispatched.  The
result is the number of notes. -/
def tickAt (s : Transport α) (now : α) : Except Halt (Step (Transport α) Nat) :=
  if !s.running then .ok ⟨s, 0, []⟩
  else
    let beat := floor (now / s.timing.beatDuration)
    let crossing := if beat ≠ s.beat then s.notifyBeat beat else []
    let s := { s with beat := beat }
    match s.program with
    | none => .ok ⟨s, 0, crossing⟩
    | some p =>
        match s.timing.gridTimes s.last now with
        | none => .error .grid
        | some times =>
            match dispatchAll p times s with
            | .error h => .error h
            | .ok played => .ok ⟨played.state, played.result, crossing ++ played.signals⟩

/-- One tick at the time that the output shows. -/
def tick (s : Transport α) : Except Halt (Step (Transport α) Nat) := s.tickAt s.now

end Transport

end RhythmLogic
