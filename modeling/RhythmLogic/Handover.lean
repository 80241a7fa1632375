/-
**Handover: from one program to the next, at a bar line.**

Main definitions:

* `Handover`, `Handover.new` — the length of a bar in beats, and the program that waits;
* `Handover.schedule`, `Handover.cancel`, `Handover.process` — queueing a program, dropping it, and
  handing it to the transport when its bar has come.
-/

import RhythmLogic.BarLine
import RhythmLogic.Transport.Basic

set_option autoImplicit false

namespace RhythmLogic

open Quantity

/-- A program that waits for its bar line. -/
structure Waiting (α : Type) where
  program : Program
  boundary : α

/-- The length of a bar in beats, and the program that waits. -/
structure Handover (α : Type) where
  barBeats : α
  waiting : Option (Waiting α)

namespace Handover

variable {α : Type} [Quantity α]

/-- A bar of four beats, unless another positive length is given. -/
def barOf (beats : α) : α := if isPositive beats then beats else ofInt 4

/-- Nothing waits. -/
def new (beats : α) : Handover α := ⟨barOf beats, none⟩

/-- Bars of another length, from the next program on. -/
def setBar (h : Handover α) (beats : α) : Handover α := { h with barBeats := barOf beats }

/-- The length of a bar in seconds. -/
def barDuration (h : Handover α) (s : Transport α) : α := s.timing.beatDuration * h.barBeats

/-- **Queues a program** for the first bar line at or after `now`, and gives that bar line.  A
program that waited before is dropped. -/
def schedule (h : Handover α) (p : Program) (now : α) (s : Transport α) : Step (Handover α) α :=
  let boundary := nextBoundary now (h.barDuration s)
  ⟨{ h with waiting := some ⟨p, boundary⟩ }, boundary, [.notice (.queued (toFloat boundary))]⟩

/-- Drops the program that waits. -/
def cancel (h : Handover α) : Handover α := { h with waiting := none }

/-- The bar line of a program has come, up to the slack. -/
def isDue (w : Waiting α) (now : α) : Bool := le w.boundary (now + slack)

/-- **Hands the waiting program to the transport** if its bar line has come. -/
def process (h : Handover α) (now : α) (s : Transport α) :
    Step (Handover α × Transport α) Bool :=
  match h.waiting with
  | none => ⟨(h, s), false, []⟩
  | some w =>
      if isDue w now then
        let (s, signals) := s.setProgram w.program
        ⟨(h.cancel, s), true, .notice (.swapping (toFloat w.boundary)) :: signals⟩
      else ⟨(h, s), false, []⟩

end Handover

end RhythmLogic
