/-
**Timing: tempo, swing, lookahead and grid.**

Main definitions:

* `Timing`, `Timing.standard`, `Timing.configure` — the four settings, and how they are changed;
* `Timing.beatDuration`, `Timing.step` — the length of a beat and of a grid step, in seconds;
* `Timing.firstIndex`, `Timing.gridTimes` — the grid times that are due at a tick;
* `swingAdjust` — the delay of odd eighths.
-/

import RhythmLogic.Quantity

set_option autoImplicit false

namespace RhythmLogic

open Quantity

/-- Tempo in beats a minute, swing from zero to one, lookahead in milliseconds and grid in
beats. -/
structure Timing (α : Type) where
  bpm : α
  swing : α
  lookahead : α
  grid : α

namespace Timing

variable {α : Type} [Quantity α]

/-- The settings where none are given. -/
def standard : Timing α := ⟨ofInt 120, ofInt 0, ofInt 80, ofDecimal 25 2⟩

/-- **Changes the settings.**  A tempo, lookahead or grid that is not positive keeps the current
one, and the swing is moved into its range. -/
def configure (s : Timing α) (bpm swing lookahead grid : α) : Timing α where
  bpm := if isPositive bpm then bpm else s.bpm
  swing := if isDefined swing then clampUnit swing else s.swing
  lookahead := if isPositive lookahead then lookahead else s.lookahead
  grid := if isPositive grid then grid else s.grid

/-- The length of a beat, in seconds. -/
def beatDuration (s : Timing α) : α := ofInt 60 / s.bpm

/-- The length of a grid step, in seconds. -/
def step (s : Timing α) : α := s.beatDuration * s.grid

/-- The end of the window that a tick looks into. -/
def horizon (s : Timing α) (now : α) : α := now + s.lookahead / ofInt 1000

/-- The first grid index that is due: that of the present, but none that was dispatched before. -/
def firstIndex (s : Timing α) (last : Option α) (now : α) : Int :=
  let here := floor (now / s.step)
  match last with
  | some t => max here (floorSucc (t / s.step + slack))
  | none => here

/-- The grid times from an index on that are before the horizon, or `none` if the indexes end
first. -/
def timesFrom (step horizon : α) : Nat → Int → Option (List α)
  | 0, _ => none
  | fuel + 1, k =>
      let t := ofInt k * step
      if le horizon t then some [] else (timesFrom step horizon fuel (k + 1)).map (t :: ·)

/-- **The grid times that are due at a tick,** in order. -/
def gridTimes (s : Timing α) (last : Option α) (now : α) : Option (List α) :=
  let k := s.firstIndex last now
  timesFrom s.step (s.horizon now) (indexes k s.step (s.horizon now)) k

end Timing

/-- **The time of an event with swing:** an odd eighth is delayed by a part of an eighth. -/
def swingAdjust {α : Type} [Quantity α] (t bpm swing : α) : α :=
  let eighth := ofInt 60 / bpm / ofInt 2
  if floor (t / eighth) % 2 = 1 then t + swing * eighth else t

end RhythmLogic
