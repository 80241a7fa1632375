/-
**Builtins that gate on time.**

Times are seconds; the tempo turns them into beats.

Main definitions:

* `beatsAt`, `onGrid` — seconds as beats, and closeness to a whole number;
* `stepIndex`, `euclideanGate` — the step of a cycle, and whether a Euclidean rhythm strikes there;
* `Builtin.within`, `Builtin.cooldown`, `Builtin.every`, `Builtin.beat`, `Builtin.phase`,
  `Builtin.euclid`.
-/

import RhythmLogic.Builtin.Comparison
import RhythmLogic.Numeric.Width

set_option autoImplicit false

namespace RhythmLogic

/-- Seconds as beats. -/
def beatsAt (seconds bpm : Float) : Float := seconds * bpm / 60.0

/-- How close to a line of the grid a position counts as on it. -/
def gridTolerance : Float := 1e-4

/-- The position is on a line of the grid. -/
def onGrid (x : Float) : Bool := (x - x.nearestWhole).abs < gridTolerance

/-- The step in which a time falls, when a cycle of some beats has `steps` steps. -/
def stepIndex (time : Float) (steps : Int) (cycleBeats bpm : Float) : Option Int :=
  let cycles := beatsAt time bpm / cycleBeats
  Width.signed64.residue ((cycles * Float.ofInt steps).index .nearest) steps

/-- **A Euclidean rhythm strikes at step `s`:** `onsets` strokes are spread as evenly as possible
over `steps` steps, and the pattern is turned by `rotation` steps. -/
def euclideanGate (s steps onsets rotation : Int) : Option Bool := do
  let turn ← Width.signed128.residue rotation steps
  let moved ← Width.signed128.add s turn
  let place ← Width.signed128.remainder moved steps
  let product ← Width.signed128.mul place onsets
  let rest ← Width.signed128.remainder product steps
  some (decide (rest < onsets))

namespace Builtin

open Body

/-- `within(T, Lo, Hi)`: a range with its ends. -/
def within : Builtin := tripleTest "within" fun t lo hi => t ≥ lo && t ≤ hi

/-- `cooldown(Now, Last, Gap)`: at least `Gap` seconds have passed. -/
def cooldown : Builtin := tripleTest "cooldown" fun now last gap => now - last ≥ gap

/-- `every(T, Step)`: a multiple of some beats. -/
def every : Builtin where
  name := "every"
  arity := 2
  run bpm args e :=
    match args with
    | [time, step] => do
        let t ← number e time
        let s ← number e step
        if s ≤ 0.0 then refuse (.gridStep s)
        else succeedIf (onGrid (beatsAt t bpm / s)) e
    | _ => misused

/-- `beat(T, N)`: a line of the grid with `N` lines a beat. -/
def beat : Builtin where
  name := "beat"
  arity := 2
  run bpm args e :=
    match args with
    | [time, lines] => do
        let t ← number e time
        let n ← number e lines
        succeedIf (onGrid (beatsAt t bpm * n)) e
    | _ => misused

/-- `phase(T, N, K)`: the line `K`, counted around, of the grid with `N` lines a beat. -/
def phase : Builtin where
  name := "phase"
  arity := 3
  run bpm args e :=
    match args with
    | [time, lines, line] => do
        let t ← number e time
        let n ← number e lines
        let k ← number e line
        let steps := n.index .towardZero
        if steps ≤ 0 then refuse (.gridSize n)
        else
          let place ← machine (Width.signed64.residue ((beatsAt t bpm * n).index .nearest) steps)
          let wanted ← machine (Width.signed64.residue (k.index .towardZero) steps)
          succeedIf (place == wanted) e
    | _ => misused

/-- `euc(T, K, N, B, R)`: the Euclidean rhythm of `K` strokes over `N` steps, one cycle every `B`
beats, turned by `R` steps. -/
def euclid : Builtin where
  name := "euc"
  arity := 5
  run bpm args e :=
    match args with
    | [time, strokes, size, beats, turn] => do
        let t ← number e time
        let k ← number e strokes
        let n ← number e size
        let b ← number e beats
        let r ← number e turn
        if !(k.isFinite && n.isFinite && n ≥ 1.0 && k ≥ 0.0 && k ≤ n) then pure ()
        else if b ≤ 0.0 then refuse (.cycleLength b)
        else
          let steps := n.index .towardZero
          let s ← machine (stepIndex t steps b bpm)
          let strikes ←
            machine (euclideanGate s steps (k.index .towardZero) (r.index .towardZero))
          succeedIf strikes e
    | _ => misused

end Builtin

end RhythmLogic
