/-
**Builtins of pitch: scales, chords and transposition.**

Main definitions:

* `scales`, `chords` — the intervals of each mode and each quality, in half tones above the root;
* `degreePitch` — the pitch of a degree, counted from one;
* `Builtin.scale`, `Builtin.chord`, `Builtin.transposition`.
-/

import RhythmLogic.Builtin.Comparison
import RhythmLogic.Numeric.Width

set_option autoImplicit false

namespace RhythmLogic

/-- The modes and their intervals. -/
def scales : List (String × List Int) :=
  [ ("ionian", [0, 2, 4, 5, 7, 9, 11])
  , ("dorian", [0, 2, 3, 5, 7, 9, 10])
  , ("phrygian", [0, 1, 3, 5, 7, 8, 10])
  , ("lydian", [0, 2, 4, 6, 7, 9, 11])
  , ("mixolydian", [0, 2, 4, 5, 7, 9, 10])
  , ("aeolian", [0, 2, 3, 5, 7, 8, 10])
  , ("locrian", [0, 1, 3, 5, 6, 8, 10])
  , ("major_pent", [0, 2, 4, 7, 9])
  , ("minor_pent", [0, 3, 5, 7, 10])
  , ("blues", [0, 3, 5, 6, 7, 10]) ]

/-- The chord qualities and their intervals. -/
def chords : List (String × List Int) :=
  [ ("maj", [0, 4, 7])
  , ("min", [0, 3, 7])
  , ("sus2", [0, 2, 7])
  , ("sus4", [0, 5, 7])
  , ("dim", [0, 3, 6])
  , ("aug", [0, 4, 8])
  , ("maj7", [0, 4, 7, 11])
  , ("dom7", [0, 4, 7, 10])
  , ("min7", [0, 3, 7, 10]) ]

/-- **The pitch of a degree of a scale,** counted from one.  Degrees past the scale climb octaves;
the number of octaves drops its fraction, so degrees just below one stay in the given octave. -/
def degreePitch (root : Float) (intervals : List Int) (degree : Int) (octave : Float) :
    Option Float := do
  let count := Int.ofNat intervals.length
  let place := saturate (degree - 1)
  let index ← Width.signed64.residue place count
  let interval ← intervals[index.toNat]?
  let climb ← Width.signed64.quotient place count
  some (root + Float.ofInt interval + 12.0 * (octave + Float.ofInt climb))

namespace Builtin

open Body

/-- `scale(Root, Mode, Degree, Octave, Pitch)`. -/
def scale : Builtin where
  name := "scale"
  arity := 5
  run _ args e :=
    match args with
    | [base, mode, step, height, out] => do
        let root ← number e base
        let name ← atom e mode
        let degree ← number e step
        let octave ← number e height
        match scales.lookup name with
        | none => refuse (.scale name)
        | some intervals =>
            let pitch ← machine (degreePitch root intervals (degree.index .towardZero) octave)
            unifyInto e out (.number pitch)
    | _ => misused

/-- `chord(Root, Quality, Octave, Pitch)`: a solution a tone, the lowest first. -/
def chord : Builtin where
  name := "chord"
  arity := 4
  run _ args e :=
    match args with
    | [base, quality, height, out] => do
        let root ← number e base
        let name ← atom e quality
        let octave ← number e height
        match chords.lookup name with
        | none => refuse (.chord name)
        | some intervals =>
            intervals.forM fun i => unifyInto e out (.number (root + Float.ofInt i + 12.0 * octave))
    | _ => misused

/-- `transpose(Note, Offset, Out)`. -/
def transposition : Builtin := sum "transpose"

end Builtin

end RhythmLogic
