/-
**Chance: a stream of random numbers.**

Where random numbers come from is left open: a generator is given from outside, and all that is
known of it is that a number drawn below a bound is below the bound.  Chance is a generator in one
of its states, and goes with what it is drawn for.

Main definitions:

* `Generator` — how states begin, and what a state gives;
* `Chance`, `Chance.ofSeed` — a generator in one of its states;
* `Chance.unit` — a number from zero up to, but not including, one;
* `Chance.below` — a natural number below a bound.
-/

set_option autoImplicit false

namespace RhythmLogic

/-- **A generator of random numbers.**  Its states are numbered, and a draw ends in the next one. -/
class Generator where
  /-- The state that a seed begins in. -/
  ofSeed : Nat → Nat
  /-- A number from zero up to, but not including, one. -/
  unit : Nat → Float × Nat
  /-- A natural number below a bound, which comes second. -/
  below : Nat → Nat → Nat × Nat
  below_lt : ∀ state bound, 0 < bound → (below state bound).1 < bound

/-- A stream of random numbers: a generator in one of its states. -/
structure Chance where
  generator : Generator
  state : Nat

namespace Chance

/-- The stream of a seed. -/
def ofSeed [generator : Generator] (seed : Nat) : Chance := ⟨generator, generator.ofSeed seed⟩

/-- **A number from zero up to, but not including, one.** -/
def unit (c : Chance) : Float × Chance :=
  let (x, state) := c.generator.unit c.state
  (x, { c with state := state })

/-- **A natural number below a bound.**  There is none below zero. -/
def below (c : Chance) (bound : Nat) : Option (Nat × Chance) :=
  if bound = 0 then none
  else
    let (n, state) := c.generator.below c.state bound
    some (n, { c with state := state })

/-- A bound that is positive has a number below it. -/
theorem exists_below (c : Chance) {bound : Nat} (hpos : 0 < bound) :
    ∃ drawn chance, c.below bound = some (drawn, chance) ∧ drawn < bound := by
  rw [below, if_neg (Nat.ne_of_gt hpos)]
  exact ⟨_, _, rfl, c.generator.below_lt c.state bound hpos⟩

end Chance

end RhythmLogic
