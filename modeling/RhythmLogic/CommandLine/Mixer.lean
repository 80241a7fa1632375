/-
**A generator of random numbers: a counter with mixed bits.**

The state is a 64-bit counter that goes in odd steps, and its bits are mixed before use.

Main definitions:

* `mixed` — the next 64 bits, and the next state;
* `mixer` — the generator that is drawn from where nothing else is said.
-/

import RhythmLogic.Chance

set_option autoImplicit false

namespace RhythmLogic

/-- The next 64 bits, and the next state. -/
def mixed (state : Nat) : UInt64 × Nat :=
  let counter := UInt64.ofNat state + 0x9e3779b97f4a7c15
  let a := (counter ^^^ (counter >>> 30)) * 0xbf58476d1ce4e5b9
  let b := (a ^^^ (a >>> 27)) * 0x94d049bb133111eb
  (b ^^^ (b >>> 31), counter.toNat)

/-- **The generator that is drawn from where nothing else is said.**  A number up to one has 53 bits
after the point.  For a number below a bound, twice 64 bits are drawn, so that the numbers are as
good as equally likely for every bound that fits 64 bits. -/
instance mixer : Generator where
  ofSeed seed := seed
  unit state :=
    let (bits, state) := mixed state
    ((bits >>> 11).toFloat / 9007199254740992.0, state)
  below state bound :=
    let (high, state) := mixed state
    let (low, state) := mixed state
    ((high.toNat * 18446744073709551616 + low.toNat) % bound, state)
  below_lt _ _ hpos := Nat.mod_lt _ hpos

end RhythmLogic
