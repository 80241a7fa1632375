/-
**Powers of two and of ten.**

Main definitions:

* `twoTo`, `tenTo` — the powers with a natural exponent.
-/

set_option autoImplicit false

namespace RhythmLogic

/-- A power of two. -/
def twoTo (n : Nat) : Nat := Nat.pow 2 n

/-- A power of ten. -/
def tenTo (n : Nat) : Nat := Nat.pow 10 n

end RhythmLogic
