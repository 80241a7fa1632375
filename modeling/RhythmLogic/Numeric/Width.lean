/-
**Whole numbers of a fixed width.**

Counting and indexing is done in machine integers, which end.  An operation here gives no result
where the machine's would leave its range or divide by zero, so that staying inside is something to
be proved and not something that happens silently.

Main definitions:

* `Width`, `Width.fit` — the signed and unsigned ranges, and the numbers that fit;
* `Width.add`, `Width.mul`, `Width.quotient`, `Width.remainder`, `Width.residue` — arithmetic inside a range.
-/

set_option autoImplicit false

namespace RhythmLogic

/-- The ranges that are computed in. -/
inductive Width where
  | signed64
  | unsigned64
  | signed128
deriving DecidableEq, Repr

namespace Width

/-- The least number of a range. -/
def least : Width → Int
  | signed64 => -9223372036854775808
  | unsigned64 => 0
  | signed128 => -170141183460469231731687303715884105728

/-- The greatest number of a range. -/
def greatest : Width → Int
  | signed64 => 9223372036854775807
  | unsigned64 => 18446744073709551615
  | signed128 => 170141183460469231731687303715884105727

/-- The number, if it lies in the range. -/
def fit (w : Width) (x : Int) : Option Int :=
  if w.least ≤ x ∧ x ≤ w.greatest then some x else none

theorem fit_eq_some {w : Width} {x : Int} (lo : w.least ≤ x) (hi : x ≤ w.greatest) :
    w.fit x = some x := if_pos ⟨lo, hi⟩

theorem fit_eq_some_iff {w : Width} {x y : Int} :
    w.fit x = some y ↔ (w.least ≤ x ∧ x ≤ w.greatest) ∧ x = y := by
  unfold fit
  split
  · rename_i h
    simp [h]
  · rename_i h
    exact ⟨fun e => by simp at e, fun e => absurd e.1 h⟩

/-- The sum, inside the range. -/
def add (w : Width) (x y : Int) : Option Int := w.fit (x + y)

/-- The difference, inside the range. -/
def sub (w : Width) (x y : Int) : Option Int := w.fit (x - y)

/-- The product, inside the range. -/
def mul (w : Width) (x y : Int) : Option Int := w.fit (x * y)

/-- The quotient with its fraction dropped; there is none by zero. -/
def quotient (w : Width) (x y : Int) : Option Int :=
  if y = 0 then none else w.fit (x.tdiv y)

/-- The remainder that the quotient leaves; there is none by zero, and none where the quotient would
overflow. -/
def remainder (w : Width) (x y : Int) : Option Int :=
  if y = 0 then none else if x = w.least ∧ y = -1 then none else some (x.tmod y)

/-- The nonnegative remainder; there is none by zero, and none where the quotient would overflow. -/
def residue (w : Width) (x y : Int) : Option Int :=
  if y = 0 then none else if x = w.least ∧ y = -1 then none else some (x % y)

theorem residue_of_pos {w : Width} {x y : Int} (h : 0 < y) : w.residue x y = some (x % y) := by
  unfold residue
  rw [if_neg (by omega), if_neg (by omega)]

/-- What is not negative leaves the same remainder either way. -/
theorem remainder_of_nonneg {w : Width} {x y : Int} (hx : 0 ≤ x) (hy : 0 < y) :
    w.remainder x y = some (x % y) := by
  unfold remainder
  rw [if_neg (by omega), if_neg (by omega), Int.tmod_eq_emod_of_nonneg hx]

end Width

end RhythmLogic
