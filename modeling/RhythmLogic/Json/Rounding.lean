/-
**Numbers that come as doubles.**

A whole number of 64 bits comes as it is written.  Any other number comes as a double, and on its
way there it is rounded twice: its leading digits are rounded to a double, which is then multiplied
or divided by a power of ten.  So it may differ in its last digit from the double nearest to it,
which `Numeral.toFloat` gives.

Main definitions:

* `Numeral.leading` — the leading digits that 64 bits hold;
* `Numeral.scaled` — the double that a numeral comes as;
* `Json.settled` — a value with its numbers as they come.
-/

import RhythmLogic.Json.Basic

set_option autoImplicit false

namespace RhythmLogic

namespace Numeral

/-- The greatest number that 64 bits hold. -/
def greatestWord : Nat := 18446744073709551615

/-- **The leading digits that 64 bits hold,** and the number of digits that are left out. -/
def leading (mantissa : Nat) : Nat × Nat :=
  if mantissa ≤ greatestWord then (mantissa, 0)
  else
    let (digits, dropped) := leading (mantissa / 10)
    (digits, dropped + 1)
termination_by mantissa
decreasing_by
  rename_i h
  unfold greatestWord at h
  omega

/-- The double nearest to a power of ten. -/
def powerOfTen (k : Nat) : Float := magnitude 1 (Int.ofNat k)

/-- The greatest power of ten that is a double. -/
def greatestPower : Nat := 308

/-- A double over a power of ten.  A power beyond all doubles is divided by in parts. -/
def overPower (x : Float) (k : Nat) : Float :=
  if k ≤ greatestPower then x / powerOfTen k
  else if x == 0.0 then x
  else overPower (x / powerOfTen greatestPower) (k - greatestPower)
termination_by k
decreasing_by
  rename_i h _
  unfold greatestPower at *
  omega

/-- **The double that a numeral comes as.**  A zero keeps its sign. -/
def scaled (d : Numeral) : Float :=
  let (digits, dropped) := leading d.mantissa
  let x := magnitude digits 0
  let y :=
    match d.exponent + Int.ofNat dropped with
    | .ofNat k => if digits = 0 then x else x * powerOfTen k
    | .negSucc k => overPower x (k + 1)
  if d.negative then -y else y

/-- What is left of a mantissa fits 64 bits. -/
theorem leading_le (mantissa : Nat) : (leading mantissa).1 ≤ greatestWord := by
  induction mantissa using Nat.strongRecOn with
  | ind m ih =>
    unfold leading
    split
    · assumption
    · rename_i h
      exact ih (m / 10) (by unfold greatestWord at h; omega)

end Numeral

namespace Json

/-- A number as it comes. -/
def settledNumber (d : Numeral) : Json :=
  if d.exponent = 0 ∧ d.mantissa ≤ Numeral.greatestWord then number d else real d.scaled

mutual

/-- **A value with its numbers as they come.** -/
def settled : Json → Json
  | null => null
  | bool b => bool b
  | number d => settledNumber d
  | string s => string s
  | array items => array (settledItems items)
  | object members => object (settledMembers members)

/-- Several values with their numbers as they come. -/
def settledItems : List Json → List Json
  | [] => []
  | v :: rest => settled v :: settledItems rest

/-- Several members with their numbers as they come. -/
def settledMembers : List (String × Json) → List (String × Json)
  | [] => []
  | (key, v) :: rest => (key, settled v) :: settledMembers rest

end

end Json

end RhythmLogic
