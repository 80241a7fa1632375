/-
**The tolerance is symmetric.**

Numbers are close when the magnitude of their difference is small.  Over the rationals the
difference the other way round is the negative one, and that is all there is to say.  Doubles need
more: a difference is rounded and packed into bits, and it may be no number or infinite, so that it
has to be seen that the sign of a result takes no part in how its magnitude is rounded and packed.
The zeros are why only magnitudes are compared: `x - x` is the same zero both ways round, and not
the negative of itself.

Closeness is no more than symmetric.  It is not transitive, and not reflexive on what is no number
or infinite.

Main results:

* `abs_sub_comm` — differences of doubles before they are packed have one magnitude;
* `abs_unpack_pack` — packing keeps apart magnitude and sign;
* `closeEnough_comm` — **two numbers are close both ways round**.
-/

import Mathlib
import RhythmLogic.Unification

set_option autoImplicit false

namespace RhythmLogic

namespace Magnitude

open Float.Model (Format UnpackedFloat)
open Float.Model.UnpackedFloat (Sign packComponents unpackExponent_packComponents
  unpackMantissa_packComponents)

variable {spec : Format}

/-! ### Differences -/

/-- The sign of a result takes no part in its rounding. -/
theorem abs_round (s s' : Sign) (mantissa : Nat) (exponent : Int) :
    (UnpackedFloat.round spec s mantissa exponent).abs =
      (UnpackedFloat.round spec s' mantissa exponent).abs := by
  simp only [UnpackedFloat.round, UnpackedFloat.roundWithAccuracy]
  split <;> rfl

/-- A mantissa and its negative are rounded alike. -/
theorem abs_normalize_neg (mantissa exponent : Int) (s : Sign) :
    (UnpackedFloat.normalize spec (-mantissa) exponent s).abs =
      (UnpackedFloat.normalize spec mantissa exponent s).abs := by
  rcases Int.lt_trichotomy mantissa 0 with h | rfl | h
  · have hneg : compare (-mantissa) 0 = .gt := Int.compare_eq_gt.2 (by omega)
    simp only [UnpackedFloat.normalize, hneg, Int.compare_eq_lt.2 h]
    exact abs_round _ _ _ _
  · rfl
  · have hneg : compare (-mantissa) 0 = .lt := Int.compare_eq_lt.2 (by omega)
    simp only [UnpackedFloat.normalize, hneg, Int.compare_eq_gt.2 h, Int.neg_neg]
    exact abs_round _ _ _ _

/-- **Two differences of doubles have one magnitude.** -/
theorem abs_sub_comm (x y : UnpackedFloat) :
    (UnpackedFloat.sub spec x y).abs = (UnpackedFloat.sub spec y x).abs := by
  cases x <;> cases y
  case finite.finite s₁ m₁ e₁ _ s₂ m₂ e₂ _ =>
    simp only [UnpackedFloat.sub, Int.min_comm e₂ e₁]
    rw [← abs_normalize_neg, Int.neg_sub]
  case infinity.infinity s s' => cases s <;> cases s' <;> rfl
  case zero.zero s s' => cases s <;> cases s' <;> rfl
  all_goals rfl

/-! ### Packing -/

/-- The sign is packed next to the other parts. -/
theorem abs_unpack_packComponents (s s' : Sign) (exponent : BitVec spec.exponentBits)
    (mantissa : BitVec spec.mantissaBitsWithoutImplicit) :
    (UnpackedFloat.unpack spec (packComponents spec s exponent mantissa)).abs =
      (UnpackedFloat.unpack spec (packComponents spec s' exponent mantissa)).abs := by
  simp only [UnpackedFloat.unpack, unpackExponent_packComponents, unpackMantissa_packComponents]
  split_ifs <;> rfl

/-- **Doubles of one magnitude are packed into doubles of one magnitude.** -/
theorem abs_unpack_pack {x y : UnpackedFloat} (h : x.abs = y.abs) :
    (UnpackedFloat.unpack spec (UnpackedFloat.pack spec x)).abs =
      (UnpackedFloat.unpack spec (UnpackedFloat.pack spec y)).abs := by
  cases x <;> cases y <;> simp only [UnpackedFloat.abs, reduceCtorEq] at h
  case notANumber.notANumber => rfl
  case infinity.infinity => exact abs_unpack_packComponents _ _ _ _
  case zero.zero => exact abs_unpack_packComponents _ _ _ _
  case finite.finite =>
    obtain ⟨-, rfl, rfl⟩ := UnpackedFloat.finite.inj h
    simp only [UnpackedFloat.pack, UnpackedFloat.packedInfinity]
    split_ifs <;> exact abs_unpack_packComponents _ _ _ _

end Magnitude

/-- The magnitudes of two differences are the same double. -/
theorem float_abs_sub_comm (x y : Float) : (x - y).abs = (y - x).abs :=
  congrArg (fun u => Float.ofModel (Float.Model.pack u))
    (Magnitude.abs_unpack_pack (Magnitude.abs_sub_comm x.toModel.unpack y.toModel.unpack))

/-- **Two numbers are close both ways round,** infinite ones and what is no number included. -/
theorem closeEnough_comm (x y : Float) : closeEnough x y = closeEnough y x := by
  rw [closeEnough, closeEnough, float_abs_sub_comm]

end RhythmLogic
