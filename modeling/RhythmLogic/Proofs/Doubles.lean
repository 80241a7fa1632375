/-
**Doubles in their order, and their products with whole numbers.**

Times on the grid are products of an index and the step.  An index becomes a double first, and then
the product is rounded, so that times are rounded twice; that a later index has no earlier time is
not plain from the formula, and there are the infinite and the undefined products besides.

The greatest 64-bit index becomes a power of two.  Products with it are doubles up to their size,
and rounding does not pass a double: so for every step that is not negative the time of the greatest
index is the greatest time of an index.

Main definitions:

* `place` — the place of a number in the order of the doubles;
* `NotAbove`, `Counting` — numbers that are not above zero, and the doubles of positive indexes.

Main results:

* `le_iff_place`, `le_trans` — **comparison of doubles is that of their places**;
* `Parts.unpacked_le` — packing keeps the order;
* `ofInt_cases` — what index becomes what double;
* `le_mul_maxIndex` — **what is reached by the time of some index is reached by that of the greatest
  index**.
-/

import RhythmLogic.Proofs.Rounding

set_option autoImplicit false

namespace RhythmLogic

namespace Double

open Float.Model (Format UnpackedFloat)
open Float.Model.UnpackedFloat (Sign roundWithAccuracy shiftToTargetExponent)

variable {n m m' : ℕ} {b e e' i : ℤ} {s : Sign}

/-! ### Order -/

/-- The place of a number among the doubles: by its sign and kind, and finite ones by exponent and
mantissa. -/
def place : UnpackedFloat → Option (ℤ ×ₗ ℤ ×ₗ ℤ)
  | .notANumber => none
  | .infinity .negative => some (toLex (-2, toLex (0, 0)))
  | .finite .negative m e _ => some (toLex (-1, toLex (-e, -m)))
  | .zero _ => some (toLex (0, toLex (0, 0)))
  | .finite .positive m e _ => some (toLex (1, toLex (e, m)))
  | .infinity .positive => some (toLex (2, toLex (0, 0)))

theorem isLE_then_iff : ((compare e e').then (compare m m')).isLE = true ↔
    e < e' ∨ e = e' ∧ m ≤ m' := by
  rcases lt_trichotomy e e' with h | rfl | h
  · simp [compare_lt_iff_lt.2 h, h]
  · simp [Nat.isLE_compare]
  · simp [compare_gt_iff_gt.2 h, h.not_gt, h.ne']

theorem isGE_then_iff : ((compare e e').then (compare m m')).isGE = true ↔
    e' < e ∨ e = e' ∧ m' ≤ m := by
  rcases lt_trichotomy e e' with h | rfl | h
  · simp [compare_lt_iff_lt.2 h, h.not_gt, h.ne]
  · simp [Nat.isGE_compare]
  · simp [compare_gt_iff_gt.2 h, h]

/-- **Doubles are compared by their places.** -/
theorem le_iff_place (x y : UnpackedFloat) :
    x.le y = true ↔ ∃ i ∈ place x, ∃ j ∈ place y, i ≤ j := by
  rcases x with ⟨_ | _⟩ | _ | _ | ⟨_ | _, m, e, hm⟩ <;>
    rcases y with ⟨_ | _⟩ | _ | _ | ⟨_ | _, m', e', hm'⟩ <;>
    simp [place, UnpackedFloat.le, UnpackedFloat.compare, Prod.Lex.toLex_le_toLex, isLE_then_iff,
      isGE_then_iff]
  -- what is left are two infinities
  all_goals rfl

/-- **Comparison is transitive.** -/
theorem le_trans {x y z : UnpackedFloat} (hxy : x.le y = true) (hyz : y.le z = true) :
    x.le z = true := by
  rw [le_iff_place] at *
  obtain ⟨i, hi, j, hj, hij⟩ := hxy
  obtain ⟨j', hj', k, hk, hjk⟩ := hyz
  cases hj.symm.trans hj'
  exact ⟨i, hi, k, hk, hij.trans hjk⟩

/-- Zeros, and numbers with the negative sign. -/
inductive NotAbove : UnpackedFloat → Prop where
  | zero (s : Sign) : NotAbove (.zero s)
  | negative {u : UnpackedFloat} : HasSign .negative u → NotAbove u

theorem NotAbove.le {u v : UnpackedFloat} (hu : NotAbove u) (hv : HasSign .positive v) :
    u.le v = true := by
  obtain s | hu := hu
  · cases hv <;> rfl
  · cases hu <;> cases hv <;> rfl

/-- **Packing keeps the order.** -/
theorem Parts.unpacked_le {u v : UnpackedFloat} {p q : ℚ} (hu : Parts .positive u p)
    (hv : Parts .positive v q) (h : p ≤ q) : (unpacked u).le (unpacked v) = true := by
  cases hu with
  | zero => exact (NotAbove.zero _).le hv.hasSign.unpacked
  | finite hm hcanonical =>
      cases hv with
      | zero =>
          exact absurd h (magnitude_pos hm _).not_ge
      | finite hm' hcanonical' =>
          rw [unpacked_finite hm hcanonical, unpacked_finite hm' hcanonical']
          have hlex := hcanonical.lex hcanonical' h
          split_ifs
          · rfl
          · omega
          · rfl
          · exact isLE_then_iff.2 hlex

/-! ### Signs -/

/-- Rounding keeps the sign. -/
theorem hasSign_round (s : Sign) (n : ℕ) (b : ℤ) (a : UnpackedFloat.Accuracy) :
    HasSign s (roundWithAccuracy Format.binary64 s n b a) := by
  change HasSign s (carried s (shiftToTargetExponent Format.binary64 n b a).1.roundedMantissa
    (shiftToTargetExponent Format.binary64 n b a).2)
  unfold carried
  dsimp only
  split
  · exact .zero
  · exact .finite _

/-- A quotient of positive finite numbers has the positive sign. -/
theorem hasSign_div (hm : 0 < m) (hm' : 0 < m') : HasSign .positive
    (UnpackedFloat.div Format.binary64 (.finite .positive m e hm) (.finite .positive m' e' hm')) :=
  hasSign_round _ _ _ _

/-! ### Products with whole numbers -/

/-- **The double of a whole number** from one to the number of nonnegative indexes: it has all 53
bits. -/
inductive Counting : UnpackedFloat → Prop where
  | intro {m : ℕ} {e : ℤ} (h : 0 < m) : 2 ^ 52 ≤ m → magnitude (2 ^ 52) (-52) ≤ magnitude m e →
      magnitude m e ≤ magnitude (2 ^ 52) 11 → Counting (.finite .positive m e h)

theorem counting_round (hn : 2 ^ 52 ≤ n) (hlow : magnitude (2 ^ 52) (-52) ≤ magnitude n b)
    (hhigh : magnitude n b ≤ magnitude (2 ^ 52) 11) :
    Counting (unpacked (roundWithAccuracy Format.binary64 .positive n b .exact)) := by
  have hone : Canonical (2 ^ 52) (-52) := ⟨by decide, by decide, .inl le_rfl⟩
  have hlast : Canonical (2 ^ 52) 11 := ⟨by decide, by decide, .inl le_rfl⟩
  obtain ⟨q, hparts, hfaithful⟩ := round_faithful hn .positive b
  have hlow' := hfaithful.down _ _ hone hlow
  have hhigh' := hfaithful.up _ _ hlast hhigh
  generalize roundWithAccuracy Format.binary64 .positive n b .exact = u at hparts
  cases hparts with
  | zero => exact absurd hlow' (magnitude_pos (by decide) _).not_ge
  | @finite m e hm hcanonical =>
      have hexponent : -52 ≤ e := by
        rcases hone.lex hcanonical hlow' with h | ⟨h, -⟩ <;> omega
      have hsmall : ¬ 972 ≤ e := by
        rcases hcanonical.lex hlast hhigh' with h | ⟨h, -⟩ <;> omega
      rw [unpacked_finite hm hcanonical, if_neg hsmall]
      exact .intro hm (hcanonical.normal.resolve_right (by omega)) hlow' hhigh'

theorem magnitude_shiftLeft (n k : ℕ) (e : ℤ) : magnitude (n <<< k) e = magnitude n (e + k) := by
  rw [Nat.shiftLeft_eq, magnitude_shift]

/-- A whole number that fits is shifted to its 53 bits. -/
theorem ofNat_eq (hpos : 0 < n) (hsmall : n < 2 ^ 53) :
    UnpackedFloat.ofNat Format.binary64 n =
      roundWithAccuracy Format.binary64 .positive (n <<< (52 - n.log2)) (-(52 - n.log2 : ℕ))
        .exact := by
  have hlog : n.log2 ≤ 52 := Nat.le_of_lt_succ ((Nat.log2_lt hpos.ne').2 hsmall)
  have hgt : compare (n : ℤ) 0 = .gt := compare_gt_iff_gt.2 (by exact_mod_cast hpos)
  have hshift : (-target n 0).toNat = 52 - n.log2 := by
    unfold target
    omega
  simp only [UnpackedFloat.ofNat, UnpackedFloat.ofInt, UnpackedFloat.normalize, hgt,
    UnpackedFloat.round, UnpackedFloat.decreaseExponent, targetExponent_eq, Int.toNat_natCast,
    zero_sub, hshift]

/-- A whole number that is shifted to its bits stays in its range. -/
theorem counting_shiftLeft {k : ℕ} (hpos : 0 < n) (hn : n ≤ 2 ^ 63) (hbits : 2 ^ 52 ≤ n <<< k) :
    Counting (unpacked (roundWithAccuracy Format.binary64 .positive (n <<< k) (-k) .exact)) := by
  have hsame : magnitude (n <<< k) (-k) = magnitude n 0 := by
    rw [magnitude_shiftLeft, neg_add_cancel]
  refine counting_round hbits ?_ ?_ <;> rw [hsame]
  · rw [show magnitude (2 ^ 52) (-52) = magnitude 1 0 by norm_num [magnitude]]
    exact magnitude_mono hpos le_rfl
  · rw [show magnitude (2 ^ 52) 11 = magnitude (2 ^ 63) 0 by norm_num [magnitude]]
    exact magnitude_mono hn le_rfl

/-- So does a double in that range that is multiplied with the double of one. -/
theorem Counting.mul_one {u : UnpackedFloat} (hu : Counting u) : Counting (unpacked
    (UnpackedFloat.mul Format.binary64 u (.finite .positive (2 ^ 52) (-52) (by decide)))) := by
  obtain @⟨m, e, hm, hbits, hlow, hhigh⟩ := hu
  have hsame : magnitude (m * 2 ^ 52) (e + -52) = magnitude m e := by
    rw [magnitude_shift]
    congr 1
    omega
  refine counting_round (hbits.trans (Nat.le_mul_of_pos_right m (by decide))) ?_ ?_ <;>
    rwa [hsame]

/-- **A positive index becomes such a double.** -/
theorem counting_ofNat (hpos : 0 < n) (hn : n ≤ 2 ^ 63) :
    Counting (Float.ofNat n).toModel.unpack := by
  by_cases hsmall : n < 2 ^ 53
  · -- the whole number is rounded, and then multiplied with the double of one
    have hproduct : Float.ofNat n = n.toUInt64.toFloat * Float.ofBits 0x3FF0000000000000 :=
      dif_pos ⟨hsmall, by decide⟩
    have hnat : n.toUInt64.toNat = n := UInt64.toNat_ofNat_of_lt' (hsmall.trans (by decide))
    have hrounded : Counting n.toUInt64.toFloat.toModel.unpack := by
      change Counting (unpacked (UnpackedFloat.ofNat Format.binary64 n.toUInt64.toNat))
      rw [hnat, ofNat_eq hpos hsmall]
      refine counting_shiftLeft hpos hn ?_
      rw [Nat.shiftLeft_eq]
      exact (normalized hpos hsmall).1
    rw [hproduct]
    exact hrounded.mul_one
  · have hmodel : Float.ofNat n = .ofModel (.ofScientific n 0) := dif_neg fun h => hsmall h.1
    have hlog : ¬ (0 : ℤ) < -(2 ^ 11 + (n.log2 : ℤ)) := by
      omega
    rw [hmodel]
    change Counting (unpacked (UnpackedFloat.ofScientific Format.binary64 n 0))
    rw [UnpackedFloat.ofScientific, dif_neg hpos.ne', if_neg (by decide), if_neg hlog,
      if_pos (by decide)]
    change Counting (unpacked
      (roundWithAccuracy Format.binary64 .positive (n <<< 53 * 1) (-(53 : ℕ)) .exact))
    rw [Nat.mul_one]
    refine counting_shiftLeft hpos hn ?_
    rw [Nat.shiftLeft_eq]
    omega

/-- The greatest index has the double of the greatest of these whole numbers. -/
theorem unpack_maxIndex :
    (Float.ofInt maxIndex).toModel.unpack = .finite .positive (2 ^ 52) 11 (by decide) := rfl

/-- The double of an index is that of such a whole number, or not above zero. -/
theorem ofInt_cases (hlow : minIndex ≤ i) (hhigh : i ≤ maxIndex) :
    NotAbove (Float.ofInt i).toModel.unpack ∨ Counting (Float.ofInt i).toModel.unpack := by
  cases i with
  | ofNat n =>
      rcases Nat.eq_zero_or_pos n with rfl | hpos
      · exact .inl (.zero .positive)
      · refine .inr (counting_ofNat hpos ?_)
        unfold maxIndex at hhigh
        have hnat : (n : ℤ) ≤ 9223372036854775807 := hhigh
        omega
  | negSucc n =>
      have hcounting := counting_ofNat n.succ_pos (n := n + 1) (by
        unfold minIndex at hlow
        omega)
      have hunpack : (Float.ofInt (.negSucc n)).toModel.unpack =
        unpacked (UnpackedFloat.neg (Float.ofNat (n + 1)).toModel.unpack) := rfl
      rw [hunpack]
      generalize (Float.ofNat (n + 1)).toModel.unpack = u at hcounting
      cases hcounting with
      | intro hm => exact .inl (.negative (HasSign.finite hm).unpacked)

/-- A positive number times a finite one is no other than positive, or zero. -/
theorem HasSign.mul_finite {u : UnpackedFloat} (hu : HasSign .positive u) (hm : 0 < m) :
    HasSign .positive (UnpackedFloat.mul Format.binary64 u (.finite .positive m e hm)) := by
  cases hu with
  | zero => exact .zero
  | finite => exact hasSign_round _ _ _ _
  | infinity => exact .infinity

/-- The other way round it is the same. -/
theorem HasSign.finite_mul {v : UnpackedFloat} (hm : 0 < m) (hv : HasSign .positive v) :
    HasSign .positive (UnpackedFloat.mul Format.binary64 (.finite .positive m e hm) v) := by
  cases hv with
  | zero => exact .zero
  | finite => exact hasSign_round _ _ _ _
  | infinity => exact .infinity

/-- A product of a number that is not above zero and one that is not below it is not above it. -/
theorem NotAbove.mul {u v : UnpackedFloat} (hu : NotAbove u) (hv : HasSign .positive v) :
    UnpackedFloat.mul Format.binary64 u v = .notANumber ∨
      NotAbove (UnpackedFloat.mul Format.binary64 u v) := by
  obtain s | hu := hu
  · cases hv with
    | zero => exact .inr (.zero _)
    | finite h => exact .inr (.zero _)
    | infinity => exact .inl rfl
  · cases hu with
    | zero =>
        cases hv with
        | zero => exact .inr (.zero _)
        | finite h => exact .inr (.zero _)
        | infinity => exact .inl rfl
    | finite h =>
        cases hv with
        | zero => exact .inr (.zero _)
        | finite h' => exact .inr (.negative (hasSign_round _ _ _ _))
        | infinity => exact .inr (.negative .infinity)
    | infinity =>
        cases hv with
        | zero => exact .inl rfl
        | finite h => exact .inr (.negative .infinity)
        | infinity => exact .inr (.negative .infinity)

theorem unpacked_nan : unpacked .notANumber = .notANumber := rfl

theorem NotAbove.unpacked {u : UnpackedFloat} (hu : NotAbove u) : NotAbove (unpacked u) := by
  obtain s | hu := hu
  · cases s <;> exact .zero _
  · exact .negative hu.unpacked

theorem unpack_mul (x y : Float) : (x * y).toModel.unpack =
    unpacked (UnpackedFloat.mul Format.binary64 x.toModel.unpack y.toModel.unpack) := rfl

theorem le_iff (x y : Float) : x ≤ y ↔ x.toModel.unpack.le y.toModel.unpack = true :=
  decide_eq_true_iff

/-- Among the products of a finite double with the whole numbers the greatest index has the
greatest. -/
theorem Counting.mul_le {u : UnpackedFloat} (hu : Counting u) (h : Canonical m e) (hm : 0 < m) :
    (unpacked (UnpackedFloat.mul Format.binary64 u (.finite .positive m e hm))).le
      (unpacked (UnpackedFloat.mul Format.binary64 (.finite .positive (2 ^ 52) 11 (by decide))
        (.finite .positive m e hm))) = true := by
  obtain @⟨a, b, ha, hbits, -, hlast⟩ := hu
  -- the greatest product is canonical, so that rounding the others does not pass it
  obtain ⟨m', e', hcanonical, hmagnitude⟩ := h.exists_shift hm (by decide : 52 ≤ 63)
  have htop : magnitude (2 ^ 52 * m) (11 + e) = magnitude m' e' := by
    rw [hmagnitude, mul_comm, magnitude_shift]
    congr 1
    omega
  have hbelow : magnitude (a * m) (b + e) ≤ magnitude m' e' := by
    rw [← htop, magnitude_mul, magnitude_mul]
    exact mul_le_mul_of_nonneg_right hlast (magnitude_nonneg m e)
  obtain ⟨p, hp, hpfaithful⟩ := round_faithful
    (hbits.trans (Nat.le_mul_of_pos_right a hm)) .positive (b + e)
  obtain ⟨q, hq, hqfaithful⟩ := round_faithful
    (Nat.le_mul_of_pos_right (2 ^ 52) hm) .positive (11 + e)
  exact hp.unpacked_le hq
    ((hpfaithful.up _ _ hcanonical hbelow).trans (hqfaithful.down _ _ hcanonical htop.ge))

/-- **The time of the greatest index is the greatest.** -/
theorem le_mul_maxIndex {x y : Float} (hx : HasSign .positive x.toModel.unpack)
    (hlow : minIndex ≤ i) (hhigh : i ≤ maxIndex) (h : y ≤ Float.ofInt i * x) :
    y ≤ Float.ofInt maxIndex * x := by
  have hindex := ofInt_cases hlow hhigh
  rw [le_iff, unpack_mul] at h ⊢
  rw [unpack_maxIndex]
  generalize hz : x.toModel.unpack = z at *
  generalize (Float.ofInt i).toModel.unpack = u at *
  rcases hindex with hnot | hcounting
  · refine le_trans h ?_
    obtain hnan | hnot := hnot.mul hx
    · rw [hnan, unpacked_nan, le_iff_place] at h
      obtain ⟨-, -, j, hj, -⟩ := h
      cases hj
    · exact hnot.unpacked.le (HasSign.finite_mul (by decide) hx).unpacked
  · cases hx with
    | zero => obtain ⟨⟩ := hcounting; exact h
    | infinity => obtain ⟨⟩ := hcounting; exact h
    | finite hm => exact le_trans h (hcounting.mul_le (canonical_unpack hm hz) hm)

/-- A double is positive if it is finite with the positive sign. -/
theorem isPositive_iff (x : Float) : Quantity.isPositive x = true ↔
    ∃ m e h, x.toModel.unpack = .finite .positive m e h := by
  have hdef : Quantity.isPositive x =
    (decide (Float.ofInt 0 < x) && x.toModel.unpack.isFinite) := rfl
  have hlt : (Float.ofInt 0 < x) ↔ (UnpackedFloat.zero .positive).lt x.toModel.unpack = true :=
    decide_eq_true_iff
  rw [hdef, Bool.and_eq_true, decide_eq_true_iff, hlt]
  rcases x.toModel.unpack with ⟨_ | _⟩ | _ | _ | ⟨_ | _, m, e, hm⟩ <;>
    simp [UnpackedFloat.lt, UnpackedFloat.compare, UnpackedFloat.isFinite]
  exact hm

end Double

end RhythmLogic
