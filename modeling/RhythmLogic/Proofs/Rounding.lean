/-
**Rounding does not pass a double.**

A double is a sign, a mantissa and an exponent, packed into bits.  What is computed is rounded to
the parts of a double first, which may shift the mantissa twice, and packed then, where an exponent
that is too great becomes an infinity.  Up to their size the parts stand for a rational, and what
can be relied on is that none of these rationals lies strictly between a number and what it is
rounded to.  That ties are broken to even mantissas is not needed for this.

Main definitions:

* `Canonical`, `magnitude` — the parts of a double, and the rational that they stand for;
* `rounded`, `target` — a mantissa after its shift, and the exponent that the shift leads to;
* `Faithful` — no canonical magnitude is passed by rounding;
* `unpacked` — what is read off the bits that a number is packed into.

Main results:

* `Canonical.lex` — canonical magnitudes are compared by their exponents first;
* `round_faithful` — **rounding is faithful**;
* `unpacked_finite` — **a double is read as it was packed**, up to its size;
* `canonical_unpack` — the parts of every double are canonical.
-/

import Mathlib
import RhythmLogic.Quantity

set_option autoImplicit false

namespace RhythmLogic

namespace Double

open Float.Model (Format UnpackedFloat totalExponent)
open Float.Model.UnpackedFloat (Sign ExtendedMantissa roundWithAccuracy shiftToTargetExponent
  packComponents unpackSign unpackExponent unpackMantissa unpackExponent_packComponents
  unpackMantissa_packComponents)

variable {n m m' k : ℕ} {b e e' : ℤ} {s : Sign}

/-! ### Magnitudes -/

/-- The magnitude with a mantissa and an exponent. -/
def magnitude (m : ℕ) (e : ℤ) : ℚ := m * 2 ^ e

/-- **The parts of a double**, up to the size of its exponent: the mantissa has 53 bits, and fewer
only with the least exponent. -/
structure Canonical (m : ℕ) (e : ℤ) : Prop where
  lt : m < 2 ^ 53
  le : -1074 ≤ e
  normal : 2 ^ 52 ≤ m ∨ e = -1074

theorem magnitude_shift (m k : ℕ) (e : ℤ) : magnitude (m * 2 ^ k) e = magnitude m (e + k) := by
  rw [magnitude, magnitude, zpow_add₀ two_ne_zero, zpow_natCast]
  push_cast
  ring

theorem magnitude_mul (m m' : ℕ) (e e' : ℤ) :
    magnitude (m * m') (e + e') = magnitude m e * magnitude m' e' := by
  rw [magnitude, magnitude, magnitude, zpow_add₀ two_ne_zero]
  push_cast
  ring

theorem magnitude_nonneg (m : ℕ) (e : ℤ) : 0 ≤ magnitude m e :=
  mul_nonneg (Nat.cast_nonneg m) (zpow_pos two_pos e).le

theorem magnitude_pos (hm : 0 < m) (e : ℤ) : 0 < magnitude m e :=
  mul_pos (by exact_mod_cast hm) (zpow_pos two_pos e)

theorem magnitude_le_magnitude_iff : magnitude m e ≤ magnitude m' e ↔ m ≤ m' := by
  rw [magnitude, magnitude, mul_le_mul_iff_left₀ (zpow_pos two_pos e), Nat.cast_le]

theorem magnitude_mono (h : m ≤ m') (he : e ≤ e') : magnitude m e ≤ magnitude m' e' := by
  have hpow : (2 : ℚ) ^ e ≤ 2 ^ e' := zpow_le_zpow_right₀ one_le_two he
  exact mul_le_mul (by exact_mod_cast h) hpow (zpow_pos two_pos e).le (Nat.cast_nonneg m')

/-- A canonical magnitude is below the next power of two. -/
theorem Canonical.magnitude_lt (h : Canonical m e) (he : e < e') :
    magnitude m e < magnitude (2 ^ 52) e' := by
  calc magnitude m e < magnitude (2 ^ 53) e :=
        mul_lt_mul_of_pos_right (by exact_mod_cast h.lt) (zpow_pos two_pos e)
    _ = magnitude (2 ^ 52) (e + 1) := magnitude_shift (2 ^ 52) 1 e
    _ ≤ magnitude (2 ^ 52) e' := magnitude_mono le_rfl (by omega)

/-- **Canonical magnitudes are compared by their exponents, and then by their mantissas.** -/
theorem Canonical.lex (h : Canonical m e) (h' : Canonical m' e')
    (hle : magnitude m e ≤ magnitude m' e') : e < e' ∨ e = e' ∧ m ≤ m' := by
  rcases lt_trichotomy e e' with hlt | rfl | hgt
  · exact .inl hlt
  · exact .inr ⟨rfl, magnitude_le_magnitude_iff.1 hle⟩
  · -- a greater exponent is not the least one, so that the mantissa has 53 bits
    have hnormal := h.normal.resolve_right (by have := h'.le; omega)
    exact absurd ((h'.magnitude_lt hgt).trans_le (magnitude_mono hnormal le_rfl)) hle.not_gt

/-- A mantissa that is shifted to its 53 bits. -/
theorem normalized (hpos : 0 < m) (hlt : m < 2 ^ 53) :
    2 ^ 52 ≤ m * 2 ^ (52 - m.log2) ∧ m * 2 ^ (52 - m.log2) < 2 ^ 53 := by
  have hlog : m.log2 ≤ 52 := Nat.le_of_lt_succ ((Nat.log2_lt hpos.ne').2 hlt)
  constructor
  · calc 2 ^ 52 = 2 ^ m.log2 * 2 ^ (52 - m.log2) := by rw [← pow_add, Nat.add_sub_cancel' hlog]
      _ ≤ m * 2 ^ (52 - m.log2) := Nat.mul_le_mul_right _ (Nat.log2_self_le hpos.ne')
  · calc m * 2 ^ (52 - m.log2) < 2 ^ (m.log2 + 1) * 2 ^ (52 - m.log2) :=
          Nat.mul_lt_mul_of_pos_right Nat.lt_log2_self (Nat.two_pow_pos _)
      _ = 2 ^ 53 := by rw [← pow_add, show m.log2 + 1 + (52 - m.log2) = 53 by omega]

/-- A canonical magnitude that grows by 52 powers of two or more stays canonical. -/
theorem Canonical.exists_shift (h : Canonical m e) (hm : 0 < m) (hk : 52 ≤ k) :
    ∃ m' e', Canonical m' e' ∧ magnitude m' e' = magnitude m (e + k) := by
  obtain ⟨hlow, hhigh⟩ := normalized hm h.lt
  have hleast := h.le
  refine ⟨m * 2 ^ (52 - m.log2), e + k - (52 - m.log2 : ℕ), ⟨hhigh, by omega, .inl hlow⟩, ?_⟩
  rw [magnitude_shift, sub_add_cancel]

/-! ### Rounding -/

theorem shift_zero (em : ExtendedMantissa) : em >>> 0 = em := rfl

theorem shift_succ (em : ExtendedMantissa) (k : ℕ) :
    em >>> (k + 1) = (em >>> k).shiftRightOne := rfl

/-- The mantissa that is left after a shift. -/
theorem mantissa_shift (em : ExtendedMantissa) (k : ℕ) :
    (em >>> k).mantissa = em.mantissa / 2 ^ k := by
  induction k with
  | zero => simp [shift_zero]
  | succ k ih =>
      rw [shift_succ, pow_succ, ← Nat.div_div_eq_div_mul, ← ih]
      rfl

/-- Nothing is left over from a shift of a multiple. -/
theorem shift_of_dvd (hdvd : 2 ^ k ∣ n) :
    (ExtendedMantissa.mk n false false) >>> k = ⟨n / 2 ^ k, false, false⟩ := by
  induction k with
  | zero => simp [shift_zero]
  | succ k ih =>
      obtain ⟨c, rfl⟩ := hdvd
      have hhalf : 2 ^ (k + 1) * c = 2 ^ k * (2 * c) := by ring
      rw [shift_succ, ih ⟨2 * c, hhalf⟩, hhalf, Nat.mul_div_cancel_left _ (Nat.two_pow_pos k),
        pow_succ, ← Nat.div_div_eq_div_mul, Nat.mul_div_cancel_left _ (Nat.two_pow_pos k)]
      simp [ExtendedMantissa.shiftRightOne]

/-- A mantissa is rounded down, or up by one. -/
theorem le_roundedMantissa (em : ExtendedMantissa) :
    em.mantissa ≤ em.roundedMantissa ∧ em.roundedMantissa ≤ em.mantissa + 1 := by
  rcases em with ⟨m, r, s⟩
  cases r <;> cases s <;>
    simp [ExtendedMantissa.roundedMantissa, ExtendedMantissa.accuracy,
      Float.Model.UnpackedFloat.Accuracy.roundToNearestEven]
  omega

/-- The mantissa `n / 2 ^ k`, rounded. -/
def rounded (n k : ℕ) : ℕ := ((ExtendedMantissa.mk n false false) >>> k).roundedMantissa

/-- **Rounding does not pass a whole number** upwards. -/
theorem rounded_le {c : ℕ} (h : n ≤ c * 2 ^ k) : rounded n k ≤ c := by
  have hpos := Nat.two_pow_pos k
  by_cases hdvd : 2 ^ k ∣ n
  · rw [rounded, shift_of_dvd hdvd]
    exact Nat.div_le_of_le_mul (by rwa [mul_comm])
  · have hup := (le_roundedMantissa ((ExtendedMantissa.mk n false false) >>> k)).2
    rw [mantissa_shift] at hup
    have hlt : n / 2 ^ k < c := by
      rw [Nat.div_lt_iff_lt_mul hpos]
      refine lt_of_le_of_ne h ?_
      rintro rfl
      exact hdvd ⟨c, mul_comm _ _⟩
    exact hup.trans hlt

/-- Nor does it downwards. -/
theorem le_rounded {c : ℕ} (h : c * 2 ^ k ≤ n) : c ≤ rounded n k := by
  have hdown := (le_roundedMantissa ((ExtendedMantissa.mk n false false) >>> k)).1
  rw [mantissa_shift] at hdown
  exact ((Nat.le_div_iff_mul_le (Nat.two_pow_pos k)).2 h).trans hdown

/-- The exponent to which a magnitude is rounded. -/
def target (n : ℕ) (b : ℤ) : ℤ := max (n.log2 + b - 52) (-1074)

theorem targetExponent_eq (n : ℕ) (b : ℤ) :
    Format.binary64.targetExponent (totalExponent n b) = target n b := by
  simp only [Format.targetExponent, totalExponent, Format.mantissaBits, Format.minExponent, target]
  norm_num
  omega

theorem shiftToTargetExponent_eq (n : ℕ) (b : ℤ) :
    shiftToTargetExponent Format.binary64 n b .exact =
      (ExtendedMantissa.mk n false false >>> (target n b - b).toNat,
        b + (target n b - b).toNat) := by
  rw [shiftToTargetExponent, targetExponent_eq]
  rfl

/-- A number that has its 53 bits is not shifted to the left. -/
theorem le_target (hn : 2 ^ 52 ≤ n) (b : ℤ) : b ≤ target n b := by
  have hlog : 52 ≤ n.log2 := (Nat.le_log2 (by omega)).2 hn
  exact (by omega : b ≤ n.log2 + b - 52).trans (le_max_left _ _)

/-- **The parts of a rounded number** with its sign and its magnitude. -/
inductive Parts (s : Sign) : UnpackedFloat → ℚ → Prop where
  | zero : Parts s (.zero s) 0
  | finite {m : ℕ} {e : ℤ} (h : 0 < m) : Canonical m e → Parts s (.finite s m e h) (magnitude m e)

/-- What is rounded has 53 bits, or one more. -/
theorem rounded_le_two_pow (n : ℕ) (b : ℤ) : rounded n (target n b - b).toNat ≤ 2 ^ 53 := by
  refine rounded_le (Nat.lt_log2_self.le.trans ?_)
  rw [← pow_add]
  refine Nat.pow_le_pow_right (by decide) ?_
  have hle := le_max_left (n.log2 + b - 52) (-1074)
  unfold target
  omega

/-- A rounded mantissa may have one bit too many, and is then shifted once more. -/
def carried (s : Sign) (m : ℕ) (e : ℤ) : UnpackedFloat :=
  let shifted := shiftToTargetExponent Format.binary64 m e .exact
  if h : shifted.1.mantissa = 0 then .zero s
  else .finite s shifted.1.mantissa shifted.2 (Nat.pos_of_ne_zero h)

theorem parts_carried (hm : m ≤ 2 ^ 53) (he : -1074 ≤ e) (hnormal : 2 ^ 52 ≤ m ∨ e = -1074) :
    Parts s (carried s m e) (magnitude m e) := by
  rcases hm.lt_or_eq with hlt | rfl
  · have hstays : shiftToTargetExponent Format.binary64 m e .exact = (⟨m, false, false⟩, e) := by
      have hlog : m.log2 ≤ 52 := by
        rcases Nat.eq_zero_or_pos m with rfl | hpos
        · decide
        · exact Nat.le_of_lt_succ ((Nat.log2_lt hpos.ne').2 hlt)
      have htarget : (target m e - e).toNat = 0 := by
        unfold target
        omega
      simp [shiftToTargetExponent_eq, htarget, shift_zero]
    simp only [carried, hstays]
    split
    · next hzero =>
      rw [hzero, magnitude, Nat.cast_zero, zero_mul]
      exact .zero
    · exact .finite _ ⟨hlt, he, hnormal⟩
  · have hcarry : shiftToTargetExponent Format.binary64 (2 ^ 53) e .exact =
        (⟨2 ^ 52, false, false⟩, e + 1) := by
      have htarget : (target (2 ^ 53) e - e).toNat = 1 := by
        rw [target, Nat.log2_two_pow]
        omega
      rw [shiftToTargetExponent_eq, htarget]
      rfl
    simp only [carried, hcarry]
    rw [dif_neg (by decide), show magnitude (2 ^ 53) e = magnitude (2 ^ 52) (e + 1) from
      magnitude_shift (2 ^ 52) 1 e]
    exact .finite _ ⟨by decide, by omega, .inl le_rfl⟩

/-- **No canonical magnitude lies strictly between a magnitude and what it is rounded to.** -/
structure Faithful (x q : ℚ) : Prop where
  up : ∀ m e, Canonical m e → x ≤ magnitude m e → q ≤ magnitude m e
  down : ∀ m e, Canonical m e → magnitude m e ≤ x → magnitude m e ≤ q

section Rounding

variable (hn : 2 ^ 52 ≤ n)

include hn

/-- The magnitude in units of the exponent to which it is rounded. -/
theorem magnitude_target (c : ℕ) :
    magnitude (c * 2 ^ (target n b - b).toNat) b = magnitude c (target n b) := by
  have hle := le_target hn b
  rw [magnitude_shift, Int.toNat_of_nonneg (by omega), add_sub_cancel]

/-- Above the least exponent all 53 bits are there. -/
theorem normal_rounded (h : target n b ≠ -1074) :
    magnitude (2 ^ 52) (target n b) ≤ magnitude n b ∧
      2 ^ 52 ≤ rounded n (target n b - b).toNat := by
  have htarget : target n b = n.log2 + b - 52 := by
    unfold target at h ⊢
    omega
  have hlog : 52 ≤ n.log2 := (Nat.le_log2 (by omega)).2 hn
  have hself : 2 ^ 52 * 2 ^ (target n b - b).toNat ≤ n := by
    rw [← pow_add, show 52 + (target n b - b).toNat = n.log2 by omega]
    exact Nat.log2_self_le (by omega)
  refine ⟨?_, le_rounded hself⟩
  rw [← magnitude_target hn]
  exact magnitude_le_magnitude_iff.2 hself

theorem faithful_rounded :
    Faithful (magnitude n b) (magnitude (rounded n (target n b - b).toNat) (target n b)) := by
  -- a canonical magnitude with a smaller exponent is below all that has 53 bits
  have hbelow : ∀ {m : ℕ} {e : ℤ}, Canonical m e → e < target n b → target n b ≠ -1074 := by
    intro m e h hlt
    have hle := h.le
    omega
  have hunits : ∀ {m : ℕ} {e : ℤ}, target n b ≤ e →
      magnitude m e = magnitude (m * 2 ^ (e - target n b).toNat) (target n b) := by
    intro m e hle
    rw [magnitude_shift, Int.toNat_of_nonneg (by omega), add_sub_cancel]
  constructor
  · intro m e h hx
    rcases lt_or_ge e (target n b) with hlt | hge
    · have hnormal := (normal_rounded hn (hbelow h hlt)).1
      exact absurd (hx.trans_lt (h.magnitude_lt hlt)) hnormal.not_gt
    · rw [hunits hge] at hx ⊢
      rw [← magnitude_target hn, magnitude_le_magnitude_iff] at hx
      exact magnitude_le_magnitude_iff.2 (rounded_le hx)
  · intro m e h hx
    rcases lt_or_ge e (target n b) with hlt | hge
    · have hnormal := (normal_rounded hn (hbelow h hlt)).2
      exact (h.magnitude_lt hlt).le.trans (magnitude_le_magnitude_iff.2 hnormal)
    · rw [hunits hge] at hx ⊢
      rw [← magnitude_target hn, magnitude_le_magnitude_iff] at hx
      exact magnitude_le_magnitude_iff.2 (le_rounded hx)

/-- **A number with 53 bits or more is rounded to one of the two doubles next to it.** -/
theorem round_faithful (s : Sign) (b : ℤ) :
    ∃ q, Parts s (roundWithAccuracy Format.binary64 s n b .exact) q ∧
      Faithful (magnitude n b) q := by
  have hexponent : b + (target n b - b).toNat = target n b := by
    have hle := le_target hn b
    omega
  have hround : roundWithAccuracy Format.binary64 s n b .exact =
      carried s (rounded n (target n b - b).toNat) (target n b) := by
    simp only [roundWithAccuracy, carried, shiftToTargetExponent_eq, hexponent, rounded]
  rw [hround]
  refine ⟨_, parts_carried (rounded_le_two_pow n b) (le_max_right _ _) ?_, faithful_rounded hn⟩
  by_cases h : target n b = -1074
  · exact .inr h
  · exact .inl (normal_rounded hn h).2

end Rounding

/-! ### Packing -/

/-- **A number with a sign**: a zero, a finite number or an infinity. -/
inductive HasSign (s : Sign) : UnpackedFloat → Prop where
  | zero : HasSign s (.zero s)
  | finite {m : ℕ} {e : ℤ} (h : 0 < m) : HasSign s (.finite s m e h)
  | infinity : HasSign s (.infinity s)

theorem Parts.hasSign {u : UnpackedFloat} {q : ℚ} (h : Parts s u q) : HasSign s u := by
  cases h with
  | zero => exact .zero
  | finite h => exact .finite h

/-- What is read off the bits of a double. -/
def unpacked (u : UnpackedFloat) : UnpackedFloat :=
  UnpackedFloat.unpack Format.binary64 (UnpackedFloat.pack Format.binary64 u)

theorem toNat_append (mantissa : BitVec 52) :
    (1#1 ++ mantissa).toNat = 2 ^ 52 + mantissa.toNat := by
  rw [BitVec.toNat_append, ← Nat.shiftLeft_add_eq_or_of_lt mantissa.isLt]
  rfl

theorem unpackSign_packComponents (s : Sign) (exponent : BitVec 11) (mantissa : BitVec 52) :
    Sign.ofBitVec (unpackSign (packComponents Format.binary64 s exponent mantissa)) = s := by
  simp only [unpackSign, packComponents, BitVec.extractLsb]
  rw [BitVec.extractLsb'_append_eq_of_le (by decide),
    BitVec.extractLsb'_append_eq_of_le (by decide)]
  cases s <;> rfl

/-- What is read off the parts of a double. -/
theorem unpack_packComponents (s : Sign) (exponent : BitVec 11) (mantissa : BitVec 52) :
    UnpackedFloat.unpack Format.binary64 (packComponents Format.binary64 s exponent mantissa) =
      if exponent = -1#11 then if mantissa = 0#52 then .infinity s else .notANumber
      else if exponent = 0#11 then
        if h : mantissa = 0#52 then .zero s
        else .finite s mantissa.toNat (-1074)
          (by simpa [BitVec.toNat_pos, BitVec.pos_iff_ne_zero])
      else .finite s (2 ^ 52 + mantissa.toNat) (exponent.toNat - 1075) (by omega) := by
  simp only [UnpackedFloat.unpack, unpackExponent_packComponents, unpackMantissa_packComponents,
    unpackSign_packComponents, toNat_append]
  split
  · rfl
  · split
    · next hzero =>
      subst hzero
      rfl
    · rfl

/-- A number that fits differs as bits from what it differs from. -/
theorem ofNat_ne {w : ℕ} {c : BitVec w} (hn : n < 2 ^ w) (hne : n ≠ c.toNat) :
    BitVec.ofNat w n ≠ c := by
  rintro rfl
  exact hne (by rw [BitVec.toNat_ofNat, Nat.mod_eq_of_lt hn])

/-- How the parts of a double are packed: an exponent that does not fit makes an infinity, and the
exponent of a mantissa without all its bits is not stored. -/
theorem pack_finite (h : 0 < m) : UnpackedFloat.pack Format.binary64 (.finite s m e h) =
    if 2 ^ 11 ≤ (e + 1075).toNat + 1 then packComponents Format.binary64 s (-1#11) 0#52
    else if m.log2 + 1 = 53 then
      packComponents Format.binary64 s (BitVec.ofNat 11 (e + 1075).toNat) (BitVec.ofNat 52 m)
    else packComponents Format.binary64 s 0#11 (BitVec.ofNat 52 m) := by
  have hbias : e + (Format.binary64.exponentBias : ℤ) + (52 : ℕ) = e + 1075 := by
    rw [show Format.binary64.exponentBias = 1023 from rfl]
    omega
  simp only [UnpackedFloat.pack, hbias]
  rfl

/-- **A double is read as it was packed**, up to its size: it is infinite if its exponent does not
fit. -/
theorem unpacked_finite (h : 0 < m) (hm : Canonical m e) :
    unpacked (.finite s m e h) = if 972 ≤ e then .infinity s else .finite s m e h := by
  have hleast := hm.le
  have hhigh := hm.lt
  rw [unpacked, pack_finite]
  by_cases hbig : 972 ≤ e
  · rw [if_pos (by omega), unpack_packComponents, if_pos rfl, if_pos rfl, if_pos hbig]
  rw [if_neg (by omega), if_neg hbig]
  split
  · next hlog =>
    have hexponent : (e + 1075).toNat < 2 ^ 11 := by omega
    have hfinite : BitVec.ofNat 11 (e + 1075).toNat ≠ -1#11 := ofNat_ne hexponent (by simp; omega)
    have hstored : BitVec.ofNat 11 (e + 1075).toNat ≠ 0#11 := ofNat_ne hexponent (by simp; omega)
    have hlow : 2 ^ 52 ≤ m := (Nat.le_log2 h.ne').1 (by omega)
    have hmantissa : 2 ^ 52 + (BitVec.ofNat 52 m).toNat = m := by
      rw [BitVec.toNat_ofNat]
      omega
    rw [unpack_packComponents, if_neg hfinite, if_neg hstored]
    congr 1
    rw [BitVec.toNat_ofNat, Nat.mod_eq_of_lt hexponent]
    omega
  · next hlog =>
    have hlow : m < 2 ^ 52 := by
      have hbits := (Nat.log2_lt h.ne').2 hhigh
      exact (Nat.log2_lt h.ne').1 (by omega)
    have hmantissa : (BitVec.ofNat 52 m).toNat = m := by
      rw [BitVec.toNat_ofNat, Nat.mod_eq_of_lt hlow]
    rw [unpack_packComponents, if_neg (by decide), if_pos rfl, dif_neg (ofNat_ne hlow (by simp; omega))]
    congr 1
    exact (hm.normal.resolve_left (by omega)).symm

/-- A sign stays. -/
theorem HasSign.unpacked {u : UnpackedFloat} (h : HasSign s u) : HasSign s (unpacked u) := by
  have hcomponents : ∀ (exponent : BitVec 11) (mantissa : BitVec 52),
      (exponent = -1#11 → mantissa = 0#52) → HasSign s (UnpackedFloat.unpack Format.binary64
        (packComponents Format.binary64 s exponent mantissa)) := by
    intro exponent mantissa hnumber
    rw [unpack_packComponents]
    split
    · next hinfinite =>
      rw [if_pos (hnumber hinfinite)]
      exact .infinity
    · split
      · split
        · exact .zero
        · exact .finite _
      · exact .finite _
  cases h with
  | zero => exact hcomponents _ _ fun h => rfl
  | infinity => exact hcomponents _ _ fun h => rfl
  | finite h =>
      rw [Double.unpacked, pack_finite]
      split
      · exact hcomponents _ _ fun h => rfl
      next hfits =>
      split
      · exact hcomponents _ _ fun h => absurd h (ofNat_ne (by omega) (by simp; omega))
      · exact hcomponents _ _ fun h => absurd h (by decide)

/-- The parts of a double are canonical. -/
theorem canonical_unpack {bits : BitVec Format.binary64.numBits} (hm : 0 < m)
    (h : UnpackedFloat.unpack Format.binary64 bits = .finite s m e hm) : Canonical m e := by
  simp only [UnpackedFloat.unpack, toNat_append] at h
  split at h
  · split at h <;> cases h
  · split at h
    · next hexponent =>
      split at h
      · cases h
      · cases h
        refine ⟨(BitVec.isLt _).trans (by decide), ?_, .inr ?_⟩ <;>
          simp [hexponent, Format.exponentBias]
    · next hexponent =>
      cases h
      have hpos : 0 < (unpackExponent bits).toNat :=
        Nat.pos_of_ne_zero fun hzero => hexponent (BitVec.eq_of_toNat_eq hzero)
      have hlt := (unpackMantissa bits).isLt
      rw [show Format.binary64.exponentBias = 1023 from rfl]
      exact ⟨by omega, by push_cast; omega, .inl (Nat.le_add_right _ _)⟩

end Double

end RhythmLogic
