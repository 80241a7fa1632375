/-
**Ratios stand for rationals, and the next bar line is a multiple of the bar.**

A bar line is computed in ratios of 64-bit naturals, and from the remainder of a division where a
ratio does not fit.  Read in rationals both ways come to the same: the operations on ratios have no
result where it would not fit, and where they have one it is exact.  So the next bar line does not
depend on which of the two ways was taken.

Main definitions:

* `Fraction.StandsFor` — a ratio with a positive denominator stands for a rational.

Main results:

* `StandsFor.div?`, `StandsFor.floor`, `StandsFor.same_iff`, `StandsFor.succ?`, `StandsFor.mul?` —
  the arithmetic of ratios is exact;
* `exactBoundary_standsFor` — the next multiple in ratios;
* `nextBoundary_eq` — **the next bar line is the first multiple of the bar** that is not before the
  present.
-/

import RhythmLogic.BarLine
import RhythmLogic.Proofs.Grid
import Mathlib.Algebra.Order.Field.Basic
import Mathlib.Tactic.FieldSimp
import Mathlib.Tactic.Positivity
import Mathlib.Tactic.Ring

set_option autoImplicit false

namespace RhythmLogic

open Quantity

namespace Fraction

variable {f g r : Fraction} {x y : ℚ} {negative : Bool} {a b c d : ℕ}

/-! ### What a ratio stands for -/

/-- A sign as a factor. -/
def signFactor (negative : Bool) : ℚ := if negative then -1 else 1

/-- **A ratio with a positive denominator stands for a rational.** -/
inductive StandsFor : Fraction → ℚ → Prop where
  | ratio {negative : Bool} {a b : ℕ} {x : ℚ} : 0 < b → x = signFactor negative * (a / b) →
      StandsFor (.ratio negative a b) x

theorem signed_eq (negative : Bool) (a : ℕ) :
    (signed negative a : ℚ) = signFactor negative * a := by
  cases negative <;> simp [signed, signFactor]

theorem signFactor_bne (s t : Bool) : signFactor (s != t) = signFactor s * signFactor t := by
  cases s <;> cases t <;> simp [signFactor]

theorem signFactor_mul_self (s : Bool) : signFactor s * signFactor s = 1 := by
  cases s <;> simp [signFactor]

theorem StandsFor.value (h : f.StandsFor x) : f.value = some x := by
  obtain ⟨-, rfl⟩ := h
  rw [Fraction.value, Rat.mkRat_eq_div, signed_eq, mul_div_assoc]

theorem eq_of_fit {n m : ℕ} (h : fit n = some m) : m = n := by
  unfold fit at h
  split at h <;> cases h
  rfl

/-- **The ratio of a rational stands for it.** -/
theorem standsFor_of_toFraction? (h : toFraction? x = some f) : f.StandsFor x := by
  obtain ⟨num, hnum, h⟩ := Option.bind_eq_some_iff.1 h
  obtain ⟨den, hden, h⟩ := Option.bind_eq_some_iff.1 h
  cases h
  rw [eq_of_fit hnum, eq_of_fit hden]
  have hsign : x.num = signed (decide (x.num < 0)) x.num.natAbs := by
    by_cases hneg : x.num < 0
    · simp only [signed, hneg, decide_true, if_true, Int.ofNat_eq_natCast]
      omega
    · simp only [signed, hneg, decide_false, Int.ofNat_eq_natCast, Bool.false_eq_true, if_false]
      omega
  refine .ratio x.den_pos ?_
  rw [← mul_div_assoc, ← signed_eq, ← hsign, Rat.num_div_den]

/-! ### Common factors -/

/-- A factor of one part of the one ratio and the other part of the other one may be left out. -/
theorem cross_cancel {g h : ℕ} (hg : 0 < g) (hh : 0 < h) (hga : g ∣ a) (hgc : g ∣ c) (hhb : h ∣ b)
    (hhd : h ∣ d) : ((a / g * (d / h) : ℕ) : ℚ) / (b / h * (c / g) : ℕ) = a * d / (b * c) := by
  obtain ⟨a, rfl⟩ := hga
  obtain ⟨c, rfl⟩ := hgc
  obtain ⟨b, rfl⟩ := hhb
  obtain ⟨d, rfl⟩ := hhd
  rw [Nat.mul_div_cancel_left _ hg, Nat.mul_div_cancel_left _ hg, Nat.mul_div_cancel_left _ hh,
    Nat.mul_div_cancel_left _ hh]
  push_cast
  have hfactor : (g * h : ℚ) ≠ 0 := by positivity
  calc (a * d : ℚ) / (b * c) = (g * h) * (a * d) / ((g * h) * (b * c)) :=
        (mul_div_mul_left _ _ hfactor).symm
    _ = g * a * (h * d) / (h * b * (g * c)) := by ring

/-- A ratio in lowest terms stands for the same. -/
theorem standsFor_reduced (hb : 0 < b) (hx : x = signFactor negative * (a / b)) :
    (reduced negative a b).StandsFor x := by
  have hg : 0 < a.gcd b := Nat.gcd_pos_of_pos_right a hb
  refine .ratio (Nat.div_pos (Nat.gcd_le_right a hb) hg) (hx.trans ?_)
  have hquotient := cross_cancel hg Nat.one_pos (Nat.gcd_dvd_left a b) (Nat.gcd_dvd_right a b)
    (one_dvd 1) (one_dvd 1)
  simp only [Nat.div_self Nat.one_pos, mul_one, one_mul, Nat.cast_one] at hquotient
  rw [hquotient]

theorem div_pos_of_dvd {g : ℕ} (ha : 0 < a) (h : g ∣ a) : 0 < a / g :=
  Nat.div_pos (Nat.le_of_dvd ha h) (Nat.pos_of_dvd_of_pos h ha)

/-! ### Arithmetic -/

/-- A quotient, with common factors cancelled first. -/
theorem div_cancelled (s t : Bool) (hb : 0 < b) (hc : 0 < c) :
    signFactor s * (a / b) / (signFactor t * (c / d)) = signFactor (s != t) *
      ((a / a.gcd c * (d / b.gcd d) : ℕ) / (b / b.gcd d * (c / a.gcd c) : ℕ)) := by
  have hinv : (signFactor t)⁻¹ = signFactor t := inv_eq_of_mul_eq_one_left (signFactor_mul_self t)
  rw [cross_cancel (Nat.gcd_pos_of_pos_right a hc) (Nat.gcd_pos_of_pos_left d hb)
    (Nat.gcd_dvd_left a c) (Nat.gcd_dvd_right a c) (Nat.gcd_dvd_left b d) (Nat.gcd_dvd_right b d),
    signFactor_bne, div_eq_mul_inv, mul_inv, hinv, inv_div]
  ring

/-- A product, with common factors cancelled first. -/
theorem mul_cancelled (s t : Bool) (hb : 0 < b) (hd : 0 < d) :
    signFactor s * (a / b) * (signFactor t * (c / d)) = signFactor (s != t) *
      ((a / a.gcd d * (c / c.gcd b) : ℕ) / (b / c.gcd b * (d / a.gcd d) : ℕ)) := by
  rw [cross_cancel (Nat.gcd_pos_of_pos_right a hd) (Nat.gcd_pos_of_pos_right c hb)
    (Nat.gcd_dvd_left a d) (Nat.gcd_dvd_right a d) (Nat.gcd_dvd_right c b) (Nat.gcd_dvd_left c b),
    signFactor_bne]
  ring

/-- **A quotient is exact**, where it fits. -/
theorem StandsFor.div? (hf : f.StandsFor x) (hg : g.StandsFor y) (hy : y ≠ 0)
    (h : f.div? g = some r) : r.StandsFor (x / y) := by
  obtain @⟨s, a, b, -, hb, rfl⟩ := hf
  obtain @⟨t, c, d, -, hd, rfl⟩ := hg
  have hc : c ≠ 0 := by
    rintro rfl
    simp at hy
  simp only [Fraction.div?, if_neg hc] at h
  split at h
  · next ha =>
    subst ha
    cases h
    exact .ratio Nat.one_pos (by simp)
  split at h
  next num den hnum hden =>
    cases h
    rw [eq_of_fit hnum, eq_of_fit hden]
    exact standsFor_reduced (Nat.mul_pos (div_pos_of_dvd hb (Nat.gcd_dvd_left b d))
      (div_pos_of_dvd (Nat.pos_of_ne_zero hc) (Nat.gcd_dvd_right a c)))
      (div_cancelled s t hb (Nat.pos_of_ne_zero hc))
  · cases h

/-- **A product is exact**, where it fits. -/
theorem StandsFor.mul? (hf : f.StandsFor x) (hg : g.StandsFor y) (h : f.mul? g = some r) :
    r.StandsFor (x * y) := by
  obtain @⟨s, a, b, -, hb, rfl⟩ := hf
  obtain @⟨t, c, d, -, hd, rfl⟩ := hg
  simp only [Fraction.mul?] at h
  split at h
  next num den hnum hden =>
    cases h
    rw [eq_of_fit hnum, eq_of_fit hden]
    exact standsFor_reduced (Nat.mul_pos (div_pos_of_dvd hb (Nat.gcd_dvd_right c b))
      (div_pos_of_dvd hd (Nat.gcd_dvd_right a d))) (mul_cancelled s t hb hd)
  · cases h

/-- The whole number above a quotient. -/
theorem ceil_div (a : ℕ) (hb : 0 < b) : ⌈(a / b : ℚ)⌉ = ((a + b - 1) / b : ℕ) := by
  have hb' : (0 : ℚ) < b := Nat.cast_pos.2 hb
  have hdiv := Nat.div_add_mod (a + b - 1) b
  have hmod := Nat.mod_lt (a + b - 1) hb
  generalize (a + b - 1) / b = q at hdiv ⊢
  rw [Int.ceil_eq_iff, lt_div_iff₀ hb', div_le_iff₀ hb', Int.cast_natCast]
  have hbelow : q * b < a + b := by
    rw [Nat.mul_comm]
    omega
  have habove : a ≤ q * b := by
    rw [Nat.mul_comm]
    omega
  constructor
  · have hbelow' : (q * b : ℚ) < a + b := by exact_mod_cast hbelow
    linarith
  · exact_mod_cast habove

/-- **The whole ratio below is exact.** -/
theorem StandsFor.floor (hf : f.StandsFor x) : f.floor.StandsFor (⌊x⌋ : ℤ) := by
  obtain @⟨s, a, b, -, hb, rfl⟩ := hf
  cases s with
  | false =>
      refine .ratio Nat.one_pos ?_
      simp only [signFactor, Bool.false_eq_true, if_false, one_mul, Nat.cast_one, div_one]
      rw [Rat.floor_natCast_div_natCast]
      rfl
  | true =>
      refine .ratio Nat.one_pos ?_
      rw [signFactor, if_pos rfl, neg_one_mul, Int.floor_neg, ceil_div a hb]
      simp only [Nat.cast_one, div_one, Int.cast_neg, Int.cast_natCast]
      by_cases ha : a = 0
      · -- a zero has no sign, whatever sign it came with
        rw [ha, Nat.zero_add, Nat.div_eq_of_lt (Nat.sub_lt hb Nat.one_pos)]
        simp
      · simp [signFactor, ha]

/-- **One more is exact**, where it fits. -/
theorem StandsFor.succ? (hf : f.StandsFor x) (h : f.succ? = some r) : r.StandsFor (x + 1) := by
  obtain @⟨s, a, b, -, hb, rfl⟩ := hf
  have hb' : (b : ℚ) ≠ 0 := by positivity
  cases s with
  | false =>
      obtain ⟨n, hn, rfl⟩ := Option.map_eq_some_iff.1 h
      rw [eq_of_fit hn]
      refine standsFor_reduced hb ?_
      simp only [signFactor, Bool.false_eq_true, if_false]
      push_cast
      field_simp
  | true =>
      simp only [Fraction.succ?] at h
      cases h
      split
      · next hlt =>
        refine standsFor_reduced hb ?_
        simp only [signFactor, if_true]
        rw [Nat.cast_sub hlt.le]
        field_simp
        ring
      · next hle =>
        refine standsFor_reduced hb ?_
        simp only [signFactor, Bool.false_eq_true, if_false, if_true]
        rw [Nat.cast_sub (not_lt.1 hle)]
        field_simp
        ring

/-- **Ratios are the same if they stand for the same.** -/
theorem StandsFor.same_iff (hf : f.StandsFor x) (hg : g.StandsFor y) :
    f.same g = true ↔ x = y := by
  obtain @⟨s, a, b, -, hb, rfl⟩ := hf
  obtain @⟨t, c, d, -, hd, rfl⟩ := hg
  have hb' : (0 : ℚ) < b := Nat.cast_pos.2 hb
  have hd' : (0 : ℚ) < d := Nat.cast_pos.2 hd
  have hcross : (a / b : ℚ) = c / d ↔ a * d = c * b := by
    rw [div_eq_div_iff hb'.ne' hd'.ne']
    exact_mod_cast Iff.rfl
  have hfactor : ∀ u, signFactor u ≠ 0 := fun u hu => by
    simpa [hu] using signFactor_mul_self u
  rw [same, Bool.and_eq_true, beq_iff_eq, Bool.or_eq_true, beq_iff_eq, beq_iff_eq, ← hcross]
  by_cases hst : s = t
  · subst hst
    rw [mul_right_inj' (hfactor s)]
    simp
  · -- ratios of different signs are the same if both are zero
    have hopposite : signFactor s = -signFactor t := by
      cases s <;> cases t <;> first | exact absurd rfl hst | simp [signFactor]
    have ha : (0 : ℚ) ≤ a / b := by positivity
    have hc : (0 : ℚ) ≤ c / d := by positivity
    rw [hopposite, neg_mul_comm, mul_right_inj' (hfactor t), or_iff_right hst]
    constructor
    · rintro ⟨heq, rfl⟩
      rw [← heq]
      simp
    · intro heq
      have hzero : (a / b : ℚ) = 0 := by linarith
      refine ⟨by linarith, ?_⟩
      rcases div_eq_zero_iff.1 hzero with ha | hb
      · exact_mod_cast ha
      · exact absurd hb hb'.ne'

end Fraction

/-! ### The next multiple -/

section Boundary

variable {now quantum : ℚ}

/-- The multiple after the last one that is before the present is the first that is not. -/
theorem ceil_eq_of_ne (h : (⌊now / quantum⌋ : ℚ) ≠ now / quantum) :
    ⌈now / quantum⌉ = ⌊now / quantum⌋ + 1 := by
  rw [Int.ceil_eq_iff]
  push_cast
  have hlt : (⌊now / quantum⌋ : ℚ) < now / quantum := lt_of_le_of_ne (Int.floor_le _) h
  exact ⟨by linarith, (Int.lt_floor_add_one _).le⟩

/-- The present is a multiple if the quotient is whole. -/
theorem mul_ceil_of_eq (hq : quantum ≠ 0) (h : (⌊now / quantum⌋ : ℚ) = now / quantum) :
    (⌈now / quantum⌉ : ℚ) * quantum = now := by
  rw [← h, Int.ceil_intCast, h, div_mul_cancel₀ now hq]

/-- **The next multiple in ratios** is exact, where it fits. -/
theorem exactBoundary_standsFor {f g r : Fraction} (hq : quantum ≠ 0) (hf : f.StandsFor now)
    (hg : g.StandsFor quantum) (h : exactBoundary f g = some r) :
    r.StandsFor (⌈now / quantum⌉ * quantum) := by
  simp only [exactBoundary] at h
  obtain ⟨cycles, hcycles, h⟩ := Option.bind_eq_some_iff.1 h
  have hquotient := hf.div? hg hq hcycles
  split at h
  · next hsame =>
    cases h
    have hwhole := (hquotient.same_iff hquotient.floor).1 hsame
    exact (mul_ceil_of_eq hq hwhole.symm).symm ▸ hf
  · next hdifferent =>
    obtain ⟨next, hnext, hproduct⟩ := Option.bind_eq_some_iff.1 h
    have hne : (⌊now / quantum⌋ : ℚ) ≠ now / quantum := fun heq =>
      hdifferent ((hquotient.same_iff hquotient.floor).2 heq.symm)
    rw [ceil_eq_of_ne hne, Int.cast_add, Int.cast_one]
    exact (hquotient.floor.succ? hnext).mul? hg hproduct

/-- The next multiple from the remainder of a division. -/
theorem plainBoundary_eq (hq : quantum ≠ 0) :
    plainBoundary now quantum = ⌈now / quantum⌉ * quantum := by
  have hphase : remEuclid now quantum = now - quantum * ⌊now / quantum⌋ := rfl
  have hzero : isZero (remEuclid now quantum) = true ↔ (⌊now / quantum⌋ : ℚ) = now / quantum := by
    rw [hphase, eq_div_iff hq]
    simp only [isZero, le_eq_decide, ofInt_eq_cast, Bool.and_eq_true, decide_eq_true_eq,
      Int.cast_zero]
    constructor
    · rintro ⟨hle, hge⟩
      linarith
    · intro heq
      constructor <;> linarith
  simp only [plainBoundary]
  split
  · next hwhole => exact (mul_ceil_of_eq hq (hzero.1 hwhole)).symm
  · next hpart =>
    rw [ceil_eq_of_ne fun heq => hpart (hzero.2 heq), hphase]
    push_cast
    ring

/-- **The next bar line is the first multiple of the bar** that is not before the present, in ratios
or not. -/
theorem nextBoundary_eq (hq : quantum ≠ 0) :
    nextBoundary now quantum = ⌈now / quantum⌉ * quantum := by
  rw [nextBoundary]
  cases h : ratioBoundary now quantum with
  | none => exact plainBoundary_eq hq
  | some boundary =>
      obtain ⟨f, hf, h⟩ := Option.bind_eq_some_iff.1 h
      obtain ⟨g, hg, h⟩ := Option.bind_eq_some_iff.1 h
      obtain ⟨r, hr, hvalue⟩ := Option.bind_eq_some_iff.1 h
      have hexact := exactBoundary_standsFor hq (Fraction.standsFor_of_toFraction? hf)
        (Fraction.standsFor_of_toFraction? hg) hr
      exact Option.some.inj (hvalue.symm.trans hexact.value)

end Boundary

end RhythmLogic
