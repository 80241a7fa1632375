/-
**The bar line that a program waits for is the next one.**

The next bar line is computed in ratios, or from a remainder where a ratio would not fit.  Both are
the first multiple of the bar that is not before the present, so that nothing depends on which of
the two was taken; and which one is taken is told by the size of the ratios alone: an operation has
a result just when the rational that it comes to fits, since common factors are cancelled first.

Main definitions:

* `barLinesFrom` — the multiples of a bar from a time on;
* `Fraction.Fits`, `RatiosFit` — a rational whose parts have 64 bits, and a bar line for which all
  ratios fit;
* `Fraction.LowestFor` — a ratio in lowest terms.

Main results:

* `Fraction.LowestFor.div?`, `Fraction.LowestFor.mul?`, `Fraction.LowestFor.succ?` — **an operation
  has a result if it fits**;
* `exists_ratioBoundary_iff` — when the bar line is computed in ratios;
* `schedule_firstBarLine` — **a program is queued for the first bar line that is not past**.
-/

import RhythmLogic.CommandLine.Mixer
import RhythmLogic.Handover
import RhythmLogic.Proofs.Ratios
import Mathlib.Order.Bounds.Basic

set_option autoImplicit false

namespace RhythmLogic

open Quantity

namespace Fraction

variable {f g r : Fraction} {x y : ℚ} {s : Bool} {a b c d : ℕ}

/-! ### Ratios that fit -/

/-- Both parts of a rational have 64 bits. -/
def Fits (x : ℚ) : Prop := x.num.natAbs < bound ∧ x.den < bound

/-- **A ratio in lowest terms.** -/
inductive LowestFor : Fraction → ℚ → Prop where
  | ratio {s : Bool} {a b : ℕ} {x : ℚ} : 0 < b → a.Coprime b → x = signFactor s * (a / b) →
      LowestFor (.ratio s a b) x

theorem LowestFor.standsFor (h : f.LowestFor x) : f.StandsFor x := by
  obtain ⟨hb, -, hx⟩ := h
  exact .ratio hb hx

/-- **The parts of a ratio in lowest terms** are those of the rational. -/
theorem parts_eq (hb : 0 < b) (hab : a.Coprime b) (hx : x = signFactor s * (a / b)) :
    x.num.natAbs = a ∧ x.den = b := by
  have hquotient : x = ((signed s a : ℤ) : ℚ) / ((b : ℤ) : ℚ) := by
    rw [hx, signed_eq, mul_div_assoc, Int.cast_natCast]
  have habs : (signed s a).natAbs = a := by cases s <;> simp [signed]
  have hcoprime : (signed s a).natAbs.Coprime (b : ℤ).natAbs := by rwa [habs, Int.natAbs_natCast]
  have hb' : (0 : ℤ) < b := by exact_mod_cast hb
  constructor
  · rw [hquotient, Rat.num_div_eq_of_coprime hb' hcoprime, habs]
  · have hden := Rat.den_div_eq_of_coprime hb' hcoprime
    rw [hquotient]
    exact_mod_cast hden

theorem fit_of_lt {n : ℕ} (h : n < bound) : fit n = some n := if_pos h

/-- A ratio in lowest terms is not reduced further. -/
theorem lowestFor_reduced (hb : 0 < b) (hab : a.Coprime b) (hx : x = signFactor s * (a / b)) :
    (reduced s a b).LowestFor x := by
  rw [reduced, hab.gcd_eq_one, Nat.div_one, Nat.div_one]
  exact .ratio hb hab hx

/-- What is left after cancelling across two ratios in lowest terms is in lowest terms. -/
theorem coprime_cancelled (hab : a.Coprime b) (hcd : c.Coprime d) (hc : 0 < c) (hb : 0 < b) :
    (a / a.gcd c * (d / b.gcd d)).Coprime (b / b.gcd d * (c / a.gcd c)) := by
  have ha' : a / a.gcd c ∣ a := Nat.div_dvd_of_dvd (Nat.gcd_dvd_left a c)
  have hb' : b / b.gcd d ∣ b := Nat.div_dvd_of_dvd (Nat.gcd_dvd_left b d)
  have hc' : c / a.gcd c ∣ c := Nat.div_dvd_of_dvd (Nat.gcd_dvd_right a c)
  have hd' : d / b.gcd d ∣ d := Nat.div_dvd_of_dvd (Nat.gcd_dvd_right b d)
  refine Nat.Coprime.mul_left (Nat.Coprime.mul_right ?_ ?_) (Nat.Coprime.mul_right ?_ ?_)
  · exact (hab.coprime_dvd_left ha').coprime_dvd_right hb'
  · exact Nat.coprime_div_gcd_div_gcd (Nat.gcd_pos_of_pos_right a hc)
  · exact (Nat.coprime_div_gcd_div_gcd (Nat.gcd_pos_of_pos_left d hb)).symm
  · exact (hcd.symm.coprime_dvd_left hd').coprime_dvd_right hc'

/-! ### Operations that fit -/

/-- **A result that is there if it fits**, and then is in lowest terms. -/
inductive Computes (x : ℚ) : Option Fraction → Prop where
  | fits {r : Fraction} : Fits x → r.LowestFor x → Computes x (some r)
  | overflows : ¬ Fits x → Computes x none

theorem Computes.exists_iff {result : Option Fraction} (h : Computes x result) :
    (∃ r, result = some r) ↔ Fits x := by
  cases h with
  | fits hx => simpa using hx
  | overflows hx => simpa using hx

/-- Parts in lowest terms are checked one after the other. -/
theorem computes_reduced (hb : 0 < b) (hab : a.Coprime b) (hx : x = signFactor s * (a / b)) :
    Computes x (match fit a, fit b with
      | some num, some den => some (reduced s num den)
      | _, _ => none) := by
  obtain ⟨hnum, hden⟩ := parts_eq hb hab hx
  by_cases ha : a < bound
  · by_cases hb' : b < bound
    · rw [fit_of_lt ha, fit_of_lt hb']
      exact .fits ⟨hnum ▸ ha, hden ▸ hb'⟩ (lowestFor_reduced hb hab hx)
    · rw [fit_of_lt ha, fit, if_neg hb']
      exact .overflows fun h => hb' (hden ▸ h.2)
  · rw [fit, if_neg ha]
    exact .overflows fun h => ha (hnum ▸ h.1)

theorem fits_zero : Fits 0 := ⟨by decide, by decide⟩

theorem lowestFor_zero : (ratio false 0 1).LowestFor 0 :=
  .ratio Nat.one_pos (Nat.coprime_one_right 0) (by simp)

/-- **A quotient is there if it fits.** -/
theorem LowestFor.div? (hf : f.LowestFor x) (hg : g.LowestFor y) (hy : y ≠ 0) :
    Computes (x / y) (f.div? g) := by
  obtain @⟨s, a, b, -, hb, hab, rfl⟩ := hf
  obtain @⟨t, c, d, -, hd, hcd, rfl⟩ := hg
  have hc : c ≠ 0 := by
    rintro rfl
    simp at hy
  have hc' := Nat.pos_of_ne_zero hc
  simp only [Fraction.div?, if_neg hc]
  split
  · next ha =>
    rw [ha, Nat.cast_zero, zero_div, mul_zero, zero_div]
    exact .fits fits_zero lowestFor_zero
  · exact computes_reduced (Nat.mul_pos (div_pos_of_dvd hb (Nat.gcd_dvd_left b d))
      (div_pos_of_dvd hc' (Nat.gcd_dvd_right a c))) (coprime_cancelled hab hcd hc' hb)
      (div_cancelled s t hb hc')

/-- **A product is there if it fits.** -/
theorem LowestFor.mul? (hf : f.LowestFor x) (hg : g.LowestFor y) :
    Computes (x * y) (f.mul? g) := by
  obtain @⟨s, a, b, -, hb, hab, rfl⟩ := hf
  obtain @⟨t, c, d, -, hd, hcd, rfl⟩ := hg
  have hcoprime := coprime_cancelled hab hcd.symm hd hb
  rw [Nat.gcd_comm b c] at hcoprime
  exact computes_reduced (Nat.mul_pos (div_pos_of_dvd hb (Nat.gcd_dvd_right c b))
    (div_pos_of_dvd hd (Nat.gcd_dvd_right a d))) hcoprime (mul_cancelled s t hb hd)

/-- The whole ratio below has no common factors. -/
theorem LowestFor.floor (hf : f.LowestFor x) : f.floor.LowestFor (⌊x⌋ : ℤ) := by
  have hfloor := hf.standsFor.floor
  obtain @⟨s, a, b, -, hb, hab, rfl⟩ := hf
  cases s <;> obtain ⟨hone, hx⟩ := hfloor <;> exact .ratio hone (Nat.coprime_one_right _) hx

theorem fits_intCast {i : ℤ} : Fits i ↔ i.natAbs < bound := by
  rw [Fits, Rat.num_intCast, Rat.den_intCast]
  exact and_iff_left (by decide)

/-- A rational that fits has a whole part that fits. -/
theorem Fits.floor (h : Fits x) : Fits (⌊x⌋ : ℤ) := by
  rw [fits_intCast, Rat.floor_def']
  exact (Int.natAbs_ediv_le_natAbs _ _).trans_lt h.1

/-- **One more than a whole ratio is there if it fits.** -/
theorem LowestFor.succ? {i : ℤ} (hf : f.LowestFor i) (hfits : Fits i) :
    Computes ((i + 1 : ℤ) : ℚ) f.succ? := by
  obtain @⟨s, a, b, -, hb, hab, hi⟩ := hf
  obtain ⟨ha, hone⟩ := parts_eq hb hab hi
  rw [Rat.num_intCast] at ha
  rw [Rat.den_intCast] at hone
  subst hone
  have hsigned : i = signed s a := by
    have hcast : (i : ℚ) = (signed s a : ℤ) := by simpa [signed_eq] using hi
    exact_mod_cast hcast
  have hlowest : ∀ (t : Bool) (n : ℕ), i + 1 = signed t n →
      (reduced t n 1).LowestFor ((i + 1 : ℤ) : ℚ) := fun t n hn =>
    lowestFor_reduced Nat.one_pos (Nat.coprime_one_right n) (by rw [hn, signed_eq]; simp)
  cases s with
  | false =>
      have hnext : i + 1 = signed false (a + 1) := by simp [hsigned, signed]
      by_cases hlt : a + 1 < bound
      · simp only [Fraction.succ?, fit_of_lt hlt, Option.map_some]
        refine .fits (fits_intCast.2 ?_) (hlowest _ _ hnext)
        rw [hnext]
        exact hlt
      · simp only [Fraction.succ?, fit, if_neg hlt, Option.map_none]
        refine .overflows fun h => hlt ?_
        rw [fits_intCast, hnext] at h
        exact h
  | true =>
      have hsmall : (i + 1).natAbs < bound := by
        have hlt := fits_intCast.1 hfits
        simp only [hsigned, signed, if_true, Int.ofNat_eq_natCast] at hlt ⊢
        have hbound : 1 < bound := by decide
        omega
      simp only [Fraction.succ?]
      split
      · next hlt =>
        exact .fits (fits_intCast.2 hsmall) (hlowest _ _ (by simp [hsigned, signed]; omega))
      · next hle =>
        exact .fits (fits_intCast.2 hsmall) (hlowest _ _ (by simp [hsigned, signed]; omega))

/-- The ratio of a rational is there if it fits. -/
theorem computes_toFraction? (x : ℚ) : Computes x (toFraction? x) := by
  have hratio : toFraction? x = (fit x.num.natAbs).bind fun num => (fit x.den).bind fun den =>
      some (.ratio (decide (x.num < 0)) num den) := rfl
  by_cases hnum : x.num.natAbs < bound
  · by_cases hden : x.den < bound
    · rw [hratio, fit_of_lt hnum, fit_of_lt hden]
      have hstands := standsFor_of_toFraction? (x := x)
        (by rw [hratio, fit_of_lt hnum, fit_of_lt hden]; rfl)
      obtain ⟨hpos, hx⟩ := hstands
      exact .fits ⟨hnum, hden⟩ (.ratio hpos x.reduced hx)
    · rw [hratio, fit_of_lt hnum, fit, if_neg hden]
      exact .overflows fun h => hden h.2
  · rw [hratio, fit, if_neg hnum]
    exact .overflows fun h => hnum h.1

end Fraction

/-! ### The next bar line -/

section Boundary

open Fraction

variable {now bar b : ℚ}

/-- **The bar lines from a time on.** -/
def barLinesFrom (bar now : ℚ) : Set ℚ := {x | (∃ k : ℤ, x = k * bar) ∧ now ≤ x}

/-- The first bar line from a time on. -/
theorem isLeast_barLinesFrom (hbar : 0 < bar) (now : ℚ) :
    IsLeast (barLinesFrom bar now) (⌈now / bar⌉ * bar) := by
  constructor
  · exact ⟨⟨_, rfl⟩, (div_le_iff₀ hbar).1 (Int.le_ceil _)⟩
  · rintro _ ⟨⟨k, rfl⟩, hk⟩
    have hceil : ⌈now / bar⌉ ≤ k := Int.ceil_le.2 ((div_le_iff₀ hbar).2 hk)
    exact mul_le_mul_of_nonneg_right (by exact_mod_cast hceil) hbar.le

/-- **All ratios fit** that are computed for a bar line: those of the time and of the bar, their
quotient, and, off a bar line, the next whole number and the bar line itself. -/
structure RatiosFit (now bar : ℚ) : Prop where
  ofNow : Fits now
  ofBar : Fits bar
  ofCycles : Fits (now / bar)
  ofNext : (⌊now / bar⌋ : ℚ) ≠ now / bar →
    Fits ((⌊now / bar⌋ + 1 : ℤ) : ℚ) ∧ Fits ((⌊now / bar⌋ + 1 : ℤ) * bar)

/-- The next multiple of a ratio is there if all ratios fit on the way. -/
theorem exists_exactBoundary_iff {f g : Fraction} (hbar : bar ≠ 0) (hf : f.LowestFor now)
    (hg : g.LowestFor bar) : (∃ r, exactBoundary f g = some r) ↔
      Fits (now / bar) ∧ ((⌊now / bar⌋ : ℚ) ≠ now / bar →
        Fits ((⌊now / bar⌋ + 1 : ℤ) : ℚ) ∧ Fits ((⌊now / bar⌋ + 1 : ℤ) * bar)) := by
  have hcomputes := hf.div? hg hbar
  simp only [exactBoundary]
  cases hcycles : f.div? g with
  | none =>
      rw [hcycles] at hcomputes
      obtain - | hoverflows := hcomputes
      simp [hoverflows]
  | some cycles =>
      rw [hcycles] at hcomputes
      obtain ⟨hfits, hquotient⟩ := hcomputes
      have hsame := hquotient.standsFor.same_iff hquotient.standsFor.floor
      have hnext := hquotient.floor.succ? hfits.floor
      simp only [Option.bind_eq_bind, Option.bind_some, hsame, hfits, true_and]
      split
      · next hwhole => simp [hwhole.symm]
      · next hpart =>
        rw [forall_prop_of_true (Ne.symm hpart)]
        cases hsucc : cycles.floor.succ? with
        | none =>
            rw [hsucc] at hnext
            obtain - | hoverflows := hnext
            exact iff_of_false (by simp) fun h => hoverflows h.1
        | some next =>
            rw [hsucc] at hnext
            obtain ⟨hfits, hlowest⟩ := hnext
            simp only [Option.bind_some, hfits, true_and]
            exact (hlowest.mul? hg).exists_iff

/-- **The bar line is computed in ratios if all of them fit.** -/
theorem exists_ratioBoundary_iff (hbar : bar ≠ 0) :
    (∃ b, ratioBoundary now bar = some b) ↔ RatiosFit now bar := by
  have hnow := computes_toFraction? now
  have hlength := computes_toFraction? bar
  simp only [ratioBoundary]
  cases hf : toFraction? now with
  | none =>
      rw [hf] at hnow
      obtain - | hoverflows := hnow
      simpa using fun h : RatiosFit now bar => hoverflows h.ofNow
  | some f =>
      cases hg : toFraction? bar with
      | none =>
          rw [hg] at hlength
          obtain - | hoverflows := hlength
          simpa using fun h : RatiosFit now bar => hoverflows h.ofBar
      | some g =>
          rw [hf] at hnow
          rw [hg] at hlength
          obtain ⟨hfitsNow, hlowestNow⟩ := hnow
          obtain ⟨hfitsBar, hlowestBar⟩ := hlength
          have hexact := exists_exactBoundary_iff hbar hlowestNow hlowestBar
          -- the ratio of a bar line stands for a rational, so that it can be read
          have hvalue : (∃ b, (exactBoundary f g).bind ofFraction? = some (b : ℚ)) ↔
              ∃ r, exactBoundary f g = some r := by
            constructor
            · rintro ⟨b, hb⟩
              obtain ⟨r, hr, -⟩ := Option.bind_eq_some_iff.1 hb
              exact ⟨r, hr⟩
            · rintro ⟨r, hr⟩
              have hstands := exactBoundary_standsFor hbar hlowestNow.standsFor
                hlowestBar.standsFor hr
              exact ⟨_, by rw [hr]; exact hstands.value⟩
          refine hvalue.trans (hexact.trans ⟨fun h => ⟨hfitsNow, hfitsBar, h.1, h.2⟩, fun h => ?_⟩)
          exact ⟨h.ofCycles, h.ofNext⟩

/-- A bar line in ratios is the next one. -/
theorem eq_of_ratioBoundary (hbar : bar ≠ 0) (h : ratioBoundary now bar = some b) :
    b = ⌈now / bar⌉ * bar := by
  rw [← nextBoundary_eq hbar, nextBoundary, h, Option.getD_some]

/-- **A program is queued for the first bar line that is not past.**  Let a bar have a length.

* Wherever all ratios fit, the bar line that is computed in them is the first one from the present
  on; elsewhere there is none.
* The bar line from the remainder of a division is the same one.
* A program that is queued waits for that bar line, which is less than a bar ahead.  At a later time
  it is not queued for an earlier bar line, and on a bar line it is queued for that one. -/
theorem schedule_firstBarLine (hbar : 0 < bar) (now : ℚ) :
    (∀ b, ratioBoundary now bar = some b ↔
      RatiosFit now bar ∧ IsLeast (barLinesFrom bar now) b) ∧
    IsLeast (barLinesFrom bar now) (plainBoundary now bar) ∧
    ∀ (h : Handover ℚ) (s : Transport ℚ) (p : Program), h.barDuration s = bar →
      let b := (h.schedule p now s).result
      IsLeast (barLinesFrom bar now) b ∧
      (h.schedule p now s).state.waiting = some ⟨p, b⟩ ∧
      0 ≤ b - now ∧ b - now < bar ∧
      (∀ later, now ≤ later → b ≤ (h.schedule p later s).result) ∧
      (h.schedule p b s).result = b := by
  have hleast := isLeast_barLinesFrom hbar now
  refine ⟨fun b => ⟨fun h => ?_, ?_⟩, ?_, ?_⟩
  · rw [eq_of_ratioBoundary hbar.ne' h]
    exact ⟨(exists_ratioBoundary_iff hbar.ne').1 ⟨b, h⟩, hleast⟩
  · rintro ⟨hfits, hb⟩
    obtain ⟨b', hb'⟩ := (exists_ratioBoundary_iff hbar.ne').2 hfits
    rw [hb', hb.unique hleast, eq_of_ratioBoundary hbar.ne' hb']
  · rw [plainBoundary_eq hbar.ne']
    exact hleast
  · rintro h s p rfl
    have hresult : ∀ time, (h.schedule p time s).result =
        ⌈time / h.barDuration s⌉ * h.barDuration s := fun time => nextBoundary_eq hbar.ne'
    have hnext : IsLeast (barLinesFrom (h.barDuration s) now) (h.schedule p now s).result := by
      rw [hresult]
      exact hleast
    refine ⟨hnext, rfl, sub_nonneg.2 hnext.1.2, ?_, fun later hlater => ?_, ?_⟩
    · rw [hresult]
      have hceil := sub_lt_iff_lt_add.2 (Int.ceil_lt_add_one (now / h.barDuration s))
      linarith [(lt_div_iff₀ hbar).1 hceil]
    · have hline := isLeast_barLinesFrom hbar later
      rw [← hresult] at hline
      exact hnext.2 ⟨hline.1.1, hlater.trans hline.1.2⟩
    · rw [hresult (h.schedule p now s).result, hresult now, mul_div_cancel_right₀ _ hbar.ne',
        Int.ceil_intCast]

/-- At a hundred and thirty beats a minute a bar has twenty-four thirteenths of a second.  At 1.3
the first bar line is its end, and it is computed in ratios. -/
theorem schedule_firstBarLine_thirteenths : ∃ (h : Handover ℚ) (s : Transport ℚ),
    0 < (24 / 13 : ℚ) ∧ h.barDuration s = 24 / 13 ∧
    ratioBoundary (13 / 10) (24 / 13 : ℚ) = some (24 / 13) ∧ RatiosFit (13 / 10) (24 / 13) ∧
    plainBoundary (13 / 10) (24 / 13 : ℚ) = 24 / 13 ∧
    (h.schedule .empty (13 / 10) s).state.waiting = some ⟨.empty, 24 / 13⟩ ∧
    24 / 13 ≤ (h.schedule .empty (15 / 10) s).result ∧
    (h.schedule .empty (24 / 13) s).result = 24 / 13 := by
  let h : Handover ℚ := .new 4
  let s : Transport ℚ := ((Transport.new (.silent 0) .standard 0).setBpm 130).1
  have hbar : h.barDuration s = 24 / 13 := by decide +kernel
  have hratio : ratioBoundary (13 / 10) (24 / 13 : ℚ) = some (24 / 13) := by decide +kernel
  obtain ⟨hratios, hplain, hqueue⟩ :=
    schedule_firstBarLine (by norm_num : (0 : ℚ) < 24 / 13) (13 / 10)
  obtain ⟨hfits, hfirst⟩ := (hratios _).1 hratio
  obtain ⟨hleast, hwaiting, -, -, hlater, hagain⟩ := hqueue h s .empty hbar
  have hresult := hleast.unique hfirst
  rw [hresult] at hwaiting hlater hagain
  exact ⟨h, s, by norm_num, hbar, hratio, hfits, hplain.unique hfirst, hwaiting,
    hlater (15 / 10) (by norm_num), hagain⟩

end Boundary

end RhythmLogic
