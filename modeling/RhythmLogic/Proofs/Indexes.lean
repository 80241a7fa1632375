/-
**Arithmetic on arbitrary indexes.**

A number that a builtin is given becomes a whole number with 64 bits, and a number that is too large
becomes the greatest or the least of them.  So nothing can be said of this whole number but that it
has 64 bits, and of a number that was compared with one before, that it is positive.  Each builtin
has its own way to go on safely from there: a remainder that is not negative, twice as many bits, a
difference that stops at the least number, or an absolute value without a sign.

What is said here is said of all whole numbers with 64 bits, and not of the numbers they came from.

Main definitions:

* `IsIndex` — a whole number with 64 bits.

Main results:

* `Double.one_le_index` — a finite number from one on has a positive index;
* `exists_residue`, `exists_euclideanGate` — steps of a cycle, and the gate of a rhythm;
* `exists_rotated`, `Memory.step_lt` — **the places of a list that is turned or cycled**;
* `exists_degreePitch`, `exists_drawn` — degrees of every scale, and draws from every range.
-/

import RhythmLogic.Proofs.Rhythms
import RhythmLogic.Proofs.Velocities

set_option autoImplicit false

namespace RhythmLogic

/-- **A whole number with 64 bits.** -/
structure IsIndex (i : ℤ) : Prop where
  low : minIndex ≤ i
  high : i ≤ maxIndex

theorem isIndex_index (r : Rounding) (x : Float) : IsIndex (x.index r) :=
  ⟨Float.minIndex_le_index r x, Float.index_le_maxIndex r x⟩

/-! ### Numbers from one on -/

namespace Double

open Float.Model (Format UnpackedFloat)
open Float.Model.UnpackedFloat (Sign unpackExponent unpackMantissa unpackSign)

theorem toNat_unpackExponent (bits : UInt64) :
    (@unpackExponent .binary64 bits.toBitVec).toNat = bits.toNat / twoTo 52 % twoTo 11 := by
  simp [unpackExponent, Nat.shiftRight_eq_div_pow, twoTo]

theorem toNat_unpackMantissa (bits : UInt64) :
    (@unpackMantissa .binary64 bits.toBitVec).toNat = bits.toNat % twoTo 52 := by
  simp [unpackMantissa, twoTo]

theorem toNat_unpackSign (bits : UInt64) :
    (@unpackSign .binary64 bits.toBitVec).toNat = bits.toNat / twoTo 63 := by
  have hbits := bits.toNat_lt
  simp [unpackSign, Nat.shiftRight_eq_div_pow, twoTo]
  omega

/-- The sign bit of a positive number is not set. -/
theorem lt_of_sign {bits : UInt64}
    (h : Sign.ofBitVec (@unpackSign .binary64 bits.toBitVec) = .positive) :
    bits.toNat < twoTo 63 := by
  have hsign := toNat_unpackSign bits
  rw [Sign.ofBitVec] at h
  split at h
  · next hzero =>
    rw [hzero] at hsign
    exact (Nat.div_eq_zero_iff_lt (by decide)).1 hsign.symm
  · cases h

/-- **The parts of a positive double** are those of its model. -/
theorem ofFloat_eq_finite {x : Float} {m : ℕ} {e : ℤ} {hm : 0 < m}
    (h : x.toModel.unpack = .finite .positive m e hm) : Binary.ofFloat x = .finite false m e := by
  have hexponent := toNat_unpackExponent x.toBits
  have hmantissa := toNat_unpackMantissa x.toBits
  change UnpackedFloat.unpack Format.binary64 x.toBits.toBitVec = _ at h
  simp only [UnpackedFloat.unpack, toNat_append] at h
  split at h
  · split at h <;> cases h
  next hfinite =>
  have hfield : x.toBits.toNat / twoTo 52 % twoTo 11 ≠ 2047 := by
    rw [← hexponent]
    exact fun hall => hfinite (BitVec.eq_of_toNat_eq hall)
  rw [Binary.ofFloat, if_neg hfield]
  split at h
  · next hsubnormal =>
    split at h
    · cases h
    injection h with hsign hm' he
    rw [hsubnormal] at hexponent he
    have hzero : x.toBits.toNat / twoTo 52 % twoTo 11 = 0 := hexponent.symm
    rw [if_pos hzero, ← hmantissa, hm', ← he, decide_eq_false (lt_of_sign hsign).not_ge]
    rfl
  · next hnormal =>
    injection h with hsign hm' he
    have hnonzero : x.toBits.toNat / twoTo 52 % twoTo 11 ≠ 0 := by
      rw [← hexponent]
      exact fun hzero => hnormal (BitVec.eq_of_toNat_eq hzero)
    rw [if_neg hnonzero, ← hexponent, ← hmantissa, ← he, ← hm',
      decide_eq_false (lt_of_sign hsign).not_ge, Nat.add_comm]
    rfl
/-- A finite number from one on. -/
theorem exists_of_one_le {x : Float} (hx : x.isFinite = true) (h : (1.0 : Float) ≤ x) :
    ∃ m e, 2 ^ 52 ≤ m ∧ -52 ≤ e ∧ Binary.ofFloat x = .finite false m e := by
  have hone : (1.0 : Float).toModel.unpack = .finite .positive (2 ^ 52) (-52) (by decide) := rfl
  change x.toModel.unpack.isFinite = true at hx
  rw [le_iff, hone] at h
  rcases hunpack : x.toModel.unpack with s | _ | s | ⟨_ | _, m, e, hm⟩ <;> rw [hunpack] at h hx
  case infinity | notANumber => cases hx
  case zero => cases s <;> cases h
  case finite.negative => cases h
  case finite.positive =>
    have hcanonical := canonical_unpack hm hunpack
    have hplace := isLE_then_iff.1 h
    exact ⟨m, e, by rcases hcanonical.normal with h | h <;> omega, by omega,
      ofFloat_eq_finite hunpack⟩

/-- **The index of a finite number from one on** is positive. -/
theorem one_le_index {x : Float} (hx : x.isFinite = true) (h : (1.0 : Float) ≤ x) :
    1 ≤ x.index .towardZero := by
  obtain ⟨m, e, hm, he, hparts⟩ := exists_of_one_le hx h
  have hwhole : 1 ≤ Rounding.towardZero.whole false m e := by
    cases e with
    | ofNat k => exact Int.ofNat_le.2 (Nat.mul_pos (by omega) (Nat.two_pow_pos k))
    | negSucc k =>
        have hunit : twoTo (k + 1) ≤ m :=
          (Nat.pow_le_pow_right (by decide) (by omega : k + 1 ≤ 52)).trans hm
        exact Int.ofNat_le.2 ((Nat.one_le_div_iff (Nat.two_pow_pos _)).2 hunit)
  rw [Float.index, hparts]
  exact le_max_of_le_right (le_min (by decide) hwhole)

end Double

/-! ### Steps of a cycle -/

variable {n s k r : ℤ}

/-- **The remainder by a positive number** is a step of the cycle. -/
theorem exists_residue (w : Width) (hn : 1 ≤ n) (x : ℤ) :
    ∃ y, w.residue x n = some y ∧ 0 ≤ y ∧ y < n :=
  ⟨_, Width.residue_of_pos (by omega), Int.emod_nonneg _ (by omega),
    Int.emod_lt_of_pos _ (by omega)⟩

theorem Width.remainder_of_pos (w : Width) (hn : 1 ≤ n) (x : ℤ) :
    w.remainder x n = some (x.tmod n) := by
  rw [remainder, if_neg (by omega), if_neg (by omega)]

/-- **The gate of a rhythm has a result** at every step of the cycle, for any number of strokes and
any turn: with twice the bits no product leaves its range. -/
theorem exists_euclideanGate (hn : IsIndex n) (hpos : 1 ≤ n) (hs : 0 ≤ s) (hsn : s < n)
    (hk : IsIndex k) (r : ℤ) : ∃ strikes, euclideanGate s n k r = some strikes := by
  obtain ⟨turn, hturn, hlow, hhigh⟩ := exists_residue .signed128 hpos r
  have hmax := hn.high
  have hsum : Width.signed128.add s turn = some (s + turn) :=
    Width.fit_eq_some (by simp only [Width.least]; omega)
      (by simp only [Width.greatest, maxIndex] at *; omega)
  have hplace := Int.emod_nonneg (s + turn) (by omega : n ≠ 0)
  have hplace' := Int.emod_lt_of_pos (s + turn) (by omega : 0 < n)
  have hproduct : |(s + turn) % n * k| ≤ maxIndex * (maxIndex + 1) := by
    rw [abs_mul]
    refine mul_le_mul ?_ ?_ (abs_nonneg _) (by decide)
    · rw [abs_of_nonneg hplace]
      omega
    · have hleast : minIndex = -(maxIndex + 1) := rfl
      exact abs_le.2 ⟨hleast ▸ hk.low, hk.high.trans (by decide)⟩
  obtain ⟨hleast, hgreatest⟩ := abs_le.1 hproduct
  have hmul : Width.signed128.mul ((s + turn) % n) k = some ((s + turn) % n * k) :=
    Width.fit_eq_some (le_trans (by decide) hleast) (hgreatest.trans (by decide))
  have hmoved : Width.signed128.remainder (s + turn) n = some ((s + turn) % n) :=
    Width.remainder_of_nonneg (by omega) (by omega)
  have hrest := Width.remainder_of_pos .signed128 hpos ((s + turn) % n * k)
  simp only [euclideanGate, hturn, hsum, hmoved, hmul, hrest, Option.bind_eq_bind,
    Option.bind_some]
  exact ⟨_, rfl⟩

/-! ### Places of a list -/

/-- **A list that is turned** by any number of places: the remainder is a place of the list, and each
item is found at the sum of two places, counted around. -/
theorem exists_rotated {items : List Term} (hitems : items ≠ []) (shift : ℤ) :
    ∃ (places : ℕ) (turned : List Term),
    Width.unsigned64.remainder shift.natAbs items.length = some (places : ℤ) ∧
    places < items.length ∧ rotated items shift = some turned ∧
    ∀ i < items.length, (i + places) % items.length < items.length ∧
      turned[i]? = items[(i + places) % items.length]? := by
  have hpos : 0 < items.length := List.length_pos_iff.2 hitems
  have hplaces : shift.natAbs % items.length < items.length := Nat.mod_lt _ hpos
  have hremainder : Width.unsigned64.remainder shift.natAbs items.length =
      some ((shift.natAbs % items.length : ℕ) : ℤ) :=
    Width.remainder_of_nonneg (by omega) (by omega)
  refine ⟨shift.natAbs % items.length, items.rotate (shift.natAbs % items.length), hremainder,
    hplaces, ?_, fun i hi => ⟨Nat.mod_lt _ hpos, List.getElem?_rotate hi⟩⟩
  simp only [rotated, hremainder, Option.bind_eq_bind, Option.bind_some, Int.toNat_natCast,
    List.rotate_eq_drop_append_take hplaces.le]

/-- **The sizes that are counted in** have no sign, so that nothing that has 64 bits is too large
without its sign, and neither is the sum of two places. -/
theorem fit_natAbs {i : ℤ} (hi : IsIndex i) :
    Width.unsigned64.fit i.natAbs = some (i.natAbs : ℤ) := by
  have hlow := hi.low
  have hhigh := hi.high
  simp only [minIndex, maxIndex] at hlow hhigh
  exact Width.fit_eq_some (by simp only [Width.least]; omega) (by simp only [Width.greatest]; omega)

theorem add_places {length i j : ℕ} (hlength : IsIndex length) (hi : i < length)
    (hj : j ≤ length) : Width.unsigned64.add i j = some (i + j : ℕ) := by
  have hmax := hlength.high
  simp only [maxIndex] at hmax
  exact Width.fit_eq_some (by simp only [Width.least]; omega) (by simp only [Width.greatest]; omega)

/-- **A counter that is stepped** gives a place of the cycle. -/
theorem Memory.step_lt (m : Memory) (key : String) {length : ℕ} (hpos : 0 < length) :
    (m.step key length).1 < length := by
  rw [step, if_neg (by omega)]
  exact Nat.mod_lt _ hpos

/-! ### Degrees of a scale -/

/-- Every scale has a degree. -/
theorem length_scales : ∀ p ∈ scales, 1 ≤ p.2.length := by decide

/-- A quotient by a positive number fits where the dividend does. -/
theorem Width.exists_quotient {x : ℤ} (hx : IsIndex x) (hn : 1 ≤ n) :
    ∃ q, Width.signed64.quotient x n = some q := by
  refine ⟨x.tdiv n, ?_⟩
  rw [quotient, if_neg (by omega)]
  have hlow := hx.low
  have hhigh := hx.high
  simp only [minIndex, maxIndex] at hlow hhigh
  rcases le_total 0 x with h | h
  · have hle := Int.tdiv_le_self n h
    have hge := Int.tdiv_nonneg h (by omega : 0 ≤ n)
    exact fit_eq_some (by simp only [least]; omega) (by simp only [greatest]; omega)
  · have hle := Int.tdiv_le_self n (neg_nonneg.2 h)
    have hge := Int.tdiv_nonneg (neg_nonneg.2 h) (by omega : 0 ≤ n)
    rw [Int.neg_tdiv] at hle hge
    exact fit_eq_some (by simp only [least]; omega) (by simp only [greatest]; omega)

/-- **Every degree of every scale has a pitch.** -/
theorem exists_degreePitch {name : String} {intervals : List ℤ}
    (hscale : scales.lookup name = some intervals) (root : Float) (degree : ℤ) (octave : Float) :
    ∃ pitch, degreePitch root intervals degree octave = some pitch := by
  obtain ⟨before, after, hsplit, -⟩ := List.lookup_eq_some_iff.1 hscale
  have hmember : (name, intervals) ∈ scales := hsplit ▸ List.mem_append_right _ List.mem_cons_self
  have hcount : (1 : ℤ) ≤ Int.ofNat intervals.length :=
    Int.ofNat_le.2 (length_scales _ hmember)
  obtain ⟨place, hplace, hlow, hhigh⟩ :=
    exists_residue .signed64 hcount (saturate (degree - 1))
  have hindex : IsIndex (saturate (degree - 1)) :=
    ⟨minIndex_le_saturate _, saturate_le_maxIndex _⟩
  obtain ⟨climb, hclimb⟩ := Width.exists_quotient hindex hcount
  have hinside : place.toNat < intervals.length := by
    rw [Int.ofNat_eq_natCast] at hhigh
    omega
  simp only [degreePitch, hplace, hclimb, List.getElem?_eq_getElem hinside, Option.bind_eq_bind,
    Option.bind_some]
  exact ⟨_, rfl⟩

/-! ### Draws from a range -/

/-- **The range that is drawn from** is never empty, and what is drawn of it is added without leaving
the range: it is a number of the range that is asked for, or its lower end. -/
theorem exists_drawn {lo hi : ℤ} (hlo : IsIndex lo) (hhi : IsIndex hi) : ∃ difference,
    Width.signed128.sub hi lo = some difference ∧ 0 < (max difference 1).toNat ∧
    ∀ drawn : ℕ, drawn < (max difference 1).toNat →
      Width.signed128.add lo (Int.ofNat drawn) = some (lo + drawn) ∧
      (lo + drawn = lo ∨ lo + drawn < hi) := by
  have := hlo.low
  have := hlo.high
  have := hhi.low
  have := hhi.high
  simp only [minIndex, maxIndex] at *
  refine ⟨hi - lo, Width.fit_eq_some ?_ ?_, by omega, fun drawn hdrawn =>
    ⟨Width.fit_eq_some ?_ ?_, by omega⟩⟩ <;>
  simp only [Width.least, Width.greatest, Int.ofNat_eq_natCast] <;>
  omega

end RhythmLogic
