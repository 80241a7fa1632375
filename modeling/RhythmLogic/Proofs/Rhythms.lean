/-
**Euclidean rhythms: strokes that are spread evenly.**

Step `x` of a rhythm of `k` strokes over `n` steps is a stroke if `x * k % n < k`.  This is where
the whole part of `x * k / n` goes up, so the strokes of a window are told by the quotient at its
last step and the one before its first, and everything else follows from how much two whole parts
can differ.  Common divisors of `k` and `n` play no part.

A rotation is reduced before it is added, and the sum again, so that no product leaves the machine
integers in which the gate is computed.

Main definitions:

* `strokes` — how many steps of a window are strokes, counted around the cycle;
* `EuclidArguments` — arguments with which the goal `euc` asks the gate.

Main results:

* `mul_ediv_eq_add` — **a stroke is where the quotient goes up**;
* `countP_strikes` — the strokes of a window by two quotients;
* `euclideanGate_eq` — the gate has a result at every step;
* `solve_euclid` — the goal `euc` asks the gate;
* `euclideanGate_even` — **the strokes are spread evenly**.
-/

import RhythmLogic.Builtin.Rhythm
import RhythmLogic.CommandLine.Mixer
import RhythmLogic.Proofs.Equality
import Mathlib.Data.Rat.Floor

set_option autoImplicit false

namespace RhythmLogic

variable {n k r s x : ℤ}

/-! ### Quotients that go up -/

/-- **A stroke is where the quotient goes up.** -/
theorem mul_ediv_eq_add (hn : 0 < n) (hk : 0 ≤ k) (hkn : k ≤ n) (x : ℤ) :
    x * k / n = (x - 1) * k / n + if x * k % n < k then 1 else 0 := by
  have hprevious : x * k = (x - 1) * k + k := by ring
  have hsplit := Int.emod_add_mul_ediv ((x - 1) * k) n
  have hlow := Int.emod_nonneg ((x - 1) * k) hn.ne'
  have hhigh := Int.emod_lt_of_pos ((x - 1) * k) hn
  generalize (x - 1) * k / n = q at hsplit ⊢
  generalize (x - 1) * k % n = rest at hsplit hlow hhigh
  rcases lt_or_ge (rest + k) n with hstays | hrises
  · -- the rest grows by `k`, so that it is not below `k`
    have hx : x * k = rest + k + n * q := by linarith
    rw [hx, Int.add_mul_ediv_left _ _ hn.ne', Int.add_mul_emod_self_left,
      Int.ediv_eq_zero_of_lt (by omega) hstays, Int.emod_eq_of_lt (by omega) hstays,
      if_neg (by omega)]
    ring
  · have hx : x * k = rest + k - n + n * (q + 1) := by linarith
    rw [hx, Int.add_mul_ediv_left _ _ hn.ne', Int.add_mul_emod_self_left,
      Int.ediv_eq_zero_of_lt (by omega) (by omega), Int.emod_eq_of_lt (by omega) (by omega),
      if_pos (by omega)]
    ring

/-- **The strokes of a window** by the quotients at its last step and before its first. -/
theorem countP_strikes (hn : 0 < n) (hk : 0 ≤ k) (hkn : k ≤ n) (x : ℤ) (m : ℕ) :
    (((List.range m).countP fun i : ℕ => decide ((x + i) * k % n < k) : ℕ) : ℤ) =
      (x + m - 1) * k / n - (x - 1) * k / n := by
  induction m with
  | zero => simp
  | succ m ih =>
      rw [List.range_succ, List.countP_append, List.countP_singleton]
      push_cast
      rw [ih, show x + (m + 1) - 1 = x + m by ring, mul_ediv_eq_add hn hk hkn (x + m)]
      simp only [decide_eq_true_eq]
      ring

/-- Two quotients differ by the quotient of the difference, rounded to the one side or the other. -/
theorem ediv_sub_ediv (hn : 0 < n) (x y : ℤ) :
    (x + y) / n - x / n = ⌊(y / n : ℚ)⌋ ∨ (x + y) / n - x / n = ⌈(y / n : ℚ)⌉ := by
  have hfloor : ∀ z : ℤ, z / n = ⌊(z / n : ℚ)⌋ := by
    lift n to ℕ using hn.le
    exact fun z => (Rat.floor_intCast_div_natCast z n).symm
  rw [hfloor, hfloor, Int.cast_add, add_div]
  have hlow := Int.le_floor_add (x / n : ℚ) (y / n)
  have hhigh : ⌊(x / n + y / n : ℚ)⌋ ≤ ⌊(x / n : ℚ)⌋ + ⌈(y / n : ℚ)⌉ := by
    rw [← Int.floor_add_intCast]
    exact Int.floor_le_floor (add_le_add_right (Int.le_ceil _) _)
  have hnear := Int.ceil_le_floor_add_one (y / n : ℚ)
  omega

/-! ### The gate -/

/-- **The gate has a result at every step**: no sum and no product leaves the range. -/
theorem euclideanGate_eq (hn : 1 ≤ n) (hmax : n ≤ maxIndex) (hk : 0 ≤ k) (hkn : k ≤ n) (r : ℤ)
    (hs : 0 ≤ s) (hsmax : s ≤ maxIndex) :
    euclideanGate s n k r = some (decide ((s + r % n) % n * k % n < k)) := by
  have hturn := Int.emod_nonneg r (by omega : n ≠ 0)
  have hturn' := Int.emod_lt_of_pos r (by omega : 0 < n)
  have hplace := Int.emod_nonneg (s + r % n) (by omega : n ≠ 0)
  have hplace' := Int.emod_lt_of_pos (s + r % n) (by omega : 0 < n)
  have hproduct : (s + r % n) % n * k ≤ maxIndex * maxIndex :=
    mul_le_mul (by omega) (by omega) hk (by decide)
  have hproduct' : 0 ≤ (s + r % n) % n * k := mul_nonneg hplace hk
  have hsum : Width.signed128.add s (r % n) = some (s + r % n) :=
    Width.fit_eq_some (by simp only [Width.least]; omega)
      (by simp only [Width.greatest, maxIndex] at *; omega)
  have hmul : Width.signed128.mul ((s + r % n) % n) k = some ((s + r % n) % n * k) :=
    Width.fit_eq_some (by simp only [Width.least]; omega)
      (hproduct.trans (by decide))
  simp only [euclideanGate, Width.residue_of_pos (by omega : 0 < n), hsum, hmul,
    Width.remainder_of_nonneg (add_nonneg hs hturn) (by omega : 0 < n),
    Width.remainder_of_nonneg hproduct' (by omega : 0 < n), Option.bind_eq_bind, Option.bind_some]

/-- The step of a time is one of the cycle. -/
theorem exists_stepIndex (hn : 1 ≤ n) (time beats bpm : Float) :
    ∃ s, stepIndex time n beats bpm = some s ∧ 0 ≤ s ∧ s < n :=
  ⟨_, Width.residue_of_pos (by omega), Int.emod_nonneg _ (by omega),
    Int.emod_lt_of_pos _ (by omega)⟩

/-- **Arguments with which the goal `euc` asks the gate**: a time, strokes, steps, beats and a turn,
of which the strokes fit the steps and the beats are positive. -/
inductive EuclidArguments (e : Bindings) : List Term → Float → Float → ℤ → ℤ → ℤ → Prop where
  | intro {time strokes size beats turn : Term} {t k n b r : Float} :
      (e.subst time).evaluate = some t → (e.subst strokes).evaluate = some k →
      (e.subst size).evaluate = some n → (e.subst beats).evaluate = some b →
      (e.subst turn).evaluate = some r →
      (k.isFinite && n.isFinite && n ≥ 1.0 && k ≥ 0.0 && k ≤ n) = true → ¬ b ≤ 0.0 →
      EuclidArguments e [time, strokes, size, beats, turn] t b (n.index .towardZero)
        (k.index .towardZero) (r.index .towardZero)

/-- **The goal `euc` asks the gate** at the step of its time. -/
theorem solve_euclid {knowledge : Knowledge} (hstandard : knowledge.builtins = .standard)
    {e : Bindings} {args : List Term} {t b : Float} (hn : 1 ≤ n) (hmax : n ≤ maxIndex)
    (hk : 0 ≤ k) (hkn : k ≤ n) (hargs : EuclidArguments e args t b n k r)
    (hs : stepIndex t n b knowledge.bpm = some s) (progress : Progress) :
    solve knowledge [.call (.compound "euc" args)] e progress =
      tested (decide ((s + r % n) % n * k % n < k)) e progress := by
  obtain ⟨s', hs', hlow, hhigh⟩ := exists_stepIndex hn t b knowledge.bpm
  cases hs.symm.trans hs'
  have hgate := euclideanGate_eq hn hmax hk hkn r hlow (by omega)
  cases hargs with
  | intro htime hstrokes hsize hbeats hturn husable hcycle =>
      refine solve_test (b := .euclid) (by rw [hstandard]; rfl) ?_
      simp only [Builtin.euclid, Body.number, htime, hstrokes, hsize, hbeats, hturn, pure_bind,
        husable, Bool.not_true, Bool.false_eq_true, if_false, if_neg hcycle, hs, hgate,
        Body.machine]

/-! ### Even rhythms -/

/-- How many steps of the window of `m` steps from step `x` on are strokes, counted around the
cycle. -/
def strokes (n k r x : ℤ) (m : ℕ) : ℕ :=
  (List.range m).countP fun i : ℕ => euclideanGate ((x + i) % n) n k r == some true

/-- The strokes of a window, without a look at where the cycle starts anew. -/
theorem strokes_eq (hn : 1 ≤ n) (hmax : n ≤ maxIndex) (hk : 0 ≤ k) (hkn : k ≤ n) (r x : ℤ)
    (m : ℕ) : (strokes n k r x m : ℤ) = (x + r + m - 1) * k / n - (x + r - 1) * k / n := by
  rw [← countP_strikes (by omega) hk hkn, strokes]
  congr 2
  funext i
  have hlow := Int.emod_nonneg (x + i) (by omega : n ≠ 0)
  have hhigh := Int.emod_lt_of_pos (x + i) (by omega : 0 < n)
  have hcycle : (x + i + r) % n * k % n = (x + r + i) * k % n := by
    rw [add_right_comm x r]
    exact (Int.mod_modEq _ n).mul_right k
  rw [euclideanGate_eq hn hmax hk hkn r hlow (by omega), ← Int.add_emod, hcycle]
  simp

/-- **A Euclidean rhythm spreads its strokes evenly.**  Let there be `k` strokes for `n` steps, and
any rotation.

* The gate has a result at every step, and no intermediate result leaves its range.
* Of the steps of a cycle, wherever it starts, exactly `k` are strokes.
* A window of `m` steps, counted around the cycle, has `m * k / n` strokes, rounded to the one side
  or the other.
* The rhythm with a rotation is the one without, taken up at a later step.
* The goal `euc` asks the gate at a step of the cycle. -/
theorem euclideanGate_even (hn : 1 ≤ n) (hmax : n ≤ maxIndex) (hk : 0 ≤ k) (hkn : k ≤ n) (r : ℤ) :
    (∀ s, 0 ≤ s → s ≤ maxIndex →
      euclideanGate s n k r = some (decide ((s + r % n) % n * k % n < k))) ∧
    (∀ x, (strokes n k r x n.toNat : ℤ) = k) ∧
    (∀ x m, (strokes n k r x m : ℤ) = ⌊(m * k / n : ℚ)⌋ ∨
      (strokes n k r x m : ℤ) = ⌈(m * k / n : ℚ)⌉) ∧
    (∀ s, 0 ≤ s → s ≤ maxIndex →
      euclideanGate s n k r = euclideanGate ((s + r) % n) n k 0) ∧
    ∀ (knowledge : Knowledge) (e : Bindings) (args : List Term) (t b : Float) (progress : Progress),
      knowledge.builtins = .standard → EuclidArguments e args t b n k r →
      ∃ s, stepIndex t n b knowledge.bpm = some s ∧ 0 ≤ s ∧ s < n ∧
        solve knowledge [.call (.compound "euc" args)] e progress =
          tested (decide ((s + r % n) % n * k % n < k)) e progress := by
  have hpos : 0 < n := by omega
  refine ⟨fun s hs hsmax => euclideanGate_eq hn hmax hk hkn r hs hsmax, ?cycle, ?window, ?rotation,
    ?goal⟩
  case cycle =>
    intro x
    have hround : (x + r + n - 1) * k = (x + r - 1) * k + n * k := by ring
    rw [strokes_eq hn hmax hk hkn, Int.toNat_of_nonneg hpos.le, hround,
      Int.add_mul_ediv_left _ _ hpos.ne', add_sub_cancel_left]
  case window =>
    intro x m
    have hwindow : (x + r + m - 1) * k = (x + r - 1) * k + m * k := by ring
    rw [strokes_eq hn hmax hk hkn, hwindow]
    exact_mod_cast ediv_sub_ediv hpos ((x + r - 1) * k) (m * k)
  case rotation =>
    intro s hs hsmax
    have hlow := Int.emod_nonneg (s + r) hpos.ne'
    have hhigh := Int.emod_lt_of_pos (s + r) hpos
    rw [euclideanGate_eq hn hmax hk hkn r hs hsmax,
      euclideanGate_eq hn hmax hk hkn 0 hlow (by omega), Int.add_emod_emod, Int.zero_emod, add_zero,
      Int.emod_emod]
  case goal =>
    intro knowledge e args t b progress hstandard hargs
    obtain ⟨s, hs, hlow, hhigh⟩ := exists_stepIndex hn t b knowledge.bpm
    exact ⟨s, hs, hlow, hhigh, solve_euclid hstandard hn hmax hk hkn hargs hs progress⟩

/-- Six strokes over sixteen steps, which have a common divisor, turned backwards by five.  The goal
is asked at the fourth step of a cycle of four beats. -/
theorem euclideanGate_even_sixteen :
    let knowledge : Knowledge := ⟨⟨[]⟩, .standard, 8, 120⟩
    let args : List Term := [.number 0.375, .number 6, .number 16, .number 4, .number (-5)]
    let progress : Progress := ⟨⟨.empty, .ofSeed 0, []⟩, 0, false⟩
    (∀ s, 0 ≤ s → s ≤ maxIndex →
      euclideanGate s 16 6 (-5) = some (decide ((s + 11) % 16 * 6 % 16 < 6))) ∧
    (∀ x, (strokes 16 6 (-5) x 16 : ℤ) = 6) ∧
    (∀ x, strokes 16 6 (-5) x 5 = 1 ∨ strokes 16 6 (-5) x 5 = 2) ∧
    (∀ s, 0 ≤ s → s ≤ maxIndex →
      euclideanGate s 16 6 (-5) = euclideanGate ((s + -5) % 16) 16 6 0) ∧
    solve knowledge [.call (.compound "euc" args)] .empty progress = .ok ([.empty], progress) := by
  intro knowledge args progress
  obtain ⟨hgate, hcycle, hwindow, hrotation, hgoal⟩ := euclideanGate_even (n := 16) (k := 6)
    (by decide) (by decide) (by decide) (by decide) (-5)
  refine ⟨hgate, hcycle, fun x => ?_, hrotation, ?_⟩
  · have hfive := hwindow x 5
    norm_num at hfive
    exact_mod_cast hfive
  · obtain ⟨hsteps, hstrokes, hturn⟩ : (16 : Float).index .towardZero = 16 ∧
        (6 : Float).index .towardZero = 6 ∧ (-5 : Float).index .towardZero = -5 := by
      decide +kernel
    have hargs : EuclidArguments .empty args 0.375 4 _ _ _ :=
      .intro (k := 6) (n := 16) (r := -5) rfl rfl rfl rfl rfl (by decide +kernel)
        (by decide +kernel)
    rw [hsteps, hstrokes, hturn] at hargs
    obtain ⟨s, hs, -, -, hsolve⟩ := hgoal knowledge .empty args 0.375 4 progress rfl hargs
    have hthree : stepIndex 0.375 16 4 120 = some 3 := by decide +kernel
    cases hs.symm.trans hthree
    exact hsolve

end RhythmLogic
