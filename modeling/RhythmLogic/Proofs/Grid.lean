/-
**The grid: the times that a tick asks for, counted exactly.**

A tick asks for the grid times from the present to the horizon that were not asked for before.  Read
in rationals the grid times are the multiples of the step, and what a tick asks for is an interval
of indexes: from the index of the present, or the one after the latest that was asked for, to the
first index that is not before the horizon.  So after a tick every later one starts at that index or
behind it, whatever was asked for before: below the horizon of a tick nothing is left to ask for.

Main definitions:

* `Timing.Positive` — a tempo, a lookahead and a grid, as every transport has them;
* `Timing.endIndex` — the first grid index that is not before the horizon of a tick;
* `Timing.between` — the grid times with the indexes of an interval.

Main results:

* `Timing.Positive.configure` — changing the settings keeps them positive;
* `Timing.between_append` — intervals that meet are one;
* `Timing.mem_gridTimes` — **the grid times that are due are an interval of the grid**;
* `Timing.firstIndex_next` — where the tick after a tick starts;
* `Timing.endIndex_le_firstIndex` — **a tick leaves nothing below its horizon**.
-/

import RhythmLogic.Transport.Timing
import Mathlib.Algebra.Order.Field.Rat
import Mathlib.Data.Rat.Floor
import Mathlib.Tactic.Linarith
import Mathlib.Tactic.NormNum

set_option autoImplicit false

namespace RhythmLogic

open Quantity

/-! ### The exact reading -/

@[simp] theorem le_eq_decide (x y : ℚ) : Quantity.le x y = decide (x ≤ y) := rfl

@[simp] theorem lt_eq_decide (x y : ℚ) : Quantity.lt x y = decide (x < y) := rfl

@[simp] theorem ofInt_eq_cast (i : ℤ) : (ofInt i : ℚ) = i := rfl

@[simp] theorem floor_eq (x : ℚ) : Quantity.floor x = ⌊x⌋ := rfl

theorem indexes_eq (k : ℤ) (step horizon : ℚ) :
    indexes k step horizon = (⌈horizon / step⌉ - k).toNat + 1 :=
  congrArg (fun i : ℤ => (i - k).toNat + 1) (Rat.ceil_eq_neg_floor_neg (horizon / step))

theorem isPositive_iff (x : ℚ) : isPositive x = true ↔ 0 < x := by
  simp [isPositive, Quantity.isFinite]

theorem slack_eq : (slack : ℚ) = 1 / 10 ^ 9 := by
  decide +kernel

namespace Timing

variable {s : Timing ℚ} {last : Option ℚ} {now t : ℚ} {times : List ℚ} {i j k : ℤ}

/-! ### Settings -/

/-- Tempo, lookahead and grid are positive. -/
structure Positive (s : Timing ℚ) : Prop where
  bpm : 0 < s.bpm
  lookahead : 0 < s.lookahead
  grid : 0 < s.grid

theorem positive_standard : (standard : Timing ℚ).Positive := by
  constructor <;> decide +kernel

/-- **Changing the settings keeps them positive,** whatever they are changed to. -/
theorem Positive.configure (hs : s.Positive) (bpm swing lookahead grid : ℚ) :
    (s.configure bpm swing lookahead grid).Positive := by
  have hchoice : ∀ {new old : ℚ}, 0 < old → 0 < if isPositive new then new else old := by
    intro new old hold
    split
    · next hnew => exact (isPositive_iff new).1 hnew
    · exact hold
  exact ⟨hchoice hs.bpm, hchoice hs.lookahead, hchoice hs.grid⟩

theorem Positive.step_pos (hs : s.Positive) : 0 < s.step :=
  mul_pos (div_pos (by norm_num) hs.bpm) hs.grid

theorem horizon_eq (s : Timing ℚ) (now : ℚ) : s.horizon now = now + s.lookahead / 1000 := rfl

/-- The horizon lies ahead. -/
theorem Positive.lt_horizon (hs : s.Positive) (now : ℚ) : now < s.horizon now := by
  rw [horizon_eq]
  linarith [div_pos hs.lookahead (by norm_num : (0 : ℚ) < 1000)]

/-! ### Indexes -/

/-- **The first grid index that is not before the horizon of a tick.** -/
def endIndex (s : Timing ℚ) (now : ℚ) : ℤ := ⌈s.horizon now / s.step⌉

theorem endIndex_le_iff (hs : s.Positive) {i : ℤ} :
    s.endIndex now ≤ i ↔ s.horizon now ≤ i * s.step := by
  rw [endIndex, Int.ceil_le, div_le_iff₀ hs.step_pos]

theorem lt_endIndex_iff (hs : s.Positive) {i : ℤ} :
    i < s.endIndex now ↔ i * s.step < s.horizon now := by
  rw [← not_le, endIndex_le_iff hs, not_le]

/-- The present has an index before the horizon. -/
theorem floor_lt_endIndex (hs : s.Positive) (now : ℚ) : ⌊now / s.step⌋ < s.endIndex now := by
  rw [lt_endIndex_iff hs]
  calc (⌊now / s.step⌋ : ℚ) * s.step ≤ now / s.step * s.step :=
        mul_le_mul_of_nonneg_right (Int.floor_le _) hs.step_pos.le
    _ = now := div_mul_cancel₀ now hs.step_pos.ne'
    _ < s.horizon now := hs.lt_horizon now

/-- A later tick looks further. -/
theorem endIndex_le_endIndex (hs : s.Positive) {later : ℚ} (h : now ≤ later) :
    s.endIndex now ≤ s.endIndex later := by
  have hhorizon : s.horizon now ≤ s.horizon later := by
    rw [horizon_eq, horizon_eq]
    linarith
  exact Int.ceil_le_ceil (div_le_div_of_nonneg_right hhorizon hs.step_pos.le)

theorem firstIndex_none : s.firstIndex none now = ⌊now / s.step⌋ := rfl

theorem firstIndex_some :
    s.firstIndex (some t) now = max ⌊now / s.step⌋ (⌊t / s.step + slack⌋ + 1) := rfl

/-- No grid time is asked for that lies a step or more in the past. -/
theorem floor_le_firstIndex (s : Timing ℚ) (last : Option ℚ) (now : ℚ) :
    ⌊now / s.step⌋ ≤ s.firstIndex last now := by
  cases last with
  | none => exact le_rfl
  | some t => exact le_max_left _ _

/-- The index of a grid time is found again. -/
theorem floor_grid (hs : s.Positive) (i : ℤ) :
    ⌊(i * s.step) / s.step + (slack : ℚ)⌋ = i := by
  rw [mul_div_cancel_right₀ _ hs.step_pos.ne', Int.floor_intCast_add, slack_eq]
  norm_num

/-! ### Intervals of the grid -/

/-- **The grid times with the indexes of an interval**, in order. -/
def between (s : Timing ℚ) (i j : ℤ) : List ℚ :=
  (List.range (j - i).toNat).map fun n : ℕ => ((i + n : ℤ) : ℚ) * s.step

theorem mem_between : t ∈ s.between i j ↔ ∃ k : ℤ, i ≤ k ∧ k < j ∧ t = k * s.step := by
  simp only [between, List.mem_map, List.mem_range]
  constructor
  · rintro ⟨n, hn, rfl⟩
    exact ⟨_, by omega, by omega, rfl⟩
  · rintro ⟨k, hi, hj, rfl⟩
    refine ⟨(k - i).toNat, by omega, ?_⟩
    rw [Int.toNat_of_nonneg (by omega), add_sub_cancel]

/-- The grid times of an interval up to the end of a window are those before its horizon. -/
theorem mem_between_endIndex (hs : s.Positive) : t ∈ s.between i (s.endIndex now) ↔
    ∃ k : ℤ, t = k * s.step ∧ i ≤ k ∧ t < s.horizon now := by
  rw [mem_between]
  constructor
  · rintro ⟨k, hfirst, hend, rfl⟩
    exact ⟨k, rfl, hfirst, (lt_endIndex_iff hs).1 hend⟩
  · rintro ⟨k, rfl, hfirst, hlt⟩
    exact ⟨k, hfirst, (lt_endIndex_iff hs).2 hlt, rfl⟩

theorem pairwise_between (hs : s.Positive) (i j : ℤ) : (s.between i j).Pairwise (· < ·) := by
  refine List.pairwise_map.2 (List.pairwise_lt_range.imp fun {m n} hmn => ?_)
  have hcast : ((i + m : ℤ) : ℚ) < ((i + n : ℤ) : ℚ) := by
    exact_mod_cast add_lt_add_right (Int.ofNat_lt.2 hmn) i
  exact mul_lt_mul_of_pos_right hcast hs.step_pos

theorem between_of_le (h : j ≤ i) : s.between i j = [] := by
  rw [between, Int.toNat_of_nonpos (by omega)]
  rfl

/-- Intervals that meet are one. -/
theorem between_append (hij : i ≤ j) (hjk : j ≤ k) :
    s.between i j ++ s.between j k = s.between i k := by
  have hcount : (k - i).toNat = (j - i).toNat + (k - j).toNat := by omega
  rw [between, between, between, hcount, List.range_add, List.map_append, List.map_map]
  congr 1
  refine List.map_congr_left fun n _ => ?_
  have hindex : j + (n : ℤ) = i + (((j - i).toNat + n : ℕ) : ℤ) := by omega
  simp only [Function.comp_apply, hindex]

/-- An interval goes on where it ended, or where it was to start if it is empty. -/
theorem between_append_max (i : ℤ) (hjk : j ≤ k) :
    s.between i j ++ s.between (max i j) k = s.between i k := by
  rcases le_total i j with h | h
  · rw [max_eq_right h, between_append h hjk]
  · rw [max_eq_left h, between_of_le h, List.nil_append]

theorem getLast?_between (h : i < j) :
    (s.between i j).getLast? = some (((j - 1 : ℤ) : ℚ) * s.step) := by
  have hlast : s.between (j - 1) j = [((j - 1 : ℤ) : ℚ) * s.step] := by
    rw [between, show (j - (j - 1)).toNat = 1 by omega]
    simp
  rw [← between_append (by omega : i ≤ j - 1) (by omega), hlast, List.getLast?_concat]

/-! ### Grid times -/

theorem timesFrom_eq {step horizon : ℚ} (hstep : 0 < step) {fuel : ℕ} {k : ℤ}
    (hfuel : (⌈horizon / step⌉ - k).toNat < fuel) :
    timesFrom step horizon fuel k =
      some ((List.range (⌈horizon / step⌉ - k).toNat).map fun i : ℕ =>
        ((k + i : ℤ) : ℚ) * step) := by
  induction fuel generalizing k with
  | zero => omega
  | succ fuel ih =>
      have hle : horizon ≤ k * step ↔ ⌈horizon / step⌉ ≤ k := by
        rw [Int.ceil_le, div_le_iff₀ hstep]
      simp only [timesFrom, le_eq_decide, ofInt_eq_cast, decide_eq_true_eq, hle]
      split
      · next hend =>
          rw [Int.toNat_of_nonpos (by omega)]
          rfl
      · next hbefore =>
          have hcount : (⌈horizon / step⌉ - k).toNat = (⌈horizon / step⌉ - (k + 1)).toNat + 1 := by
            omega
          rw [ih (by omega), hcount, List.range_succ_eq_map]
          simp only [Option.map_some, List.map_cons, List.map_map, Nat.cast_zero, add_zero,
            Option.some.injEq, List.cons.injEq, true_and]
          refine List.map_congr_left fun i _ => ?_
          simp only [Function.comp_apply, Nat.succ_eq_add_one]
          push_cast
          ring

/-- What is due at a tick is an interval of the grid. -/
theorem gridTimes_eq (hs : s.Positive) (last : Option ℚ) (now : ℚ) :
    s.gridTimes last now = some (s.between (s.firstIndex last now) (s.endIndex now)) :=
  timesFrom_eq hs.step_pos (by rw [indexes_eq]; exact Nat.lt_succ_self _)

/-- **The grid times that are due are an interval of the grid.** -/
theorem mem_gridTimes (hs : s.Positive) (h : s.gridTimes last now = some times) :
    t ∈ times ↔ ∃ i : ℤ, s.firstIndex last now ≤ i ∧ i < s.endIndex now ∧ t = i * s.step := by
  rw [gridTimes_eq hs, Option.some.injEq] at h
  rw [← h, mem_between]

/-- **After a tick** the next index is the one at which its window ended, or the one that was next
already if that is behind the window; unless the present has overtaken both. -/
theorem firstIndex_next (hs : s.Positive) (h : s.gridTimes last now = some times) (later : ℚ) :
    s.firstIndex (times.getLast?.or last) later =
      max ⌊later / s.step⌋ (max (s.firstIndex last now) (s.endIndex now)) := by
  rw [gridTimes_eq hs, Option.some.injEq] at h
  subst h
  rcases le_or_gt (s.endIndex now) (s.firstIndex last now) with hidle | hdue
  · -- nothing was due, so that what was asked for before goes up to the horizon
    have hhere := floor_lt_endIndex hs now
    rw [between_of_le hidle, max_eq_left hidle]
    cases last with
    | none =>
        rw [firstIndex_none] at hidle
        omega
    | some t =>
        rw [firstIndex_some] at hidle
        simp only [List.getLast?_nil, Option.none_or, firstIndex_some]
        omega
  · -- the last grid time that was due is the last one before the horizon
    rw [getLast?_between hdue, Option.some_or, firstIndex_some, floor_grid hs, max_eq_right hdue.le,
      sub_add_cancel]

/-- **A tick leaves nothing below its horizon**: the ticks after it start at the first index that is
not before the horizon, or behind it. -/
theorem endIndex_le_firstIndex (hs : s.Positive) (h : s.gridTimes last now = some times)
    (later : ℚ) : s.endIndex now ≤ s.firstIndex (times.getLast?.or last) later := by
  rw [firstIndex_next hs h]
  exact (le_max_right _ _).trans (le_max_right _ _)

end Timing

end RhythmLogic
