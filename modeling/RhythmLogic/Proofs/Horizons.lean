/-
**A tick ends if its horizon is reached by the time of the greatest grid index.**

A tick goes through the grid indexes, from the first that is due to the first whose time is not
before the horizon.  In rationals there always is such an index.  Indexes have 64 bits, though, and
times are doubles: a step may round to zero, or be so small against the clock that the time of the
greatest index is before the horizon.  Then no index at all has a time that reaches the horizon, and
the tick goes round through the indexes without an end.  There is nothing between the two: if the
time of the greatest index reaches the horizon, then the tick ends, after the times of indexes that
follow each other, none of which passes the greatest one.

The index after the latest grid time is computed by itself.  It is one more than an index that is
moved into the range of 64 bits, and so leaves the range if that one is the greatest.  The transport
then forgets what it has dispatched.

Main definitions:

* `Timing.Advances` — tempo and grid are positive, as every transport has them;
* `Timing.successive` — the grid times of some indexes that follow each other;
* `Timing.lastTime` — the time of the greatest index.

Main results:

* `Timing.gridTimes_of_reached`, `Timing.gridTimes_of_not_reached` — what is due is found just when
  the horizon is reached by the time of the greatest index;
* `Transport.acts_advances` — whatever a host does, tempo and grid stay positive;
* `Transport.tickAt_ends` — **when a tick ends**, and what it dispatches;
* `Transport.tickAt_overflows` — ticks that do not end, and a grid time that is dispatched twice.
-/

import RhythmLogic.CommandLine.Mixer
import RhythmLogic.Proofs.Doubles
import RhythmLogic.Proofs.Schedules

set_option autoImplicit false

namespace RhythmLogic

open Quantity

namespace Timing

/-! ### From an index to the horizon -/

section Loop

variable {α : Type} [Quantity α] {step horizon : α} {k : ℤ} {fuel n : ℕ}

/-- **The grid times of `n` indexes from `k` on.** -/
def successive (step : α) (k : ℤ) (n : ℕ) : List α :=
  (List.range n).map fun i : ℕ => ofInt (k + i) * step

/-- The grid times go up to the first that is not before the horizon. -/
theorem timesFrom_of_reached (hfuel : n < fuel)
    (hbefore : ∀ i : ℕ, i < n → le horizon (ofInt (k + i) * step) = false)
    (hreached : le horizon (ofInt (k + n) * step) = true) :
    timesFrom step horizon fuel k = some (successive step k n) := by
  induction n generalizing fuel k with
  | zero =>
      obtain ⟨fuel, rfl⟩ : ∃ rest, fuel = rest + 1 := ⟨fuel - 1, by omega⟩
      rw [Nat.cast_zero, add_zero] at hreached
      simp only [timesFrom, hreached, if_true]
      rfl
  | succ n ih =>
      obtain ⟨fuel, rfl⟩ : ∃ rest, fuel = rest + 1 := ⟨fuel - 1, by omega⟩
      have hindex : ∀ i : ℕ, k + 1 + i = k + (i + 1 : ℕ) := fun i => by omega
      have hfirst := hbefore 0 n.succ_pos
      have hrest : timesFrom step horizon fuel (k + 1) = some (successive step (k + 1) n) := by
        refine ih (by omega) (fun i hi => ?_) ?_
        · rw [hindex]
          exact hbefore (i + 1) (by omega)
        · rwa [hindex]
      rw [Nat.cast_zero, add_zero] at hfirst
      simp only [timesFrom, hfirst, hrest, successive, Bool.false_eq_true, if_false,
        Option.map_some, List.range_succ_eq_map, List.map_cons, List.map_map, Nat.cast_zero,
        add_zero]
      congr 2
      refine List.map_congr_left fun i _ => ?_
      rw [Function.comp_apply, hindex]

/-- If none of the times reaches the horizon there are none to be found. -/
theorem timesFrom_of_not_reached
    (hbefore : ∀ i : ℕ, i < fuel → le horizon (ofInt (k + i) * step) = false) :
    timesFrom step horizon fuel k = none := by
  induction fuel generalizing k with
  | zero => rfl
  | succ fuel ih =>
      have hfirst := hbefore 0 fuel.succ_pos
      have hrest := ih (k := k + 1) fun i hi => by
        rw [show k + 1 + (i : ℤ) = k + (i + 1 : ℕ) by omega]
        exact hbefore (i + 1) (by omega)
      rw [Nat.cast_zero, add_zero] at hfirst
      simp only [timesFrom, hfirst, hrest, Bool.false_eq_true, if_false, Option.map_none]

end Loop

/-! ### Positive settings -/

section Settings

variable {α : Type} [Quantity α] {s : Timing α}

/-- **Tempo and grid are positive.** -/
structure Advances (s : Timing α) : Prop where
  bpm : isPositive s.bpm = true
  grid : isPositive s.grid = true

/-- Changing the settings keeps them positive, whatever they are changed to. -/
theorem Advances.configure (hs : s.Advances) (bpm swing lookahead grid : α) :
    (s.configure bpm swing lookahead grid).Advances := by
  have hchoice : ∀ {new old : α}, isPositive old = true →
      isPositive (if isPositive new = true then new else old) = true := by
    intro new old hold
    split
    · assumption
    · exact hold
  exact ⟨hchoice hs.bpm, hchoice hs.grid⟩

theorem advances_standard : (standard : Timing Float).Advances := by
  constructor <;> decide +kernel

end Settings

/-! ### Indexes with 64 bits -/

variable {s : Timing Float} {last : Option Float} {now t : Float}

/-- **The time of the greatest index.** -/
def lastTime (s : Timing Float) : Float := Float.ofInt maxIndex * s.step

/-- A step is not negative, though it may round to zero or be infinite. -/
theorem Advances.hasSign_step (hs : s.Advances) :
    Double.HasSign .positive s.step.toModel.unpack := by
  obtain ⟨m, e, hm, hbpm⟩ := (Double.isPositive_iff _).1 hs.bpm
  obtain ⟨m', e', hm', hgrid⟩ := (Double.isPositive_iff _).1 hs.grid
  have hstep : s.step.toModel.unpack =
      Double.unpacked (Float.Model.UnpackedFloat.mul Float.Model.Format.binary64
        (Double.unpacked (Float.Model.UnpackedFloat.div Float.Model.Format.binary64
          (Float.ofInt 60).toModel.unpack s.bpm.toModel.unpack)) s.grid.toModel.unpack) := rfl
  have hsixty : (Float.ofInt 60).toModel.unpack =
    .finite .positive (60 * 2 ^ 47) (-47) (by decide) := rfl
  rw [hstep, hsixty, hbpm, hgrid]
  exact ((Double.hasSign_div (by decide) hm).unpacked.mul_finite hm').unpacked

/-- If the time of some index reaches the horizon, then that of the greatest index does. -/
theorem Advances.le_lastTime (hs : s.Advances) {i : ℤ} (hlow : minIndex ≤ i) (hhigh : i ≤ maxIndex)
    {horizon : Float} (h : le horizon (ofInt i * s.step) = true) : le horizon s.lastTime = true :=
  decide_eq_true (Double.le_mul_maxIndex hs.hasSign_step hlow hhigh (of_decide_eq_true h))

theorem floorSucc_eq (x : Float) : floorSucc x =
    if x.index .down = maxIndex then minIndex else x.index .down + 1 := rfl

theorem minIndex_le_firstIndex (s : Timing Float) (last : Option Float) (now : Float) :
    minIndex ≤ s.firstIndex last now := by
  have hhere : minIndex ≤ (floor (now / s.step) : ℤ) := Float.minIndex_le_index _ _
  cases last with
  | none => exact hhere
  | some t => exact hhere.trans (le_max_left _ _)

theorem firstIndex_le_maxIndex (s : Timing Float) (last : Option Float) (now : Float) :
    s.firstIndex last now ≤ maxIndex := by
  have hhere : (floor (now / s.step) : ℤ) ≤ maxIndex := Float.index_le_maxIndex _ _
  cases last with
  | none => exact hhere
  | some t =>
      refine max_le hhere ?_
      have hindex := Float.index_le_maxIndex .down (t / s.step + slack)
      rw [floorSucc_eq]
      split
      · decide
      · omega

/-- **The first index that is due after a grid time** is the one after it, or that of the present if
it is greater; and that of the present if there is no index after it. -/
theorem firstIndex_last (s : Timing Float) (t now : Float) : s.firstIndex (some t) now =
    if floor (t / s.step + slack) < maxIndex then
      max (floor (now / s.step)) (floor (t / s.step + slack) + 1)
    else floor (now / s.step) := by
  have hhere : minIndex ≤ (floor (now / s.step) : ℤ) := Float.minIndex_le_index _ _
  have hindex : (floor (t / s.step + slack) : ℤ) ≤ maxIndex := Float.index_le_maxIndex _ _
  split
  · next hlt => exact congrArg (max _) (if_neg hlt.ne)
  · next hge =>
    have hlast := hindex.antisymm (not_lt.1 hge)
    have hwraps : floorSucc (t / s.step + slack) = minIndex := if_pos hlast
    simp only [firstIndex, hwraps, max_eq_left hhere]

/-- **If the time of the greatest index reaches the horizon**, then some indexes are due that follow
each other, and the one after them is the first whose time reaches it. -/
theorem gridTimes_of_reached (last : Option Float) (h : le (s.horizon now) s.lastTime = true) :
    ∃ n : ℕ, s.firstIndex last now + n ≤ maxIndex ∧
      (∀ i : ℕ, i < n → le (s.horizon now) (ofInt (s.firstIndex last now + i) * s.step) = false) ∧
      le (s.horizon now) (ofInt (s.firstIndex last now + n) * s.step) = true ∧
      s.gridTimes last now = some (successive s.step (s.firstIndex last now) n) := by
  have hfirst := s.firstIndex_le_maxIndex last now
  have hgreatest : le (s.horizon now)
      (ofInt (s.firstIndex last now + (maxIndex - s.firstIndex last now).toNat) * s.step) =
        true := by
    rw [Int.toNat_of_nonneg (by omega), add_sub_cancel]
    exact h
  have hexists : ∃ n : ℕ,
      le (s.horizon now) (ofInt (s.firstIndex last now + n) * s.step) = true := ⟨_, hgreatest⟩
  classical
  have hreached := Nat.find_spec hexists
  have hbefore : ∀ i : ℕ, i < Nat.find hexists →
      le (s.horizon now) (ofInt (s.firstIndex last now + i) * s.step) = false := fun i hi =>
    Bool.eq_false_iff.2 (Nat.find_min hexists hi)
  have hbound : Nat.find hexists ≤ (maxIndex - s.firstIndex last now).toNat :=
    Nat.find_min' hexists hgreatest
  refine ⟨_, by omega, hbefore, hreached, timesFrom_of_reached ?_ hbefore hreached⟩
  change _ < (maxIndex + 1 - s.firstIndex last now).toNat
  omega

/-- **If the time of the greatest index is before the horizon**, then so are the times of all
indexes, and the grid times that are due do not end. -/
theorem gridTimes_of_not_reached (hs : s.Advances) (last : Option Float)
    (h : le (s.horizon now) s.lastTime = false) :
    (∀ i : ℤ, minIndex ≤ i → i ≤ maxIndex → le (s.horizon now) (ofInt i * s.step) = false) ∧
      s.gridTimes last now = none := by
  have hbefore : ∀ i : ℤ, minIndex ≤ i → i ≤ maxIndex →
      le (s.horizon now) (ofInt i * s.step) = false := fun i hlow hhigh =>
    Bool.eq_false_iff.2 fun hi => Bool.eq_false_iff.1 h (hs.le_lastTime hlow hhigh hi)
  refine ⟨hbefore, timesFrom_of_not_reached fun i hi => ?_⟩
  have hlow := s.minIndex_le_firstIndex last now
  change i < (maxIndex + 1 - s.firstIndex last now).toNat at hi
  exact hbefore _ (by omega) (by omega)

end Timing

/-! ### Ticks -/

namespace Transport

variable {α : Type} [Quantity α]

/-- Whatever a host does, tempo and grid stay positive. -/
theorem acts_advances {s s' : Transport α} {actions : List (Action α)}
    (hs : s.timing.Advances) (h : s.acts actions = .ok s') : s'.timing.Advances := by
  induction actions generalizing s with
  | nil =>
      cases h
      exact hs
  | cons a actions ih =>
      simp only [acts] at h
      split at h
      · cases h
      next next hnext =>
      refine ih ?_ h
      cases a with
      | tick now =>
          rcases htick : s.tickAt now with cause | tick
          · rw [act, htick] at hnext
            cases hnext
          rw [act, htick] at hnext
          cases hnext
          obtain ⟨output, memory, chance, beat, hstate⟩ := tickAt_state htick
          rw [hstate]
          exact hs
      | configure | setBpm | setSwing =>
          cases hnext
          exact hs.configure _ _ _ _
      | setProgram | clearProgram | start | stop | replace =>
          cases hnext
          exact hs

/-- What listeners are told of the beat at a tick. -/
def crossing (s : Transport α) (now : α) : List Signal :=
  let beat := floor (now / s.timing.beatDuration)
  if beat ≠ s.beat then s.notifyBeat beat else []

/-- A tick of a transport that plays. -/
theorem tickAt_of_plays {s : Transport α} {p : Program} (hruns : s.running = true)
    (hp : s.program = some p) (now : α) :
    s.tickAt now = match s.timing.gridTimes s.last now with
      | none => .error .grid
      | some times =>
          (dispatchAll p times { s with beat := floor (now / s.timing.beatDuration) }).map
            fun played => ⟨played.state, played.result, s.crossing now ++ played.signals⟩ := by
  simp only [tickAt]
  split
  · next hstands => simp [hruns] at hstands
  split
  · next hnone => cases hnone.symm.trans hp
  next q hq =>
  cases hq.symm.trans hp
  cases s.timing.gridTimes s.last now with
  | none => rfl
  | some times =>
      dsimp only
      cases dispatchAll p times { s with beat := floor (now / s.timing.beatDuration) } <;> rfl

/-- A tick that asks nobody dispatches nothing. -/
theorem tickAt_of_idle {s : Transport α} (h : s.running = false ∨ s.program = none) (now : α) :
    ∃ tick, s.tickAt now = .ok tick ∧ tick.result = 0 := by
  rcases hruns : s.running with _ | _
  · simp [tickAt, hruns]
  · simp [tickAt, hruns, h.resolve_left (by simp [hruns])]

/-- **When a tick ends.**  Let a host have done anything to a new transport, and let it tick at any
time.

* If the transport stands or has no program, then nothing is dispatched.
* If the horizon is reached by the time of the greatest index, then the tick dispatches the times of
  finitely many indexes that follow each other.  They are before the horizon, the time of the next
  index reaches it, and no index leaves the range of 64 bits.
* If it is not, then no index has a time that reaches the horizon, and the tick does not end.
* The first index is the one after the latest that was dispatched, or that of the present if it is
  greater, or if the latest is the greatest of all. -/
theorem tickAt_ends [Generator] {output : Output Float} {builtins : BuiltinTable} {seed : ℕ}
    {actions : List (Action Float)} {s : Transport Float}
    (hs : (Transport.new output builtins seed).acts actions = .ok s) (now : Float) :
    ((s.running = false ∨ s.program = none) → ∃ tick, s.tickAt now = .ok tick ∧ tick.result = 0) ∧
    ∀ p, s.running = true → s.program = some p →
      let first := s.timing.firstIndex s.last now
      let horizon := s.timing.horizon now
      let time := fun i : ℤ => Float.ofInt i * s.timing.step
      (horizon ≤ time maxIndex → ∃ n : ℕ,
        minIndex ≤ first ∧ first + n ≤ maxIndex ∧
        (∀ i : ℕ, i < n → ¬ horizon ≤ time (first + i)) ∧ horizon ≤ time (first + n) ∧
        s.tickAt now = (dispatchAll p ((List.range n).map fun i : ℕ => time (first + i))
            { s with beat := floor (now / s.timing.beatDuration) }).map
          fun played => ⟨played.state, played.result, s.crossing now ++ played.signals⟩) ∧
      (¬ horizon ≤ time maxIndex →
        (∀ i : ℤ, minIndex ≤ i → i ≤ maxIndex → ¬ horizon ≤ time i) ∧
        s.tickAt now = .error .grid) ∧
      ∀ t, s.last = some t → first =
        if floor (t / s.timing.step + slack) < maxIndex then
          max (floor (now / s.timing.step)) (floor (t / s.timing.step + slack) + 1)
        else floor (now / s.timing.step) := by
  have hadvances : s.timing.Advances := acts_advances Timing.advances_standard hs
  refine ⟨fun hidle => tickAt_of_idle hidle now, fun p hruns hp => ⟨fun hreached => ?_,
    fun hreached => ?_, fun t hlast => ?_⟩⟩
  · obtain ⟨n, hrange, hbefore, hend, htimes⟩ :=
      Timing.gridTimes_of_reached s.last (decide_eq_true hreached)
    refine ⟨n, s.timing.minIndex_le_firstIndex s.last now, hrange,
      fun i hi => of_decide_eq_false (hbefore i hi), of_decide_eq_true hend, ?_⟩
    rw [tickAt_of_plays hruns hp, htimes]
    rfl
  · obtain ⟨hbefore, htimes⟩ :=
      Timing.gridTimes_of_not_reached hadvances s.last (decide_eq_false hreached)
    refine ⟨fun i hlow hhigh => of_decide_eq_false (hbefore i hlow hhigh), ?_⟩
    rw [tickAt_of_plays hruns hp, htimes]
  · rw [hlast]
    exact Timing.firstIndex_last s.timing t now

/-- A kick at every time. -/
def kickAlways : Program :=
  ⟨[⟨.compound "event" [.atom "kick", .number 36, .number 1, .var "T"], []⟩]⟩

/-- A transport that has just started, with the settings that are there at first. -/
def kicking : Transport Float :=
  ((Transport.new (.recorder 0 0) .standard 0).setProgram kickAlways).1.start.1

theorem acts_kicking : (Transport.new (.recorder 0 0) .standard 0).acts
    [.setProgram kickAlways, .start] = .ok kicking := rfl

/-- At the first settings a tick at zero ends, and a tick at `10 ^ 300` does not. -/
theorem tickAt_ends_kicking :
    (Transport.new (.recorder 0 0) .standard 0).acts [.setProgram kickAlways, .start] =
      .ok kicking ∧
    (∃ n : ℕ, kicking.timing.firstIndex none 0 + n ≤ maxIndex ∧
      kicking.tickAt 0 = (dispatchAll kickAlways ((List.range n).map fun i : ℕ =>
          Float.ofInt (kicking.timing.firstIndex none 0 + i) * kicking.timing.step)
          { kicking with beat := floor (0 / kicking.timing.beatDuration : Float) }).map
        fun played => ⟨played.state, played.result, kicking.crossing 0 ++ played.signals⟩) ∧
    kicking.tickAt 1e300 = .error .grid := by
  obtain ⟨-, hzero⟩ := tickAt_ends acts_kicking 0
  obtain ⟨-, hlate⟩ := tickAt_ends acts_kicking 1e300
  obtain ⟨n, -, hrange, -, -, htick⟩ := (hzero kickAlways rfl rfl).1 (by decide +kernel)
  exact ⟨acts_kicking, ⟨n, hrange, htick⟩, ((hlate kickAlways rfl rfl).2.1 (by decide +kernel)).2⟩

/-- The settings make the grid coarse, and after the first tick very fine. -/
def refining : List (Action Float) :=
  [.setProgram kickAlways, .configure 60 0 15000000000000 10000000000, .start, .tick 0,
    .configure 60 0 0.000001 0.000000001]

/-- **Ticks that do not end, and an index that leaves its range.**  At the first settings a tick at
`10 ^ 300` does not end.  And after a tick on a coarse grid the latest grid time has the greatest
index of a very fine one; there is no index after it, and the tick starts anew at zero, which is
dispatched twice. -/
theorem tickAt_overflows :
    (∃ (actions : List (Action Float)) (s : Transport Float) (now : Float),
      (Transport.new (.recorder 0 0) .standard 0).acts actions = .ok s ∧ now.isFinite = true ∧
      s.tickAt now = .error .grid) ∧
    ∃ (actions : List (Action Float)) (s : Transport Float) (t : Float),
      (Transport.new (.recorder 0 0) .standard 0).acts actions = .ok s ∧ s.last = some t ∧
      maxIndex < floor (t / s.timing.step + slack) + 1 ∧ s.timing.firstIndex s.last 0 = 0 ∧
      ((Transport.new (.recorder 0 0) .standard 0).log (actions ++ [.tick 0])).map
        Resolution.time = [0, 10000000000, 0] := by
  constructor
  · refine ⟨_, kicking, 1e300, acts_kicking, by decide +kernel, ?_⟩
    have hadvances := acts_advances Timing.advances_standard acts_kicking
    have hgrid : kicking.timing.gridTimes none 1e300 = none :=
      (Timing.gridTimes_of_not_reached hadvances none (by decide +kernel)).2
    rw [tickAt_of_plays (p := kickAlways) rfl rfl, show kicking.last = none from rfl, hgrid]
  · have hvalues : ((Transport.new (.recorder 0 0) .standard 0).acts refining).toOption.map
        (fun s => (s.last, floor (10000000000 / s.timing.step + slack),
          s.timing.firstIndex s.last 0)) = some (some 10000000000, maxIndex, 0) := by
      decide +kernel
    cases hacts : (Transport.new (.recorder 0 0) .standard 0).acts refining with
    | error cause =>
        rw [hacts] at hvalues
        cases hvalues
    | ok s =>
        rw [hacts] at hvalues
        simp only [Except.toOption, Option.map_some, Option.some.injEq, Prod.mk.injEq] at hvalues
        obtain ⟨hlast, hindex, hfirst⟩ := hvalues
        exact ⟨refining, s, 10000000000, hacts, hlast, hindex ▸ Int.lt_succ maxIndex, hfirst,
          by decide +kernel⟩

end Transport

end RhythmLogic
