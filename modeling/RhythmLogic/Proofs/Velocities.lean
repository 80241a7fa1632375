/-
**Velocities: what the clamp lets through.**

The velocity of a note is the value of an expression, taken into the range from zero to one.  It is
taken there by two comparisons, and an undefined double compares with nothing: it is neither below
zero nor above one, and passes.

So a velocity is legal exactly if the value is not undefined.  An operation on finite numbers never
has an undefined value; not even a quotient has, since division by zero gives zero.  What makes a
value undefined is an infinite one inside it, and this is what a product of large numbers is.

Main definitions:

* `Transport.Answers`, `Transport.noteAt` — a solution of the event query at a time that is asked
  for, and its note;
* `Transport.Clamped` — what the clamp makes of a value.

Main results:

* `Double.clampUnit_legal_iff` — **the clamp is legal except for what is undefined**;
* `Term.exists_not_finite` — **an undefined value contains an infinite one**, or is undefined as a
  number;
* `Transport.note_clamped` — where a note comes from, and **when its velocity is legal**;
* `Transport.velocity_undefined` — a note without a legal velocity.
-/

import RhythmLogic.Program.Reading
import RhythmLogic.Proofs.Calls
import RhythmLogic.Proofs.Horizons

set_option autoImplicit false

namespace RhythmLogic

open Quantity

namespace Double

open Float.Model (Format UnpackedFloat)
open Float.Model.UnpackedFloat (Sign)

variable {u v : UnpackedFloat} {s s' : Sign} {m m' : ℕ} {e e' : ℤ} {x y : Float}

/-! ### The clamp -/

/-- What is not undefined has a sign. -/
theorem isNaN_eq_false_iff (u : UnpackedFloat) : u.isNaN = false ↔ ∃ s, HasSign s u := by
  constructor
  · intro h
    cases u with
    | notANumber => cases h
    | infinity s => exact ⟨s, .infinity⟩
    | zero s => exact ⟨s, .zero⟩
    | finite s m e hm => exact ⟨s, .finite hm⟩
  · rintro ⟨s, h⟩
    cases h <;> rfl

theorem eq_notANumber_of_isNaN (h : u.isNaN = true) : u = .notANumber := by
  cases u with
  | notANumber => rfl
  | infinity | zero | finite => cases h

theorem lt_iff (x y : Float) : x < y ↔ x.toModel.unpack.lt y.toModel.unpack = true :=
  decide_eq_true_iff

/-- A number is below zero, or zero is not above it. -/
theorem lt_zero_or_le (hu : HasSign s u) :
    u.lt (.zero .positive) = true ∨ (UnpackedFloat.zero .positive).le u = true := by
  cases hu <;> cases s <;> first | exact .inl rfl | exact .inr rfl

/-- A number is above a positive one, or not above it. -/
theorem lt_or_le (hu : HasSign s u) (hm : 0 < m) :
    (UnpackedFloat.finite .positive m e hm).lt u = true ∨
      u.le (.finite .positive m e hm) = true := by
  cases hu with
  | zero | infinity => cases s <;> first | exact .inl rfl | exact .inr rfl
  | @finite m' e' hm' =>
      cases s with
      | negative => exact .inr rfl
      | positive =>
          rcases hcompare : (compare e e').then (compare m m') with _ | _ | _
          · exact .inl (by simp [UnpackedFloat.lt, UnpackedFloat.compare, hcompare])
          all_goals
            have hge : ((compare e e').then (compare m m')).isGE = true := by
              rw [hcompare]
              rfl
            exact .inr (isLE_then_iff.2 ((isGE_then_iff.1 hge).imp_right (.imp_left Eq.symm)))

theorem unpack_zero : (0 : Float).toModel.unpack = .zero .positive := rfl

theorem unpack_one : (1 : Float).toModel.unpack = .finite .positive (2 ^ 52) (-52) (by decide) :=
  rfl

/-- What is undefined is left as it is. -/
theorem clampUnit_of_isNaN (h : x.isNaN = true) : clampUnit x = x := by
  have hx := eq_notANumber_of_isNaN h
  have hlow : ¬ x < 0 := by
    rw [lt_iff, hx]
    exact Bool.false_ne_true
  have hhigh : ¬ 1 < x := by
    rw [lt_iff, hx, unpack_one]
    exact Bool.false_ne_true
  exact (if_neg (mt of_decide_eq_true hlow)).trans (if_neg (mt of_decide_eq_true hhigh))

/-- **The clamp is legal except for what is undefined.** -/
theorem clampUnit_legal_iff (x : Float) :
    (0 ≤ clampUnit x ∧ clampUnit x ≤ 1) ↔ x.isNaN = false := by
  constructor
  · rintro ⟨hlow, -⟩
    by_contra hnan
    rw [Bool.not_eq_false] at hnan
    rw [clampUnit_of_isNaN hnan, le_iff, eq_notANumber_of_isNaN hnan] at hlow
    cases hlow
  · intro hx
    obtain ⟨s, hsign⟩ := (isNaN_eq_false_iff _).1 hx
    have hzero := lt_zero_or_le hsign
    have hone := lt_or_le (e := -52) hsign (by decide : 0 < 2 ^ 52)
    rw [← unpack_zero, ← lt_iff, ← le_iff] at hzero
    rw [← unpack_one, ← lt_iff, ← le_iff] at hone
    by_cases hlow : x < 0
    · have hclamp : clampUnit x = 0 := if_pos (decide_eq_true hlow)
      rw [hclamp]
      decide +kernel
    by_cases hhigh : 1 < x
    · have hclamp : clampUnit x = 1 :=
        (if_neg (mt of_decide_eq_true hlow)).trans (if_pos (decide_eq_true hhigh))
      rw [hclamp]
      decide +kernel
    · have hclamp : clampUnit x = x :=
        (if_neg (mt of_decide_eq_true hlow)).trans (if_neg (mt of_decide_eq_true hhigh))
      rw [hclamp]
      exact ⟨hzero.resolve_left hlow, hone.resolve_left hhigh⟩

/-! ### Operations -/

/-- A sum that is made exact and rounded has a sign. -/
theorem hasSign_normalize (i : ℤ) (e : ℤ) (zero : Sign) :
    ∃ s, HasSign s (UnpackedFloat.normalize Format.binary64 i e zero) := by
  unfold UnpackedFloat.normalize
  split
  · exact ⟨_, hasSign_round _ _ _ _⟩
  · exact ⟨_, .zero⟩
  · exact ⟨_, hasSign_round _ _ _ _⟩

/-- **Sums of finite numbers are defined.** -/
theorem hasSign_add (hu : u.isFinite = true) (hv : v.isFinite = true) :
    ∃ s, HasSign s (UnpackedFloat.add Format.binary64 u v) := by
  cases u with
  | notANumber | infinity => cases hu
  | zero s =>
      cases v with
      | notANumber | infinity => cases hv
      | zero s' =>
          simp only [UnpackedFloat.add]
          split <;> exact ⟨_, .zero⟩
      | finite s' m' e' hm' => exact ⟨s', .finite hm'⟩
  | finite s m e hm =>
      cases v with
      | notANumber | infinity => cases hv
      | zero s' => exact ⟨s, .finite hm⟩
      | finite s' m' e' hm' => exact hasSign_normalize _ _ _

/-- **Differences of finite numbers are defined.** -/
theorem hasSign_sub (hu : u.isFinite = true) (hv : v.isFinite = true) :
    ∃ s, HasSign s (UnpackedFloat.sub Format.binary64 u v) := by
  cases u with
  | notANumber | infinity => cases hu
  | zero s =>
      cases v with
      | notANumber | infinity => cases hv
      | zero s' =>
          simp only [UnpackedFloat.sub]
          split <;> exact ⟨_, .zero⟩
      | finite s' m' e' hm' => exact ⟨-s', .finite hm'⟩
  | finite s m e hm =>
      cases v with
      | notANumber | infinity => cases hv
      | zero s' => exact ⟨s, .finite hm⟩
      | finite s' m' e' hm' => exact hasSign_normalize _ _ _

/-- **Products of finite numbers are defined.** -/
theorem hasSign_mul (hu : u.isFinite = true) (hv : v.isFinite = true) :
    ∃ s, HasSign s (UnpackedFloat.mul Format.binary64 u v) := by
  cases u with
  | notANumber | infinity => cases hu
  | zero s =>
      cases v with
      | notANumber | infinity => cases hv
      | zero | finite => exact ⟨_, .zero⟩
  | finite s m e hm =>
      cases v with
      | notANumber | infinity => cases hv
      | zero => exact ⟨_, .zero⟩
      | finite => exact ⟨_, hasSign_round _ _ _ _⟩

/-- **Quotients of finite numbers are defined**, where the divisor is not zero. -/
theorem hasSign_div_of_finite (hu : u.isFinite = true) (hm : 0 < m) :
    ∃ s, HasSign s (UnpackedFloat.div Format.binary64 u (.finite s' m e hm)) := by
  cases u with
  | notANumber | infinity => cases hu
  | zero => exact ⟨_, .zero⟩
  | finite => exact ⟨_, hasSign_round _ _ _ _⟩

/-- A zero is equal to zero. -/
theorem beq_zero (h : y.toModel.unpack = .zero s) : (y != 0.0) = false := by
  change (!(UnpackedFloat.beq y.toModel.unpack (0.0 : Float).toModel.unpack)) = false
  rw [h]
  rfl

end Double

open Double in
/-- **An operation on finite numbers has a defined value.** -/
theorem Op.apply_isNaN {x y : Float} (op : Op) (hx : x.isFinite = true) (hy : y.isFinite = true) :
    (op.apply x y).isNaN = false := by
  cases op with
  | add =>
      obtain ⟨s, hsign⟩ := hasSign_add hx hy
      exact (isNaN_eq_false_iff _).2 ⟨s, hsign.unpacked⟩
  | sub =>
      obtain ⟨s, hsign⟩ := hasSign_sub hx hy
      exact (isNaN_eq_false_iff _).2 ⟨s, hsign.unpacked⟩
  | mul =>
      obtain ⟨s, hsign⟩ := hasSign_mul hx hy
      exact (isNaN_eq_false_iff _).2 ⟨s, hsign.unpacked⟩
  | div =>
      change (if y != 0.0 then x / y else 0.0).isNaN = false
      split
      · next hne =>
        have hquotient : (x / y).toModel.unpack = Double.unpacked
          (.div .binary64 x.toModel.unpack y.toModel.unpack) := rfl
        cases hunpack : y.toModel.unpack with
        | notANumber | infinity =>
            change y.toModel.unpack.isFinite = true at hy
            rw [hunpack] at hy
            cases hy
        | zero s =>
            rw [beq_zero hunpack] at hne
            cases hne
        | finite s m e hm =>
            obtain ⟨s, hsign⟩ := hasSign_div_of_finite hx hm
            refine (isNaN_eq_false_iff _).2 ⟨s, ?_⟩
            rw [hquotient, hunpack]
            exact hsign.unpacked
      · rfl

/-! ### Expressions -/

/-- An undefined number is not finite. -/
theorem isFinite_of_isNaN {x : Float} (h : x.isNaN = true) : x.isFinite = false := by
  change x.toModel.unpack.isFinite = false
  rw [Double.eq_notANumber_of_isNaN h]
  rfl

/-- **An undefined value contains an infinite one**, or it is undefined as a number.  The induction
goes down to an operation whose value is undefined and whose operands are not. -/
theorem Term.exists_not_finite {t : Term} {v : Float} (h : t.evaluate = some v)
    (hnan : v.isNaN = true) : ∃ (u : Term) (x : Float), u.Occurs t ∧ u.evaluate = some x ∧
      x.isFinite = false ∧ (x.isNaN = true → u = number x) := by
  induction t generalizing v with
  | number x =>
      cases h
      exact ⟨_, _, .here, rfl, isFinite_of_isNaN hnan, fun _ => rfl⟩
  | atom | var | compound | list | partialList => cases h
  | expr op l r ihl ihr =>
      simp only [evaluate, Option.bind_eq_bind, Option.bind_eq_some_iff] at h
      obtain ⟨x, hl, y, hr, happly⟩ := h
      cases happly
      by_cases hx : x.isNaN = true
      · obtain ⟨u, w, hpart, hw⟩ := ihl hl hx
        exact ⟨u, w, .left hpart, hw⟩
      by_cases hy : y.isNaN = true
      · obtain ⟨u, w, hpart, hw⟩ := ihr hr hy
        exact ⟨u, w, .right hpart, hw⟩
      by_cases hxfinite : x.isFinite = true
      · by_cases hyfinite : y.isFinite = true
        · rw [op.apply_isNaN hxfinite hyfinite] at hnan
          cases hnan
        · exact ⟨r, y, .right .here, hr, by simpa using hyfinite, fun h => absurd h hy⟩
      · exact ⟨l, x, .left .here, hl, by simpa using hxfinite, fun h => absurd h hx⟩

/-! ### Notes -/

namespace Signal

@[simp] theorem notes_append (first more : List Signal) :
    notes (first ++ more) = notes first ++ notes more := List.filterMap_append

@[simp] theorem notes_cons_note (t : Trigger) (signals : List Signal) :
    notes (.note t :: signals) = t :: notes signals := rfl

@[simp] theorem notes_cons_notice (n : Notice) (signals : List Signal) :
    notes (.notice n :: signals) = notes signals := rfl

@[simp] theorem notes_notices (found : List Notice) : notes (found.map .notice) = [] := by
  induction found with
  | nil => rfl
  | cons n found ih => exact ih

end Signal

namespace Transport

variable {α : Type} [Quantity α] {s : Transport α} {p : Program} {t now : α}
  {played tick : Step (Transport α) Nat} {asked : List (Asking α)} {note : Trigger}

/-- **A solution of the event query** at a time that is asked for.  What the builtins remember and
draw by then is whatever the times before it have left. -/
def Answers (s : Transport α) (a : Asking α) (e : Bindings) : Prop :=
  ∃ memory chance found progress,
    solve ⟨a.program, s.builtins, max 1 s.maxDepth, toFloat s.timing.bpm⟩ (eventQuery a.time) .empty
      ⟨⟨memory, chance, []⟩, 0, false⟩ = .ok (found, progress) ∧ e ∈ found

/-- What a solution becomes at a time that is asked for. -/
def noteAt (s : Transport α) (a : Asking α) (e : Bindings) : Except Notice Trigger :=
  noteOf (toFloat a.time) (toFloat (swingAdjust a.time s.timing.bpm s.timing.swing)) e

omit [Quantity α] in
/-- A note that is played reaches the output once. -/
theorem notes_play (note : Trigger) (output : Output α) :
    Signal.notes (output.play note).2 = [note] := by
  cases output <;> rfl

omit [Quantity α] in
/-- The notes that are played are those of the solutions. -/
theorem notes_playAll (time sounding : Float) (found : List Bindings) (output : Output α)
    (fired : ℕ) : Signal.notes (playAll time sounding found output fired).2.2 =
      found.filterMap fun e => (noteOf time sounding e).toOption := by
  induction found generalizing output fired with
  | nil => rfl
  | cons e found ih =>
      rw [List.filterMap_cons]
      cases he : noteOf time sounding e with
      | error n =>
          simp only [playAll, he, Except.toOption, Signal.notes_cons_notice]
          exact ih output fired
      | ok note =>
          simp only [playAll, he, Signal.notes_append, notes_play, List.singleton_append, ih]
          rfl

/-- **One grid time**: every note is that of a solution. -/
theorem notes_dispatch (h : dispatch s p t = .ok played)
    (hnote : note ∈ Signal.notes played.signals) :
    ∃ e, s.Answers ⟨now, p, t⟩ e ∧ s.noteAt ⟨now, p, t⟩ e = .ok note := by
  simp only [dispatch] at h
  split at h
  · cases h
  next found progress hsolve =>
  cases h
  simp only [Signal.notes_append, Signal.notes_notices, List.nil_append, notes_playAll,
    List.mem_filterMap] at hnote
  obtain ⟨e, he, hnote⟩ := hnote
  refine ⟨e, ⟨_, _, found, progress, hsolve, he⟩, ?_⟩
  cases hof : noteOf (toFloat t) (toFloat (swingAdjust t s.timing.bpm s.timing.swing)) e with
  | error n =>
      rw [hof] at hnote
      cases hnote
  | ok note' =>
      rw [hof] at hnote
      cases hnote
      exact hof

end Transport

/-- **Several grid times**: every note is that of a solution at one of them. -/
theorem Dispatches.notes {α : Type} [Quantity α] {asked : List (Asking α)} {s : Transport α}
    {played : Step (Transport α) Nat} {note : Trigger} (h : Dispatches asked s played)
    (hnote : note ∈ Signal.notes played.signals) :
    ∃ a ∈ asked, ∃ e, s.Answers a e ∧ s.noteAt a e = .ok note := by
  induction h with
  | nil => cases hnote
  | @cons a asked s first more hfirst _ ih =>
      rw [Signal.notes_append, List.mem_append] at hnote
      rcases hnote with hnote | hnote
      · obtain ⟨e, he⟩ := Transport.notes_dispatch hfirst hnote
        exact ⟨a, .head _, e, he⟩
      · obtain ⟨b, hb, e, he⟩ := ih hnote
        obtain ⟨output, memory, chance, hstate⟩ := Transport.dispatch_state hfirst
        rw [hstate] at he
        exact ⟨b, .tail _ hb, e, he⟩

namespace Transport

/-- **What the clamp makes of a value.**  The velocity is legal unless the value is undefined; then
it is undefined too, and the value was made of an infinite one, or of a number that was undefined. -/
structure Clamped (value : Term) (velocity : Float) : Prop where
  legal_iff : (0 ≤ velocity ∧ velocity ≤ 1) ↔ ∀ x, value.evaluate = some x → x.isNaN = false
  undefined : ∀ x, value.evaluate = some x → x.isNaN = true → velocity = x ∧
    ∃ (u : Term) (y : Float), u.Occurs value ∧ u.evaluate = some y ∧ y.isFinite = false ∧
      (y.isNaN = true → u = .number y)

/-- The velocity of a solution is what the clamp makes of the value of `Vel`; without a number it is
legal. -/
theorem clamped_velocityOf (e : Bindings) : Clamped (e.subst (.var "Vel")) (velocityOf e) := by
  generalize hvalue : e.subst (.var "Vel") = value
  cases hx : value.evaluate with
  | none =>
      have hvelocity : velocityOf e = defaultVelocity := by
        simp only [velocityOf, hvalue, hx]
      rw [hvelocity]
      refine ⟨⟨fun _ x h => ?_, fun _ => by decide +kernel⟩, fun x h => ?_⟩ <;>
      · rw [hx] at h
        cases h
  | some x =>
      have hvelocity : velocityOf e = clampUnit x := by
        simp only [velocityOf, hvalue, hx]
      rw [hvelocity]
      constructor
      · rw [Double.clampUnit_legal_iff]
        constructor
        · intro hdefined y hy
          cases hx.symm.trans hy
          exact hdefined
        · intro hdefined
          exact hdefined x hx
      · intro y hy hnan
        cases hx.symm.trans hy
        exact ⟨Double.clampUnit_of_isNaN hnan, Term.exists_not_finite hx hnan⟩

variable {α : Type} [Quantity α] {s : Transport α} {now : α} {tick : Step (Transport α) Nat}
  {note : Trigger}

theorem velocity_of_noteAt {a : Asking α} {e : Bindings} (h : s.noteAt a e = .ok note) :
    note.velocity = velocityOf e := by
  simp only [noteAt, noteOf] at h
  split at h
  · split at h
    · cases h
      rfl
    · cases h
  · cases h

/-- What listeners are told of the beat is no note. -/
theorem notes_crossing (s : Transport α) (now : α) : Signal.notes (s.crossing now) = [] := by
  simp only [crossing]
  split
  · simp [notifyBeat, Signal.notes, List.filterMap_map]
  · rfl

/-- The notes of a tick are those of the grid times that it asks for. -/
theorem notes_tickAt (h : s.tickAt now = .ok tick) (hnote : note ∈ Signal.notes tick.signals) :
    ∃ a ∈ s.asks now, ∃ e, s.Answers a e ∧ s.noteAt a e = .ok note := by
  cases hruns : s.running with
  | false =>
      simp only [tickAt, hruns] at h
      cases h
      cases hnote
  | true =>
  cases hp : s.program with
  | none =>
      have hcrossing : tick.signals = s.crossing now := by
        simp only [tickAt, hruns, hp] at h
        cases h
        rfl
      rw [hcrossing, notes_crossing] at hnote
      cases hnote
  | some p =>
  rw [tickAt_of_plays hruns hp] at h
  cases htimes : s.timing.gridTimes s.last now with
  | none =>
      rw [htimes] at h
      cases h
  | some times =>
  cases hplayed : dispatchAll p times { s with beat := floor (now / s.timing.beatDuration) } with
  | error cause =>
      simp only [htimes, hplayed] at h
      cases h
  | ok played =>
      simp only [htimes, hplayed] at h
      cases h
      rw [Signal.notes_append, notes_crossing, List.nil_append] at hnote
      rw [asks_of_plays hruns hp htimes]
      exact (dispatchAll_dispatches now hplayed).notes hnote

/-- **The velocity of every note is legal unless the value of `Vel` is undefined.**  This is so of
the notes of a tick, and of the notes of any grid times that are dispatched one after the other,
whether or not the tick that asks for them comes to an end. -/
theorem note_clamped (s : Transport α) (now : α) :
    (∀ tick, s.tickAt now = .ok tick → ∀ note ∈ Signal.notes tick.signals,
      ∃ a ∈ s.asks now, ∃ e, s.Answers a e ∧ s.noteAt a e = .ok note ∧
        Clamped (e.subst (.var "Vel")) note.velocity) ∧
    ∀ asked played, Dispatches asked s played → ∀ note ∈ Signal.notes played.signals,
      ∃ a ∈ asked, ∃ e, s.Answers a e ∧ s.noteAt a e = .ok note ∧
        Clamped (e.subst (.var "Vel")) note.velocity := by
  constructor
  · intro tick h note hnote
    obtain ⟨a, ha, e, he, hof⟩ := notes_tickAt h hnote
    exact ⟨a, ha, e, he, hof, velocity_of_noteAt hof ▸ clamped_velocityOf e⟩
  · intro asked played h note hnote
    obtain ⟨a, ha, e, he, hof⟩ := h.notes hnote
    exact ⟨a, ha, e, he, hof, velocity_of_noteAt hof ▸ clamped_velocityOf e⟩

/-- A tick that plays a kick with the velocity one. -/
theorem note_clamped_kicking : ∃ tick, kicking.tickAt 0 = .ok tick ∧
    (Signal.notes tick.signals).map Trigger.velocity = [1] ∧
    ∀ note ∈ Signal.notes tick.signals, ∃ a ∈ kicking.asks 0, ∃ e, kicking.Answers a e ∧
      kicking.noteAt a e = .ok note ∧ Clamped (e.subst (.var "Vel")) note.velocity := by
  have hvelocities : (kicking.tickAt 0).toOption.map
      (fun tick => (Signal.notes tick.signals).map Trigger.velocity) = some [1] := by
    decide +kernel
  obtain ⟨tick, htick, hvelocities⟩ := exists_ok hvelocities
  exact ⟨tick, htick, hvelocities, (note_clamped kicking 0).1 tick htick⟩

/-- A kick whose velocity is the difference of two infinite numbers. -/
def overflowing : String :=
  "event(kick, 36, C - C, T) :- " ++
    "A is 100000000000000000000, B is A * A * A * A, C is B * B * B * B."

/-- **A note without a legal velocity**: the difference is undefined, and the clamp does not change
it. -/
theorem velocity_undefined : ∃ p tick note, parseProgram overflowing = .ok p ∧
    (kicking.setProgram p).1.tickAt 0 = .ok tick ∧ note ∈ Signal.notes tick.signals ∧
    ¬ (0 ≤ note.velocity ∧ note.velocity ≤ 1) := by
  have hplayed : (parseProgram overflowing).toOption.map (fun p =>
      ((kicking.setProgram p).1.tickAt 0).toOption.map fun tick =>
        (Signal.notes tick.signals).map fun note =>
          decide (0 ≤ note.velocity ∧ note.velocity ≤ 1)) = some (some [false]) := by
    decide +kernel
  obtain ⟨p, hp, hplayed⟩ := exists_ok hplayed
  obtain ⟨tick, htick, hnotes⟩ := exists_ok hplayed
  have hone : false ∈ (Signal.notes tick.signals).map fun note =>
      decide (0 ≤ note.velocity ∧ note.velocity ≤ 1) := by
    rw [hnotes]
    exact .head _
  obtain ⟨note, hnote, hvelocity⟩ := List.mem_map.1 hone
  exact ⟨p, tick, note, hp, htick, hnote, of_decide_eq_false hvelocity⟩

end Transport

end RhythmLogic
