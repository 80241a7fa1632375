/-
**No call leaves its range.**

A builtin that reads an argument that is not there, divides by zero, leaves the range of its machine
integers or takes an item that a list does not have, ends the whole program with it.  None of the
standard builtins does, whatever it is called with.  It gets as many arguments as it takes, since it
is found by their number; and from there on each step has a result, if the steps before it have had
theirs.  So it is not enough to know that a step ends well: what it comes to has to be known to be
small enough for the next one.

What may still come to no answer is a unification, of bindings that run in a circle, and a search
that goes too deep.

Main definitions:

* `Unified.Bottomless` — a unification that has no answer only for its depth;
* `Body.InRange` — **a run that stays in range**, and what is known of its result;
* `Builtin.InRange` — a builtin whose runs stay in range.

Main results:

* `unify_bottomless` — a unification computes nothing that could leave a range;
* `Builtin.inRange_of_mem_standard` — **every standard builtin stays in range**;
* `solveF_inRange` — so does a search with standard builtins;
* `dispatched_inRange` — **calls that the search makes, and the arithmetic behind them**.
-/

import RhythmLogic.CommandLine.Mixer
import RhythmLogic.Proofs.Indexes
import RhythmLogic.Proofs.Refusals

set_option autoImplicit false

namespace RhythmLogic

/-! ### Unification -/

section Unification

variable {step : Term → Term → Bindings → Unified} {u : Unified} {e : Bindings}

/-- There is an answer, or the terms are too deep. -/
def Unified.Bottomless (u : Unified) : Prop := ∀ cause, u = .error cause → cause = .unification

namespace Unified.Bottomless

theorem clash : Bottomless .clash := nofun

theorem solved (e : Bindings) : Bottomless (.solved e) := nofun

theorem andThen {next : Bindings → Unified} (hu : u.Bottomless) (hnext : ∀ e, (next e).Bottomless) :
    (u.andThen next).Bottomless := by
  rcases u with cause | _ | e
  · exact hu
  · exact hu
  · exact hnext e

theorem ite {c : Prop} [Decidable c] {u' : Unified} (hu : u.Bottomless) (hu' : u'.Bottomless) :
    (if c then u else u').Bottomless := by
  split
  · exact hu
  · exact hu'

end Unified.Bottomless

open Unified (Bottomless)

theorem bottomless_unifyZip (hstep : ∀ s t e, (step s t e).Bottomless) (as bs : List Term)
    (e : Bindings) : (unifyZip step as bs e).Bottomless := by
  induction as generalizing bs e with
  | nil => exact .solved e
  | cons a as ih =>
      cases bs with
      | nil => exact .solved e
      | cons b bs => exact (hstep a b e).andThen fun e => ih bs e

theorem bottomless_unifyEnds (hstep : ∀ s t e, (step s t e).Bottomless) (as bs : List Term)
    (s t : Option Term) (e : Bindings) : (unifyEnds step as s bs t e).Bottomless := by
  rcases as with _ | ⟨a, as⟩
  · rcases bs with _ | ⟨b, bs⟩
    · rcases s with _ | s <;> rcases t with _ | t
      · exact .solved e
      all_goals exact hstep _ _ e
    · rcases s with _ | s
      · exact .clash
      · exact hstep _ _ e
  · rcases t with _ | t
    · exact .clash
    · exact hstep _ _ e

theorem bottomless_unifyLists (hstep : ∀ s t e, (step s t e).Bottomless) (as bs : List Term)
    (s t : Option Term) (e : Bindings) : (unifyLists step as s bs t e).Bottomless :=
  (bottomless_unifyZip hstep as bs e).andThen fun e => bottomless_unifyEnds hstep _ _ s t e

theorem bottomless_unifyShapes (hstep : ∀ s t e, (step s t e).Bottomless) (s t : Term)
    (e : Bindings) : (unifyShapes step s t e).Bottomless := by
  unfold unifyShapes
  split
  case h_1 | h_4 | h_5 => exact .ite (.solved _) (by first | exact .solved _ | exact .clash)
  case h_2 | h_3 => exact .solved _
  case h_6 | h_7 | h_8 | h_9 => exact bottomless_unifyLists hstep _ _ _ _ _
  case h_10 => exact .ite ((hstep _ _ _).andThen fun e => hstep _ _ e) .clash
  case h_11 => exact .ite (bottomless_unifyZip hstep _ _ _) .clash
  case h_12 => exact .clash

/-- **A unification has an answer, or its terms are too deep.** -/
theorem unify_bottomless (s t : Term) (e : Bindings) : (unify s t e).Bottomless := by
  rw [unify]
  generalize unificationDepth = depth
  induction depth generalizing s t e with
  | zero => exact fun cause h => by cases h; rfl
  | succ depth ih => exact .ite (fun cause h => by cases h; rfl) (bottomless_unifyShapes ih _ _ e)

end Unification

/-! ### Runs that stay in range -/

namespace Body

variable {α β : Type} {P : α → Prop} {Q : β → Prop}

/-- **The run stays in range**: it comes to no answer only where a unification does, and its results
have a property. -/
structure InRange (P : α → Prop) (b : Body α) : Prop where
  halts : ∀ s cause, (b s).1 = .error (.halted cause) → cause = .unification
  yields : ∀ s a, (b s).1 = .ok a → P a

namespace InRange

theorem pure {a : α} (h : P a) : InRange P (pure a : Body α) :=
  ⟨nofun, fun _ _ heq => by cases heq; exact h⟩

theorem refuse (error : ArgumentError) : InRange P (refuse error : Body α) := ⟨nofun, nofun⟩

/-- **What comes next may use what is known of the result.** -/
theorem bind {b : Body α} {f : α → Body β} (hb : b.InRange P) (hf : ∀ a, P a → (f a).InRange Q) :
    (b >>= f).InRange Q := by
  refine ⟨fun s cause => ?_, fun s c => ?_⟩ <;> rw [bind_apply] <;>
    rcases hrun : b s with ⟨stop | a, s₁⟩
  · intro hstop
    cases hstop
    exact hb.halts s cause (by rw [hrun])
  · exact (hf a (hb.yields s a (by rw [hrun]))).halts s₁ cause
  · exact nofun
  · exact (hf a (hb.yields s a (by rw [hrun]))).yields s₁ c

theorem ite {c : Prop} [Decidable c] {b b' : Body α} (hb : c → b.InRange P)
    (hb' : ¬ c → b'.InRange P) : (if c then b else b').InRange P := by
  split
  · exact hb ‹_›
  · exact hb' ‹_›

/-- An argument is read. -/
theorem read {b : Body α} {f : α → Body β} (hb : b.Reads) (hf : ∀ a, (f a).InRange Q) :
    (b >>= f).InRange Q := by
  obtain ⟨a, rfl⟩ | ⟨error, rfl⟩ := hb
  · exact hf a
  · exact .refuse error

/-- **Machine arithmetic that has a result.** -/
theorem machine {o : Option α} (h : ∃ a, o = some a ∧ P a) : InRange P (machine o) := by
  obtain ⟨a, rfl, ha⟩ := h
  exact .pure ha

theorem machine_some {o : Option α} (h : ∃ a, o = some a) : InRange (fun _ => True) (Body.machine o) :=
  .machine (h.imp fun _ ha => ⟨ha, trivial⟩)

theorem succeed (e : Bindings) : InRange (fun _ => True) (succeed e) := ⟨nofun, fun _ _ _ => trivial⟩

theorem tell (n : Notice) : InRange (fun _ => True) (tell n) := ⟨nofun, fun _ _ _ => trivial⟩

theorem succeedIf (test : Bool) (e : Bindings) : InRange (fun _ => True) (succeedIf test e) :=
  .ite (fun _ => .succeed e) fun _ => .pure trivial

theorem unifyInto (e : Bindings) (s t : Term) : InRange (fun _ => True) (unifyInto e s t) := by
  refine ⟨fun w cause => ?_, fun _ _ _ => trivial⟩
  rcases hunify : unify s t e with cause' | _ | e' <;> simp only [Body.unifyInto, hunify] <;>
    intro hstop <;> cases hstop
  exact unify_bottomless s t e cause hunify

theorem forM {items : List α} {f : α → Body Unit} (hf : ∀ a, (f a).InRange fun _ => True) :
    (items.forM f).InRange fun _ => True := by
  induction items with
  | nil => exact .pure trivial
  | cons a items ih => exact (hf a).bind fun _ _ => ih

/-- A counter that is stepped gives a place of the cycle. -/
theorem stepCounter (key : String) {length : ℕ} (hpos : 0 < length) :
    InRange (· < length) (stepCounter key length) := by
  refine ⟨fun s cause => ?_, fun s place => ?_⟩ <;> rw [stepCounter_of_step rfl]
  · exact nofun
  · intro heq
    cases heq
    exact s.world.memory.step_lt key hpos

theorem drawUnit : InRange (fun _ => True) drawUnit := by
  refine ⟨fun s cause => ?_, fun _ _ _ => trivial⟩
  rw [drawUnit_of_unit rfl]
  exact nofun

/-- What is drawn is below its bound. -/
theorem drawBelow {bound : ℕ} (hpos : 0 < bound) : InRange (· < bound) (drawBelow bound) := by
  refine ⟨fun s cause => ?_, fun s drawn => ?_⟩ <;>
    obtain ⟨n, chance, hbelow, hlt⟩ := s.world.chance.exists_below hpos <;>
    rw [drawBelow_some hbelow]
  · exact nofun
  · intro heq
    cases heq
    exact hlt

end InRange

end Body

/-! ### The builtins, one by one -/

/-- **A builtin stays in range**, with as many arguments as it takes. -/
def Builtin.InRange (b : Builtin) : Prop :=
  ∀ (bpm : Float) (args : List Term) (e : Bindings), args.length = b.arity →
    (b.run bpm args e).InRange fun _ => True

namespace Builtin

open Body

theorem equal_inRange : equal.InRange := by
  intro bpm args e hargs
  obtain ⟨a, b, rfl⟩ := List.length_eq_two.1 hargs
  exact .succeedIf _ e

theorem unification_inRange : unification.InRange := by
  intro bpm args e hargs
  obtain ⟨a, b, rfl⟩ := List.length_eq_two.1 hargs
  exact .unifyInto e a b

theorem evaluation_inRange : evaluation.InRange := by
  intro bpm args e hargs
  obtain ⟨out, b, rfl⟩ := List.length_eq_two.1 hargs
  exact .read (reads_number e b) fun x => .unifyInto e out _

theorem comparison_inRange (name : String) (holds : Float → Float → Bool) :
    (comparison name holds).InRange := by
  intro bpm args e hargs
  obtain ⟨a, b, rfl⟩ := List.length_eq_two.1 hargs
  exact .read (reads_number e a) fun x => .read (reads_number e b) fun y => .succeedIf _ e

theorem sum_inRange (name : String) : (sum name).InRange := by
  intro bpm args e hargs
  obtain ⟨a, b, out, rfl⟩ := List.length_eq_three.1 hargs
  exact .read (reads_number e a) fun x => .read (reads_number e b) fun y => .unifyInto e out _

theorem tripleTest_inRange (name : String) (holds : Float → Float → Float → Bool) :
    (tripleTest name holds).InRange := by
  intro bpm args e hargs
  obtain ⟨a, b, c, rfl⟩ := List.length_eq_three.1 hargs
  exact .read (reads_number e a) fun x => .read (reads_number e b) fun y =>
    .read (reads_number e c) fun z => .succeedIf _ e

theorem distinct_inRange : distinct.InRange := by
  intro bpm args e hargs
  obtain ⟨a, rfl⟩ := List.length_eq_one_iff.1 hargs
  exact .read (reads_properList e a) fun items => .succeedIf _ e

theorem every_inRange : every.InRange := by
  intro bpm args e hargs
  obtain ⟨a, b, rfl⟩ := List.length_eq_two.1 hargs
  exact .read (reads_number e a) fun t => .read (reads_number e b) fun s =>
    .ite (fun _ => .refuse _) fun _ => .succeedIf _ e

theorem beat_inRange : beat.InRange := by
  intro bpm args e hargs
  obtain ⟨a, b, rfl⟩ := List.length_eq_two.1 hargs
  exact .read (reads_number e a) fun t => .read (reads_number e b) fun n => .succeedIf _ e

/-- A grid without steps is refused before it is divided by their number. -/
theorem phase_inRange : phase.InRange := by
  intro bpm args e hargs
  obtain ⟨a, b, c, rfl⟩ := List.length_eq_three.1 hargs
  refine .read (reads_number e a) fun t => .read (reads_number e b) fun n =>
    .read (reads_number e c) fun k => .ite (fun _ => .refuse _) fun hsteps => ?_
  have hpos : 1 ≤ n.index .towardZero := by omega
  exact (InRange.machine (exists_residue .signed64 hpos _)).bind fun place _ =>
    (InRange.machine (exists_residue .signed64 hpos _)).bind fun wanted _ => .succeedIf _ e

/-- A rhythm that goes on has at least one step, as a number and so as an index too. -/
theorem euclid_inRange : euclid.InRange := by
  rintro bpm (_ | ⟨a, _ | ⟨b, _ | ⟨c, _ | ⟨d, _ | ⟨f, _ | ⟨_, _⟩⟩⟩⟩⟩⟩) e ⟨⟩
  refine .read (reads_number e a) fun t => .read (reads_number e b) fun k =>
    .read (reads_number e c) fun n => .read (reads_number e d) fun b =>
    .read (reads_number e f) fun r => .ite (fun _ => .pure trivial) fun husable =>
    .ite (fun _ => .refuse _) fun _ => ?_
  simp only [Bool.not_eq_true, Bool.not_eq_false', Bool.and_eq_true, decide_eq_true_eq] at husable
  obtain ⟨⟨⟨⟨-, hfinite⟩, hone⟩, -⟩, -⟩ := husable
  have hpos : 1 ≤ n.index .towardZero := Double.one_le_index hfinite hone
  refine (InRange.machine (exists_stepIndex hpos t b bpm)).bind fun s hs => ?_
  have hgate := exists_euclideanGate (isIndex_index _ n) hpos hs.1 hs.2
    (isIndex_index .towardZero k) (r.index .towardZero)
  exact (InRange.machine_some hgate).bind fun strikes _ => .succeedIf _ e

theorem scale_inRange : scale.InRange := by
  rintro bpm (_ | ⟨a, _ | ⟨b, _ | ⟨c, _ | ⟨d, _ | ⟨out, _ | ⟨_, _⟩⟩⟩⟩⟩⟩) e ⟨⟩
  refine .read (reads_number e a) fun root => .read (reads_atom e b) fun name =>
    .read (reads_number e c) fun degree => .read (reads_number e d) fun octave => ?_
  split
  · exact .refuse _
  next intervals hscale =>
  exact (InRange.machine_some (exists_degreePitch hscale root _ octave)).bind fun pitch _ =>
    .unifyInto e out _

theorem chord_inRange : chord.InRange := by
  intro bpm args e hargs
  obtain ⟨a, b, c, out, rfl⟩ := List.length_eq_four.1 hargs
  refine .read (reads_number e a) fun root => .read (reads_atom e b) fun name =>
    .read (reads_number e c) fun octave => ?_
  split
  · exact .refuse _
  · exact .forM fun i => .unifyInto e out _

theorem choose_inRange : choose.InRange := by
  intro bpm args e hargs
  obtain ⟨list, out, rfl⟩ := List.length_eq_two.1 hargs
  exact .read (reads_properList e list) fun items => .forM fun item => .unifyInto e out item

/-- A list without items is left before it is asked for one. -/
theorem cycle_inRange : cycle.InRange := by
  intro bpm args e hargs
  obtain ⟨list, out, rfl⟩ := List.length_eq_two.1 hargs
  refine .read (reads_properList e list) fun items => .ite (fun _ => .pure trivial) fun hitems => ?_
  have hpos : 0 < items.length := List.length_pos_iff.2 (by simpa using hitems)
  refine (InRange.stepCounter list.text hpos).bind fun place _ => ?_
  have hitem := List.getElem?_eq_getElem (Nat.mod_lt place hpos)
  exact (InRange.machine_some ⟨_, hitem⟩).bind fun item _ => .unifyInto e out item

theorem rotation_inRange : rotation.InRange := by
  intro bpm args e hargs
  obtain ⟨list, shift, out, rfl⟩ := List.length_eq_three.1 hargs
  refine .read (reads_properList e list) fun items => .ite (fun _ => .pure trivial) fun hitems =>
    .read (reads_number e shift) fun s => ?_
  obtain ⟨places, turned, -, -, hturned, -⟩ :=
    exists_rotated (by simpa using hitems) (s.index .towardZero)
  exact (InRange.machine_some ⟨_, hturned⟩).bind fun turned _ => .unifyInto e out _

theorem rangeFrom_inRange (e : Bindings) (out : Term) (start step last : Float) (upward : Bool)
    (size : Float) (fuel i : ℕ) :
    (rangeFrom e out start step last upward size fuel i).InRange fun _ => True := by
  induction fuel generalizing i with
  | zero => exact .ite (fun _ => .pure trivial) fun _ => .tell _
  | succ fuel ih =>
      exact .ite (fun _ => .pure trivial) fun _ =>
        (InRange.unifyInto e out _).bind fun _ _ => ih (i + 1)

theorem range_inRange : range.InRange := by
  intro bpm args e hargs
  obtain ⟨a, b, c, out, rfl⟩ := List.length_eq_four.1 hargs
  exact .read (reads_number e a) fun start => .read (reads_number e b) fun last =>
    .read (reads_number e c) fun given => rangeFrom_inRange e out _ _ _ _ _ _ _

theorem pick_inRange : pick.InRange := by
  intro bpm args e hargs
  obtain ⟨list, out, rfl⟩ := List.length_eq_two.1 hargs
  refine .read (reads_properList e list) fun items => .ite (fun _ => .pure trivial) fun hitems => ?_
  have hpos : 0 < items.length := List.length_pos_iff.2 (by simpa using hitems)
  refine (InRange.drawBelow hpos).bind fun place hplace => ?_
  exact (InRange.machine_some ⟨_, List.getElem?_eq_getElem hplace⟩).bind fun item _ =>
    .unifyInto e out item

theorem probability_inRange : probability.InRange := by
  intro bpm args e hargs
  obtain ⟨a, rfl⟩ := List.length_eq_one_iff.1 hargs
  exact .read (reads_number e a) fun p => InRange.drawUnit.bind fun x _ => .succeedIf _ e

theorem uniform_inRange : uniform.InRange := by
  intro bpm args e hargs
  obtain ⟨a, b, out, rfl⟩ := List.length_eq_three.1 hargs
  exact .read (reads_number e a) fun lo => .read (reads_number e b) fun hi =>
    InRange.drawUnit.bind fun x _ => .unifyInto e out _

/-- The range that is drawn from is not empty, even if the one that is asked for is. -/
theorem uniformWhole_inRange : uniformWhole.InRange := by
  intro bpm args e hargs
  obtain ⟨a, b, out, rfl⟩ := List.length_eq_three.1 hargs
  refine .read (reads_number e a) fun x => .read (reads_number e b) fun y => ?_
  obtain ⟨difference, hdifference, hspan, hdrawn⟩ :=
    exists_drawn (isIndex_index .down x) (isIndex_index .down y)
  refine (InRange.machine (P := (· = difference)) ⟨_, hdifference, rfl⟩).bind ?_
  rintro _ rfl
  exact (InRange.drawBelow hspan).bind fun n hn =>
    (InRange.machine_some ⟨_, (hdrawn n hn).1⟩).bind fun value _ => .unifyInto e out _

/-- **Every standard builtin stays in range.** -/
theorem inRange_of_mem_standard : ∀ b ∈ standard, b.InRange := by
  simp only [standard, comparisons, List.forall_mem_append, List.forall_mem_cons]
  exact ⟨⟨⟨equal_inRange, unification_inRange, evaluation_inRange, by simp⟩,
    comparison_inRange _ _, comparison_inRange _ _, comparison_inRange _ _, comparison_inRange _ _,
    comparison_inRange _ _, comparison_inRange _ _, comparison_inRange _ _, comparison_inRange _ _,
    comparison_inRange _ _, comparison_inRange _ _, by simp⟩,
    sum_inRange _, tripleTest_inRange _ _, tripleTest_inRange _ _, distinct_inRange, every_inRange,
    beat_inRange, phase_inRange, euclid_inRange, scale_inRange, chord_inRange,
    sum_inRange _, choose_inRange, cycle_inRange, rotation_inRange, range_inRange,
    pick_inRange, probability_inRange, uniform_inRange, uniformWhole_inRange, by simp⟩

/-- A call with as many arguments as the builtin takes. -/
theorem InRange.call {b : Builtin} (hb : b.InRange) {args : List Term} (hargs : args.length = b.arity)
    (bpm : Float) (e : Bindings) (w : World) (cause : Halt)
    (h : (b.call bpm args e w).stop = some (.halted cause)) : cause = .unification := by
  refine (hb bpm args e hargs).halts ⟨w, []⟩ cause ?_
  rw [Builtin.call] at h
  rcases hrun : b.run bpm args e ⟨w, []⟩ with ⟨stop | a, s⟩ <;> rw [hrun] at h
  · cases h
    rfl
  · cases h

end Builtin

/-! ### Searches that stay in range -/

section Search

variable {k : Knowledge} {run : List Pending → Bindings → Progress → Found} {e : Bindings}
  {t : Term} {depth : ℕ} {rest : List Pending} {s : Progress} {cause : Halt}

/-- A call has as many arguments as its predicate. -/
theorem Term.length_args {t : Term} {name : String} {arity : ℕ}
    (h : t.functor? = some (name, arity)) : t.args.length = arity := by
  cases t <;> cases h <;> rfl

theorem gather_error {α : Type} {run : α → Progress → Found} {xs : List α}
    (h : gather run xs s = .error cause) : ∃ x s', run x s' = .error cause := by
  induction xs generalizing s with
  | nil => cases h
  | cons x xs ih =>
      simp only [gather] at h
      split at h
      · next hx =>
        cases h
        exact ⟨x, s, hx⟩
      next found s₁ _ =>
      split at h
      · next hxs =>
        cases h
        exact ih hxs
      · cases h

theorem anyProof_error {α : Type} {run : α → Progress → Found} {xs : List α}
    (h : anyProof run xs s = .error cause) : ∃ x s', run x s' = .error cause := by
  induction xs generalizing s with
  | nil => cases h
  | cons x xs ih =>
      simp only [anyProof] at h
      split at h
      · next hx =>
        cases h
        exact ⟨x, s, hx⟩
      next found s₁ _ =>
      split at h
      · exact ih h
      · cases h

/-- What keeps a search from an answer: it went too deep, or a unification did. -/
def Halt.Deep (cause : Halt) : Prop := cause = .search ∨ cause = .unification

/-- **A call stays in range**, if what comes after it does. -/
theorem callTerm_inRange (hk : ∀ b ∈ k.builtins.builtins, b.InRange)
    (hrun : ∀ goals e s cause, run goals e s = .error cause → cause.Deep)
    (h : callTerm k run t depth rest e s = .error cause) : cause.Deep := by
  simp only [callTerm] at h
  split at h
  · cases h
  next name arity hcall =>
  split at h
  · next b hb =>
    have hargs : (e.walk t).args.length = b.arity :=
      (Term.length_args hcall).trans (name_of_find? hb).1.symm
    simp only [callBuiltin] at h
    split at h
    · next hstop =>
      cases h
      exact .inr ((hk b (List.mem_of_find?_eq_some hb)).call hargs _ _ _ _ hstop)
    all_goals
      obtain ⟨e', s', h⟩ := gather_error h
      exact hrun _ _ _ _ h
  split at h
  · cases h
  obtain ⟨c, s', h⟩ := gather_error h
  simp only [tryClause] at h
  split at h
  · next hunify =>
    cases h
    exact .inr (unify_bottomless _ _ _ _ hunify)
  · cases h
  · exact hrun _ _ _ _ h

/-- **A search with builtins that stay in range** comes to no answer only if it goes too deep. -/
theorem solveF_inRange (hk : ∀ b ∈ k.builtins.builtins, b.InRange) (fuel : ℕ)
    (goals : List Pending) (e : Bindings) (s : Progress) (cause : Halt)
    (h : solveF k fuel goals e s = .error cause) : cause.Deep := by
  induction fuel generalizing goals e s cause with
  | zero =>
      cases h
      exact .inl rfl
  | succ fuel ih =>
      rcases goals with _ | ⟨⟨t | alternatives, depth⟩, rest⟩
      · cases h
      · exact callTerm_inRange hk ih h
      · simp only [solveF] at h
        split at h
        · next hany =>
          cases h
          obtain ⟨b, s', h⟩ := anyProof_error hany
          exact ih _ _ _ _ h
        · cases h
        · exact ih _ _ _ _ h

end Search

/-- **No call leaves its range.**

* A standard builtin that the search finds gets as many arguments as it takes, and comes to no answer
  only where a unification does.  A search with standard builtins comes to no answer only if it goes
  too deep, or a unification does.
* A number becomes a whole number with 64 bits, which is positive if the number is finite and not
  below one.  The remainder of any whole number by a positive one is a step of the cycle.
* The gate of a rhythm has a result at every step, for all strokes and turns with 64 bits.
* A list is turned by any whole number with 64 bits, and each place that is looked up is one of the
  list; a counter gives a place of the list.
* Every degree of every scale that there is has a pitch.
* The range that is drawn from is not empty, for any two ends, and what is drawn is added to the lower
  end without leaving the range. -/
theorem dispatched_inRange :
    ((∀ (k : Knowledge) (t : Term) (e : Bindings) (name : String) (arity : ℕ) (b : Builtin),
        (e.walk t).functor? = some (name, arity) → k.builtins.find? name arity = some b →
        b ∈ Builtin.standard → (e.walk t).args.length = b.arity ∧
        ∀ w cause, (b.call k.bpm (e.walk t).args e w).stop = some (.halted cause) →
          cause = .unification) ∧
      ∀ (k : Knowledge), (∀ b ∈ k.builtins.builtins, b ∈ Builtin.standard) →
        ∀ goals e s cause, solve k goals e s = .error cause → cause.Deep) ∧
    ((∀ r (x : Float), IsIndex (x.index r)) ∧
      (∀ x : Float, x.isFinite = true → x ≥ 1.0 → 1 ≤ x.index .towardZero) ∧
      ∀ x steps, 1 ≤ steps →
        ∃ s, Width.signed64.residue x steps = some s ∧ 0 ≤ s ∧ s < steps) ∧
    (∀ s steps onsets turn, IsIndex steps → 0 ≤ s → s < steps → IsIndex onsets →
      ∃ strikes, euclideanGate s steps onsets turn = some strikes) ∧
    (∀ items : List Term, items ≠ [] → IsIndex items.length →
      (∀ shift, IsIndex shift → ∃ (places : ℕ) (turned : List Term),
        Width.unsigned64.fit shift.natAbs = some (shift.natAbs : ℤ) ∧
        Width.unsigned64.remainder shift.natAbs items.length = some (places : ℤ) ∧
        rotated items shift = some turned ∧
        ∀ i < items.length, Width.unsigned64.add i places = some (i + places : ℕ) ∧
          (i + places) % items.length < items.length ∧
          turned[i]? = items[(i + places) % items.length]?) ∧
      ∀ (m : Memory) key, (m.step key items.length).1 < items.length ∧
        Width.unsigned64.add (m.step key items.length).1 1 =
          some ((m.step key items.length).1 + 1 : ℕ)) ∧
    (∀ name intervals, scales.lookup name = some intervals → ∀ root degree octave,
      IsIndex (saturate (degree - 1)) ∧
      ∃ pitch, degreePitch root intervals degree octave = some pitch) ∧
    ∀ lo hi, IsIndex lo → IsIndex hi → ∃ difference,
      Width.signed128.sub hi lo = some difference ∧ 0 < (max difference 1).toNat ∧
      ∀ (c : Chance), ∃ drawn chance, c.below (max difference 1).toNat = some (drawn, chance) ∧
        Width.signed128.add lo (Int.ofNat drawn) = some (lo + drawn) ∧
        (lo + drawn = lo ∨ lo + drawn < hi) := by
  refine ⟨⟨?call, ?search⟩, ⟨isIndex_index, fun x => Double.one_le_index, fun x steps hsteps =>
    exists_residue .signed64 hsteps x⟩, ?gate, ?places, ?degree, ?draw⟩
  case call =>
    intro k t e name arity b hcall hb hstandard
    have hargs := (Term.length_args hcall).trans (name_of_find? hb).1.symm
    exact ⟨hargs, fun w => (Builtin.inRange_of_mem_standard b hstandard).call hargs k.bpm e w⟩
  case search =>
    intro k hk goals e s
    exact solveF_inRange (fun b hb => Builtin.inRange_of_mem_standard b (hk b hb)) searchBudget _ e _
  case gate =>
    intro s steps onsets turn hsteps hs hlt honsets
    exact exists_euclideanGate hsteps (by omega) hs hlt honsets turn
  case places =>
    intro items hitems hlength
    refine ⟨fun shift hshift => ?_, fun m key => ?_⟩
    · obtain ⟨places, turned, hremainder, hlt, hturned, hplaces⟩ := exists_rotated hitems shift
      exact ⟨places, turned, fit_natAbs hshift, hremainder, hturned, fun i hi =>
        ⟨add_places hlength hi hlt.le, hplaces i hi⟩⟩
    · have hpos : 0 < items.length := List.length_pos_iff.2 hitems
      have hlt := m.step_lt key hpos
      exact ⟨hlt, add_places hlength hlt hpos⟩
  case degree =>
    intro name intervals hscale root degree octave
    exact ⟨⟨minIndex_le_saturate _, saturate_le_maxIndex _⟩,
      exists_degreePitch hscale root degree octave⟩
  case draw =>
    intro lo hi hlo hhi
    obtain ⟨difference, hdifference, hspan, hdrawn⟩ := exists_drawn hlo hhi
    refine ⟨difference, hdifference, hspan, fun c => ?_⟩
    obtain ⟨drawn, chance, hbelow, hlt⟩ := c.exists_below hspan
    exact ⟨drawn, chance, hbelow, hdrawn drawn hlt⟩

/-- A rhythm with the greatest number of steps and the least numbers of strokes and of turns, a list
that is turned and a degree that is climbed by the least number, and the widest range. -/
theorem dispatched_inRange_extremes :
    (∃ strikes, euclideanGate (maxIndex - 1) maxIndex minIndex minIndex = some strikes) ∧
    (∃ turned, rotated [.atom "a", .atom "b", .atom "c"] minIndex = some turned) ∧
    (∃ pitch, degreePitch 60 [0, 3, 5, 6, 7, 10] minIndex 4 = some pitch) ∧
    ∃ drawn : ℕ, Width.signed128.add minIndex (Int.ofNat drawn) = some (minIndex + drawn) := by
  obtain ⟨-, -, hgate, hplaces, hdegree, hdraw⟩ := dispatched_inRange
  have hleast : IsIndex minIndex := ⟨le_rfl, by decide⟩
  have hgreatest : IsIndex maxIndex := ⟨by decide, le_rfl⟩
  obtain ⟨places, turned, -, -, hturned, -⟩ :=
    (hplaces [.atom "a", .atom "b", .atom "c"] (by simp) ⟨by decide, by decide⟩).1 minIndex hleast
  obtain ⟨difference, -, -, hdrawn⟩ := hdraw minIndex maxIndex hleast hgreatest
  obtain ⟨drawn, chance, -, hadd, -⟩ := hdrawn (.ofSeed 0)
  exact ⟨hgate _ _ _ minIndex hgreatest (by decide) (by decide) hleast, ⟨turned, hturned⟩,
    (hdegree "blues" _ rfl 60 minIndex 4).2, drawn, hadd⟩

end RhythmLogic
