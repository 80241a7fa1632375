/-
**Refusals: a builtin refuses at once or never.**

What a builtin did before a refusal stays done, and the search goes on with what it pushed.  So
nothing but the order of its steps keeps a refused call from having an effect.  The standard builtins
have this order: they first read all arguments that they may refuse, and reading has no effect; once
they push, remember or draw, they refuse no more.  Hence a builtin refuses by its arguments and
bindings alone.  Where it refuses in one world, it refuses in all of them, with the same error.

Main definitions:

* `Body.Reads`, `Body.Accepts` — a run that only reads an argument, and one that never refuses;
* `Body.Decided`, `Builtin.Decides` — **a run refuses at once or never**.

Main results:

* `Body.Decided.read` — an argument is read before anything else is done;
* `Builtin.decides_of_mem_standard` — **every standard builtin refuses at once or never**;
* `Builtin.call_of_refused` — a call that is refused has no effect, in whatever world.
-/

import RhythmLogic.Proofs.Parametric

set_option autoImplicit false

namespace RhythmLogic

/-! ### Runs that refuse at once or never -/

namespace Body

variable {α β : Type}

/-- A run that reads an argument: it has a result or refuses, and does nothing else. -/
def Reads (b : Body α) : Prop := (∃ a, b = pure a) ∨ ∃ error, b = refuse error

/-- The run never refuses. -/
def Accepts (b : Body α) : Prop := ∀ s error, (b s).1 ≠ .error (.refused error)

/-- **The run refuses at once, having done nothing, or it never refuses**, wherever it starts. -/
def Decided (b : Body α) : Prop := (∃ error, b = refuse error) ∨ b.Accepts

/-! ### Reading -/

variable (e : Bindings) (t : Term)

theorem reads_number : Reads (number e t) := by
  simp only [number]
  split
  · exact .inl ⟨_, rfl⟩
  · exact .inr ⟨_, rfl⟩

theorem reads_properList : Reads (properList e t) := by
  simp only [properList]
  split
  · exact .inl ⟨_, rfl⟩
  · exact .inr ⟨_, rfl⟩

theorem reads_atom : Reads (atom e t) := by
  simp only [atom]
  split
  · exact .inl ⟨_, rfl⟩
  · exact .inr ⟨_, rfl⟩

/-! ### Runs that never refuse -/

namespace Accepts

theorem pure (a : α) : Accepts (pure a) := nofun

theorem halt (cause : Halt) : Accepts (halt cause : Body α) := nofun

theorem succeed : Accepts (succeed e) := nofun

theorem tell (n : Notice) : Accepts (tell n) := nofun

theorem bind {b : Body α} {f : α → Body β} (hb : b.Accepts) (hf : ∀ a, (f a).Accepts) :
    (b >>= f).Accepts := by
  intro s error
  rw [bind_apply]
  rcases hrun : b s with ⟨stop | a, s₁⟩
  · -- it stops for what the first run stops for
    intro hstop
    cases hstop
    exact hb s error (by rw [hrun])
  · exact hf a s₁ error

theorem ite {c : Prop} [Decidable c] {b b' : Body α} (hb : b.Accepts) (hb' : b'.Accepts) :
    (if c then b else b').Accepts := by
  split
  · exact hb
  · exact hb'

theorem machine (o : Option α) : (machine o).Accepts := by
  cases o with
  | none => exact .halt .arithmetic
  | some a => exact .pure a

theorem succeedIf (test : Bool) : (succeedIf test e).Accepts := .ite (.succeed e) (.pure ())

theorem unifyInto (s : Term) : (unifyInto e s t).Accepts := by
  simp only [Body.unifyInto]
  split
  · exact .succeed _
  · exact .pure ()
  · exact .halt _

theorem forM {items : List α} {f : α → Body Unit} (hf : ∀ a, (f a).Accepts) :
    (items.forM f).Accepts := by
  induction items with
  | nil => exact .pure ()
  | cons a items ih => exact (hf a).bind fun _ => ih

theorem stepCounter (key : String) (length : Nat) : (stepCounter key length).Accepts := by
  intro s error
  rw [stepCounter_of_step rfl]
  exact nofun

theorem drawUnit : drawUnit.Accepts := by
  intro s error
  rw [drawUnit_of_unit rfl]
  exact nofun

theorem drawBelow (bound : Nat) : (drawBelow bound).Accepts := by
  intro s error
  rcases h : s.world.chance.below bound with _ | ⟨n, chance⟩
  · rw [drawBelow_none h]
    exact nofun
  · rw [drawBelow_some h]
    exact nofun

end Accepts

/-! ### Reading first -/

namespace Decided

theorem refuse (error : ArgumentError) : Decided (refuse error : Body α) := .inl ⟨error, rfl⟩

/-- **An argument is read first**, and what comes then is decided for each result. -/
theorem read {b : Body α} {f : α → Body β} (hb : b.Reads) (hf : ∀ a, (f a).Decided) :
    (b >>= f).Decided := by
  obtain ⟨a, rfl⟩ | ⟨error, rfl⟩ := hb
  · exact hf a
  · exact .refuse error

theorem ite {c : Prop} [Decidable c] {b b' : Body α} (hb : b.Decided) (hb' : b'.Decided) :
    (if c then b else b').Decided := by
  split
  · exact hb
  · exact hb'

end Decided

end Body

/-! ### The builtins, one by one -/

/-- **A builtin refuses at once or never**, by its arguments and bindings. -/
def Builtin.Decides (b : Builtin) : Prop :=
  ∀ (bpm : Float) (args : List Term) (e : Bindings), (b.run bpm args e).Decided

namespace Builtin

open Body

theorem equal_decides : equal.Decides := by
  rintro bpm (_ | ⟨a, _ | ⟨b, _ | ⟨_, _⟩⟩⟩) e
  case cons.cons.nil => exact .inr (.succeedIf e _)
  all_goals exact .inr (.halt _)

theorem unification_decides : unification.Decides := by
  rintro bpm (_ | ⟨a, _ | ⟨b, _ | ⟨_, _⟩⟩⟩) e
  case cons.cons.nil => exact .inr (.unifyInto e b a)
  all_goals exact .inr (.halt _)

theorem evaluation_decides : evaluation.Decides := by
  rintro bpm (_ | ⟨a, _ | ⟨b, _ | ⟨_, _⟩⟩⟩) e
  case cons.cons.nil => exact .read (reads_number e b) fun x => .inr (.unifyInto e _ a)
  all_goals exact .inr (.halt _)

theorem comparison_decides (name : String) (holds : Float → Float → Bool) :
    (comparison name holds).Decides := by
  rintro bpm (_ | ⟨a, _ | ⟨b, _ | ⟨_, _⟩⟩⟩) e
  case cons.cons.nil =>
    exact .read (reads_number e a) fun x => .read (reads_number e b) fun y => .inr (.succeedIf e _)
  all_goals exact .inr (.halt _)

theorem sum_decides (name : String) : (sum name).Decides := by
  rintro bpm (_ | ⟨a, _ | ⟨b, _ | ⟨c, _ | ⟨_, _⟩⟩⟩⟩) e
  case cons.cons.cons.nil =>
    exact .read (reads_number e a) fun x => .read (reads_number e b) fun y =>
      .inr (.unifyInto e _ c)
  all_goals exact .inr (.halt _)

theorem tripleTest_decides (name : String) (holds : Float → Float → Float → Bool) :
    (tripleTest name holds).Decides := by
  rintro bpm (_ | ⟨a, _ | ⟨b, _ | ⟨c, _ | ⟨_, _⟩⟩⟩⟩) e
  case cons.cons.cons.nil =>
    exact .read (reads_number e a) fun x => .read (reads_number e b) fun y =>
      .read (reads_number e c) fun z => .inr (.succeedIf e _)
  all_goals exact .inr (.halt _)

theorem distinct_decides : distinct.Decides := by
  rintro bpm (_ | ⟨a, _ | ⟨_, _⟩⟩) e
  case cons.nil => exact .read (reads_properList e a) fun items => .inr (.succeedIf e _)
  all_goals exact .inr (.halt _)

theorem every_decides : every.Decides := by
  rintro bpm (_ | ⟨a, _ | ⟨b, _ | ⟨_, _⟩⟩⟩) e
  case cons.cons.nil =>
    exact .read (reads_number e a) fun t => .read (reads_number e b) fun s =>
      .ite (.refuse _) (.inr (.succeedIf e _))
  all_goals exact .inr (.halt _)

theorem beat_decides : beat.Decides := by
  rintro bpm (_ | ⟨a, _ | ⟨b, _ | ⟨_, _⟩⟩⟩) e
  case cons.cons.nil =>
    exact .read (reads_number e a) fun t => .read (reads_number e b) fun n => .inr (.succeedIf e _)
  all_goals exact .inr (.halt _)

theorem phase_decides : phase.Decides := by
  rintro bpm (_ | ⟨a, _ | ⟨b, _ | ⟨c, _ | ⟨_, _⟩⟩⟩⟩) e
  case cons.cons.cons.nil =>
    refine .read (reads_number e a) fun t => .read (reads_number e b) fun n =>
      .read (reads_number e c) fun k => .ite (.refuse _) (.inr ?_)
    exact (Accepts.machine _).bind fun place => (Accepts.machine _).bind fun wanted =>
      .succeedIf e _
  all_goals exact .inr (.halt _)

/-- A rhythm that no cycle has is no error, and the length of the cycle is read after that. -/
theorem euclid_decides : euclid.Decides := by
  rintro bpm (_ | ⟨a, _ | ⟨b, _ | ⟨c, _ | ⟨d, _ | ⟨f, _ | ⟨_, _⟩⟩⟩⟩⟩⟩) e
  case cons.cons.cons.cons.cons.nil =>
    refine .read (reads_number e a) fun t => .read (reads_number e b) fun k =>
      .read (reads_number e c) fun n => .read (reads_number e d) fun b =>
      .read (reads_number e f) fun r =>
      .ite (.inr (.pure ())) (.ite (.refuse _) (.inr ?_))
    exact (Accepts.machine _).bind fun s => (Accepts.machine _).bind fun strikes => .succeedIf e _
  all_goals exact .inr (.halt _)

theorem scale_decides : scale.Decides := by
  rintro bpm (_ | ⟨a, _ | ⟨b, _ | ⟨c, _ | ⟨d, _ | ⟨out, _ | ⟨_, _⟩⟩⟩⟩⟩⟩) e
  case cons.cons.cons.cons.cons.nil =>
    refine .read (reads_number e a) fun root => .read (reads_atom e b) fun name =>
      .read (reads_number e c) fun degree => .read (reads_number e d) fun octave => ?_
    split
    · exact .refuse _
    · exact .inr ((Accepts.machine _).bind fun pitch => .unifyInto e _ out)
  all_goals exact .inr (.halt _)

theorem chord_decides : chord.Decides := by
  rintro bpm (_ | ⟨a, _ | ⟨b, _ | ⟨c, _ | ⟨out, _ | ⟨_, _⟩⟩⟩⟩⟩) e
  case cons.cons.cons.cons.nil =>
    refine .read (reads_number e a) fun root => .read (reads_atom e b) fun name =>
      .read (reads_number e c) fun octave => ?_
    split
    · exact .refuse _
    · exact .inr (.forM fun i => .unifyInto e _ out)
  all_goals exact .inr (.halt _)

theorem choose_decides : choose.Decides := by
  rintro bpm (_ | ⟨a, _ | ⟨out, _ | ⟨_, _⟩⟩⟩) e
  case cons.cons.nil =>
    exact .read (reads_properList e a) fun items => .inr (.forM fun item => .unifyInto e item out)
  all_goals exact .inr (.halt _)

theorem cycle_decides : cycle.Decides := by
  rintro bpm (_ | ⟨a, _ | ⟨out, _ | ⟨_, _⟩⟩⟩) e
  case cons.cons.nil =>
    refine .read (reads_properList e a) fun items => .inr (.ite (.pure ()) ?_)
    exact (Accepts.stepCounter _ _).bind fun place => (Accepts.machine _).bind fun item =>
      .unifyInto e item out
  all_goals exact .inr (.halt _)

/-- A list without items is turned to nothing, and then the shift is not read. -/
theorem rotation_decides : rotation.Decides := by
  rintro bpm (_ | ⟨a, _ | ⟨b, _ | ⟨out, _ | ⟨_, _⟩⟩⟩⟩) e
  case cons.cons.cons.nil =>
    refine .read (reads_properList e a) fun items => .ite (.inr (.pure ())) ?_
    exact .read (reads_number e b) fun s =>
      .inr ((Accepts.machine _).bind fun turned => .unifyInto e _ out)
  all_goals exact .inr (.halt _)

theorem rangeFrom_accepts (e : Bindings) (out : Term) (start step last : Float) (upward : Bool)
    (size : Float) (fuel i : Nat) :
    (rangeFrom e out start step last upward size fuel i).Accepts := by
  induction fuel generalizing i with
  | zero => exact .ite (.pure ()) (.tell _)
  | succ fuel ih => exact .ite (.pure ()) ((Accepts.unifyInto e _ out).bind fun _ => ih (i + 1))

theorem range_decides : range.Decides := by
  rintro bpm (_ | ⟨a, _ | ⟨b, _ | ⟨c, _ | ⟨out, _ | ⟨_, _⟩⟩⟩⟩⟩) e
  case cons.cons.cons.cons.nil =>
    exact .read (reads_number e a) fun start => .read (reads_number e b) fun last =>
      .read (reads_number e c) fun given => .inr (rangeFrom_accepts e out _ _ _ _ _ _ _)
  all_goals exact .inr (.halt _)

theorem pick_decides : pick.Decides := by
  rintro bpm (_ | ⟨a, _ | ⟨out, _ | ⟨_, _⟩⟩⟩) e
  case cons.cons.nil =>
    refine .read (reads_properList e a) fun items => .inr (.ite (.pure ()) ?_)
    exact (Accepts.drawBelow _).bind fun place => (Accepts.machine _).bind fun item =>
      .unifyInto e item out
  all_goals exact .inr (.halt _)

theorem probability_decides : probability.Decides := by
  rintro bpm (_ | ⟨a, _ | ⟨_, _⟩⟩) e
  case cons.nil =>
    exact .read (reads_number e a) fun p => .inr (Accepts.drawUnit.bind fun x => .succeedIf e _)
  all_goals exact .inr (.halt _)

theorem uniform_decides : uniform.Decides := by
  rintro bpm (_ | ⟨a, _ | ⟨b, _ | ⟨out, _ | ⟨_, _⟩⟩⟩⟩) e
  case cons.cons.cons.nil =>
    exact .read (reads_number e a) fun lo => .read (reads_number e b) fun hi =>
      .inr (Accepts.drawUnit.bind fun x => .unifyInto e _ out)
  all_goals exact .inr (.halt _)

theorem uniformWhole_decides : uniformWhole.Decides := by
  rintro bpm (_ | ⟨a, _ | ⟨b, _ | ⟨out, _ | ⟨_, _⟩⟩⟩⟩) e
  case cons.cons.cons.nil =>
    refine .read (reads_number e a) fun x => .read (reads_number e b) fun y => .inr ?_
    exact (Accepts.machine _).bind fun difference => (Accepts.drawBelow _).bind fun n =>
      (Accepts.machine _).bind fun value => .unifyInto e _ out
  all_goals exact .inr (.halt _)

/-- **Every standard builtin refuses at once or never.** -/
theorem decides_of_mem_standard : ∀ b ∈ standard, b.Decides := by
  simp only [standard, comparisons, List.forall_mem_append, List.forall_mem_cons]
  exact ⟨⟨⟨equal_decides, unification_decides, evaluation_decides, by simp⟩,
    comparison_decides _ _, comparison_decides _ _, comparison_decides _ _, comparison_decides _ _,
    comparison_decides _ _, comparison_decides _ _, comparison_decides _ _, comparison_decides _ _,
    comparison_decides _ _, comparison_decides _ _, by simp⟩,
    sum_decides _, tripleTest_decides _ _, tripleTest_decides _ _, distinct_decides, every_decides,
    beat_decides, phase_decides, euclid_decides, scale_decides, chord_decides,
    sum_decides _, choose_decides, cycle_decides, rotation_decides, range_decides,
    pick_decides, probability_decides, uniform_decides, uniformWhole_decides, by simp⟩

end Builtin

/-! ### Calls that are refused -/

/-- **A call that is refused has no effect**, and is refused in every world with one error. -/
theorem Builtin.call_of_refused {b : Builtin} (hb : b.Decides) {bpm : Float} {args : List Term}
    {e : Bindings} {w : World} {error : ArgumentError}
    (h : (b.call bpm args e w).stop = some (.refused error)) (w' : World) :
    b.call bpm args e w' = ⟨[], w', some (.refused error)⟩ := by
  simp only [Builtin.call] at h ⊢
  obtain ⟨error', hrun⟩ | haccepts := hb bpm args e
  · rw [hrun] at h ⊢
    cases h
    rfl
  · have hresult := haccepts ⟨w, []⟩ error
    rcases hr : b.run bpm args e ⟨w, []⟩ with ⟨stop | a, s⟩
    · rw [hr] at h hresult
      cases h
      exact absurd rfl hresult
    · rw [hr] at h
      cases h

end RhythmLogic
