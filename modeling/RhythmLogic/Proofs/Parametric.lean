/-
**Builtins are parametric.**

A builtin reads its arguments through the bindings and pushes bindings that it gets from
unifications, and it has no other way to come by a term.  So whatever relates terms to terms and
bindings to bindings, and is kept by reading and by unifying, relates what a builtin pushes when its
arguments are related.  This is proved once a builtin, and used for two relations: being the same
up to a relabelling, and being the same with a property of all parts.

Five builtins look at memory or draw a random number, and what they push depends on that.  They are
parametric as well, but only where related terms are the same and related worlds differ in no more
than what was told.

Main definitions:

* `Matching` — relations between terms and between bindings that are kept by reading and unifying;
* `Body.Agree` — two runs that end alike, with related results, pushed bindings and worlds;
* `Body.SeenAlike` — a relation between worlds that no builtin can tell apart;
* `Builtin.Keeps` — a builtin keeps a matching: with related arguments its runs agree;
* `Builtin.unsteady` — the builtins that remember or draw.

Main results:

* `Body.Agree.bind` — runs that agree, one after the other;
* `unsteady_or_keeps` — **the standard builtins keep every matching**, but for the five;
* `keeps_of_mem_standard` — all of them keep a matching of a term with itself;
* `Builtin.Keeps.call` — a call with related arguments has related solutions.
-/

import RhythmLogic.Builtin.Standard
import RhythmLogic.Unification
import Mathlib.Data.List.Forall2
import Mathlib.Data.Option.Basic

set_option autoImplicit false

namespace RhythmLogic

/-! ### Matchings -/

/-- Two unifications end alike, with related bindings. -/
inductive Unified.Match (E : Bindings → Bindings → Prop) : Unified → Unified → Prop where
  | error {cause : Halt} : Match E (.error cause) (.error cause)
  | clash : Match E (.ok none) (.ok none)
  | solved {e e' : Bindings} : E e e' → Match E (.ok (some e)) (.ok (some e'))

/-- **Relations between terms and between bindings** that are kept by reading terms through bindings
and by unifying, and that no comparison and no computation can tell from equality. -/
structure Matching (T : Term → Term → Prop) (E : Bindings → Bindings → Prop) : Prop where
  number : ∀ x, T (.number x) (.number x)
  list : ∀ {as bs}, List.Forall₂ T as bs → T (.list as) (.list bs)
  /-- Terms that are related are proper lists together, with related items. -/
  items : ∀ {s t}, T s t → Option.Rel (List.Forall₂ T) s.properList? t.properList?
  name : ∀ {s t}, T s t → s.atom? = t.atom?
  value : ∀ {s t}, T s t → s.evaluate = t.evaluate
  alike : ∀ {s s' t t'}, T s s' → T t t' → s.alike t = s'.alike t'
  subst : ∀ {e e' t t'}, E e e' → T t t' → T (e.subst t) (e'.subst t')
  unify : ∀ {e e' s s' t t'}, E e e' → T s s' → T t t' →
    Unified.Match E (unify s t e) (unify s' t' e')

/-- **Equality is a matching.** -/
theorem matching_eq : Matching Eq Eq where
  number _ := rfl
  list h := by
    rw [List.forall₂_eq_eq_eq] at h
    rw [h]
  items := by
    rintro s _ rfl
    cases s.properList? with
    | none => exact .none
    | some items => exact .some (List.forall₂_same.2 fun _ _ => rfl)
  name h := congrArg Term.atom? h
  value h := congrArg Term.evaluate h
  alike hs ht := by rw [hs, ht]
  subst he ht := by rw [he, ht]
  unify := by
    rintro e _ s _ t _ rfl rfl rfl
    rcases RhythmLogic.unify s t e with cause | _ | e'
    · exact .error
    · exact .clash
    · exact .solved rfl

/-! ### Runs that agree -/

namespace Body

variable {α β α' β' : Type} {W : World → World → Prop} {T : Term → Term → Prop}
  {E : Bindings → Bindings → Prop} {R : α → α' → Prop} {Q : β → β' → Prop}

/-- Two runs end alike: with related results, with a refusal each, or with one cause. -/
inductive Ends (R : α → α' → Prop) : Except Stop α → Except Stop α' → Prop where
  | ok {a : α} {a' : α'} : R a a' → Ends R (.ok a) (.ok a')
  | refused {error error' : ArgumentError} :
      Ends R (.error (.refused error)) (.error (.refused error'))
  | halted {cause : Halt} : Ends R (.error (.halted cause)) (.error (.halted cause))

/-- **Two runs agree**: from related worlds and bindings they come to related ones, and end
alike. -/
def Agree (W : World → World → Prop) (E : Bindings → Bindings → Prop) (R : α → α' → Prop)
    (b : Body α) (b' : Body α') : Prop :=
  ∀ s s' : Effects, W s.world s'.world → List.Forall₂ E s.pushed s'.pushed →
    Ends R (b s).1 (b' s').1 ∧ W (b s).2.world (b' s').2.world ∧
      List.Forall₂ E (b s).2.pushed (b' s').2.pushed

/-- The second run starts where the first one has come to. -/
theorem bind_apply (b : Body α) (f : α → Body β) (s : Effects) :
    (b >>= f) s = ExceptT.bindCont f (b s).1 (b s).2 := rfl

theorem Agree.pure {a : α} {a' : α'} (h : R a a') :
    Agree W E R (pure a : Body α) (pure a' : Body α') :=
  fun _ _ hw hp => ⟨.ok h, hw, hp⟩

theorem Agree.halt (cause : Halt) :
    Agree W E R (halt cause : Body α) (halt cause : Body α') :=
  fun _ _ hw hp => ⟨.halted, hw, hp⟩

theorem Agree.refuse (error error' : ArgumentError) :
    Agree W E R (refuse error : Body α) (refuse error' : Body α') :=
  fun _ _ hw hp => ⟨.refused, hw, hp⟩

/-- **Runs that agree, one after the other.** -/
theorem Agree.bind {b : Body α} {b' : Body α'} {f : α → Body β} {f' : α' → Body β'}
    (h : Agree W E R b b') (hf : ∀ a a', R a a' → Agree W E Q (f a) (f' a')) :
    Agree W E Q (b >>= f) (b' >>= f') := by
  intro s s' hw hp
  obtain ⟨hends, hw₁, hp₁⟩ := h s s' hw hp
  rw [bind_apply, bind_apply]
  generalize (b s).1 = r at hends ⊢
  generalize (b' s').1 = r' at hends ⊢
  cases hends with
  | ok ha => exact hf _ _ ha _ _ hw₁ hp₁
  | refused => exact ⟨.refused, hw₁, hp₁⟩
  | halted => exact ⟨.halted, hw₁, hp₁⟩

/-- Runs with one result each, and then runs that agree for every result. -/
theorem Agree.andThen {b b' : Body α} {f : α → Body β} {f' : α → Body β'}
    (h : Agree W E Eq b b') (hf : ∀ a, Agree W E Q (f a) (f' a)) :
    Agree W E Q (b >>= f) (b' >>= f') :=
  h.bind fun a _ ha => ha ▸ hf a

/-- A run that goes by the same test on both sides. -/
theorem Agree.ite {c : Prop} [Decidable c] {b₁ b₂ : Body α} {b₁' b₂' : Body α'}
    (h₁ : Agree W E R b₁ b₁') (h₂ : Agree W E R b₂ b₂') :
    Agree W E R (if c then b₁ else b₂) (if c then b₁' else b₂') := by
  split
  · exact h₁
  · exact h₂

theorem Agree.machine {o : Option α} {o' : Option α'} (h : Option.Rel R o o') :
    Agree W E R (Body.machine o) (Body.machine o') := by
  cases h with
  | some ha => exact .pure ha
  | none => exact .halt .arithmetic

theorem Agree.machine_self (o : Option α) :
    Agree W E Eq (Body.machine o) (Body.machine o) :=
  .machine (by cases o <;> constructor; rfl)

/-- A notice keeps the relation between worlds. -/
def Tells (W : World → World → Prop) : Prop := ∀ n w w', W w w' → W (w.tell n) (w'.tell n)

/-- **Worlds that no builtin can tell apart**: related ones have the same memory and the same
chance, and stay related when these are changed alike and when something is told. -/
structure SeenAlike (W : World → World → Prop) : Prop where
  tells : Tells W
  memory : ∀ {w w'}, W w w' → w.memory = w'.memory
  chance : ∀ {w w'}, W w w' → w.chance = w'.chance
  setMemory : ∀ {w w'}, W w w' → ∀ m, W { w with memory := m } { w' with memory := m }
  setChance : ∀ {w w'}, W w w' → ∀ c, W { w with chance := c } { w' with chance := c }

theorem seenAlike_eq : SeenAlike Eq where
  tells n _ _ h := congrArg (World.tell · n) h
  memory h := congrArg World.memory h
  chance h := congrArg World.chance h
  setMemory h m := congrArg (fun w : World => { w with memory := m }) h
  setChance h c := congrArg (fun w : World => { w with chance := c }) h

theorem Agree.tell (hW : Tells W) (n : Notice) :
    Agree W E (fun _ _ => True) (tell n) (tell n) :=
  fun _ _ hw hp => ⟨.ok trivial, hW n _ _ hw, hp⟩

theorem Agree.succeed {e e' : Bindings} (he : E e e') :
    Agree W E (fun _ _ => True) (succeed e) (succeed e') :=
  fun _ _ hw hp => ⟨.ok trivial, hw, .cons he hp⟩

theorem Agree.succeedIf {e e' : Bindings} {test test' : Bool} (htest : test = test')
    (he : E e e') : Agree W E (fun _ _ => True) (succeedIf test e) (succeedIf test' e') := by
  subst htest
  cases test with
  | true => exact .succeed he
  | false => exact .pure trivial

/-- A loop over related items. -/
theorem Agree.forM {items : List α} {items' : List α'} {f : α → Body Unit}
    {f' : α' → Body Unit} (h : List.Forall₂ R items items')
    (hf : ∀ a a', R a a' → Agree W E (fun _ _ => True) (f a) (f' a')) :
    Agree W E (fun _ _ => True) (items.forM f) (items'.forM f') := by
  induction h with
  | nil => exact .pure trivial
  | cons ha _ ih => exact (hf _ _ ha).bind fun _ _ _ => ih

section Matching

variable (hM : Matching T E) {e e' : Bindings} {s s' t t' : Term}
include hM

theorem Agree.number (he : E e e') (ht : T t t') :
    Agree W E Eq (number e t) (number e' t') := by
  simp only [Body.number, hM.value (hM.subst he ht)]
  split
  · exact .pure rfl
  · exact .refuse _ _

theorem Agree.properList (he : E e e') (ht : T t t') :
    Agree W E (List.Forall₂ T) (properList e t) (properList e' t') := by
  have hitems := hM.items (hM.subst he ht)
  simp only [Body.properList]
  generalize e.subst t = u at hitems ⊢
  generalize e'.subst t' = u' at hitems ⊢
  cases u <;> cases u' <;> cases hitems <;> first | exact .refuse _ _ | exact .pure ‹_›

theorem Agree.atom (he : E e e') (ht : T t t') : Agree W E Eq (atom e t) (atom e' t') := by
  have hname := hM.name (hM.subst he ht)
  simp only [Body.atom]
  generalize e.subst t = u at hname ⊢
  generalize e'.subst t' = u' at hname ⊢
  cases u <;> cases u' <;> cases hname <;> first | exact .refuse _ _ | exact .pure rfl

theorem Agree.unifyInto (he : E e e') (hs : T s s') (ht : T t t') :
    Agree W E (fun _ _ => True) (unifyInto e s t) (unifyInto e' s' t') := by
  have hunify := hM.unify he hs ht
  simp only [Body.unifyInto]
  generalize RhythmLogic.unify s t e = u at hunify ⊢
  generalize RhythmLogic.unify s' t' e' = u' at hunify ⊢
  cases hunify with
  | error => exact .halt _
  | clash => exact .pure trivial
  | solved he₁ => exact .succeed he₁

end Matching

/-! ### Rows -/

theorem isEmpty_eq {xs : List α} {ys : List α'} (h : List.Forall₂ R xs ys) :
    xs.isEmpty = ys.isEmpty := by
  cases h <;> rfl

theorem getElem?_rel {xs : List α} {ys : List α'} (h : List.Forall₂ R xs ys) (i : Nat) :
    Option.Rel R xs[i]? ys[i]? := by
  induction h generalizing i with
  | nil => exact .none
  | cons hx _ ih =>
      cases i with
      | zero => exact .some hx
      | succ i => simpa using ih i

/-! ### Memory and chance -/

theorem get_bind_apply (f : Effects → Body β) (s : Effects) :
    ((get : Body Effects) >>= f) s = f s s := rfl

theorem stepCounter_of_step {key : String} {length place : Nat} {memory : Memory} {s : Effects}
    (h : s.world.memory.step key length = (place, memory)) :
    Body.stepCounter key length s =
      (.ok place, { s with world := { s.world with memory := memory } }) := by
  rw [Body.stepCounter, get_bind_apply, h]
  rfl

theorem drawUnit_of_unit {x : Float} {chance : Chance} {s : Effects}
    (h : s.world.chance.unit = (x, chance)) :
    Body.drawUnit s = (.ok x, { s with world := { s.world with chance := chance } }) := by
  rw [Body.drawUnit, get_bind_apply, h]
  rfl

theorem drawBelow_some {bound n : Nat} {s : Effects} {chance : Chance}
    (h : s.world.chance.below bound = some (n, chance)) :
    Body.drawBelow bound s = (.ok n, { s with world := { s.world with chance := chance } }) := by
  rw [Body.drawBelow, get_bind_apply, h]
  rfl

theorem drawBelow_none {bound : Nat} {s : Effects} (h : s.world.chance.below bound = none) :
    Body.drawBelow bound s = (.error (.halted .arithmetic), s) := by
  rw [Body.drawBelow, get_bind_apply, h]
  rfl

section Worlds

variable (hW : SeenAlike W)
include hW

theorem Agree.stepCounter (key : String) (length : Nat) :
    Agree W E Eq (stepCounter key length) (stepCounter key length) := by
  intro s s' hw hp
  rcases h : s.world.memory.step key length with ⟨place, memory⟩
  rw [stepCounter_of_step h, stepCounter_of_step (hW.memory hw ▸ h)]
  exact ⟨.ok rfl, hW.setMemory hw memory, hp⟩

theorem Agree.drawUnit : Agree W E Eq drawUnit drawUnit := by
  intro s s' hw hp
  rcases h : s.world.chance.unit with ⟨x, chance⟩
  rw [drawUnit_of_unit h, drawUnit_of_unit (hW.chance hw ▸ h)]
  exact ⟨.ok rfl, hW.setChance hw chance, hp⟩

theorem Agree.drawBelow (bound : Nat) : Agree W E Eq (drawBelow bound) (drawBelow bound) := by
  intro s s' hw hp
  rcases h : s.world.chance.below bound with _ | ⟨n, chance⟩
  · rw [drawBelow_none h, drawBelow_none (hW.chance hw ▸ h)]
    exact ⟨.halted, hw, hp⟩
  · rw [drawBelow_some h, drawBelow_some (hW.chance hw ▸ h)]
    exact ⟨.ok rfl, hW.setChance hw chance, hp⟩

end Worlds

end Body

/-! ### Builtins -/

/-- **A builtin keeps relations**: its runs agree when its arguments are related. -/
def Builtin.Keeps (T : Term → Term → Prop) (E : Bindings → Bindings → Prop)
    (W : World → World → Prop) (b : Builtin) : Prop :=
  ∀ (bpm : Float) (args args' : List Term) (e e' : Bindings), List.Forall₂ T args args' →
    E e e' → Body.Agree W E (fun _ _ => True) (b.run bpm args e) (b.run bpm args' e')

namespace Builtin

open Body

variable {T : Term → Term → Prop} {E : Bindings → Bindings → Prop} {W : World → World → Prop}

/-- Related lists turn alike. -/
theorem rotated_rel {items items' : List Term} (h : List.Forall₂ T items items') (shift : Int) :
    Option.Rel (List.Forall₂ T) (rotated items shift) (rotated items' shift) := by
  simp only [rotated, h.length_eq]
  cases Width.unsigned64.remainder shift.natAbs items'.length with
  | none => exact .none
  | some places =>
      exact .some (List.rel_append (List.forall₂_drop _ h) (List.forall₂_take _ h))

section Matching

variable (hM : Matching T E)
include hM

theorem equal_keeps : equal.Keeps T E W := by
  rintro bpm _ _ e e' (_ | ⟨ha, _ | ⟨hb, _ | ⟨_, _⟩⟩⟩) he
  case cons.cons.nil => exact .succeedIf (hM.alike (hM.subst he ha) (hM.subst he hb)) he
  all_goals exact .halt _

theorem unification_keeps : unification.Keeps T E W := by
  rintro bpm _ _ e e' (_ | ⟨ha, _ | ⟨hb, _ | ⟨_, _⟩⟩⟩) he
  case cons.cons.nil => exact .unifyInto hM he ha hb
  all_goals exact .halt _

theorem evaluation_keeps : evaluation.Keeps T E W := by
  rintro bpm _ _ e e' (_ | ⟨ha, _ | ⟨hb, _ | ⟨_, _⟩⟩⟩) he
  case cons.cons.nil =>
    exact (Agree.number hM he hb).andThen fun x => .unifyInto hM he ha (hM.number x)
  all_goals exact .halt _

theorem comparison_keeps (name : String) (holds : Float → Float → Bool) :
    (comparison name holds).Keeps T E W := by
  rintro bpm _ _ e e' (_ | ⟨ha, _ | ⟨hb, _ | ⟨_, _⟩⟩⟩) he
  case cons.cons.nil =>
    exact (Agree.number hM he ha).andThen fun x => (Agree.number hM he hb).andThen fun y =>
      .succeedIf rfl he
  all_goals exact .halt _

theorem sum_keeps (name : String) : (sum name).Keeps T E W := by
  rintro bpm _ _ e e' (_ | ⟨ha, _ | ⟨hb, _ | ⟨hc, _ | ⟨_, _⟩⟩⟩⟩) he
  case cons.cons.cons.nil =>
    exact (Agree.number hM he ha).andThen fun x => (Agree.number hM he hb).andThen fun y =>
      .unifyInto hM he hc (hM.number _)
  all_goals exact .halt _

theorem tripleTest_keeps (name : String) (holds : Float → Float → Float → Bool) :
    (tripleTest name holds).Keeps T E W := by
  rintro bpm _ _ e e' (_ | ⟨ha, _ | ⟨hb, _ | ⟨hc, _ | ⟨_, _⟩⟩⟩⟩) he
  case cons.cons.cons.nil =>
    exact (Agree.number hM he ha).andThen fun x => (Agree.number hM he hb).andThen fun y =>
      (Agree.number hM he hc).andThen fun z => .succeedIf rfl he
  all_goals exact .halt _

theorem every_keeps : every.Keeps T E W := by
  rintro bpm _ _ e e' (_ | ⟨ha, _ | ⟨hb, _ | ⟨_, _⟩⟩⟩) he
  case cons.cons.nil =>
    exact (Agree.number hM he ha).andThen fun t => (Agree.number hM he hb).andThen fun s =>
      .ite (.refuse _ _) (.succeedIf rfl he)
  all_goals exact .halt _

theorem beat_keeps : beat.Keeps T E W := by
  rintro bpm _ _ e e' (_ | ⟨ha, _ | ⟨hb, _ | ⟨_, _⟩⟩⟩) he
  case cons.cons.nil =>
    exact (Agree.number hM he ha).andThen fun t => (Agree.number hM he hb).andThen fun n =>
      .succeedIf rfl he
  all_goals exact .halt _

theorem phase_keeps : phase.Keeps T E W := by
  rintro bpm _ _ e e' (_ | ⟨ha, _ | ⟨hb, _ | ⟨hc, _ | ⟨_, _⟩⟩⟩⟩) he
  case cons.cons.cons.nil =>
    exact (Agree.number hM he ha).andThen fun t => (Agree.number hM he hb).andThen fun n =>
      (Agree.number hM he hc).andThen fun k => .ite (.refuse _ _)
        ((Agree.machine_self _).andThen fun place => (Agree.machine_self _).andThen fun wanted =>
          .succeedIf rfl he)
  all_goals exact .halt _

theorem euclid_keeps : euclid.Keeps T E W := by
  rintro bpm _ _ e e'
    (_ | ⟨h₁, _ | ⟨h₂, _ | ⟨h₃, _ | ⟨h₄, _ | ⟨h₅, _ | ⟨_, _⟩⟩⟩⟩⟩⟩) he
  case cons.cons.cons.cons.cons.nil =>
    exact (Agree.number hM he h₁).andThen fun t => (Agree.number hM he h₂).andThen fun k =>
      (Agree.number hM he h₃).andThen fun n => (Agree.number hM he h₄).andThen fun b =>
      (Agree.number hM he h₅).andThen fun r => .ite (.pure trivial) (.ite (.refuse _ _)
        ((Agree.machine_self _).andThen fun s => (Agree.machine_self _).andThen fun strikes =>
          .succeedIf rfl he))
  all_goals exact .halt _

theorem scale_keeps : scale.Keeps T E W := by
  rintro bpm _ _ e e'
    (_ | ⟨h₁, _ | ⟨h₂, _ | ⟨h₃, _ | ⟨h₄, _ | ⟨h₅, _ | ⟨_, _⟩⟩⟩⟩⟩⟩) he
  case cons.cons.cons.cons.cons.nil =>
    refine (Agree.number hM he h₁).andThen fun root => (Agree.atom hM he h₂).andThen fun name =>
      (Agree.number hM he h₃).andThen fun degree => (Agree.number hM he h₄).andThen fun octave =>
      ?_
    split
    · exact .refuse _ _
    · exact (Agree.machine_self _).andThen fun pitch => .unifyInto hM he h₅ (hM.number _)
  all_goals exact .halt _

theorem chord_keeps : chord.Keeps T E W := by
  rintro bpm _ _ e e' (_ | ⟨h₁, _ | ⟨h₂, _ | ⟨h₃, _ | ⟨h₄, _ | ⟨_, _⟩⟩⟩⟩⟩) he
  case cons.cons.cons.cons.nil =>
    refine (Agree.number hM he h₁).andThen fun root => (Agree.atom hM he h₂).andThen fun name =>
      (Agree.number hM he h₃).andThen fun octave => ?_
    split
    · exact .refuse _ _
    · next intervals _ =>
        have hintervals : List.Forall₂ Eq intervals intervals := List.forall₂_eq_eq_eq ▸ rfl
        exact .forM hintervals fun i i' hi => hi ▸ .unifyInto hM he h₄ (hM.number _)
  all_goals exact .halt _

theorem choose_keeps : choose.Keeps T E W := by
  rintro bpm _ _ e e' (_ | ⟨ha, _ | ⟨hb, _ | ⟨_, _⟩⟩⟩) he
  case cons.cons.nil =>
    exact (Agree.properList hM he ha).bind fun items items' hitems =>
      .forM hitems fun a a' h => .unifyInto hM he hb h
  all_goals exact .halt _

theorem allDistinct_eq {items items' : List Term} (h : List.Forall₂ T items items') :
    allDistinct items = allDistinct items' := by
  induction h with
  | nil => rfl
  | @cons t t' rest rest' ht hrest ih =>
      have hany : rest.any (fun u => t.alike u) = rest'.any (fun u => t'.alike u) := by
        clear ih
        induction hrest with
        | nil => rfl
        | cons hu _ ih => simp only [List.any_cons, hM.alike ht hu, ih]
      simp only [allDistinct, hany, ih]

theorem distinct_keeps : distinct.Keeps T E W := by
  rintro bpm _ _ e e' (_ | ⟨ha, _ | ⟨_, _⟩⟩) he
  case cons.nil =>
    exact (Agree.properList hM he ha).bind fun items items' hitems =>
      .succeedIf (allDistinct_eq hM hitems) he
  all_goals exact .halt _

theorem rotation_keeps : rotation.Keeps T E W := by
  rintro bpm _ _ e e' (_ | ⟨ha, _ | ⟨hb, _ | ⟨hc, _ | ⟨_, _⟩⟩⟩⟩) he
  case cons.cons.cons.nil =>
    refine (Agree.properList hM he ha).bind fun items items' hitems => ?_
    rw [isEmpty_eq hitems]
    exact .ite (.pure trivial) ((Agree.number hM he hb).andThen fun s =>
      (Agree.machine (rotated_rel hitems _)).bind fun turned turned' hturned =>
        .unifyInto hM he hc (hM.list hturned))
  all_goals exact .halt _

theorem rangeFrom_agree (hW : Tells W) {e e' : Bindings} {out out' : Term} (he : E e e')
    (hout : T out out') (start step last : Float) (upward : Bool) (size : Float) (fuel i : Nat) :
    Agree W E (fun _ _ => True) (rangeFrom e out start step last upward size fuel i)
      (rangeFrom e' out' start step last upward size fuel i) := by
  induction fuel generalizing i with
  | zero => exact .ite (.pure trivial) (.tell hW _)
  | succ fuel ih =>
      exact .ite (.pure trivial)
        ((Agree.unifyInto hM he hout (hM.number _)).bind fun _ _ _ => ih (i + 1))

theorem range_keeps (hW : Tells W) : range.Keeps T E W := by
  rintro bpm _ _ e e' (_ | ⟨h₁, _ | ⟨h₂, _ | ⟨h₃, _ | ⟨h₄, _ | ⟨_, _⟩⟩⟩⟩⟩) he
  case cons.cons.cons.cons.nil =>
    exact (Agree.number hM he h₁).andThen fun start => (Agree.number hM he h₂).andThen fun last =>
      (Agree.number hM he h₃).andThen fun given => rangeFrom_agree hM hW he h₄ _ _ _ _ _ _ _
  all_goals exact .halt _

/-! ### Builtins that remember or draw -/

variable (hW : SeenAlike W)
include hW

/-- The runs of `cycle` agree where the texts of the lists are the same. -/
theorem cycle_agree (bpm : Float) {args args' : List Term} {e e' : Bindings}
    (hargs : List.Forall₂ T args args') (he : E e e')
    (htext : args.head?.map Term.text = args'.head?.map Term.text) :
    Agree W E (fun _ _ => True) (cycle.run bpm args e) (cycle.run bpm args' e') := by
  rcases hargs with _ | ⟨ha, _ | ⟨hb, _ | ⟨_, _⟩⟩⟩
  case cons.cons.nil =>
    refine (Agree.properList hM he ha).bind fun items items' hitems => ?_
    -- the counter goes by the text of the list
    rw [isEmpty_eq hitems, hitems.length_eq, Option.some.inj htext]
    exact .ite (.pure trivial) ((Agree.stepCounter hW _ _).andThen fun place =>
      (Agree.machine (getElem?_rel hitems _)).bind fun item item' hitem =>
        .unifyInto hM he hb hitem)
  all_goals exact .halt _

theorem cycle_keeps (hT : ∀ s t, T s t → s = t) : cycle.Keeps T E W := by
  intro bpm args args' e e' hargs he
  refine cycle_agree hM hW bpm hargs he ?_
  cases hargs with
  | nil => rfl
  | cons ha _ => rw [List.head?_cons, List.head?_cons, hT _ _ ha]

theorem probability_keeps : probability.Keeps T E W := by
  rintro bpm _ _ e e' (_ | ⟨ha, _ | ⟨_, _⟩⟩) he
  case cons.nil =>
    exact (Agree.number hM he ha).andThen fun p => (Agree.drawUnit hW).andThen fun x =>
      .succeedIf rfl he
  all_goals exact .halt _

theorem pick_keeps : pick.Keeps T E W := by
  rintro bpm _ _ e e' (_ | ⟨ha, _ | ⟨hb, _ | ⟨_, _⟩⟩⟩) he
  case cons.cons.nil =>
    refine (Agree.properList hM he ha).bind fun items items' hitems => ?_
    rw [isEmpty_eq hitems, hitems.length_eq]
    exact .ite (.pure trivial) ((Agree.drawBelow hW _).andThen fun place =>
      (Agree.machine (getElem?_rel hitems _)).bind fun item item' hitem =>
        .unifyInto hM he hb hitem)
  all_goals exact .halt _

theorem uniform_keeps : uniform.Keeps T E W := by
  rintro bpm _ _ e e' (_ | ⟨ha, _ | ⟨hb, _ | ⟨hc, _ | ⟨_, _⟩⟩⟩⟩) he
  case cons.cons.cons.nil =>
    exact (Agree.number hM he ha).andThen fun lo => (Agree.number hM he hb).andThen fun hi =>
      (Agree.drawUnit hW).andThen fun x => .unifyInto hM he hc (hM.number _)
  all_goals exact .halt _

theorem uniformWhole_keeps : uniformWhole.Keeps T E W := by
  rintro bpm _ _ e e' (_ | ⟨ha, _ | ⟨hb, _ | ⟨hc, _ | ⟨_, _⟩⟩⟩⟩) he
  case cons.cons.cons.nil =>
    exact (Agree.number hM he ha).andThen fun x => (Agree.number hM he hb).andThen fun y =>
      (Agree.machine_self _).andThen fun difference => (Agree.drawBelow hW _).andThen fun n =>
      (Agree.machine_self _).andThen fun value => .unifyInto hM he hc (hM.number _)
  all_goals exact .halt _

end Matching

end Builtin

/-! ### The standard table -/

variable {T : Term → Term → Prop} {E : Bindings → Bindings → Prop} {W : World → World → Prop}

/-- The builtins that remember or draw. -/
def Builtin.unsteady : List Builtin :=
  [.cycle, .pick, .probability, .uniform, .uniformWhole]

open Builtin in
/-- **The standard builtins keep every matching,** whatever the worlds are, but for those that
remember or draw. -/
theorem unsteady_or_keeps (hM : Matching T E) (hW : Body.Tells W) :
    ∀ b ∈ standard, b ∈ unsteady ∨ b.Keeps T E W := by
  have hcomparisons : ∀ b ∈ comparisons, b ∈ unsteady ∨ b.Keeps T E W := by
    simp only [comparisons, List.forall_mem_cons]
    exact ⟨.inr (comparison_keeps hM _ _), .inr (comparison_keeps hM _ _),
      .inr (comparison_keeps hM _ _), .inr (comparison_keeps hM _ _),
      .inr (comparison_keeps hM _ _), .inr (comparison_keeps hM _ _),
      .inr (comparison_keeps hM _ _), .inr (comparison_keeps hM _ _),
      .inr (comparison_keeps hM _ _), .inr (comparison_keeps hM _ _), by simp⟩
  have hunsteady : ∀ b ∈ unsteady, b ∈ unsteady ∨ b.Keeps T E W := fun b hb => .inl hb
  simp only [unsteady, List.forall_mem_cons] at hunsteady
  obtain ⟨hcycle, hpick, hprobability, huniform, huniformWhole, -⟩ := hunsteady
  simp only [standard, List.forall_mem_append, List.forall_mem_cons]
  exact ⟨⟨⟨.inr (equal_keeps hM), .inr (unification_keeps hM), .inr (evaluation_keeps hM), by simp⟩,
    hcomparisons⟩, .inr (sum_keeps hM _), .inr (tripleTest_keeps hM _ _),
    .inr (tripleTest_keeps hM _ _),
    .inr (distinct_keeps hM), .inr (every_keeps hM), .inr (beat_keeps hM), .inr (phase_keeps hM),
    .inr (euclid_keeps hM), .inr (scale_keeps hM), .inr (chord_keeps hM),
    .inr (sum_keeps hM _), .inr (choose_keeps hM), hcycle, .inr (rotation_keeps hM),
    .inr (range_keeps hM hW), hpick, hprobability, huniform, huniformWhole, by simp⟩

open Builtin in
/-- **All standard builtins but `cycle` keep every matching**, in worlds that they cannot tell
apart. -/
theorem eq_cycle_or_keeps (hM : Matching T E) (hW : Body.SeenAlike W) :
    ∀ b ∈ standard, b = cycle ∨ b.Keeps T E W := by
  have hunsteady : ∀ b ∈ unsteady, b = cycle ∨ b.Keeps T E W := by
    simp only [unsteady, List.forall_mem_cons]
    exact ⟨.inl trivial, .inr (pick_keeps hM hW), .inr (probability_keeps hM hW),
      .inr (uniform_keeps hM hW), .inr (uniformWhole_keeps hM hW), by simp⟩
  exact fun b hb => (unsteady_or_keeps hM hW.tells b hb).elim (hunsteady b) .inr

open Builtin in
/-- **All standard builtins keep a matching of a term with itself,** in worlds that they cannot tell
apart. -/
theorem keeps_of_mem_standard (hM : Matching T E) (hW : Body.SeenAlike W)
    (hT : ∀ s t, T s t → s = t) : ∀ b ∈ standard, b.Keeps T E W := by
  rintro b hb
  obtain rfl | hkeeps := eq_cycle_or_keeps hM hW b hb
  · exact cycle_keeps hM hW hT
  · exact hkeeps

/-! ### Calls -/

/-- Two builtins end alike: at their end, with a refusal each, or with one cause. -/
inductive StopsAlike : Option Stop → Option Stop → Prop where
  | ended : StopsAlike none none
  | refused {error error' : ArgumentError} :
      StopsAlike (some (.refused error)) (some (.refused error'))
  | halted {cause : Halt} : StopsAlike (some (.halted cause)) (some (.halted cause))

/-- Two calls, the runs of which agree, have related solutions, end alike, and leave related
worlds. -/
theorem Builtin.call_agree {b b' : Builtin} {bpm : Float} {args args' : List Term}
    {e e' : Bindings}
    (h : Body.Agree W E (fun _ _ => True) (b.run bpm args e) (b'.run bpm args' e')) {w w' : World}
    (hw : W w w') :
    List.Forall₂ E (b.call bpm args e w).solutions (b'.call bpm args' e' w').solutions ∧
      StopsAlike (b.call bpm args e w).stop (b'.call bpm args' e' w').stop ∧
        W (b.call bpm args e w).world (b'.call bpm args' e' w').world := by
  obtain ⟨hends, hworld, hpushed⟩ := h ⟨w, []⟩ ⟨w', []⟩ hw .nil
  simp only [Builtin.call]
  generalize b.run bpm args e ⟨w, []⟩ = r at hends hworld hpushed
  generalize b'.run bpm args' e' ⟨w', []⟩ = r' at hends hworld hpushed
  obtain ⟨result, s⟩ := r
  obtain ⟨result', s'⟩ := r'
  refine ⟨List.rel_reverse hpushed, ?_, hworld⟩
  cases hends with
  | ok => exact .ended
  | refused => exact .refused
  | halted => exact .halted

/-- **A call with related arguments** has related solutions, and ends alike. -/
theorem Builtin.Keeps.call {b : Builtin} (h : b.Keeps T E W) {args args' : List Term}
    {e e' : Bindings} (bpm : Float) (hargs : List.Forall₂ T args args') (he : E e e')
    (w w' : World) (hw : W w w') :
    List.Forall₂ E (b.call bpm args e w).solutions (b.call bpm args' e' w').solutions ∧
      StopsAlike (b.call bpm args e w).stop (b.call bpm args' e' w').stop := by
  obtain ⟨hsolutions, hstop, -⟩ := call_agree (h bpm args args' e e' hargs he) hw
  exact ⟨hsolutions, hstop⟩

end RhythmLogic
