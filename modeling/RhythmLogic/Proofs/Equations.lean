/-
**Unification as a run of equations.**

A unification works off a row of equations from left to right.  An equation between two terms is
read through the bindings that have been found so far; it binds a free variable, or it is replaced
by the equations between the children, or it clashes.  The relation `Solves` says this once, with
one constructor for each thing that can happen to the first equation, so that what a unification
preserves is an induction over it.

Main definitions:

* `Equation` — two terms that are to stand for the same;
* `Term.equations?` — the equations that two terms with a shape come down to;
* `runEquations` — equations worked off with a given unification of terms;
* `Solves` — **what working off a row of equations comes to**: bindings, or a clash.

Main results:

* `unifyShapes_eq_run` — two terms with a shape are unified by working off their equations;
* `solves_of_unifyF` — whatever a unification answers, at any depth, is what its equation comes to;
* `unifyF_mono` — more depth keeps every answer.
-/

import RhythmLogic.Unification
import RhythmLogic.Proofs.Walks

set_option autoImplicit false

namespace RhythmLogic

open Bindings

/-! ### The equations between children -/

/-- Two terms that are to stand for the same. -/
abbrev Equation : Type := Term × Term

/-- The equation between what two lists have left after their common length, of whose items at most
one list has any.  Without a tail to take them, items that are left clash. -/
def endEquations? (as : List Term) (s : Option Term) (bs : List Term) (t : Option Term) :
    Option (List Equation) :=
  match as, bs with
  | [], [] =>
      match s, t with
      | none, none => some []
      | some s, some t => some [(s, t)]
      | some s, none => some [(s, .list [])]
      | none, some t => some [(.list [], t)]
  | [], b :: bs => s.map fun s => [(s, Term.listOf (b :: bs) t)]
  | a :: as, _ => t.map fun t => [(Term.listOf (a :: as) s, t)]

/-- The equations between two lists. -/
def listEquations? (as : List Term) (s : Option Term) (bs : List Term) (t : Option Term) :
    Option (List Equation) :=
  (endEquations? (as.drop bs.length) s (bs.drop as.length) t).map fun ends => as.zip bs ++ ends

/-- Two lists have equations if the one that has no tail, or either one, is not the shorter one. -/
theorem exists_listEquations? {as bs : List Term} {s t : Option Term}
    (hs : s = none → bs.length ≤ as.length) (ht : t = none → as.length ≤ bs.length) :
    ∃ eqs, listEquations? as s bs t = some eqs := by
  rw [← Option.isSome_iff_exists, listEquations?, Option.isSome_map]
  cases hA : as.drop bs.length with
  | nil =>
      cases hB : bs.drop as.length with
      | nil => cases s <;> cases t <;> rfl
      | cons b rest =>
          cases s with
          | some s => rfl
          | none => simp [List.drop_eq_nil_of_le (hs rfl)] at hB
  | cons a rest =>
      cases t with
      | some t => rfl
      | none => simp [List.drop_eq_nil_of_le (ht rfl)] at hA

/-- **The equations that two terms with a shape come down to,** if they do not clash. -/
def Term.equations? : Term → Term → Option (List Equation)
  | .number x, .number y => if closeEnough x y then some [] else none
  | .atom x, .atom y => if x == y then some [] else none
  | .list as, .list bs => listEquations? as none bs none
  | .list as, .partialList bs t => listEquations? as none bs (some t)
  | .partialList as s, .list bs => listEquations? as (some s) bs none
  | .partialList as s, .partialList bs t => listEquations? as (some s) bs (some t)
  | .expr o l r, .expr p m s => if o == p then some [(l, m), (r, s)] else none
  | .compound f as, .compound g bs =>
      if f == g && as.length == bs.length then some (as.zip bs) else none
  | _, _ => none

/-- **`Splits s t eqs` says that two terms with a shape come down to the equations `eqs`.**  What
one list has left after the items that both have goes to the tail of the other one. -/
inductive Splits : Term → Term → List Equation → Prop where
  | number {x y : Float} : closeEnough x y = true → Splits (.number x) (.number y) []
  | atom {name : String} : Splits (.atom name) (.atom name) []
  | compound {f : String} {as bs : List Term} : as.length = bs.length →
      Splits (.compound f as) (.compound f bs) (as.zip bs)
  | expr {op : Op} {l r l' r' : Term} :
      Splits (.expr op l r) (.expr op l' r') [(l, l'), (r, r')]
  | lists {as bs : List Term} : as.length = bs.length →
      Splits (.list as) (.list bs) (as.zip bs)
  | tails {as bs : List Term} {s t : Term} : as.length = bs.length →
      Splits (.partialList as s) (.partialList bs t) (as.zip bs ++ [(s, t)])
  | leftTail {as bs rest : List Term} {s : Term} {t : Option Term} : as.length = bs.length →
      (rest ≠ [] ∨ t = none) →
      Splits (.partialList as s) (Term.listOf (bs ++ rest) t)
        (as.zip bs ++ [(s, Term.listOf rest t)])
  | rightTail {as bs rest : List Term} {s : Option Term} {t : Term} : as.length = bs.length →
      (rest ≠ [] ∨ s = none) →
      Splits (Term.listOf (as ++ rest) s) (.partialList bs t)
        (as.zip bs ++ [(Term.listOf rest s, t)])

/-- A row is the part that is as long as another row, and the rest. -/
theorem exists_append_of_drop {as bs rest : List Term} (h : bs.drop as.length = rest)
    (hlen : as.length ≤ bs.length) :
    ∃ first, bs = first ++ rest ∧ as.length = first.length ∧ as.zip bs = as.zip first ∧
      bs.zip as = first.zip as := by
  have hbs : bs = bs.take as.length ++ rest := by rw [← h, List.take_append_drop]
  have hfirst : as.length = (bs.take as.length).length := by simp [hlen]
  refine ⟨bs.take as.length, hbs, hfirst, ?_, ?_⟩
  · have hzip : (as ++ []).zip (bs.take as.length ++ rest) = _ := List.zip_append hfirst
    rwa [← hbs, List.append_nil, List.zip_nil_left, List.append_nil] at hzip
  · have hzip : (bs.take as.length ++ rest).zip (as ++ []) = _ := List.zip_append hfirst.symm
    rwa [← hbs, List.append_nil, List.zip_nil_right, List.append_nil] at hzip

/-- The equations between two lists are one of the four cases. -/
theorem splits_of_listEquations? {as bs : List Term} {s t : Option Term} {eqs : List Equation}
    (h : listEquations? as s bs t = some eqs) :
    Splits (Term.listOf as s) (Term.listOf bs t) eqs := by
  obtain ⟨ends, hends, rfl⟩ := Option.map_eq_some_iff.1 h
  -- the cases are: lists of one length, with four pairs of ends; a longer right list; a longer left
  cases hA : as.drop bs.length with
  | nil =>
      have hle : as.length ≤ bs.length := List.drop_eq_nil_iff.1 hA
      cases hB : bs.drop as.length with
      | nil =>
          have hlen : as.length = bs.length := Nat.le_antisymm hle (List.drop_eq_nil_iff.1 hB)
          rw [hA, hB] at hends
          rcases s with _ | s <;> rcases t with _ | t <;> cases hends
          · rw [List.append_nil]
            exact .lists hlen
          · have h : Splits (Term.listOf (as ++ []) none) (.partialList bs t) _ :=
              .rightTail hlen (.inr rfl)
            rwa [List.append_nil] at h
          · have h : Splits (.partialList as s) (Term.listOf (bs ++ []) none) _ :=
              .leftTail hlen (.inr rfl)
            rwa [List.append_nil] at h
          · exact .tails hlen
      | cons b rest =>
          obtain ⟨first, rfl, hlen, hzip, -⟩ := exists_append_of_drop hB hle
          rw [hA, hB] at hends
          obtain ⟨s, rfl, rfl⟩ := Option.map_eq_some_iff.1 hends
          rw [hzip]
          exact .leftTail hlen (.inl (List.cons_ne_nil b rest))
  | cons a rest =>
      have hle : bs.length ≤ as.length := by
        have := congrArg List.length hA
        simp only [List.length_drop, List.length_cons] at this
        omega
      obtain ⟨first, rfl, hlen, -, hzip⟩ := exists_append_of_drop hA hle
      rw [hA] at hends
      obtain ⟨t, rfl, rfl⟩ := Option.map_eq_some_iff.1 hends
      rw [hzip]
      exact .rightTail hlen.symm (.inl (List.cons_ne_nil a rest))

/-- The equations that are computed are what two terms come down to. -/
theorem splits_of_equations? {s t : Term} {eqs : List Equation} (h : s.equations? t = some eqs) :
    Splits s t eqs := by
  cases s <;> cases t <;> simp only [Term.equations?, reduceCtorEq] at h
  case list.list | list.partialList | partialList.list | partialList.partialList =>
    exact splits_of_listEquations? h
  all_goals
    split at h
    · next htest =>
        cases h
        first
        | exact .number htest
        | (obtain rfl := eq_of_beq htest; constructor)
        | (simp only [beq_iff_eq, Bool.and_eq_true] at htest
           obtain ⟨rfl, hlen⟩ := htest
           exact .compound hlen)
    · cases h

/-! ### Working off equations in order -/

variable {step : Term → Term → Bindings → Unified}

/-- Works off equations from left to right, with `step` for each of them. -/
def runEquations (step : Term → Term → Bindings → Unified) : List Equation → Bindings → Unified
  | [], e => .solved e
  | p :: rest, e => (step p.1 p.2 e).andThen (runEquations step rest)

@[simp] theorem runEquations_nil (e : Bindings) : runEquations step [] e = .solved e := rfl

theorem runEquations_cons (s t : Term) (rest : List Equation) (e : Bindings) :
    runEquations step ((s, t) :: rest) e = (step s t e).andThen (runEquations step rest) := rfl

@[simp] theorem andThen_solved (u : Unified) : u.andThen .solved = u := by
  rcases u with h | e | e <;> rfl

theorem andThen_assoc (u : Unified) (f g : Bindings → Unified) :
    (u.andThen f).andThen g = u.andThen fun e => (f e).andThen g := by
  rcases u with h | e | e <;> rfl

theorem eq_none_of_andThen_clash {u : Unified} {r : Option Bindings}
    (h : u.andThen (fun _ => .clash) = .ok r) : r = none := by
  rcases u with c | e | e <;> cases h <;> rfl

theorem runEquations_append (eqs rest : List Equation) (e : Bindings) :
    runEquations step (eqs ++ rest) e =
      (runEquations step eqs e).andThen (runEquations step rest) := by
  induction eqs generalizing e with
  | nil => rfl
  | cons p eqs ih =>
      have hrest : runEquations step (eqs ++ rest) =
          fun e => (runEquations step eqs e).andThen (runEquations step rest) := funext ih
      rw [List.cons_append, runEquations_cons, hrest, ← andThen_assoc, ← runEquations_cons]

theorem unifyZip_eq_run (as bs : List Term) (e : Bindings) :
    unifyZip step as bs e = runEquations step (as.zip bs) e := by
  induction as generalizing bs e with
  | nil => rfl
  | cons a as ih =>
      cases bs with
      | nil => rfl
      | cons b bs =>
          have hrest : unifyZip step as bs = runEquations step (as.zip bs) := funext (ih bs)
          rw [unifyZip, hrest, List.zip_cons_cons, runEquations_cons]

/-- What is left of two lists is unified by working off its equation, and clashes without one. -/
theorem unifyEnds_eq_run (as : List Term) (s : Option Term) (bs : List Term) (t : Option Term)
    (e : Bindings) :
    unifyEnds step as s bs t e =
      (endEquations? as s bs t).elim .clash fun ends => runEquations step ends e := by
  rcases as with _ | ⟨a, as⟩ <;> rcases bs with _ | ⟨b, bs⟩ <;> rcases s with _ | s <;>
    rcases t with _ | t <;>
    simp [unifyEnds, endEquations?, runEquations_cons, funext runEquations_nil]

theorem unifyLists_eq_run {as bs : List Term} {s t : Option Term} {eqs : List Equation}
    (h : listEquations? as s bs t = some eqs) (e : Bindings) :
    unifyLists step as s bs t e = runEquations step eqs e := by
  obtain ⟨ends, hends, rfl⟩ := Option.map_eq_some_iff.1 h
  have hfun : unifyEnds step (as.drop bs.length) s (bs.drop as.length) t =
      runEquations step ends := by
    funext e
    rw [unifyEnds_eq_run, hends]
    rfl
  rw [unifyLists, hfun, unifyZip_eq_run, runEquations_append]

/-- Lists without equations clash, once the items that both have are unified. -/
theorem unifyLists_eq_clash {as bs : List Term} {s t : Option Term}
    (h : listEquations? as s bs t = none) (e : Bindings) :
    unifyLists step as s bs t e = (runEquations step (as.zip bs) e).andThen fun _ => .clash := by
  have hends := Option.map_eq_none_iff.1 h
  have hfun : unifyEnds step (as.drop bs.length) s (bs.drop as.length) t =
      fun _ => Unified.clash := by
    funext e
    rw [unifyEnds_eq_run, hends]
    rfl
  rw [unifyLists, hfun, unifyZip_eq_run]

/-- **Two terms with a shape are unified by working off their equations.** -/
theorem unifyShapes_eq_run {s t : Term} {eqs : List Equation} (h : s.equations? t = some eqs)
    (e : Bindings) : unifyShapes step s t e = runEquations step eqs e := by
  cases s <;> cases t <;> simp only [Term.equations?, reduceCtorEq] at h <;>
    simp only [unifyShapes]
  case list.list | list.partialList | partialList.list | partialList.partialList =>
    exact unifyLists_eq_run h e
  case compound.compound f as g bs =>
    split at h
    · next htest =>
        cases h
        rw [if_pos htest, unifyZip_eq_run]
    · cases h
  case expr.expr o l r p m s =>
    split at h
    · next htest =>
        cases h
        rw [if_pos htest, runEquations_cons]
        -- the last equation is run for its answer, with nothing after it
        have hlast : step r s = runEquations step [(r, s)] := by
          funext e
          rw [runEquations_cons, funext runEquations_nil, andThen_solved]
        rw [hlast]
    · cases h
  all_goals
    split at h
    · next htest =>
        cases h
        rw [if_pos htest, runEquations_nil]
    · cases h

/-- Two terms with a shape but without equations clash; two lists do so after their items. -/
theorem unifyShapes_eq_clash {s t : Term} (hs : s.isVar = false) (ht : t.isVar = false)
    (h : s.equations? t = none) (e : Bindings) :
    unifyShapes step s t e = .clash ∨ ∃ as x bs y, s = Term.listOf as x ∧ t = Term.listOf bs y ∧
      unifyShapes step s t e = (runEquations step (as.zip bs) e).andThen fun _ => .clash := by
  cases s <;> cases t <;> simp only [Term.equations?, Term.isVar, reduceCtorEq] at h hs ht
  case list.list as bs =>
    exact .inr ⟨as, none, bs, none, rfl, rfl, unifyLists_eq_clash h e⟩
  case list.partialList as bs t =>
    exact .inr ⟨as, none, bs, some t, rfl, rfl, unifyLists_eq_clash h e⟩
  case partialList.list as s bs =>
    exact .inr ⟨as, some s, bs, none, rfl, rfl, unifyLists_eq_clash h e⟩
  case partialList.partialList as s bs t =>
    exact .inr ⟨as, some s, bs, some t, rfl, rfl, unifyLists_eq_clash h e⟩
  all_goals
    refine .inl ?_
    simp only [unifyShapes]
    try
      split at h
      · cases h
      · next htest => rw [if_neg htest]

/-- Two terms with a shape but without equations clash, if their unification ends at all. -/
theorem unifyShapes_clash {s t : Term} {e : Bindings} {r : Option Bindings}
    (hs : s.isVar = false) (ht : t.isVar = false) (h : s.equations? t = none)
    (hr : unifyShapes step s t e = .ok r) : r = none := by
  obtain heq | ⟨_, _, _, _, -, -, heq⟩ := unifyShapes_eq_clash hs ht h e <;> rw [heq] at hr
  · exact (Except.ok.inj hr).symm
  · exact eq_none_of_andThen_clash hr

/-- A free variable is bound to the other side, unless the other side is the variable itself. -/
theorem unifyShapes_var_left {x : String} {t : Term} (h : t ≠ .var x) (e : Bindings) :
    unifyShapes step (.var x) t e = .solved (e.bind x t) := by
  cases t with
  | var y =>
      have hne : (x == y) = false := by
        simpa using fun hxy => h (congrArg Term.var hxy.symm)
      simp [unifyShapes, hne]
  | _ => rfl

theorem unifyShapes_var_self (x : String) (e : Bindings) :
    unifyShapes step (.var x) (.var x) e = .solved e := by
  simp [unifyShapes]

theorem unifyShapes_var_right {s : Term} (h : s.isVar = false) (y : String) (e : Bindings) :
    unifyShapes step s (.var y) e = .solved (e.bind y s) := by
  cases s <;> first | rfl | simp [Term.isVar] at h

/-! ### What working off equations comes to -/

/-- **`Solves eqs e r` says what working off the equations from `e` comes to**: `r` holds the
bindings that were found, or nothing if an equation clashes. -/
inductive Solves : List Equation → Bindings → Option Bindings → Prop where
  | done {e : Bindings} : Solves [] e (some e)
  /-- Both sides are one free variable. -/
  | same {s t : Term} {x : String} {rest : List Equation} {e : Bindings} {r : Option Bindings} :
      e.Settles s (.var x) → e.Settles t (.var x) → Solves rest e r → Solves ((s, t) :: rest) e r
  /-- The left side is a free variable, and becomes the right side. -/
  | bindLeft {s t u : Term} {x : String} {rest : List Equation} {e : Bindings}
      {r : Option Bindings} :
      e.Settles s (.var x) → e.Settles t u → u ≠ .var x → Solves rest (e.bind x u) r →
      Solves ((s, t) :: rest) e r
  /-- The right side alone is a free variable, and becomes the left side. -/
  | bindRight {s t u : Term} {y : String} {rest : List Equation} {e : Bindings}
      {r : Option Bindings} :
      e.Settles s u → u.isVar = false → e.Settles t (.var y) → Solves rest (e.bind y u) r →
      Solves ((s, t) :: rest) e r
  /-- Both sides have a shape, and come down to equations between their children. -/
  | split {s t u v : Term} {eqs rest : List Equation} {e : Bindings} {r : Option Bindings} :
      e.Settles s u → e.Settles t v → Splits u v eqs → Solves (eqs ++ rest) e r →
      Solves ((s, t) :: rest) e r
  /-- Both sides have a shape, and clash. -/
  | clash {s t u v : Term} {rest : List Equation} {e : Bindings} :
      e.Settles s u → e.Settles t v → u.isVar = false → v.isVar = false →
      u.equations? v = none → Solves ((s, t) :: rest) e none

/-- Going on with `rest` from the answer `r₁` comes to `r`. -/
def Resumes (rest : List Equation) : Option Bindings → Option Bindings → Prop
  | none, r => r = none
  | some e, r => Solves rest e r

/-- If `step` answers what its equation comes to, so does a run of it. -/
theorem solves_of_runEquations
    (hstep : ∀ s t e r₁, step s t e = .ok r₁ → ∀ rest r, Resumes rest r₁ r →
      Solves ((s, t) :: rest) e r)
    {eqs : List Equation} {e : Bindings} {r₁ : Option Bindings}
    (h : runEquations step eqs e = .ok r₁) {rest : List Equation} {r : Option Bindings}
    (hr : Resumes rest r₁ r) : Solves (eqs ++ rest) e r := by
  induction eqs generalizing e with
  | nil =>
      cases h
      exact hr
  | cons p eqs ih =>
      obtain ⟨s, t⟩ := p
      rw [runEquations_cons] at h
      rcases hst : step s t e with c | _ | e₁ <;> rw [hst] at h
      · cases h
      · -- a clash ends the row, whatever equations are left
        cases h
        exact hstep s t e none hst _ _ hr
      · exact hstep s t e (some e₁) hst (eqs ++ rest) r (ih h)

/-- Whatever a unification answers, followed by what the remaining equations come to. -/
theorem solves_cons_of_unifyF (depth : Nat) : ∀ s t e r₁, unifyF depth s t e = .ok r₁ →
    ∀ rest r, Resumes rest r₁ r → Solves ((s, t) :: rest) e r := by
  induction depth with
  | zero =>
      intro s t e r₁ h
      cases h
  | succ depth ih =>
      intro s t e r₁ h rest r hr
      simp only [unifyF] at h
      split at h
      · cases h
      next hend =>
      rw [Bool.or_eq_true, not_or, Bool.not_eq_true, Bool.not_eq_true] at hend
      have hs : e.Settles s (e.walk s) := settles_walk hend.1
      have ht : e.Settles t (e.walk t) := settles_walk hend.2
      generalize e.walk s = u at h hs
      generalize e.walk t = v at h ht
      -- the sides are a variable on the left, a variable on the right only, or two shapes
      by_cases hu : ∃ x, u = .var x
      · obtain ⟨x, rfl⟩ := hu
        by_cases hv : v = .var x
        · subst hv
          rw [unifyShapes_var_self] at h
          cases h
          exact .same hs ht hr
        · rw [unifyShapes_var_left hv] at h
          cases h
          exact .bindLeft hs ht hv hr
      have hu' : u.isVar = false := by
        cases u <;> first | rfl | exact absurd ⟨_, rfl⟩ hu
      by_cases hv : ∃ y, v = .var y
      · obtain ⟨y, rfl⟩ := hv
        rw [unifyShapes_var_right hu'] at h
        cases h
        exact .bindRight hs hu' ht hr
      have hv' : v.isVar = false := by
        cases v <;> first | rfl | exact absurd ⟨_, rfl⟩ hv
      cases heqs : u.equations? v with
      | some eqs =>
          rw [unifyShapes_eq_run heqs] at h
          exact .split hs ht (splits_of_equations? heqs) (solves_of_runEquations ih h hr)
      | none =>
          obtain rfl := unifyShapes_clash hu' hv' heqs h
          obtain rfl : r = none := hr
          exact .clash hs ht hu' hv' heqs

/-- **Whatever a unification answers, at any depth, is what its equation comes to.** -/
theorem solves_of_unifyF {depth : Nat} {s t : Term} {e : Bindings} {r : Option Bindings}
    (h : unifyF depth s t e = .ok r) : Solves [(s, t)] e r := by
  refine solves_cons_of_unifyF depth s t e r h [] r ?_
  cases r with
  | none => rfl
  | some e' => exact .done

/-! ### What a unification keeps -/

/-- A property of terms that their children have, and what a list has left of its items. -/
structure Hereditary (D : Term → Prop) : Prop where
  arg : ∀ {f args}, D (.compound f args) → ∀ a ∈ args, D a
  side : ∀ {op l r}, D (.expr op l r) → D l ∧ D r
  item : ∀ items tail, D (Term.listOf items tail) → ∀ a ∈ items, D a
  tail : ∀ {items tail}, D (.partialList items tail) → D tail
  /-- Items that are left, or the empty list. -/
  rest : ∀ {items rest tail}, D (Term.listOf (items ++ rest) tail) → rest ≠ [] ∨ tail = none →
    D (Term.listOf rest tail)

/-- Both sides of all equations have a property. -/
def EquationsIn (D : Term → Prop) (eqs : List Equation) : Prop := ∀ p ∈ eqs, D p.1 ∧ D p.2

section Hereditary

variable {D P : Term → Prop}

@[simp] theorem equationsIn_nil : EquationsIn D [] := by simp [EquationsIn]

@[simp] theorem equationsIn_cons {s t : Term} {eqs : List Equation} :
    EquationsIn D ((s, t) :: eqs) ↔ (D s ∧ D t) ∧ EquationsIn D eqs := by
  simp [EquationsIn]

@[simp] theorem equationsIn_append {eqs eqs' : List Equation} :
    EquationsIn D (eqs ++ eqs') ↔ EquationsIn D eqs ∧ EquationsIn D eqs' := by
  simp only [EquationsIn, List.mem_append]
  exact ⟨fun h => ⟨fun p hp => h p (.inl hp), fun p hp => h p (.inr hp)⟩,
    fun h p hp => hp.elim (h.1 p) (h.2 p)⟩

theorem equationsIn_zip {as bs : List Term} (ha : ∀ a ∈ as, D a) (hb : ∀ b ∈ bs, D b) :
    EquationsIn D (as.zip bs) := fun _ hp =>
  ⟨ha _ (List.of_mem_zip hp).1, hb _ (List.of_mem_zip hp).2⟩

/-- A hereditary property of two terms is one of all terms in their equations. -/
theorem Splits.equationsIn (hD : Hereditary D) {s t : Term} {eqs : List Equation}
    (h : Splits s t eqs) (hs : D s) (ht : D t) : EquationsIn D eqs := by
  cases h with
  | number | atom => simp
  | compound _ => exact equationsIn_zip (hD.arg hs) (hD.arg ht)
  | expr => simp [hD.side hs, hD.side ht]
  | @lists as bs _ =>
      exact equationsIn_zip (hD.item as none hs) (hD.item bs none ht)
  | @tails as bs s t _ =>
      have hitems := equationsIn_zip (hD.item as (some s) hs) (hD.item bs (some t) ht)
      simp [hitems, hD.tail hs, hD.tail ht]
  | @leftTail as bs rest s t _ hrest =>
      have hb : ∀ b ∈ bs, D b := fun b hb => hD.item _ t ht b (List.mem_append_left rest hb)
      simp [equationsIn_zip (hD.item as (some s) hs) hb, hD.tail hs, hD.rest ht hrest]
  | @rightTail as bs rest s t _ hrest =>
      have ha : ∀ a ∈ as, D a := fun a ha => hD.item _ s hs a (List.mem_append_left rest ha)
      simp [equationsIn_zip ha (hD.item bs (some t) ht), hD.tail ht, hD.rest hs hrest]

/-- A property of parts that lists have, whatever their items and their tail, as long as a list
with a tail has an item.  Those are the lists that a unification makes itself. -/
structure Stable (P : Term → Prop) : Prop where
  nil : P (.list [])
  cons : ∀ a items tail, P (Term.listOf (a :: items) tail)

/-- To have a stable property everywhere is hereditary. -/
theorem Stable.hereditary (hP : Stable P) : Hereditary (Term.Everywhere P) where
  arg h := (Term.everywhere_compound.1 h).2
  side h := (Term.everywhere_expr.1 h).2
  item _ _ h := (Term.everywhere_listOf.1 h).2.1
  tail h := (Term.everywhere_partialList.1 h).2.2
  rest := by
    intro items rest tail h hrest
    obtain ⟨-, hitems, htail⟩ := Term.everywhere_listOf.1 h
    refine Term.everywhere_listOf.2 ⟨?_, fun a ha => hitems a (List.mem_append_right _ ha), htail⟩
    cases rest with
    | nil =>
        rcases hrest with hrest | rfl
        · exact absurd rfl hrest
        · exact hP.nil
    | cons a rest => exact hP.cons a rest tail

/-- **A unification makes no new parts,** but for lists. -/
theorem Solves.everywhere {eqs : List Equation} {e e' : Bindings} {r : Option Bindings}
    (h : Solves eqs e r) (hr : r = some e') (hP : Stable P)
    (heqs : EquationsIn (Term.Everywhere P) eqs) (he : e.Everywhere P) : e'.Everywhere P := by
  induction h with
  | done =>
      cases hr
      exact he
  | same _ _ _ ih => exact ih hr (equationsIn_cons.1 heqs).2 he
  | bindLeft hs ht _ _ ih =>
      obtain ⟨⟨hsP, htP⟩, hrest⟩ := equationsIn_cons.1 heqs
      exact ih hr hrest (he.bind (hs.everywhere he hsP).self (ht.everywhere he htP))
  | bindRight hs _ ht _ ih =>
      obtain ⟨⟨hsP, htP⟩, hrest⟩ := equationsIn_cons.1 heqs
      exact ih hr hrest (he.bind (ht.everywhere he htP).self (hs.everywhere he hsP))
  | split hs ht hsplit _ ih =>
      obtain ⟨⟨hsP, htP⟩, hrest⟩ := equationsIn_cons.1 heqs
      have hchildren :=
        hsplit.equationsIn hP.hereditary (hs.everywhere he hsP) (ht.everywhere he htP)
      exact ih hr (equationsIn_append.2 ⟨hchildren, hrest⟩) he
  | clash => cases hr

end Hereditary

/-- The variable at which a walk ends is free. -/
theorem Bindings.Settles.free {e : Bindings} {t : Term} {x : String} (h : e.Settles t (.var x)) :
    e.get? x = none := by
  obtain ⟨_, _, h⟩ := h
  exact isBound_var_eq_false.1 h

theorem Bindings.Settles.isBound {e : Bindings} {t u : Term} (h : e.Settles t u) :
    e.isBound u = false := h.choose_spec.2

/-- Two terms are unified as what they stand for. -/
theorem unifyF_of_settles {e : Bindings} {s t u v : Term} (hs : e.Settles s u)
    (ht : e.Settles t v) (depth : Nat) :
    unifyF (depth + 1) s t e = unifyShapes (unifyF depth) u v e := by
  simp only [unifyF, hs.walk_eq, ht.walk_eq, hs.isBound, ht.isBound, Bool.or_self,
    Bool.false_eq_true, if_false]

/-- **A unification only binds names that are free.** -/
theorem Solves.le {eqs : List Equation} {e e' : Bindings} {r : Option Bindings}
    (h : Solves eqs e r) (hr : r = some e') : e ≤ e' := by
  induction h with
  | done =>
      cases hr
      exact Bindings.le_refl _
  | same _ _ _ ih => exact ih hr
  | bindLeft hs _ _ _ ih => exact Bindings.le_trans (le_bind hs.free _) (ih hr)
  | bindRight _ _ ht _ ih => exact Bindings.le_trans (le_bind ht.free _) (ih hr)
  | split _ _ _ _ ih => exact ih hr
  | clash => cases hr

/-- **A unification makes no circle of variables,** whatever terms it is given. -/
theorem Solves.walksEnd {eqs : List Equation} {e e' : Bindings} {r : Option Bindings}
    (h : Solves eqs e r) (hr : r = some e') (he : e.WalksEnd) : e'.WalksEnd := by
  induction h with
  | done =>
      cases hr
      exact he
  | same _ _ _ ih => exact ih hr he
  | bindLeft hs ht hne _ ih => exact ih hr (he.bind hs.free ht.isBound hne)
  | bindRight hs hu ht _ ih =>
      -- the left side has a shape, so it is not the variable itself
      refine ih hr (he.bind ht.free hs.isBound ?_)
      rintro rfl
      cases hu
  | split _ _ _ _ ih => exact ih hr he
  | clash => cases hr

/-! ### More depth -/

/-- `step'` gives every answer that `step` gives. -/
def Refines (step' step : Term → Term → Bindings → Unified) : Prop :=
  ∀ s t e r, step s t e = .ok r → step' s t e = .ok r

variable {step' : Term → Term → Bindings → Unified}

theorem andThen_refines {u u' : Unified} {f f' : Bindings → Unified} {r : Option Bindings}
    (hu : ∀ r, u = .ok r → u' = .ok r) (hf : ∀ e r, f e = .ok r → f' e = .ok r)
    (h : u.andThen f = .ok r) : u'.andThen f' = .ok r := by
  rcases u with c | _ | e
  · cases h
  · rw [hu none rfl]
    exact h
  · rw [hu (some e) rfl]
    exact hf e r h

theorem unifyZip_refines (hstep : Refines step' step) {as bs : List Term} {e : Bindings}
    {r : Option Bindings} (h : unifyZip step as bs e = .ok r) :
    unifyZip step' as bs e = .ok r := by
  induction as generalizing bs e r with
  | nil => exact h
  | cons a as ih =>
      cases bs with
      | nil => exact h
      | cons b bs => exact andThen_refines (hstep a b e) (fun _ _ => ih) h

theorem unifyEnds_refines (hstep : Refines step' step) {as bs : List Term} {s t : Option Term}
    {e : Bindings} {r : Option Bindings} (h : unifyEnds step as s bs t e = .ok r) :
    unifyEnds step' as s bs t e = .ok r := by
  rcases as with _ | ⟨a, as⟩ <;> rcases bs with _ | ⟨b, bs⟩ <;> rcases s with _ | s <;>
    rcases t with _ | t <;> first | exact h | exact hstep _ _ _ _ h

theorem unifyLists_refines (hstep : Refines step' step) {as bs : List Term} {s t : Option Term}
    {e : Bindings} {r : Option Bindings} (h : unifyLists step as s bs t e = .ok r) :
    unifyLists step' as s bs t e = .ok r :=
  andThen_refines (fun _ => unifyZip_refines hstep) (fun _ _ => unifyEnds_refines hstep) h

theorem unifyShapes_refines (hstep : Refines step' step) :
    Refines (unifyShapes step') (unifyShapes step) := by
  intro s t e r h
  cases s <;> cases t <;> simp only [unifyShapes] at h ⊢
  case list.list | list.partialList | partialList.list | partialList.partialList =>
    exact unifyLists_refines hstep h
  case compound.compound f as g bs =>
    split at h
    · next htest =>
        rw [if_pos htest]
        exact unifyZip_refines hstep h
    · next htest => rwa [if_neg htest]
  case expr.expr o l r p m s =>
    split at h
    · next htest =>
        rw [if_pos htest]
        exact andThen_refines (hstep _ _ _) (hstep _ _) h
    · next htest => rwa [if_neg htest]
  all_goals exact h

/-- One more level of depth keeps every answer. -/
theorem unifyF_refines_succ (depth : Nat) : Refines (unifyF (depth + 1)) (unifyF depth) := by
  induction depth with
  | zero =>
      intro s t e r h
      cases h
  | succ depth ih =>
      intro s t e r h
      rw [unifyF] at h ⊢
      split at h
      · cases h
      · next hend =>
          rw [if_neg hend]
          exact unifyShapes_refines ih _ _ _ _ h

/-- **More depth keeps every answer.** -/
theorem unifyF_mono {depth more : Nat} (hle : depth ≤ more) {s t : Term} {e : Bindings}
    {r : Option Bindings} (h : unifyF depth s t e = .ok r) : unifyF more s t e = .ok r := by
  induction hle with
  | refl => exact h
  | step _ ih => exact unifyF_refines_succ _ _ _ _ _ ih

end RhythmLogic
