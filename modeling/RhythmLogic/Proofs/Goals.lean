/-
**The theory of goals: induction, parts and terms.**

A negation holds rows of goals, so goals get an induction principle of their own, with one
hypothesis for each goal inside.  What is said of the variables of a goal is said of the parts of
its terms, also of those inside negations; and a function on terms acts on goals.

Main definitions:

* `Goal.induct` — induction over goals;
* `Goal.Mentions`, `Goal.Everywhere` — a part of a term of a goal, and a property of all of them;
* `Goal.map`, `Pending.map` — a function on the terms of goals.

Main results:

* `Goal.everywhere_negation` — a property holds everywhere in a negation exactly when it does in
  all goals inside;
* `Goal.rename_eq_map` — the copy of a goal for one trial maps its terms.
-/

import RhythmLogic.Proofs.Calls

set_option autoImplicit false

namespace RhythmLogic

namespace Goal

/-! ### Induction -/

/-- Induction over goals.  The goals inside a negation are what the hypothesis speaks of. -/
@[elab_as_elim, induction_eliminator]
theorem induct {motive : Goal → Prop} (call : ∀ t, motive (.call t))
    (negation : ∀ alternatives, (∀ b ∈ alternatives, ∀ g ∈ b, motive g) →
      motive (.negation alternatives)) (g : Goal) : motive g :=
  match g with
  | .call t => call t
  | .negation alternatives => negation alternatives fun b hb g hg =>
      have := List.sizeOf_lt_of_mem hb
      have := List.sizeOf_lt_of_mem hg
      induct call negation g
termination_by g
decreasing_by
  simp only [Goal.negation.sizeOf_spec]
  omega

/-! ### Parts -/

/-- `g.Mentions u` says that `u` is a part of a term in `g`. -/
inductive Mentions (u : Term) : Goal → Prop where
  | call {t : Term} : u.Occurs t → Mentions u (.call t)
  | negation {alternatives : List (List Goal)} {b : List Goal} {g : Goal} :
      b ∈ alternatives → g ∈ b → Mentions u g → Mentions u (.negation alternatives)

/-- All parts of the terms in a goal have a property. -/
def Everywhere (P : Term → Prop) (g : Goal) : Prop := ∀ u, Mentions u g → P u

variable {P Q : Term → Prop} {g : Goal}

theorem Everywhere.mono (h : g.Everywhere P) (hPQ : ∀ u, P u → Q u) : g.Everywhere Q :=
  fun u hu => hPQ u (h u hu)

@[simp] theorem everywhere_call {t : Term} : (call t).Everywhere P ↔ t.Everywhere P := by
  refine ⟨fun h u hu => h u (.call hu), fun h u hu => ?_⟩
  cases hu with
  | call hu => exact h u hu

@[simp] theorem everywhere_negation {alternatives : List (List Goal)} :
    (negation alternatives).Everywhere P ↔ ∀ b ∈ alternatives, ∀ g ∈ b, g.Everywhere P := by
  refine ⟨fun h b hb g hg u hu => h u (.negation hb hg hu), fun h u hu => ?_⟩
  cases hu with
  | negation hb hg hu => exact h _ hb _ hg u hu

/-! ### Functions on the terms of goals -/

mutual

/-- A goal with a function applied to its terms. -/
def map (h : Term → Term) : Goal → Goal
  | call t => call (h t)
  | negation alternatives => negation (mapAlternatives h alternatives)

/-- Several goals with a function applied to their terms. -/
def mapBody (h : Term → Term) : List Goal → List Goal
  | [] => []
  | g :: gs => map h g :: mapBody h gs

/-- Several bodies with a function applied to their terms. -/
def mapAlternatives (h : Term → Term) : List (List Goal) → List (List Goal)
  | [] => []
  | b :: bs => mapBody h b :: mapAlternatives h bs

end

variable {h h' : Term → Term}

@[simp] theorem mapBody_eq_map (h : Term → Term) (goals : List Goal) :
    mapBody h goals = goals.map (map h) := by
  induction goals with
  | nil => rfl
  | cons g goals ih => simp [mapBody, ih]

@[simp] theorem mapAlternatives_eq_map (h : Term → Term) (alternatives : List (List Goal)) :
    mapAlternatives h alternatives = alternatives.map fun b => b.map (map h) := by
  induction alternatives with
  | nil => rfl
  | cons b bs ih => simp [mapAlternatives, ih]

@[simp] theorem map_call (h : Term → Term) (t : Term) : (call t).map h = call (h t) := rfl

@[simp] theorem map_negation (h : Term → Term) (alternatives : List (List Goal)) :
    (negation alternatives).map h = negation (alternatives.map fun b => b.map (map h)) := by
  rw [map, mapAlternatives_eq_map]

/-- Functions that agree on the terms of a goal map it alike. -/
theorem map_congr (hP : ∀ t, t.Everywhere P → h t = h' t) (hg : g.Everywhere P) :
    g.map h = g.map h' := by
  induction g with
  | call t => exact congrArg call (hP t (everywhere_call.1 hg))
  | negation alternatives ih =>
      rw [everywhere_negation] at hg
      simp only [map_negation, negation.injEq]
      exact List.map_congr_left fun b hb => List.map_congr_left fun g hgb =>
        ih b hb g hgb (hg b hb g hgb)

theorem map_id (hid : ∀ t, h t = t) (g : Goal) : g.map h = g := by
  induction g with
  | call t => exact congrArg call (hid t)
  | negation alternatives ih =>
      have hmap : (alternatives.map fun b => b.map (map h)) = alternatives.map id :=
        List.map_congr_left fun b hb => (List.map_congr_left (ih b hb)).trans (List.map_id b)
      rw [map_negation, hmap, List.map_id]

theorem map_map (g : Goal) : (g.map h).map h' = g.map fun t => h' (h t) := by
  induction g with
  | call t => rfl
  | negation alternatives ih =>
      simp only [map_negation, List.map_map, negation.injEq]
      exact List.map_congr_left fun b hb => (List.map_map).trans (List.map_congr_left (ih b hb))

/-- What holds everywhere in all terms that a function gives holds everywhere in a goal that it is
applied to. -/
theorem everywhere_map (hP : ∀ t, (h t).Everywhere P) (g : Goal) : (g.map h).Everywhere P := by
  induction g with
  | call t => exact everywhere_call.2 (hP t)
  | negation alternatives ih =>
      simp only [map_negation, everywhere_negation, List.forall_mem_map]
      exact ih

/-! ### Copies for a trial -/

theorem renameAlternatives_eq_map (n : Nat) (alternatives : List (List Goal)) :
    renameAlternatives n alternatives = alternatives.map fun b => b.map (rename n) := by
  induction alternatives with
  | nil => rfl
  | cons b bs ih => simp [renameAlternatives, renameBody_eq_map, ih]

/-- **The copy of a goal for one trial** maps its terms. -/
theorem rename_eq_map (n : Nat) (g : Goal) : g.rename n = g.map (Term.rename n) := by
  induction g with
  | call t => rfl
  | negation alternatives ih =>
      simp only [rename, renameAlternatives_eq_map, map_negation, negation.injEq]
      exact List.map_congr_left fun b hb => List.map_congr_left (ih b hb)

end Goal

/-! ### Pending goals -/

/-- A pending goal with a function applied to its terms. -/
def Pending.map (h : Term → Term) (p : Pending) : Pending := ⟨p.goal.map h, p.depth⟩

/-- All parts of the terms in pending goals have a property. -/
def PendingEverywhere (P : Term → Prop) (goals : List Pending) : Prop :=
  ∀ p ∈ goals, p.goal.Everywhere P

section Pending

variable {P Q : Term → Prop} {h : Term → Term} {depth : Nat} {goals : List Goal}
  {pending rest : List Pending}

@[simp] theorem pendingAt_nil : pendingAt depth [] = [] := rfl

@[simp] theorem pendingAt_append (goals more : List Goal) :
    pendingAt depth (goals ++ more) = pendingAt depth goals ++ pendingAt depth more :=
  List.map_append

@[simp] theorem map_pendingAt (h : Term → Term) (depth : Nat) (goals : List Goal) :
    (pendingAt depth goals).map (Pending.map h) = pendingAt depth (goals.map (Goal.map h)) := by
  simp [pendingAt, Pending.map]

theorem PendingEverywhere.mono (hp : PendingEverywhere P pending) (hPQ : ∀ u, P u → Q u) :
    PendingEverywhere Q pending := fun p hmem => (hp p hmem).mono hPQ

@[simp] theorem pendingEverywhere_nil : PendingEverywhere P [] := by simp [PendingEverywhere]

@[simp] theorem pendingEverywhere_cons {p : Pending} :
    PendingEverywhere P (p :: pending) ↔ p.goal.Everywhere P ∧ PendingEverywhere P pending :=
  List.forall_mem_cons

@[simp] theorem pendingEverywhere_append :
    PendingEverywhere P (pending ++ rest) ↔
      PendingEverywhere P pending ∧ PendingEverywhere P rest := List.forall_mem_append

@[simp] theorem pendingEverywhere_pendingAt :
    PendingEverywhere P (pendingAt depth goals) ↔ ∀ g ∈ goals, g.Everywhere P := by
  simp [PendingEverywhere, pendingAt]

theorem map_pending_congr {h' : Term → Term} (hP : ∀ t, t.Everywhere P → h t = h' t)
    (hp : PendingEverywhere P pending) : pending.map (Pending.map h) = pending.map (.map h') :=
  List.map_congr_left fun p hmem =>
    congrArg (Pending.mk · p.depth) (Goal.map_congr hP (hp p hmem))

end Pending

end RhythmLogic
