/-
**Numbers: the names of trials, and solutions up to their numbering.**

The number of a trial is part of the names that the trial brings in.  Which numbers a search uses
depends on what was searched before it, so two searches for the same goals may come to solutions
that differ in the numbers of their names.  A permutation of the numbers acts on names: it renumbers
those that have a number and leaves the others as they are.  Solutions are *variants* when such a
permutation takes the one to the other and leaves the trials before a given one alone.

A property that speaks of variables only is kept by everything that reads or unifies terms, and the
property at hand is that all numbers are in a given set.

Main definitions:

* `Term.Numbered` — the number in the name of a variable is in a set;
* `renumber` — the action of a function on numbers;
* `Bindings.AllEntries` — a property of all entries, also of those that are hidden;
* `Bindings.Variant` — **bindings that differ in the numbers of later trials only**.

Main results:

* `rename_renumber` — a renumbered copy for a trial is the copy for another trial;
* `matching_relabel` — relabelling, with a property of variables, is kept by reading and unifying;
* `Bindings.Variant.setoid` — being variants is an equivalence.
-/

import RhythmLogic.Proofs.Goals
import RhythmLogic.Proofs.Parametric
import RhythmLogic.Proofs.Relabelling
import Mathlib.Data.Set.Insert
import Mathlib.Logic.Equiv.Basic
import Mathlib.Order.Interval.Set.Basic

set_option autoImplicit false

namespace RhythmLogic

variable {f : String → String} {P : Term → Prop} {S S' : Set ℕ} {σ τ : ℕ → ℕ} {n : ℕ}
  {e e' : Bindings} {t : Term}

/-! ### Properties of variables -/

/-- A property that only variables may lack. -/
def OfVariables (P : Term → Prop) : Prop := ∀ t : Term, t.isVar = false → P t

theorem OfVariables.stable (hP : OfVariables P) : Stable P where
  nil := hP _ rfl
  cons _ _ tail := hP _ (by cases tail <;> rfl)

theorem OfVariables.rooted (hP : OfVariables P) : Rooted P where
  compound _ := hP _ rfl
  list _ := hP _ rfl
  joinTail _ _ := hP _ (Term.isVar_joinTail _ _)
  expr _ := hP _ rfl

theorem Term.Everywhere.args (h : t.Everywhere P) : ∀ a ∈ t.args, a.Everywhere P := by
  cases t <;> simp only [Term.args, List.not_mem_nil, false_implies, implies_true]
  exact (everywhere_compound.1 h).2

namespace Bindings

/-- The names and all parts of the terms of all entries have a property, also of those that a newer
entry hides. -/
def AllEntries (P : Term → Prop) (e : Bindings) : Prop :=
  ∀ p ∈ e.entries, P (.var p.1) ∧ p.2.Everywhere P

theorem allEntries_empty : empty.AllEntries P := fun _ hp => nomatch hp

theorem AllEntries.bind (h : e.AllEntries P) {x : String} (hx : P (.var x))
    (ht : t.Everywhere P) : (e.bind x t).AllEntries P :=
  List.forall_mem_cons.2 ⟨⟨hx, ht⟩, h⟩

theorem AllEntries.mono (h : e.AllEntries P) {Q : Term → Prop} (hPQ : ∀ u, P u → Q u) :
    e.AllEntries Q := fun p hp => ⟨hPQ _ (h p hp).1, (h p hp).2.mono hPQ⟩

/-- What is bound is an entry. -/
theorem mem_entries_of_get? {entries : List (String × Term)} {x : String}
    (h : (Bindings.mk entries).get? x = some t) : (x, t) ∈ entries := by
  induction entries with
  | nil => cases h
  | cons p entries ih =>
      obtain ⟨y, u⟩ := p
      have hget : ((Bindings.mk entries).bind y u).get? x = some t := h
      rw [get?_bind] at hget
      split at hget
      · next hxy =>
          cases hget
          exact hxy ▸ List.mem_cons_self
      · exact List.mem_cons_of_mem _ (ih hget)

theorem AllEntries.everywhere (h : e.AllEntries P) : e.Everywhere P :=
  fun x t hx => h (x, t) (mem_entries_of_get? hx)

end Bindings

/-- **A unification adds entries without new names.** -/
theorem Solves.allEntries {eqs : List Equation} {r : Option Bindings} (h : Solves eqs e r)
    (hr : r = some e') (hP : Stable P) (heqs : EquationsIn (Term.Everywhere P) eqs)
    (he : e.AllEntries P) : e'.AllEntries P := by
  induction h with
  | done =>
      cases hr
      exact he
  | same _ _ _ ih => exact ih hr (equationsIn_cons.1 heqs).2 he
  | bindLeft hs ht _ _ ih =>
      obtain ⟨⟨hsP, htP⟩, hrest⟩ := equationsIn_cons.1 heqs
      have hget := he.everywhere
      exact ih hr hrest (he.bind (hs.everywhere hget hsP).self (ht.everywhere hget htP))
  | bindRight hs _ ht _ ih =>
      obtain ⟨⟨hsP, htP⟩, hrest⟩ := equationsIn_cons.1 heqs
      have hget := he.everywhere
      exact ih hr hrest (he.bind (ht.everywhere hget htP).self (hs.everywhere hget hsP))
  | split hs ht hsplit _ ih =>
      obtain ⟨⟨hsP, htP⟩, hrest⟩ := equationsIn_cons.1 heqs
      have hget := he.everywhere
      have hchildren :=
        hsplit.equationsIn hP.hereditary (hs.everywhere hget hsP) (ht.everywhere hget htP)
      exact ih hr (equationsIn_append.2 ⟨hchildren, hrest⟩) he
  | clash => cases hr

theorem allEntries_of_unify (hP : Stable P) {s t : Term} (he : e.AllEntries P)
    (hs : s.Everywhere P) (ht : t.Everywhere P) (h : unify s t e = .ok (some e')) :
    e'.AllEntries P :=
  (solves_of_unifyF h).allEntries rfl hP (by simp [hs, ht]) he

/-- Rows that are related by a function are one the image of the other. -/
theorem forall₂_eq_and_iff {α β : Type} {g : α → β} {p : α → Prop} {as : List α} {bs : List β} :
    List.Forall₂ (fun a b => b = g a ∧ p a) as bs ↔ bs = as.map g ∧ ∀ a ∈ as, p a := by
  induction as generalizing bs with
  | nil => simp
  | cons a as ih =>
      cases bs with
      | nil => simp
      | cons b bs =>
          simp only [List.forall₂_cons, ih, List.map_cons, List.cons.injEq, List.forall_mem_cons]
          tauto

/-- **Relabelling is a matching**, together with a property of variables: reading terms through
bindings and unifying them keep it. -/
theorem matching_relabel (hf : Function.Injective f) (hP : OfVariables P) :
    Matching (fun t t' => t' = t.relabel f ∧ t.Everywhere P)
      (fun e e' => e' = e.relabel f ∧ e.AllEntries P) where
  number x := ⟨rfl, Term.everywhere_number.2 (hP _ rfl)⟩
  list h := by
    obtain ⟨rfl, has⟩ := forall₂_eq_and_iff.1 h
    exact ⟨(Term.relabel_list _).symm, Term.everywhere_list.2 ⟨hP _ rfl, has⟩⟩
  items := by
    rintro s t ⟨rfl, hs⟩
    cases s <;> simp only [Term.relabel_number, Term.relabel_atom, Term.relabel_var,
      Term.relabel_compound, Term.relabel_list, Term.relabel_partialList, Term.relabel_expr,
      Term.properList?]
    case list items => exact .some (forall₂_eq_and_iff.2 ⟨rfl, (Term.everywhere_list.1 hs).2⟩)
    all_goals exact .none
  name := by
    rintro s t ⟨rfl, -⟩
    cases s <;> simp [Term.atom?]
  value := by
    rintro s t ⟨rfl, -⟩
    exact (Term.evaluate_relabel s).symm
  alike := by
    rintro s s' t t' ⟨rfl, -⟩ ⟨rfl, -⟩
    exact (Term.alike_relabel hf s t).symm
  subst := by
    rintro e e' t t' ⟨rfl, he⟩ ⟨rfl, ht⟩
    exact ⟨Bindings.subst_relabel hf e t,
      Bindings.everywhere_substF hP.rooted he.everywhere Bindings.levels ht⟩
  unify := by
    rintro e e' s s' t t' ⟨rfl, he⟩ ⟨rfl, hs⟩ ⟨rfl, ht⟩
    rw [unify_relabel hf]
    rcases hu : unify s t e with cause | _ | e₁
    · exact .error
    · exact .clash
    · exact .solved ⟨rfl, allEntries_of_unify hP.stable he hs ht hu⟩

/-! ### Numbers -/

/-- The number in the name of a variable, if it has one, is in a set. -/
def Term.Numbered (S : Set ℕ) (t : Term) : Prop := ∀ n w, t = .var (renamed n w) → n ∈ S

theorem ofVariables_numbered (S : Set ℕ) : OfVariables (Term.Numbered S) := by
  rintro t ht n w rfl
  cases ht

theorem Term.Numbered.mono (h : t.Numbered S) (hS : S ⊆ S') : t.Numbered S' :=
  fun n w hw => hS (h n w hw)

/-- A variable has one of the given names. -/
def Term.NamedIn (names : List String) (t : Term) : Prop := ∀ x, t = .var x → x ∈ names

/-- Names without the sign that goes before the number have no number. -/
theorem Term.NamedIn.numbered {names : List String} (h : t.NamedIn names)
    (hnames : ∀ x ∈ names, '$' ∉ x.toList) (S : Set ℕ) : t.Numbered S := by
  rintro n w rfl
  exact absurd (dollar_mem_renamed n w) (hnames _ (h _ rfl))

/-- The names in the copy for a trial have its number. -/
theorem Term.numbered_rename (n : ℕ) (t : Term) : (t.rename n).Everywhere (Numbered {n}) := by
  refine everywhere_rename.2 fun u _ m w hw => ?_
  cases u <;> simp only [rename, Term.var.injEq, reduceCtorEq] at hw
  exact (renamed_inj hw).1.symm

theorem Goal.numbered_rename (n : ℕ) (g : Goal) :
    (g.rename n).Everywhere (Term.Numbered {n}) := by
  rw [rename_eq_map]
  exact everywhere_map (Term.numbered_rename n) g

/-! ### Renumbering -/

open Classical in
/-- **A name with another number**, if it has one. -/
noncomputable def renumber (σ : ℕ → ℕ) (x : String) : String :=
  if h : ∃ p : ℕ × String, x = renamed p.1 p.2 then renamed (σ h.choose.1) h.choose.2 else x

theorem renumber_renamed (σ : ℕ → ℕ) (n : ℕ) (w : String) :
    renumber σ (renamed n w) = renamed (σ n) w := by
  have h : ∃ p : ℕ × String, renamed n w = renamed p.1 p.2 := ⟨(n, w), rfl⟩
  obtain ⟨hn, hw⟩ := renamed_inj h.choose_spec
  rw [renumber, dif_pos h, ← hn, ← hw]

theorem renumber_of_ne {x : String} (h : ∀ n w, x ≠ renamed n w) : renumber σ x = x :=
  dif_neg fun ⟨p, hp⟩ => h p.1 p.2 hp

/-- A name has a number, or it has none. -/
theorem renamed_or_ne (x : String) : (∃ n w, x = renamed n w) ∨ ∀ n w, x ≠ renamed n w := by
  by_cases h : ∃ n w, x = renamed n w
  · exact .inl h
  · exact .inr fun n w hx => h ⟨n, w, hx⟩

theorem renumber_id : renumber id = id := by
  funext x
  obtain ⟨n, w, rfl⟩ | h := renamed_or_ne x
  · exact renumber_renamed id n w
  · exact renumber_of_ne h

theorem renumber_comp (τ σ : ℕ → ℕ) : renumber τ ∘ renumber σ = renumber (τ ∘ σ) := by
  funext x
  obtain ⟨n, w, rfl⟩ | h := renamed_or_ne x
  · simp only [Function.comp_apply, renumber_renamed]
  · simp only [Function.comp_apply, renumber_of_ne h]

/-- **Different names stay different**, if different numbers do. -/
theorem renumber_injective (hσ : Function.Injective σ) : Function.Injective (renumber σ) := by
  intro x y hxy
  obtain ⟨m, v, rfl⟩ | hx := renamed_or_ne x <;> obtain ⟨n, w, rfl⟩ | hy := renamed_or_ne y
  · rw [renumber_renamed, renumber_renamed] at hxy
    obtain ⟨hmn, rfl⟩ := renamed_inj hxy
    rw [hσ hmn]
  · rw [renumber_renamed, renumber_of_ne hy] at hxy
    exact absurd hxy.symm (hy _ _)
  · rw [renumber_renamed, renumber_of_ne hx] at hxy
    exact absurd hxy (hx _ _)
  · rwa [renumber_of_ne hx, renumber_of_ne hy] at hxy

/-- Renumbering only goes by the numbers that a name may have. -/
theorem renumber_congr {x : String} (hx : (Term.var x).Numbered S) (h : ∀ i ∈ S, σ i = τ i) :
    renumber σ x = renumber τ x := by
  obtain ⟨n, w, rfl⟩ | hne := renamed_or_ne x
  · rw [renumber_renamed, renumber_renamed, h n (hx n w rfl)]
  · rw [renumber_of_ne hne, renumber_of_ne hne]

section Congr

variable (h : ∀ i ∈ S, σ i = τ i)
include h

theorem relabel_renumber_congr (ht : t.Everywhere (Term.Numbered S)) :
    t.relabel (renumber σ) = t.relabel (renumber τ) :=
  Term.relabel_congr fun _ hx => renumber_congr (ht _ hx) h

theorem Bindings.relabel_renumber_congr (he : e.AllEntries (Term.Numbered S)) :
    e.relabel (renumber σ) = e.relabel (renumber τ) := by
  refine congrArg Bindings.mk (List.map_congr_left fun p hp => ?_)
  obtain ⟨hx, ht⟩ := he p hp
  rw [renumber_congr hx h, RhythmLogic.relabel_renumber_congr h ht]

end Congr

/-- **The numbers of renumbered bindings** are those that the numbers go to. -/
theorem numbered_renumber {U : Set ℕ} :
    (t.relabel (renumber σ)).Numbered U ↔ t.Numbered {i | σ i ∈ U} := by
  cases t <;> simp only [Term.Numbered, Term.relabel_number, Term.relabel_atom, Term.relabel_var,
    Term.relabel_compound, Term.relabel_list, Term.relabel_partialList, Term.relabel_expr,
    reduceCtorEq, false_implies, implies_true, Term.var.injEq]
  case var x =>
    obtain ⟨m, v, rfl⟩ | hne := renamed_or_ne x
    · rw [renumber_renamed]
      constructor
      · intro h n w hw
        obtain ⟨rfl, rfl⟩ := renamed_inj hw
        exact h _ _ rfl
      · intro h n w hw
        obtain ⟨rfl, rfl⟩ := renamed_inj hw
        exact h m v rfl
    · rw [renumber_of_ne hne]
      exact ⟨fun _ n w hw => absurd hw (hne n w), fun _ n w hw => absurd hw (hne n w)⟩

theorem Bindings.allEntries_renumber {U : Set ℕ} :
    (e.relabel (renumber σ)).AllEntries (Term.Numbered U) ↔
      e.AllEntries (Term.Numbered {i | σ i ∈ U}) := by
  simp only [AllEntries, relabel, List.forall_mem_map, Term.everywhere_relabel, numbered_renumber,
    ← Term.relabel_var]

/-! ### Names from before a trial -/

/-- No name in the goals has the number of the trial `n` or of a later one. -/
def GoalsBefore (n : ℕ) (goals : List Goal) : Prop :=
  ∀ g ∈ goals, g.Everywhere (Term.Numbered (Set.Iio n))

/-- No name in the bindings has the number of the trial `n` or of a later one, also not in entries
that are hidden. -/
def Bindings.Before (n : ℕ) (e : Bindings) : Prop := e.AllEntries (Term.Numbered (Set.Iio n))

theorem GoalsBefore.mono {goals : List Goal} (h : GoalsBefore n goals) {m : ℕ} (hle : n ≤ m) :
    GoalsBefore m goals :=
  fun g hg => (h g hg).mono fun _ hu => hu.mono (Set.Iio_subset_Iio hle)

theorem Bindings.Before.mono (h : e.Before n) {m : ℕ} (hle : n ≤ m) : e.Before m :=
  AllEntries.mono h fun _ hu => hu.mono (Set.Iio_subset_Iio hle)

section Fixed

variable (h : ∀ i ∈ S, σ i = i)
include h

theorem relabel_renumber_eq_self (ht : t.Everywhere (Term.Numbered S)) :
    t.relabel (renumber σ) = t := by
  have hid : ∀ i ∈ S, σ i = id i := h
  rw [relabel_renumber_congr hid ht, renumber_id, Term.relabel_id]

/-- Bindings stay as they are, if their numbers do. -/
theorem Bindings.relabel_renumber_eq_self (he : e.AllEntries (Term.Numbered S)) :
    e.relabel (renumber σ) = e := by
  have hid : ∀ i ∈ S, σ i = id i := h
  rw [Bindings.relabel_renumber_congr hid he, renumber_id, relabel_id]

theorem map_relabel_renumber_eq_self {pending : List Pending}
    (hp : PendingEverywhere (Term.Numbered S) pending) :
    pending.map (.map (Term.relabel (renumber σ))) = pending := by
  have hself : ∀ u : Term, u.Everywhere (Term.Numbered S) → u.relabel (renumber σ) = id u :=
    fun u hu => RhythmLogic.relabel_renumber_eq_self h hu
  have hid : ∀ p : Pending, p.map id = p := fun p =>
    congrArg (Pending.mk · p.depth) (Goal.map_id (fun _ => rfl) p.goal)
  rw [map_pending_congr hself hp, List.map_congr_left fun p _ => hid p, List.map_id']

end Fixed

/-! ### Copies for trials -/

/-- **A renumbered copy for a trial is the copy for another trial.** -/
theorem rename_renumber (σ : ℕ → ℕ) (n : ℕ) (t : Term) :
    (t.rename n).relabel (renumber σ) = t.rename (σ n) := by
  have hcomp : renumber σ ∘ renamed n = renamed (σ n) := funext (renumber_renamed σ n)
  rw [Term.rename_eq_relabel, Term.relabel_relabel, hcomp, Term.rename_eq_relabel]

theorem Goal.rename_renumber (σ : ℕ → ℕ) (n : ℕ) (g : Goal) :
    (g.rename n).map (Term.relabel (renumber σ)) = g.rename (σ n) := by
  rw [rename_eq_map, map_map, funext (RhythmLogic.rename_renumber σ n), ← rename_eq_map]

theorem pendingAt_rename_renumber (σ : ℕ → ℕ) (n depth : ℕ) (c : Clause) :
    (pendingAt depth (c.rename n).body).map (.map (Term.relabel (renumber σ))) =
      pendingAt depth (c.rename (σ n)).body := by
  have hmap : Goal.map (Term.relabel (renumber σ)) ∘ Goal.rename n = Goal.rename (σ n) :=
    funext (Goal.rename_renumber σ n)
  rw [map_pendingAt, Clause.rename, Clause.rename, renameBody_eq_map, renameBody_eq_map,
    List.map_map, hmap]

/-- **After a trial** the bindings and the goals have the numbers from before, and that of the
trial. -/
theorem numbered_trial {call : Term} {c : Clause} {rest : List Pending}
    (hcall : call.Everywhere (Term.Numbered S)) (he : e.AllEntries (Term.Numbered S))
    (hrest : PendingEverywhere (Term.Numbered S) rest) (depth : ℕ)
    (h : unify call (c.rename n).head e = .ok (some e')) :
    e'.AllEntries (Term.Numbered (insert n S)) ∧ PendingEverywhere (Term.Numbered (insert n S))
      (pendingAt depth (c.rename n).body ++ rest) := by
  have hold : ∀ u : Term, u.Numbered S → u.Numbered (insert n S) := fun u hu =>
    hu.mono (Set.subset_insert n S)
  have hnew : ∀ u : Term, u.Numbered {n} → u.Numbered (insert n S) := fun u hu =>
    hu.mono (Set.singleton_subset_iff.2 (Set.mem_insert n S))
  have hhead := (Term.numbered_rename n c.head).mono hnew
  have hbody : ∀ g ∈ (c.rename n).body, g.Everywhere (Term.Numbered (insert n S)) := by
    rw [Clause.rename, renameBody_eq_map, List.forall_mem_map]
    exact fun g _ => (Goal.numbered_rename n g).mono hnew
  have he' := allEntries_of_unify (ofVariables_numbered _).stable (he.mono hold)
    (hcall.mono hold) hhead h
  exact ⟨he',
    pendingEverywhere_append.2 ⟨pendingEverywhere_pendingAt.2 hbody, hrest.mono hold⟩⟩

/-- A permutation may be changed outside of a set, to take a new number to a new number. -/
theorem exists_perm_extending {σ : Equiv.Perm ℕ} {a b : ℕ} (ha : a ∉ S)
    (hb : ∀ i ∈ S, σ i ≠ b) : ∃ τ : Equiv.Perm ℕ, (∀ i ∈ S, τ i = σ i) ∧ τ a = b := by
  refine ⟨σ.trans (Equiv.swap (σ a) b), fun i hi => ?_, ?_⟩
  · have hia : σ i ≠ σ a := σ.injective.ne fun h => ha (h ▸ hi)
    rw [Equiv.trans_apply, Equiv.swap_apply_of_ne_of_ne hia (hb i hi)]
  · rw [Equiv.trans_apply, Equiv.swap_apply_left]

/-! ### Variants -/

/-- **Bindings that differ in the numbers of later trials only**: a permutation that leaves the
trials before `n` alone takes the one to the other. -/
def Bindings.Variant (n : ℕ) (e e' : Bindings) : Prop :=
  ∃ σ : Equiv.Perm ℕ, (∀ i < n, σ i = i) ∧ e' = e.relabel (renumber σ)

namespace Bindings.Variant

theorem refl (n : ℕ) (e : Bindings) : Variant n e e :=
  ⟨Equiv.refl ℕ, fun _ _ => rfl, by rw [Equiv.coe_refl, renumber_id, relabel_id]⟩

theorem symm (h : Variant n e e') : Variant n e' e := by
  obtain ⟨σ, hσ, rfl⟩ := h
  refine ⟨σ.symm, fun i hi => ?_, ?_⟩
  · rw [Equiv.symm_apply_eq, hσ i hi]
  · rw [relabel_relabel, renumber_comp, Equiv.symm_comp_self, renumber_id, relabel_id]

theorem trans {e'' : Bindings} (h : Variant n e e') (h' : Variant n e' e'') : Variant n e e'' := by
  obtain ⟨σ, hσ, rfl⟩ := h
  obtain ⟨τ, hτ, rfl⟩ := h'
  refine ⟨σ.trans τ, fun i hi => ?_, ?_⟩
  · rw [Equiv.trans_apply, hσ i hi, hτ i hi]
  · rw [relabel_relabel, renumber_comp, Equiv.coe_trans]

/-- Variants that agree on more trials are variants. -/
theorem mono (h : Variant n e e') {m : ℕ} (hle : m ≤ n) : Variant m e e' := by
  obtain ⟨σ, hσ, rfl⟩ := h
  exact ⟨σ, fun i hi => hσ i (Nat.lt_of_lt_of_le hi hle), rfl⟩

/-- **Being variants is an equivalence.** -/
def setoid (n : ℕ) : Setoid Bindings := ⟨Variant n, refl n, symm, trans⟩

end Bindings.Variant

end RhythmLogic
