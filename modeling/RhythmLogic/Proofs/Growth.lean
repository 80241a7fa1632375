/-
**Bindings only grow, and only by names that are free.**

Bindings are never taken back: a branch of the search goes on with its own list, and a unification
that fails half way leaves a list that nobody keeps.  So every solution has the bindings from which
the search started as its older part.  One place that kept the list of a failed trial, or bound a
name again, would show in no single answer, since the newest entry hides the older ones.

There are three places that make bindings: a unification, a clause trial, and a builtin.  All of
them go by unification.  What a unification keeps is therefore kept by the whole search, negations
and builtins included, and this is said once for every property.

Main definitions:

* `KeptByUnify` — a property of bindings that every unification keeps;
* `Bindings.Grows` — **bindings that came by binding free names**, one after the other;
* `Bindings.Distinct` — no name is bound twice.

Main results:

* `solveF_kept` — **what every unification keeps, every search keeps**;
* `Bindings.Grows.exists_append` — bindings that grew have the older ones behind what was added;
* `Bindings.Distinct.size_eq` — without hidden entries, as many names are bound as bindings were
  made;
* `solve_grows` — **solutions only extend the bindings that a search starts with**.
-/

import RhythmLogic.CommandLine.Mixer
import RhythmLogic.Proofs.Calls
import RhythmLogic.Proofs.Equations
import RhythmLogic.Proofs.Parametric
import Mathlib.Data.Set.Card

set_option autoImplicit false

namespace RhythmLogic

open Bindings

variable {J : Bindings → Prop} {k : Knowledge} {e e' e'' : Bindings} {x : String} {t : Term}
  {s s' : Progress} {found : List Bindings}

/-! ### What every unification keeps -/

/-- **A property that every unification keeps**, when it finds bindings. -/
def KeptByUnify (J : Bindings → Prop) : Prop :=
  ∀ (s t : Term) (e e' : Bindings), J e → unify s t e = .ok (some e') → J e'

/-- Terms and bindings are matched with themselves, so that what is left of the matching is the
property. -/
theorem matching_of_kept (hJ : KeptByUnify J) : Matching Eq fun e e' => e = e' ∧ J e where
  number _ := rfl
  list h := matching_eq.list h
  items h := matching_eq.items h
  name h := matching_eq.name h
  value h := matching_eq.value h
  alike hs ht := matching_eq.alike hs ht
  subst he ht := matching_eq.subst he.1 ht
  unify := by
    rintro e _ s _ t _ ⟨rfl, he⟩ rfl rfl
    cases h : RhythmLogic.unify s t e with
    | error cause => exact .error
    | ok r =>
        cases r with
        | none => exact .clash
        | some e' => exact .solved ⟨rfl, hJ s t e e' he h⟩

/-- **A standard builtin pushes bindings that it comes to by unification**, or those that it was
given. -/
theorem pushed_of_standard (hJ : KeptByUnify J) {b : Builtin} (hb : b ∈ Builtin.standard)
    (bpm : Float) (args : List Term) (he : J e) (w : World) :
    ∀ e' ∈ (b.call bpm args e w).solutions, J e' := by
  have hkeeps := keeps_of_mem_standard (matching_of_kept hJ) Body.seenAlike_eq
    (fun _ _ h => h) b hb
  have hargs : List.Forall₂ Eq args args := List.forall₂_same.2 fun _ _ => rfl
  obtain ⟨hsolutions, -⟩ := hkeeps.call bpm hargs ⟨rfl, he⟩ w w rfl
  exact fun e' he' => (List.forall₂_same.1 hsolutions e' he').2

/-- **Builtins push only bindings with the property**, when they are given such. -/
def Knowledge.Pushes (k : Knowledge) (J : Bindings → Prop) : Prop :=
  ∀ {name : String} {arity : ℕ} {b : Builtin}, k.builtins.find? name arity = some b →
    ∀ (args : List Term) (e : Bindings) (w : World), J e →
      ∀ e' ∈ (b.call k.bpm args e w).solutions, J e'

theorem pushes_of_standard (hk : ∀ b ∈ k.builtins.builtins, b ∈ Builtin.standard)
    (hJ : KeptByUnify J) : k.Pushes J := fun hb args _ w he =>
  pushed_of_standard hJ (hk _ (List.mem_of_find?_eq_some hb)) k.bpm args he w

section Steps

variable {run : List Pending → Bindings → Progress → Found} {rest : List Pending} {depth : ℕ}
  (hrun : ∀ goals e s found s', J e → run goals e s = .ok (found, s') → ∀ e' ∈ found, J e')
include hrun

/-- A trial keeps what its unification and the search for its body keep. -/
theorem tryClause_kept (hJ : KeptByUnify J) {call : Term} {c : Clause} (he : J e)
    (h : tryClause run call depth rest e c s = .ok (found, s')) : ∀ e' ∈ found, J e' := by
  obtain ⟨r, hunify, hr⟩ := tryClause_eq_ok h
  cases r with
  | none =>
      cases hr
      exact fun _ h => absurd h List.not_mem_nil
  | some e₁ => exact hrun _ e₁ _ found s' (hJ _ _ e e₁ he hunify) hr

/-- What is gathered of solutions with the property has the property. -/
theorem gather_kept {found₀ : List Bindings} (hfound₀ : ∀ e' ∈ found₀, J e')
    (h : gather (run rest) found₀ s = .ok (found, s')) : ∀ e' ∈ found, J e' := by
  intro e' he'
  obtain ⟨e₁, he₁, s₁, part, s₂, hpart, hmem⟩ := mem_gather h he'
  exact hrun _ e₁ s₁ part s₂ (hfound₀ e₁ he₁) hpart e' hmem

theorem callBuiltin_kept {b : Builtin} {bpm : Float} {name : String} {args : List Term}
    (hpushed : ∀ e' ∈ (b.call bpm args e s.world).solutions, J e')
    (h : callBuiltin run b bpm name args rest e s = .ok (found, s')) : ∀ e' ∈ found, J e' := by
  simp only [callBuiltin] at h
  split at h
  · cases h
  · exact gather_kept hrun hpushed h
  · exact gather_kept hrun hpushed h

theorem callTerm_kept (hJ : KeptByUnify J) (hk : k.Pushes J) (he : J e)
    (h : callTerm k run t depth rest e s = .ok (found, s')) : ∀ e' ∈ found, J e' := by
  simp only [callTerm] at h
  split at h
  · cases h
    exact fun _ h => absurd h List.not_mem_nil
  split at h
  · next hb => exact callBuiltin_kept hrun (hk hb _ e _ he) h
  split at h
  · cases h
    exact fun _ h => absurd h List.not_mem_nil
  · intro e' he'
    obtain ⟨c, -, s₁, part, s₂, hpart, hmem⟩ := mem_gather h he'
    exact tryClause_kept hrun hJ he hpart e' hmem

end Steps

/-- **What every unification keeps, every search keeps.**  A negation binds nothing, so the search
goes on behind it with the bindings that it came with. -/
theorem solveF_kept (hJ : KeptByUnify J) (hk : k.Pushes J) {fuel : ℕ} {goals : List Pending}
    (he : J e) (h : solveF k fuel goals e s = .ok (found, s')) : ∀ e' ∈ found, J e' := by
  induction fuel generalizing goals e s found s' with
  | zero => cases h
  | succ fuel ih =>
      rcases goals with _ | ⟨⟨goal, depth⟩, rest⟩
      · cases h
        simpa using he
      cases goal with
      | call t => exact callTerm_kept (fun _ _ _ _ _ he h => ih he h) hJ hk he h
      | negation alternatives =>
          simp only [solveF] at h
          split at h
          · cases h
          · cases h
            exact fun _ h => absurd h List.not_mem_nil
          · exact ih he h

/-! ### Growth -/

/-- **`e.Grows e'` says that `e'` came from `e` by binding free names**, one after the other. -/
inductive Bindings.Grows (e : Bindings) : Bindings → Prop where
  | refl : Grows e e
  | bind {e' : Bindings} {x : String} (t : Term) :
      Grows e e' → e'.get? x = none → Grows e (e'.bind x t)

/-- No name is bound twice, so that no entry is hidden by a newer one. -/
def Bindings.Distinct (e : Bindings) : Prop := (e.entries.map Prod.fst).Nodup

theorem Bindings.get?_eq_none_iff : e.get? x = none ↔ x ∉ e.entries.map Prod.fst := by
  rw [get?, List.lookup_eq_none_iff]
  constructor
  · intro h hmem
    obtain ⟨p, hp, rfl⟩ := List.mem_map.1 hmem
    simpa using h p hp
  · intro h p hp
    have hne : x ≠ p.1 := fun hx => h (hx ▸ List.mem_map_of_mem hp)
    simpa using hne

namespace Bindings.Grows

theorem trans (h : e.Grows e') (h' : e'.Grows e'') : e.Grows e'' := by
  induction h' with
  | refl => exact h
  | bind t _ hx ih => exact ih.bind t hx

theorem le (h : e.Grows e') : e ≤ e' := by
  induction h with
  | refl => exact Bindings.le_refl e
  | bind t _ hx ih => exact Bindings.le_trans ih (le_bind hx t)

/-- **What was added stands in front**, and is for names that were free. -/
theorem exists_append (h : e.Grows e') :
    ∃ added, e'.entries = added ++ e.entries ∧ ∀ p ∈ added, e.get? p.1 = none := by
  induction h with
  | refl => exact ⟨[], rfl, fun _ h => absurd h List.not_mem_nil⟩
  | @bind e' x t h hx ih =>
      obtain ⟨added, hadded, hfree⟩ := ih
      refine ⟨(x, t) :: added, by rw [Bindings.bind, hadded, List.cons_append], ?_⟩
      refine List.forall_mem_cons.2 ⟨?_, hfree⟩
      rw [get?_eq_none_iff, hadded, List.map_append, List.mem_append, not_or] at hx
      exact get?_eq_none_iff.2 hx.2

theorem distinct (h : e.Grows e') (he : e.Distinct) : e'.Distinct := by
  induction h with
  | refl => exact he
  | bind t _ hx ih => exact List.nodup_cons.2 ⟨get?_eq_none_iff.1 hx, ih⟩

end Bindings.Grows

/-- **Where no name is bound twice, there are as many names as bindings.** -/
theorem Bindings.Distinct.size_eq (h : e.Distinct) :
    e.size = {x | (e.get? x).isSome = true}.ncard := by
  have hnames : {x | (e.get? x).isSome = true} = ↑(e.entries.map Prod.fst).toFinset := by
    ext x
    rw [Set.mem_ofPred_eq, ← Option.ne_none_iff_isSome, ne_eq, get?_eq_none_iff, not_not]
    simp
  rw [hnames, Set.ncard_coe_finset, List.toFinset_card_of_nodup h, List.length_map, size]

/-- **A unification binds free names**, and nothing else. -/
theorem Solves.grows {eqs : List Equation} {r : Option Bindings} (h : Solves eqs e r)
    (hr : r = some e') : e.Grows e' := by
  induction h with
  | done =>
      cases hr
      exact .refl
  | same _ _ _ ih => exact ih hr
  | bindLeft hs _ _ _ ih => exact (Grows.refl.bind _ hs.free).trans (ih hr)
  | bindRight _ _ ht _ ih => exact (Grows.refl.bind _ ht.free).trans (ih hr)
  | split _ _ _ _ ih => exact ih hr
  | clash => cases hr

theorem keptByUnify_grows (e : Bindings) : KeptByUnify e.Grows := fun _ _ _ _ he h =>
  he.trans ((solves_of_unifyF h).grows rfl)

/-- **Solutions only extend the bindings that a search starts with**, for every program, row of
goals, depth limit, memory and chance.  If no name is bound twice at the start, then:

* a solution has the bindings of the start as its older part, behind what was added;
* what was added is for names that were free, and still no name is bound twice;
* a name that was bound stands for what it stood for;
* a solution has as many bindings as it binds names. -/
theorem solve_grows (hk : ∀ b ∈ k.builtins.builtins, b ∈ Builtin.standard) {goals : List Goal}
    (he : e.Distinct) (h : solve k goals e s = .ok (found, s')) :
    ∀ e' ∈ found, (∃ added, e'.entries = added ++ e.entries ∧ ∀ p ∈ added, e.get? p.1 = none) ∧
      e'.Distinct ∧ (∀ x, (e.get? x).isSome = true → e'.get? x = e.get? x) ∧
      e'.size = {x | (e'.get? x).isSome = true}.ncard := by
  intro e' he'
  have hkept := keptByUnify_grows e
  have hgrows : e.Grows e' := solveF_kept hkept (pushes_of_standard hk hkept) .refl h e' he'
  refine ⟨hgrows.exists_append, hgrows.distinct he, ?_, (hgrows.distinct he).size_eq⟩
  intro x hx
  obtain ⟨t, ht⟩ := Option.isSome_iff_exists.1 hx
  rw [ht, hgrows.le x t ht]

/-- The first clause of `half` binds `Z` before it fails, and the second one binds it again; the
negation binds nothing, and each choice has bindings of its own. -/
theorem solve_grows_halfFailed :
    let k : Knowledge :=
      ⟨⟨[⟨.compound "half" [.compound "f" [.atom "a"], .atom "b"], []⟩,
          ⟨.compound "half" [.compound "f" [.var "Y"], .var "Y"], []⟩]⟩, .standard, 8, 120⟩
    let goals : List Goal :=
      [.negation [[.call (.compound "=" [.var "A", .number 2])]],
        .call (.compound "choose" [.list [.var "A", .number 3], .var "X"]),
        .call (.compound "half" [.compound "f" [.var "Z"], .var "Z"])]
    let e : Bindings := ⟨[("A", .number 1)]⟩
    let s : Progress := ⟨⟨.empty, .ofSeed 0, []⟩, 0, false⟩
    ∃ found s', solve k goals e s = .ok (found, s') ∧
      found.map (fun e' => e'.entries.map Prod.fst) = [["Z", "X", "A"], ["Z", "X", "A"]] ∧
      ∀ e' ∈ found, (∃ added, e'.entries = added ++ e.entries ∧ ∀ p ∈ added, e.get? p.1 = none) ∧
        e'.Distinct ∧ (∀ x, (e.get? x).isSome = true → e'.get? x = e.get? x) ∧
        e'.size = {x | (e'.get? x).isSome = true}.ncard := by
  intro k goals e s
  have hnames : (solve k goals e s).toOption.map
      (fun r => r.1.map fun e' => e'.entries.map Prod.fst) =
        some [["Z", "X", "A"], ["Z", "X", "A"]] := by decide +kernel
  obtain ⟨⟨found, s'⟩, hsolve, hfound⟩ := exists_ok hnames
  have he : e.Distinct := by
    rw [Distinct]
    decide
  exact ⟨found, s', hsolve, hfound, solve_grows (fun _ hb => hb) he hsolve⟩

end RhythmLogic
