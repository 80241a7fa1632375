/-
**Substitution composes with later bindings.**

A builtin reads its arguments when it is called, and what it reads goes on to live in bindings and
answers.  By the time that an answer is shown, more names are bound, and the value is read once
more.  What comes out is the value that a single reading at the end would have given, so it does not
matter when a term is read.

This is not a matter of structure alone.  The early reading joins the tails of lists as far as they
are bound, and so it cuts a list otherwise than it was written; a tail that was free at the time may
become a list later on.  What does not see the cuts is the value of the list, for a substitution is
a valuation: it joins what it reads of the items to what it reads of the tail, and items may be
joined in portions.

Main results:

* `Bindings.Fits.of_le` — under fewer bindings a term expands to no more levels;
* `Bindings.Fits.substF` — what was read expands to no more levels than the term;
* `Valuation.joinTail` — a valuation goes through the joining of tails;
* `Bindings.substF_substF` — **reading early and again later is reading later**;
* `subst_composes` — the same for substitution itself, for reading twice under the same bindings,
  and from any point of a search to its end.
-/

import RhythmLogic.CommandLine.Mixer
import RhythmLogic.Proofs.Growth
import RhythmLogic.Proofs.Unifiers

set_option autoImplicit false

namespace RhythmLogic

open Bindings

variable {e e' : Bindings} {s t u : Term} {n : Nat}

/-! ### Levels -/

namespace Bindings

/-- **Under fewer bindings a term expands to no more levels:** the expansion stops at names that are
bound later. -/
theorem Fits.of_le (h : e ≤ e') (ht : e'.Fits n t) : e.Fits n t := by
  induction ht with
  | number => exact .number
  | atom => exact .atom
  | free hx => exact .free (get?_eq_none_of_le h hx)
  | bound hx ht ih =>
      obtain hfree | hbound := get?_of_le h hx
      · obtain ⟨k, rfl⟩ := ht.exists_level
        exact .free hfree
      · exact .bound hbound ih
  | compound _ ih => exact .compound ih
  | list _ ih => exact .list ih
  | partialList _ _ ih ih' => exact .partialList ih ih'
  | expr _ _ ihl ihr => exact .expr ihl ihr

/-- Joining a tail saves its level. -/
theorem fits_joinTail {items : List Term} (hitems : ∀ a ∈ items, e.Fits n a)
    (htail : e.Fits n t) : e.Fits (n + 1) (Term.joinTail items t) := by
  cases t
  case list more =>
    have hmore := (hereditary_fits e n).item more none htail
    exact .list (List.forall_mem_append.2 ⟨hitems, hmore⟩)
  case partialList more rest =>
    have hmore := (hereditary_fits e n).item more (some rest) htail
    exact .partialList (List.forall_mem_append.2 ⟨hitems, hmore⟩) ((hereditary_fits e n).tail htail)
  all_goals exact .partialList hitems htail

/-- Where a walk under fewer bindings ends, a substitution under more of them may start as well. -/
theorem Fits.substF_walk (h : e ≤ e') (ht : e'.Fits n t) (hu : e.Settles t u) :
    e'.Fits n u ∧ e'.substF n t = e'.substF n u := by
  obtain ⟨names, htrail, -⟩ := hu
  exact ⟨ht.trail (htrail.mono h), ht.substF_trail (htrail.mono h)⟩

/-- **What was read early expands to no more levels** than the term. -/
theorem Fits.substF (h : e ≤ e') (ht : e'.Fits n t) : e'.Fits n (e.substF n t) := by
  induction ht with
  | number => exact .number
  | atom => exact .atom
  | free hx =>
      rw [substF_free (get?_eq_none_of_le h hx)]
      exact .free hx
  | bound hx ht ih =>
      obtain hfree | hbound := get?_of_le h hx
      · rw [substF_free hfree]
        exact .bound hx ht
      · rw [(ht.of_le h).substF_bound hbound]
        exact ih
  | compound _ ih => exact .compound (List.forall_mem_map.2 ih)
  | list _ ih => exact .list (List.forall_mem_map.2 ih)
  | partialList _ _ ih ih' => exact fits_joinTail (List.forall_mem_map.2 ih) ih'
  | expr _ _ ihl ihr => exact .expr ihl ihr

end Bindings

/-! ### Values of joined lists -/

/-- **A valuation goes through the joining of tails**, whichever way the list was cut. -/
theorem Valuation.joinTail {D : Term → Prop} {F : Term → Term} (hF : Valuation D F)
    {items : List Term} (h : D (Term.joinTail items t)) (ht : D t) :
    F (Term.joinTail items t) = Term.joinTail (items.map F) (F t) := by
  cases t
  case list more =>
    have hjoined : F (.list (items ++ more)) = .list ((items ++ more).map F) := hF.listOf _ none h
    have htail : F (.list more) = .list (more.map F) := hF.listOf more none ht
    rw [Term.joinTail, hjoined, htail, Term.joinTail, List.map_append]
  case partialList more rest =>
    rw [Term.joinTail, hF.partialList h, hF.partialList ht, Term.joinTail_joinTail,
      List.map_append]
  all_goals exact hF.partialList h

/-! ### Reading twice -/

namespace Bindings

/-- **Reading early and again later is reading later,** by induction on the later expansion. -/
theorem substF_substF (h : e ≤ e') (ht : e'.Fits n t) :
    e'.substF n (e.substF n t) = e'.substF n t := by
  have hmap : ∀ {n : Nat} {ts : List Term},
      (∀ a ∈ ts, e'.substF n (e.substF n a) = e'.substF n a) →
        (ts.map (e.substF n)).map (e'.substF n) = ts.map (e'.substF n) := by
    intro n ts hts
    rw [List.map_map]
    exact List.map_congr_left hts
  induction ht with
  | number | atom => rfl
  | free hx => rw [substF_free (get?_eq_none_of_le h hx)]
  | bound hx ht ih =>
      obtain hfree | hbound := get?_of_le h hx
      · rw [substF_free hfree]
      · rw [(ht.of_le h).substF_bound hbound, ht.substF_bound hx, ih]
  | compound _ ih => simp only [substF_compound, hmap ih]
  | list _ ih => simp only [substF_list, hmap ih]
  | @partialList n items tail hitems htail ih ih' =>
      -- the tail that was read may be a list, which is joined once and not cut again
      have hitems' : ∀ a ∈ items.map (e.substF n), e'.Fits n a :=
        List.forall_mem_map.2 fun a ha => (hitems a ha).substF h
      have htail' := htail.substF h
      have hsucc : (items.map (e.substF n)).map (e'.substF (n + 1)) =
          (items.map (e.substF n)).map (e'.substF n) :=
        List.map_congr_left fun a ha => (hitems' a ha).substF_succ
      rw [substF_partialList, substF_partialList,
        (valuation_substF e' (n + 1)).joinTail (fits_joinTail hitems' htail') htail'.succ,
        hsucc, hmap ih, htail'.substF_succ, ih']
  | expr _ _ ihl ihr => simp only [substF_expr, ihl, ihr]

/-- A list that was read early has, later on, the items that are read of it later. -/
theorem subst_list_of_subst (h : e ≤ e') (ht : e'.Fits levels t) {items : List Term}
    (hread : e.subst t = .list items) : e'.subst t = .list (items.map e'.subst) := by
  have hcompose : e'.subst (.list items) = e'.subst t := by
    rw [← hread]
    exact substF_substF h ht
  have hfit : e'.Fits levels (.list items) := hread ▸ ht.substF h
  rw [← hcompose]
  exact (valuation_substF e' levels).listOf items none hfit

end Bindings

/-- **Substitution composes with later bindings.**

* Let the names that `e₁` binds stand for the same in `e₂`, and let a term stay within the levels
  of a substitution under `e₂`.  Then substituting by `e₁` and by `e₂` is substituting by `e₂`.
* Substituting twice by the same bindings is substituting once.
* At any point of a search with the standard builtins, a term may be read, and read again under the
  bindings of any solution of what is left.  That is the value of the term in the solution; and if a
  list was read, then its items are, read again, the items of the list in the solution. -/
theorem subst_composes :
    (∀ (e₁ e₂ : Bindings) (t : Term), e₁ ≤ e₂ → e₂.Fits levels t →
      e₂.subst (e₁.subst t) = e₂.subst t) ∧
    (∀ (e : Bindings) (t : Term), e.Fits levels t → e.subst (e.subst t) = e.subst t) ∧
    ∀ (k : Knowledge), (∀ b ∈ k.builtins.builtins, b ∈ Builtin.standard) →
      ∀ (fuel : ℕ) (goals : List Pending) (e : Bindings) (s s' : Progress) (found : List Bindings),
        solveF k fuel goals e s = .ok (found, s') → ∀ e' ∈ found, ∀ t, e'.Fits levels t →
          e'.subst (e.subst t) = e'.subst t ∧
          ∀ items, e.subst t = .list items → e'.subst t = .list (items.map e'.subst) := by
  refine ⟨fun e₁ e₂ t h ht => substF_substF h ht,
    fun e t ht => substF_substF (le_refl e) ht, ?_⟩
  intro k hk fuel goals e s s' found hsolve e' he' t ht
  have hkept := keptByUnify_grows e
  have hgrows : e.Grows e' := solveF_kept hkept (pushes_of_standard hk hkept) .refl hsolve e' he'
  exact ⟨substF_substF hgrows.le ht, fun _ => subst_list_of_subst hgrows.le ht⟩

/-- The tail `T` is free when the list is read for the first time, and becomes a list; the list that
is read for a choice holds a variable that is bound after the choice. -/
theorem subst_composes_lateTail :
    let e₁ : Bindings := Bindings.empty.bind "L" (.partialList [.var "X"] (.var "T"))
    let e₂ : Bindings := (e₁.bind "T" (.list [.atom "b"])).bind "X" (.number 1)
    let k : Knowledge := ⟨⟨[]⟩, .standard, 8, 120⟩
    let items : List Term := [.var "X", .atom "b"]
    let goals : List Goal :=
      [.call (.compound "choose" [.list items, .var "Y"]),
        .call (.compound "=" [.var "X", .number 2])]
    let s : Progress := ⟨⟨.empty, .ofSeed 0, []⟩, 0, false⟩
    e₁.subst (.var "L") = .partialList [.var "X"] (.var "T") ∧
      e₂.subst (e₁.subst (.var "L")) = e₂.subst (.var "L") ∧
      e₂.subst (.var "L") = .list [.number 1, .atom "b"] ∧
      e₂.subst (e₂.subst (.var "L")) = e₂.subst (.var "L") ∧
      ∃ first second s', solveF k 8 (pendingAt 0 goals) .empty s = .ok ([first, second], s') ∧
        first.subst (.list items) = .list (items.map first.subst) ∧
        first.subst (.var "Y") = .number 2 ∧ second.subst (.var "Y") = .atom "b" := by
  intro e₁ e₂ k items goals s
  have hle : e₁ ≤ e₂ := le_trans (le_bind rfl _) (le_bind rfl _)
  have hT : e₂.Fits 2 (.var "T") := .bound rfl (.list (List.forall_mem_singleton.2 .atom))
  have hL : e₂.Fits 3 (.var "L") :=
    .bound rfl (.partialList (List.forall_mem_singleton.2 (.bound rfl .number)) hT)
  have hfit := hL.mono (show 3 ≤ levels by decide)
  let first : Bindings := (Bindings.empty.bind "Y" (.var "X")).bind "X" (.number 2)
  let second : Bindings := (Bindings.empty.bind "Y" (.atom "b")).bind "X" (.number 2)
  have hsolve : solveF k 8 (pendingAt 0 goals) .empty s = .ok ([first, second], s) := rfl
  have hitems : first.Fits 2 (.list items) :=
    .list (List.forall_mem_cons.2 ⟨.bound rfl .number, List.forall_mem_singleton.2 .atom⟩)
  obtain ⟨hcompose, htwice, hsearch⟩ := subst_composes
  have hread := (hsearch k (fun _ hb => hb) 8 _ _ s s _ hsolve first List.mem_cons_self _
    (hitems.mono (by decide))).2 items rfl
  exact ⟨rfl, hcompose e₁ e₂ _ hle hfit, rfl, htwice e₂ _ hfit, first, second, s, hsolve, hread,
    rfl, rfl⟩

end RhythmLogic
