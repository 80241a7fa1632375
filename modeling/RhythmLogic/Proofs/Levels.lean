/-
**What a term stands for, level by level.**

A substitution replaces variables down to a fixed depth, and leaves below it what was written.  So a
term that is deeper, or whose expansion never ends, is read as something that depends on how it was
written.  What it stands for is told by its upper levels, any number of them, with nothing below.
Where the expansion ends in time, a substitution gives just these.

The upper levels of two terms are compared for two ways to unify.  Unifying `v` with `t` is one way;
the other is to bind a fresh variable to `t` and to unify that variable with `v`.  The second way has
the sides exchanged, and one more variable that is bound; otherwise they come to the same.

Main definitions:

* `Bindings.upper` — **the upper levels of what a term stands for**;
* `Bindings.AlikeBut` — bindings under which all terms without a given variable stand for the same,
  up to the names of free variables.

Main results:

* `Bindings.Fits.upper` — within the levels of a substitution, that is what it gives;
* `Bindings.Mirrors.upper`, `Bindings.Beside.upper` — bindings that mirror each other, and ones that
  differ in a variable that nothing mentions, have the same upper levels;
* `match_unify_fresh` — **the two ways to unify come to the same**.
-/

import RhythmLogic.Proofs.Frames

set_option autoImplicit false

namespace RhythmLogic

namespace Bindings

variable {x : String} {e e' e'' : Bindings} {t u v : Term} {n : Nat} {π : Equiv.Perm String}

/-- **The upper `n` levels of what a term stands for.**  A mark stands for whatever is below. -/
def upper (e : Bindings) : Nat → Term → Term
  | 0, _ => .atom "..."
  | n + 1, t =>
      match e.walk t with
      | .compound name args => .compound name (args.map (upper e n))
      | .list items => .list (items.map (upper e n))
      | .partialList items tail => Term.joinTail (items.map (upper e n)) (upper e n tail)
      | .expr op l r => .expr op (upper e n l) (upper e n r)
      | shallow => shallow

/-- **Within its levels, a substitution gives the upper levels.** -/
theorem Fits.upper (h : e.Fits n t) : e.upper n t = e.substF n t := by
  induction n generalizing t with
  | zero => exact absurd h.exists_level (by simp)
  | succ n ih =>
      obtain ⟨u, names, htrail, hend⟩ := h.settles
      have hmap : ∀ ts : List Term, (∀ a ∈ ts, e.Fits n a) →
          ts.map (e.upper n) = ts.map (e.substF n) :=
        fun ts hts => List.map_congr_left fun a ha => ih (hts a ha)
      simp only [Bindings.upper, substF, Settles.walk_eq ⟨names, htrail, hend⟩]
      cases h.trail htrail with
      | number | atom | free _ => rfl
      | bound hx _ => simp [hx] at hend
      | compound hargs => simp only [hmap _ hargs]
      | list hitems => simp only [hmap _ hitems]
      | partialList hitems htail => simp only [hmap _ hitems, ih htail]
      | expr hl hr => simp only [ih hl, ih hr]

/-- **Mirrored bindings have the same upper levels** of every term, up to the permutation. -/
theorem Mirrors.upper (h : e.Mirrors π e') (n : Nat) (t : Term) :
    e'.upper n t = (e.upper n t).relabel π := by
  induction n generalizing t with
  | zero => rfl
  | succ n ih =>
      obtain ⟨u, hu, hu'⟩ := h t
      have hmap : ∀ ts : List Term,
          ts.map (e'.upper n) = (ts.map (e.upper n)).map (Term.relabel π) := by
        intro ts
        rw [List.map_map]
        exact List.map_congr_left fun a _ => ih a
      simp only [Bindings.upper, hu.walk_eq, hu'.walk_eq]
      cases u with
      | number | atom | var => rfl
      | compound f args => simp only [Term.exchanged, hmap, Term.relabel_compound]
      | list items => simp only [Term.exchanged, hmap, Term.relabel_list]
      | partialList items tail => simp only [Term.exchanged, hmap, ih, Term.relabel_joinTail]
      | expr op l r => simp only [Term.exchanged, ih, Term.relabel_expr]

namespace Beside

/-- **Bindings that differ in a variable that nothing mentions have the same upper levels.** -/
theorem upper (h : e.Beside x e') (ht : t.Omits x) (n : Nat) : e'.upper n t = e.upper n t := by
  induction n generalizing t with
  | zero => rfl
  | succ n ih =>
      obtain ⟨u, hu⟩ := h.ends t
      have huo : u.Omits x := hu.everywhere h.omits ht
      have hmap : ∀ ts : List Term, (∀ a ∈ ts, a.Omits x) →
          ts.map (e'.upper n) = ts.map (e.upper n) :=
        fun ts hts => List.map_congr_left fun a ha => ih (hts a ha)
      simp only [Bindings.upper, hu.walk_eq, (h.settles ht hu).walk_eq]
      cases u with
      | number | atom | var => rfl
      | compound f args => simp only [hmap args (Term.everywhere_compound.1 huo).2]
      | list items => simp only [hmap items (Term.everywhere_list.1 huo).2]
      | partialList items tail =>
          obtain ⟨-, hitems, htail⟩ := Term.everywhere_partialList.1 huo
          simp only [hmap items hitems, ih htail]
      | expr op l r =>
          obtain ⟨-, hl, hr⟩ := Term.everywhere_expr.1 huo
          simp only [ih hl, ih hr]

/-- A full expansion has as many levels. -/
theorem fits (h : e.Beside x e') (ht : t.Omits x) (hfit : e.Fits n t) : e'.Fits n t := by
  induction hfit with
  | number => exact .number
  | atom => exact .atom
  | @free n y hy =>
      have hne : y ≠ x := by simpa [Term.Omits] using ht
      exact .free ((h.agrees y hne).trans hy)
  | @bound n y u hy _ ih =>
      have hne : y ≠ x := by simpa [Term.Omits] using ht
      exact .bound ((h.agrees y hne).trans hy) (ih (h.omits y u hy).2)
  | compound _ ih =>
      exact .compound fun a ha => ih a ha ((Term.everywhere_compound.1 ht).2 a ha)
  | list _ ih => exact .list fun a ha => ih a ha ((Term.everywhere_list.1 ht).2 a ha)
  | partialList _ _ ih ih' =>
      obtain ⟨-, hitems, htail⟩ := Term.everywhere_partialList.1 ht
      exact .partialList (fun a ha => ih a ha (hitems a ha)) (ih' htail)
  | expr _ _ ihl ihr =>
      obtain ⟨-, hl, hr⟩ := Term.everywhere_expr.1 ht
      exact .expr (ihl hl) (ihr hr)

end Beside

/-! ### The same values but for one variable -/

/-- **Terms without `x` stand for the same**, up to a permutation of names that takes free variables
to free ones: so do all their upper levels, and what a substitution gives within its levels. -/
def AlikeBut (x : String) (e e' : Bindings) : Prop :=
  ∃ π : Equiv.Perm String, (∀ y, y ≠ x → (e.get? y = none ↔ e'.get? (π y) = none)) ∧
    ∀ t, t.Omits x → (∀ n, e'.upper n t = (e.upper n t).relabel π) ∧
      (e.Fits levels t → e'.subst t = (e.subst t).relabel π)

/-- Bindings that mirror each other, and then ones that differ in a variable that none of them
mentions. -/
theorem Mirrors.alikeBut (h : e.Mirrors π e') (hx : e.get? x = none) (h' : e'.Beside x e'') :
    e.AlikeBut x e'' := by
  -- the variable is free on both sides, so it is exchanged for itself
  have hfree : e.Settles (.var x) (.var x) := settles_self (isBound_var_eq_false.2 hx)
  have hfree' : e'.Settles (.var x) (.var x) :=
    settles_self (isBound_var_eq_false.2 h'.omits.get?_eq_none)
  have hπx : π x = x := Term.var.inj ((h.settles hfree).unique hfree')
  refine ⟨π, fun y hy => ?_, fun t ht => ⟨fun n => ?_, fun hfit => ?_⟩⟩
  · have hπy : π y ≠ x := fun hyx => hy (π.injective (hyx.trans hπx.symm))
    rw [h.free_iff, h'.agrees (π y) hπy]
  · rw [h'.upper ht, h.upper]
  · have hfit'' : e''.Fits levels t := h'.fits ht (h.fits hfit)
    rw [subst, subst, ← hfit''.upper, ← hfit.upper, h'.upper ht, h.upper]

end Bindings

open Bindings

variable {x : String} {e : Bindings} {t u v : Term}

/-- **The two ways to unify come to the same.**  To unify `v` with `t`, or to bind a fresh variable
to what `t` stands for and to unify that variable with `v`: both clash, or both halt for one cause,
or both find bindings that are alike but for that variable. -/
theorem match_unify_fresh (he : e.Omits x) (hends : e.WalksEnd) (ht : t.Omits x) (hv : v.Omits x)
    (hu : e.Settles t u) :
    Unified.Match (AlikeBut x) (unify v t e) (unify (.var x) v (e.bind x u)) := by
  have hne : u ≠ .var x := (hu.everywhere he ht).self
  have hmirror := mirrored_unifyF unificationDepth v t 1 e e (.refl hends)
  have hframe := match_unifyF (.bind_self he hends u) ht hv unificationDepth
  have homits : ∀ e₁, unify v t e = .ok (some e₁) → e₁.Omits x := fun e₁ h₁ =>
    (solves_of_unifyF h₁).everywhere rfl (stable_ne_var x)
      (equationsIn_cons.2 ⟨⟨hv, ht⟩, equationsIn_nil⟩) he
  rw [← unifyF_bind_eq he.get?_eq_none hu hne] at hframe
  rw [unify] at homits
  rw [unify, unify]
  generalize unifyF unificationDepth v t e = r at hmirror homits ⊢
  generalize unifyF unificationDepth t v e = r' at hmirror hframe
  generalize unifyF unificationDepth (.var x) v (e.bind x u) = r'' at hframe ⊢
  cases hmirror with
  | halted cause =>
      cases hframe
      exact .error
  | clash =>
      cases hframe
      exact .clash
  | solved h =>
      cases hframe with
      | solved h' => exact .solved (h.alikeBut (homits _ rfl).get?_eq_none h')

end RhythmLogic
