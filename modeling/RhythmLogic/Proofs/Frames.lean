/-
**A variable that nothing mentions.**

Let a variable occur in no term and in no binding.  If it is bound all the same, nothing else can
tell: no walk comes to it, so every walk goes the same way, a unification meets the same ends of
walks and binds the same names, and it clashes or halts at the same place.  Two runs side by side,
the one with the variable bound and the other one without, stay side by side.

A unification of two shapes is a row of equations, and then it is solved or it clashes; which
equations, and which end, is told by the shapes alone.  So both runs have the same row to work off.

Main definitions:

* `Term.Omits`, `Bindings.Omits` — a variable does not occur in a term, or in any binding;
* `Bindings.Beside` — **bindings that differ in a variable that the first ones omit**.

Main results:

* `exists_unifyShapes_eq` — a unification of two shapes is a row of equations with an end;
* `Bindings.Beside.settles` — walks end alike;
* `match_unifyF` — **a unification does not see a variable that nothing mentions**;
* `unify_fresh`, `unifyF_bind_eq` — a variable that is bound first is unified as what it stands for.
-/

import RhythmLogic.Proofs.Parametric
import RhythmLogic.Proofs.Symmetry

set_option autoImplicit false

namespace RhythmLogic

variable {x y : String} {e e' : Bindings} {s t u v : Term}

/-! ### Terms and bindings without a variable -/

/-- The variable does not occur in the term. -/
def Term.Omits (x : String) (t : Term) : Prop := t.Everywhere (· ≠ .var x)

/-- The variable is not bound, and occurs in nothing that is. -/
def Bindings.Omits (x : String) (e : Bindings) : Prop := e.Everywhere (· ≠ .var x)

theorem stable_ne_var (x : String) : Stable (· ≠ .var x) where
  nil := by simp
  cons a items tail := by cases tail <;> simp [Term.listOf]

/-- To omit a variable is a matter of the children, for a term with a shape. -/
theorem rooted_ne_var (x : String) : Rooted (· ≠ .var x) where
  compound _ := by simp
  list _ := by simp
  joinTail {_ items' _ tail'} _ _ := by cases tail' <;> simp [Term.joinTail]
  expr _ := by simp

theorem Term.omits_number (z : Float) : (Term.number z).Omits x := by simp [Omits]

theorem Term.omits_list {items : List Term} : (Term.list items).Omits x ↔ ∀ a ∈ items, a.Omits x := by
  simp [Omits]

namespace Bindings

/-- A variable that is omitted is free. -/
theorem Omits.get?_eq_none (h : e.Omits x) : e.get? x = none := by
  cases hget : e.get? x with
  | none => rfl
  | some t => exact absurd rfl (h x t hget).1

theorem Omits.bind (h : e.Omits x) (hy : y ≠ x) (ht : t.Omits x) : (e.bind y t).Omits x :=
  Everywhere.bind h (by simpa using hy) ht

theorem Omits.subst (h : e.Omits x) (ht : t.Omits x) : (e.subst t).Omits x :=
  everywhere_substF (rooted_ne_var x) h levels ht

/-! ### Side by side -/

/-- **Bindings that differ in `x` alone**, which the first ones omit, and whose walks end. -/
structure Beside (x : String) (e e' : Bindings) : Prop where
  omits : e.Omits x
  ends : e.WalksEnd
  agrees : ∀ y, y ≠ x → e'.get? y = e.get? y

namespace Beside

/-- A variable that nothing mentions may be bound. -/
theorem bind_self (h : e.Omits x) (hends : e.WalksEnd) (t : Term) : e.Beside x (e.bind x t) :=
  ⟨h, hends, fun _ hy => get?_bind_of_ne e t hy⟩

theorem isBound_eq (h : e.Beside x e') (ht : t.Omits x) : e'.isBound t = e.isBound t := by
  cases t with
  | var y =>
      have hne : y ≠ x := by simpa [Term.Omits] using ht
      rw [isBound_var, isBound_var, h.agrees y hne]
  | _ => rfl

theorem trail (h : e.Beside x e') {names : List String} (ht : e.Trail names t u) :
    e'.Trail names t u := by
  induction ht with
  | stay => exact .stay
  | @follow y names t u hy _ ih =>
      have hne : y ≠ x := fun hyx => (h.omits y t hy).1 (congrArg Term.var hyx)
      exact .follow ((h.agrees y hne).trans hy) ih

/-- **Walks end alike.** -/
theorem settles (h : e.Beside x e') (ht : t.Omits x) (hu : e.Settles t u) : e'.Settles t u := by
  have huo : u.Omits x := hu.everywhere h.omits ht
  obtain ⟨names, htrail, hend⟩ := hu
  exact ⟨names, h.trail htrail, (h.isBound_eq huo).trans hend⟩

/-- Both bind a name to the end of a walk. -/
theorem bind (h : e.Beside x e') (hy : e.get? y = none) (hyx : y ≠ x) (hu : u.Omits x)
    (hend : e.isBound u = false) (hne : u ≠ .var y) : (e.bind y u).Beside x (e'.bind y u) := by
  refine ⟨h.omits.bind hyx hu, h.ends.bind hy hend hne, fun z hz => ?_⟩
  rw [get?_bind, get?_bind, h.agrees z hz]

end Beside

end Bindings

open Bindings

/-! ### Two runs of one row of equations -/

/-- **A unification of two shapes is a row of equations with an end**: it works off the row, and then
it is solved or clashes.  The row and the end go by the shapes alone. -/
theorem exists_unifyShapes_eq (hs : s.isVar = false) (ht : t.isVar = false) :
    ∃ eqs fin, (fin = Unified.solved ∨ fin = fun _ => Unified.clash) ∧
      (∀ D, Hereditary D → D s → D t → EquationsIn D eqs) ∧
      ∀ step e, unifyShapes step s t e = (runEquations step eqs e).andThen fin := by
  cases heqs : s.equations? t with
  | some eqs =>
      refine ⟨eqs, .solved, .inl rfl, fun D hD hsD htD =>
        (splits_of_equations? heqs).equationsIn hD hsD htD, fun step e => ?_⟩
      rw [andThen_solved, unifyShapes_eq_run heqs]
  | none =>
      -- lists clash after their items, and all else clashes at once
      have hlists : ∀ (as : List Term) (a : Option Term) (bs : List Term) (b : Option Term),
          listEquations? as a bs b = none → ∃ eqs fin,
            (fin = Unified.solved ∨ fin = fun _ => Unified.clash) ∧
            (∀ D, Hereditary D → D (Term.listOf as a) → D (Term.listOf bs b) →
              EquationsIn D eqs) ∧
            ∀ step e, unifyLists step as a bs b e = (runEquations step eqs e).andThen fin :=
        fun as a bs b h => ⟨as.zip bs, _, .inr rfl,
          fun D hD hsD htD => equationsIn_zip (hD.item as a hsD) (hD.item bs b htD),
          fun step e => unifyLists_eq_clash h e⟩
      have hatOnce : (∀ step e, unifyShapes step s t e = .clash) → ∃ eqs fin,
          (fin = Unified.solved ∨ fin = fun _ => Unified.clash) ∧
          (∀ D, Hereditary D → D s → D t → EquationsIn D eqs) ∧
          ∀ step e, unifyShapes step s t e = (runEquations step eqs e).andThen fin :=
        fun h => ⟨[], _, .inr rfl, fun _ _ _ _ => equationsIn_nil, h⟩
      cases s <;> cases t <;> simp only [Term.equations?, Term.isVar, reduceCtorEq] at heqs hs ht
      case list.list as bs => exact hlists as none bs none heqs
      case list.partialList as bs t => exact hlists as none bs (some t) heqs
      case partialList.list as s bs => exact hlists as (some s) bs none heqs
      case partialList.partialList as s bs t => exact hlists as (some s) bs (some t) heqs
      all_goals
        refine hatOnce fun step e => ?_
        simp only [unifyShapes]
        try
          split at heqs
          · cases heqs
          · next htest => rw [if_neg htest]

section Runs

variable {E : Bindings → Bindings → Prop} {step step' : Term → Term → Bindings → Unified}

theorem Unified.Match.andThen {a a' : Unified} {f f' : Bindings → Unified} (h : Match E a a')
    (hf : ∀ e e', E e e' → Match E (f e) (f' e')) : Match E (a.andThen f) (a'.andThen f') := by
  cases h with
  | error => exact .error
  | clash => exact .clash
  | solved h => exact hf _ _ h

/-- Two runs of one row stay related, if they do for every equation of the row. -/
theorem match_runEquations {D : Term → Prop} {eqs : List Equation} (heqs : EquationsIn D eqs)
    (hstep : ∀ s t e e', D s → D t → E e e' → Unified.Match E (step s t e) (step' s t e'))
    (h : E e e') : Unified.Match E (runEquations step eqs e) (runEquations step' eqs e') := by
  induction eqs generalizing e e' with
  | nil => exact .solved h
  | cons p eqs ih =>
      obtain ⟨s, t⟩ := p
      obtain ⟨⟨hs, ht⟩, hrest⟩ := equationsIn_cons.1 heqs
      exact (hstep s t e e' hs ht h).andThen fun _ _ h => ih hrest h

/-- Two unifications of the same shapes stay related, if they do for all of their parts. -/
theorem match_unifyShapes {D : Term → Prop} (hD : Hereditary D) (hs : s.isVar = false)
    (ht : t.isVar = false) (hsD : D s) (htD : D t)
    (hstep : ∀ s t e e', D s → D t → E e e' → Unified.Match E (step s t e) (step' s t e'))
    (h : E e e') : Unified.Match E (unifyShapes step s t e) (unifyShapes step' s t e') := by
  obtain ⟨eqs, fin, hfin, heqs, hrun⟩ := exists_unifyShapes_eq hs ht
  rw [hrun step e, hrun step' e']
  refine (match_runEquations (heqs D hD hsD htD) hstep h).andThen fun e₁ e₁' h₁ => ?_
  rcases hfin with rfl | rfl
  · exact .solved h₁
  · exact .clash

end Runs

/-! ### Unification -/

/-- **A unification does not see a variable that nothing mentions**: with that variable bound or not,
it comes to bindings that differ in it alone, or it clashes, or it halts for one cause. -/
theorem match_unifyF (h : e.Beside x e') (hs : s.Omits x) (ht : t.Omits x) (depth : Nat) :
    Unified.Match (Beside x) (unifyF depth s t e) (unifyF depth s t e') := by
  induction depth generalizing s t e e' with
  | zero => exact .error
  | succ depth ih =>
      obtain ⟨u, hu⟩ := h.ends s
      obtain ⟨v, hv⟩ := h.ends t
      have huo : u.Omits x := hu.everywhere h.omits hs
      have hvo : v.Omits x := hv.everywhere h.omits ht
      have hname : ∀ {y}, (Term.var y).Omits x → y ≠ x := by simp [Term.Omits]
      rw [unifyF_of_settles hu hv, unifyF_of_settles (h.settles hs hu) (h.settles ht hv)]
      rcases u.exists_var_or_isVar with ⟨y, rfl⟩ | hushape
      · by_cases hvy : v = .var y
        · subst hvy
          rw [unifyShapes_var_self, unifyShapes_var_self]
          exact .solved h
        · rw [unifyShapes_var_left hvy, unifyShapes_var_left hvy]
          exact .solved (h.bind hu.free (hname huo) hvo hv.isBound hvy)
      rcases v.exists_var_or_isVar with ⟨y, rfl⟩ | hvshape
      · have hne : u ≠ .var y := by
          rintro rfl
          cases hushape
        rw [unifyShapes_var_right hushape, unifyShapes_var_right hushape]
        exact .solved (h.bind hv.free (hname hvo) huo hu.isBound hne)
      exact match_unifyShapes (stable_ne_var x).hereditary hushape hvshape huo hvo
        (fun s t e e' hs ht h => ih h hs ht) h

/-- Terms that walk to the same are unified alike. -/
theorem unifyF_congr {s' : Term} (h : e.walk s = e.walk s') (t : Term) (depth : Nat) :
    unifyF depth s t e = unifyF depth s' t e := by
  cases depth with
  | zero => rfl
  | succ depth => simp only [unifyF, h]

/-- **A fresh variable is bound to what a term stands for.** -/
theorem unify_fresh (hx : e.get? x = none) (hu : e.Settles t u) (hne : u ≠ .var x) :
    unify (.var x) t e = .ok (some (e.bind x u)) := by
  have hdepth : unificationDepth = unificationDepth - 1 + 1 := rfl
  rw [unify, hdepth, unifyF_of_settles (settles_self (isBound_var_eq_false.2 hx)) hu,
    unifyShapes_var_left hne]
  rfl

/-- A variable that was bound to what a term stands for is unified like that term. -/
theorem unifyF_bind_eq (hx : e.get? x = none) (hu : e.Settles t u) (hne : u ≠ .var x) (v : Term)
    (depth : Nat) : unifyF depth (.var x) v (e.bind x u) = unifyF depth t v (e.bind x u) := by
  have hself : (e.bind x u).Settles (.var x) u :=
    (settles_self (isBound_var_eq_false.2 hx)).bind_self hu.isBound hne
  exact unifyF_congr (hself.walk_eq.trans (hu.bind_of_ne hx hne u).walk_eq.symm) v depth

end RhythmLogic
