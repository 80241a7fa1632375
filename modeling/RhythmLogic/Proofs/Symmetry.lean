/-
**Unification is symmetric.**

With its two terms exchanged, a unification binds the other one of two free variables.  From there
on the two runs have different bindings: a variable that stands for itself in the one stands for
something in the other, and later equations are read through that.  What the runs have in common is
where walks end.  A walk that ends at a shape under the one ends at the very same shape under the
other, and walks that end at free variables end at variables that a permutation of the names takes
to each other.  Each time that two free variables are bound, the permutation changes by their
exchange.

Since the shapes are the same ones, the two runs come to the same equations, with their sides
exchanged, and compare the same numbers.  That the tolerance is not transitive does no harm: both
compare the number that a variable was bound to first.

Main definitions:

* `Term.exchanged` — the end of a walk, with its variable exchanged if it is one;
* `Bindings.Mirrors` — **bindings under which walks end at the same shapes**, and at free variables
  that a permutation takes to each other;
* `Mirrored` — answers of two unifications that agree up to such a permutation.

Main results:

* `Bindings.Mirrors.bind_var`, `Bindings.Mirrors.bind_shape` — what is kept when either run binds;
* `mirrored_unifyF` — **with its terms exchanged, a unification comes to a mirrored answer**;
* `Bindings.Mirrors.substF` — substitution differs by the permutation alone;
* `unify_symmetric` — **exchanged terms unify as well, to the same bindings up to names**.
-/

import RhythmLogic.Proofs.Relabelling
import RhythmLogic.Proofs.Tolerance
import RhythmLogic.Proofs.Unifiers
import Mathlib.Algebra.Group.End

set_option autoImplicit false

namespace RhythmLogic

variable {π : Equiv.Perm String} {e e' : Bindings} {s t u v : Term} {x y : String} {n : Nat}

/-! ### Ends of walks -/

namespace Term

/-- The end of a walk as other bindings have it: another free variable, or the same shape. -/
def exchanged (π : Equiv.Perm String) : Term → Term
  | .var x => .var (π x)
  | t => t

/-- A term is a variable or has a shape. -/
theorem exists_var_or_isVar (t : Term) : (∃ x, t = .var x) ∨ t.isVar = false := by
  cases t <;> simp [isVar]

@[simp] theorem exchanged_var : (var x).exchanged π = .var (π x) := rfl

theorem exchanged_of_isVar (h : t.isVar = false) : t.exchanged π = t := by
  cases t <;> first | rfl | simp [isVar] at h

@[simp] theorem exchanged_one (t : Term) : t.exchanged 1 = t := by
  cases t <;> rfl

@[simp] theorem exchanged_exchanged_inv (t : Term) : (t.exchanged π).exchanged π⁻¹ = t := by
  cases t <;> simp [exchanged]

theorem exchanged_ne (h : t ≠ .var x) : t.exchanged π ≠ .var (π x) := by
  cases t <;> simp_all [exchanged]

/-- The exchange of two names that are not meant changes nothing. -/
theorem exchanged_mul_swap (hx : t ≠ .var x) (hy : t ≠ .var y) :
    t.exchanged (π * Equiv.swap x y) = t.exchanged π := by
  cases t with
  | var z =>
      have hzx : z ≠ x := fun h => hx (congrArg var h)
      have hzy : z ≠ y := fun h => hy (congrArg var h)
      simp [Equiv.swap_apply_of_ne_of_ne hzx hzy]
  | _ => rfl

end Term

/-! ### Mirrored bindings -/

namespace Bindings

/-- **Every walk ends under both bindings**: at one shape, or at free variables that `π` takes to
each other. -/
def Mirrors (π : Equiv.Perm String) (e e' : Bindings) : Prop :=
  ∀ t, ∃ u, e.Settles t u ∧ e'.Settles t (u.exchanged π)

namespace Mirrors

theorem refl (he : e.WalksEnd) : e.Mirrors 1 e := by
  intro t
  obtain ⟨u, hu⟩ := he t
  exact ⟨u, hu, by simpa using hu⟩

theorem symm (h : e.Mirrors π e') : e'.Mirrors π⁻¹ e := by
  intro t
  obtain ⟨u, hu, hu'⟩ := h t
  exact ⟨u.exchanged π, hu', by simpa using hu⟩

theorem settles (h : e.Mirrors π e') (hu : e.Settles t u) : e'.Settles t (u.exchanged π) := by
  obtain ⟨v, hv, hv'⟩ := h t
  rwa [hu.unique hv]

/-- A free variable is exchanged for a free one. -/
theorem free (h : e.Mirrors π e') (hx : e.get? x = none) : e'.get? (π x) = none :=
  (h.settles (settles_self (isBound_var_eq_false.2 hx))).free

theorem free_iff (h : e.Mirrors π e') : e.get? x = none ↔ e'.get? (π x) = none :=
  ⟨h.free, fun hx => by simpa using h.symm.free hx⟩

/-- **Two free variables are bound, each to the other one.**  Walks that ended at either of them end
at the one that is left free, `y` here and `π x` there. -/
theorem bind_var (h : e.Mirrors π e') (hx : e.get? x = none) (hy : e.get? y = none)
    (hxy : y ≠ x) :
    (e.bind x (.var y)).Mirrors (π * Equiv.swap x y) (e'.bind (π y) (.var (π x))) := by
  have hyx : Term.var y ≠ .var x := fun h => hxy (Term.var.inj h)
  have hπ : Term.var (π x) ≠ .var (π y) := Term.exchanged_ne (π := π) hyx.symm
  intro t
  obtain ⟨u, hu, hu'⟩ := h t
  by_cases hux : u = .var x
  · subst hux
    exact ⟨.var y, hu.bind_self (isBound_var_eq_false.2 hy) hyx,
      by simpa using hu'.bind_of_ne (h.free hy) hπ (.var (π x))⟩
  by_cases huy : u = .var y
  · subst huy
    exact ⟨.var y, hu.bind_of_ne hx hux _,
      by simpa using hu'.bind_self (isBound_var_eq_false.2 (h.free hx)) hπ⟩
  · rw [← Term.exchanged_mul_swap hux huy] at hu'
    refine ⟨u, hu.bind_of_ne hx hux _, hu'.bind_of_ne (h.free hy) ?_ _⟩
    rw [Term.exchanged_mul_swap hux huy]
    exact Term.exchanged_ne huy

/-- **A free variable is bound to a shape,** under both bindings the one that walks end at. -/
theorem bind_shape (h : e.Mirrors π e') (hx : e.get? x = none) (hv : v.isVar = false) :
    (e.bind x v).Mirrors π (e'.bind (π x) v) := by
  have hne : ∀ z, v ≠ .var z := by
    rintro z rfl
    cases hv
  intro t
  obtain ⟨u, hu, hu'⟩ := h t
  by_cases hux : u = .var x
  · subst hux
    refine ⟨v, hu.bind_self (isBound_of_isVar hv) (hne x), ?_⟩
    rw [Term.exchanged_of_isVar hv]
    exact hu'.bind_self (isBound_of_isVar hv) (hne (π x))
  · exact ⟨u, hu.bind_of_ne hx hux _, hu'.bind_of_ne (h.free hx) (Term.exchanged_ne hux) _⟩

end Mirrors

end Bindings

/-! ### Two unifications in step -/

/-- **Answers that agree**: both have no result, both clash, or both find bindings, which mirror
each other. -/
inductive Mirrored : Unified → Unified → Prop where
  | halted (cause : Halt) : Mirrored (.error cause) (.error cause)
  | clash : Mirrored .clash .clash
  | solved {π : Equiv.Perm String} {e e' : Bindings} : e.Mirrors π e' →
      Mirrored (.solved e) (.solved e')

theorem Mirrored.andThen {a a' : Unified} {f f' : Bindings → Unified} (h : Mirrored a a')
    (hf : ∀ π e e', e.Mirrors π e' → Mirrored (f e) (f' e')) :
    Mirrored (a.andThen f) (a'.andThen f') := by
  cases h with
  | halted cause => exact .halted cause
  | clash => exact .clash
  | solved h => exact hf _ _ _ h

/-- Two unifications of terms, the one with its sides exchanged. -/
def Exchanges (step step' : Term → Term → Bindings → Unified) : Prop :=
  ∀ s t π e e', e.Mirrors π e' → Mirrored (step s t e) (step' t s e')

section Steps

variable {step step' : Term → Term → Bindings → Unified} (hstep : Exchanges step step')
include hstep

theorem mirrored_unifyZip (as bs : List Term) (h : e.Mirrors π e') :
    Mirrored (unifyZip step as bs e) (unifyZip step' bs as e') := by
  induction as generalizing bs π e e' with
  | nil => cases bs <;> exact .solved h
  | cons a as ih =>
      cases bs with
      | nil => exact .solved h
      | cons b bs => exact (hstep a b π e e' h).andThen fun _ _ _ h => ih bs h

theorem mirrored_unifyEnds {as bs : List Term} (s t : Option Term) (hnil : as = [] ∨ bs = [])
    (h : e.Mirrors π e') :
    Mirrored (unifyEnds step as s bs t e) (unifyEnds step' bs t as s e') := by
  rcases as with _ | ⟨a, as⟩ <;> rcases bs with _ | ⟨b, bs⟩ <;> rcases s with _ | s <;>
    rcases t with _ | t
  -- both have items only where the hypothesis is false
  all_goals first
    | exact .solved h
    | exact .clash
    | exact hstep _ _ _ _ _ h
    | simp at hnil

theorem mirrored_unifyLists (as bs : List Term) (s t : Option Term) (h : e.Mirrors π e') :
    Mirrored (unifyLists step as s bs t e) (unifyLists step' bs t as s e') := by
  have hnil : as.drop bs.length = [] ∨ bs.drop as.length = [] := by
    simp only [List.drop_eq_nil_iff]
    exact Nat.le_total _ _
  exact (mirrored_unifyZip hstep as bs h).andThen fun _ _ _ h =>
    mirrored_unifyEnds hstep s t hnil h

/-- Two shapes come down to the same equations, exchanged, and clash both ways round. -/
theorem mirrored_shapes (h : e.Mirrors π e') (hu : u.isVar = false) (hv : v.isVar = false) :
    Mirrored (unifyShapes step u v e) (unifyShapes step' v u e') := by
  cases u <;> cases v <;> simp only [Term.isVar, reduceCtorEq] at hu hv <;>
    simp only [unifyShapes]
  case list.list | list.partialList | partialList.list | partialList.partialList =>
    exact mirrored_unifyLists hstep _ _ _ _ h
  case number.number x y =>
    rw [closeEnough_comm y x]
    split
    · exact .solved h
    · exact .clash
  case atom.atom x y =>
    rw [Bool.beq_comm (a := y)]
    split
    · exact .solved h
    · exact .clash
  case compound.compound f as g bs =>
    rw [Bool.beq_comm (a := g), Bool.beq_comm (a := bs.length)]
    split
    · exact mirrored_unifyZip hstep as bs h
    · exact .clash
  case expr.expr o l r p m s =>
    rw [Bool.beq_comm (a := p)]
    split
    · exact (hstep l m π e e' h).andThen fun _ _ _ h => hstep r s _ _ _ h
    · exact .clash
  all_goals exact .clash

omit hstep in
/-- A free variable on the left is bound, or the one on the right in the other run. -/
theorem mirrored_var (h : e.Mirrors π e') (hx : e.get? x = none) (hv : e.isBound v = false) :
    Mirrored (unifyShapes step (.var x) v e)
      (unifyShapes step' (v.exchanged π) (.var (π x)) e') := by
  by_cases hvx : v = .var x
  · subst hvx
    simp only [Term.exchanged_var, unifyShapes_var_self]
    exact .solved h
  rw [unifyShapes_var_left hvx]
  rcases v.exists_var_or_isVar with ⟨y, rfl⟩ | hshape
  · have hyx : y ≠ x := fun hyx => hvx (congrArg Term.var hyx)
    have hπ : Term.var (π x) ≠ .var (π y) := fun h => hyx (π.injective (Term.var.inj h)).symm
    rw [Term.exchanged_var, unifyShapes_var_left hπ]
    exact .solved (h.bind_var hx (Bindings.isBound_var_eq_false.1 hv) hyx)
  · rw [Term.exchanged_of_isVar hshape, unifyShapes_var_right hshape]
    exact .solved (h.bind_shape hx hshape)

/-- **Two ends of walks,** exchanged. -/
theorem mirrored_unifyShapes (h : e.Mirrors π e') (hu : e.isBound u = false)
    (hv : e.isBound v = false) :
    Mirrored (unifyShapes step u v e) (unifyShapes step' (v.exchanged π) (u.exchanged π) e') := by
  rcases u.exists_var_or_isVar with ⟨x, rfl⟩ | hshape
  · exact mirrored_var h (Bindings.isBound_var_eq_false.1 hu) hv
  rw [Term.exchanged_of_isVar hshape]
  rcases v.exists_var_or_isVar with ⟨y, rfl⟩ | hshape'
  · have hne : u ≠ .var (π y) := by
      rintro rfl
      cases hshape
    rw [unifyShapes_var_right hshape, Term.exchanged_var, unifyShapes_var_left hne]
    exact .solved (h.bind_shape (Bindings.isBound_var_eq_false.1 hv) hshape)
  · rw [Term.exchanged_of_isVar hshape']
    exact mirrored_shapes hstep h hshape hshape'

end Steps

/-- **With its terms exchanged, a unification comes to a mirrored answer,** at every depth. -/
theorem mirrored_unifyF (depth : Nat) : Exchanges (unifyF depth) (unifyF depth) := by
  induction depth with
  | zero => exact fun _ _ _ _ _ _ => .halted _
  | succ depth ih =>
      intro s t π e e' h
      obtain ⟨u, hs, hs'⟩ := h s
      obtain ⟨v, ht, ht'⟩ := h t
      rw [unifyF_of_settles hs ht, unifyF_of_settles ht' hs']
      exact mirrored_unifyShapes ih h hs.isBound ht.isBound

/-! ### Substitution under mirrored bindings -/

namespace Bindings.Mirrors

/-- A full expansion has as many levels under both bindings. -/
theorem fits (h : e.Mirrors π e') (ht : e.Fits n t) : e'.Fits n t := by
  induction n generalizing t with
  | zero => exact absurd ht.exists_level (by simp)
  | succ n ih =>
      obtain ⟨u, ⟨names, htrail, hend⟩, names', htrail', -⟩ := h t
      refine .of_trail htrail' ?_
      have hu := ht.trail htrail
      cases hu with
      | number => exact .number
      | atom => exact .atom
      | free hx => exact .free (h.free hx)
      | bound hx _ => simp [hx] at hend
      | compound hargs => exact .compound fun a ha => ih (hargs a ha)
      | list hitems => exact .list fun a ha => ih (hitems a ha)
      | partialList hitems htail => exact .partialList (fun a ha => ih (hitems a ha)) (ih htail)
      | expr hl hr => exact .expr (ih hl) (ih hr)

theorem fits_iff (h : e.Mirrors π e') : e.Fits n t ↔ e'.Fits n t :=
  ⟨h.fits, h.symm.fits⟩

/-- **Substitution differs by the permutation alone,** where the levels suffice. -/
theorem substF (h : e.Mirrors π e') (ht : e.Fits n t) :
    e'.substF n t = (e.substF n t).relabel π := by
  induction n generalizing t with
  | zero => exact absurd ht.exists_level (by simp)
  | succ n ih =>
      obtain ⟨u, hu, hu'⟩ := h t
      obtain ⟨names, htrail, hend⟩ := hu
      have hmap : ∀ ts : List Term, (∀ a ∈ ts, e.Fits n a) →
          ts.map (e'.substF n) = (ts.map (e.substF n)).map (Term.relabel π) := by
        intro ts hts
        rw [List.map_map]
        exact List.map_congr_left fun a ha => ih (hts a ha)
      simp only [Bindings.substF, Settles.walk_eq ⟨names, htrail, hend⟩, hu'.walk_eq]
      have hfit := ht.trail htrail
      cases hfit with
      | number | atom | free _ => rfl
      | bound hx _ => simp [hx] at hend
      | compound hargs => simp only [Term.exchanged, hmap _ hargs, Term.relabel_compound]
      | list hitems => simp only [Term.exchanged, hmap _ hitems, Term.relabel_list]
      | partialList hitems htail =>
          simp only [Term.exchanged, hmap _ hitems, ih htail, Term.relabel_joinTail]
      | expr hl hr => simp only [Term.exchanged, ih hl, ih hr, Term.relabel_expr]

end Bindings.Mirrors

/-! ### Symmetry -/

/-- **Unification is symmetric.**  Under bindings that unifications have made, two terms unify just
when they unify with their sides exchanged, within the same depth, and whatever numbers occur.  Then
a permutation of the names takes the free variables of the one bindings to those of the other, and
all terms within the levels of a substitution, which are the same terms for both, are the same after
substitution up to it. -/
theorem unify_symmetric (he : e.Built) (a b : Term) (depth : Nat) :
    ((∃ e₁, unifyF depth a b e = .ok (some e₁)) ↔ ∃ e₂, unifyF depth b a e = .ok (some e₂)) ∧
      ∀ e₁ e₂, unifyF depth a b e = .ok (some e₁) → unifyF depth b a e = .ok (some e₂) →
        ∃ π : Equiv.Perm String, (∀ x, e₁.get? x = none ↔ e₂.get? (π x) = none) ∧
          ∀ t, (e₁.Fits Bindings.levels t ↔ e₂.Fits Bindings.levels t) ∧
            (e₁.Fits Bindings.levels t → e₂.subst t = (e₁.subst t).relabel π) := by
  have hanswers := mirrored_unifyF depth a b 1 e e (.refl he.walksEnd)
  generalize unifyF depth a b e = r, unifyF depth b a e = r' at hanswers
  cases hanswers with
  | halted cause => simp
  | clash => simp [Unified.clash]
  | @solved π e₁ e₂ h =>
      refine ⟨by simp [Unified.solved], fun _ _ h₁ h₂ => ?_⟩
      cases h₁
      cases h₂
      exact ⟨π, fun _ => h.free_iff, fun t => ⟨h.fits_iff, h.substF⟩⟩

/-- `Y`, for which `X` stands, becomes `Z` in the one run, and `Z` becomes `Y` in the other; the
tail of the shorter list takes what the longer one has left, and the number that `A` is bound to
first is compared with one that is close. -/
theorem unify_symmetric_chain :
    let e : Bindings := Bindings.empty.bind "X" (.var "Y")
    let a : Term := .compound "f" [.var "X", .partialList [.var "A"] (.var "T"), .var "A"]
    let b : Term := .compound "f"
      [.var "Z", .partialList [.number 1, .var "B"] (.var "U"), .number 1.0000000001]
    let t : Term := .compound "g" [.var "X", .var "Z", .var "T"]
    let rest : Term := .partialList [.var "B"] (.var "U")
    e.Built ∧ ∃ e₁ e₂, unifyF 3 a b e = .ok (some e₁) ∧ unifyF 3 b a e = .ok (some e₂) ∧
      e₁.subst t = .compound "g" [.var "Z", .var "Z", rest] ∧
      e₂.subst t = .compound "g" [.var "Y", .var "Y", rest] ∧
      ∃ π : Equiv.Perm String, (∀ x, e₁.get? x = none ↔ e₂.get? (π x) = none) ∧
        e₂.subst t = (e₁.subst t).relabel π := by
  intro e a b t rest
  have he : e.Built :=
    .unified .empty (rfl : unifyF 1 (.var "X") (.var "Y") Bindings.empty = .ok (some e))
  let e₁ := ((e.bind "Y" (.var "Z")).bind "A" (.number 1)).bind "T" rest
  let e₂ := ((e.bind "Z" (.var "Y")).bind "A" (.number 1)).bind "T" rest
  have h₁ : unifyF 3 a b e = .ok (some e₁) := rfl
  have h₂ : unifyF 3 b a e = .ok (some e₂) := rfl
  have hZ : e₁.Fits 3 (.var "Z") := .free rfl
  have hrest : e₁.Fits 3 rest := .partialList (List.forall_mem_singleton.2 (.free rfl)) (.free rfl)
  have ht : e₁.Fits 4 t := .compound (List.forall_mem_cons.2 ⟨.bound rfl (.bound rfl hZ),
    List.forall_mem_cons.2 ⟨hZ, List.forall_mem_singleton.2 (.bound rfl hrest)⟩⟩)
  obtain ⟨π, hfree, hsubst⟩ := (unify_symmetric he a b 3).2 e₁ e₂ h₁ h₂
  exact ⟨he, e₁, e₂, h₁, h₂, rfl, rfl, π, hfree, (hsubst t).2 (ht.mono (by decide))⟩

end RhythmLogic
