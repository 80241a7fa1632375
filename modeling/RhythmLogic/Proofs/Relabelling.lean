/-
**Relabelling: other names for the same variables.**

A relabelling is a function on names, and it acts on everything that holds variables.  No step of a
unification compares two names but for equality, and none makes one up; so if a relabelling keeps
different names apart, then reading a term through bindings, substituting, comparing and unifying
all commute with it, whatever they come to.

Main definitions:

* `Term.relabel`, `Bindings.relabel`, `Unified.relabel` — the action of a function on names.

Main results:

* `Term.relabel_relabel`, `Term.relabel_id` — it is an action;
* `Bindings.walk_relabel`, `Bindings.subst_relabel` — reading through relabelled bindings;
* `unifyF_relabel` — **a unification of relabelled terms is the relabelled unification**, clashes
  and exhausted budgets included;
* `Term.alike_relabel`, `Term.evaluate_relabel` — comparing and computing do not see names.
-/

import RhythmLogic.Builtin.Comparison
import RhythmLogic.Proofs.Renaming

set_option autoImplicit false

namespace RhythmLogic

variable {f g : String → String}

/-! ### Terms -/

namespace Term

/-- A term with other names for its variables. -/
def relabel (f : String → String) (t : Term) : Term := t.inst fun x => .var (f x)

@[simp] theorem relabel_number (x : Float) : (number x).relabel f = number x := rfl

@[simp] theorem relabel_atom (name : String) : (atom name).relabel f = atom name := rfl

@[simp] theorem relabel_var (x : String) : (var x).relabel f = var (f x) := rfl

@[simp] theorem relabel_compound (name : String) (args : List Term) :
    (compound name args).relabel f = compound name (args.map (relabel f)) := by
  simp only [relabel, inst, instAll_eq_map]
  rfl

@[simp] theorem relabel_list (items : List Term) :
    (list items).relabel f = list (items.map (relabel f)) := by
  simp only [relabel, inst, instAll_eq_map]
  rfl

@[simp] theorem relabel_partialList (items : List Term) (tail : Term) :
    (partialList items tail).relabel f = partialList (items.map (relabel f)) (tail.relabel f) := by
  simp only [relabel, inst, instAll_eq_map]
  rfl

@[simp] theorem relabel_expr (op : Op) (l r : Term) :
    (expr op l r).relabel f = expr op (l.relabel f) (r.relabel f) := rfl

@[simp] theorem relabel_listOf (items : List Term) (tail : Option Term) :
    (listOf items tail).relabel f = listOf (items.map (relabel f)) (tail.map (relabel f)) := by
  cases tail <;> simp [listOf]

@[simp] theorem relabel_joinTail (items : List Term) (tail : Term) :
    (joinTail items tail).relabel f = joinTail (items.map (relabel f)) (tail.relabel f) := by
  cases tail <;> simp [joinTail]

theorem relabel_id (t : Term) : t.relabel id = t := inst_self t

/-- Two relabellings, one after the other. -/
theorem relabel_relabel (t : Term) : (t.relabel f).relabel g = t.relabel (g ∘ f) := inst_inst t

/-- A relabelling only matters for the variables that occur. -/
theorem relabel_congr {t : Term} (h : ∀ x, (var x).Occurs t → f x = g x) :
    t.relabel f = t.relabel g :=
  inst_congr fun x hx => congrArg var (h x hx)

/-- The copy of a term for one trial is a relabelled term. -/
theorem rename_eq_relabel (n : Nat) (t : Term) : t.rename n = t.relabel (renamed n) :=
  rename_eq_inst n t

/-- The parts of a relabelled term are the relabelled parts. -/
theorem everywhere_relabel {P : Term → Prop} {t : Term} :
    (t.relabel f).Everywhere P ↔ t.Everywhere fun u => P (u.relabel f) := by
  induction t with
  | number | atom | var => simp
  | compound name args ih =>
      simp only [relabel_compound, everywhere_compound, List.forall_mem_map]
      exact and_congr_right fun _ => forall₂_congr ih
  | list items ih =>
      simp only [relabel_list, everywhere_list, List.forall_mem_map]
      exact and_congr_right fun _ => forall₂_congr ih
  | partialList items tail ih ih' =>
      simp only [relabel_partialList, everywhere_partialList, List.forall_mem_map, ih']
      exact and_congr_right fun _ => and_congr_left fun _ => forall₂_congr ih
  | expr op l r ihl ihr =>
      simp only [relabel_expr, everywhere_expr, ihl, ihr]

@[simp] theorem isVar_relabel (t : Term) : (t.relabel f).isVar = t.isVar := by
  cases t <;> simp [isVar]

@[simp] theorem functor?_relabel (t : Term) : (t.relabel f).functor? = t.functor? := by
  cases t <;> simp [functor?]

@[simp] theorem args_relabel (t : Term) : (t.relabel f).args = t.args.map (relabel f) := by
  cases t <;> simp [args]

/-- Computing does not see names. -/
@[simp] theorem evaluate_relabel (t : Term) : (t.relabel f).evaluate = t.evaluate := by
  induction t with
  | expr op l r ihl ihr => simp only [relabel_expr, evaluate, ihl, ihr]
  | _ => simp [evaluate]

theorem allAlike_relabel {as : List Term}
    (h : ∀ a ∈ as, ∀ b : Term, alike (a.relabel f) (b.relabel f) = alike a b) (bs : List Term) :
    allAlike (as.map (relabel f)) (bs.map (relabel f)) = allAlike as bs := by
  induction as generalizing bs with
  | nil => cases bs <;> rfl
  | cons a as ih =>
      obtain ⟨ha, has⟩ := List.forall_mem_cons.1 h
      cases bs with
      | nil => rfl
      | cons b bs => simp only [List.map_cons, allAlike, ha, ih has]

/-- **Comparing only sees whether names are equal.** -/
theorem alike_relabel (hf : Function.Injective f) (s t : Term) :
    alike (s.relabel f) (t.relabel f) = alike s t := by
  induction s generalizing t with
  | number | atom => cases t <;> simp [alike]
  | var x => cases t <;> simp [alike, hf.eq_iff]
  | compound name args ih => cases t <;> simp [alike, allAlike_relabel ih]
  | list items ih => cases t <;> simp [alike, allAlike_relabel ih]
  | partialList items tail ih ih' => cases t <;> simp [alike, allAlike_relabel ih, ih']
  | expr op l r ihl ihr => cases t <;> simp [alike, ihl, ihr]

end Term

/-! ### Bindings -/

namespace Bindings

variable {e : Bindings}

/-- Bindings with other names, for the variables that are bound and for those in their terms. -/
def relabel (f : String → String) (e : Bindings) : Bindings :=
  ⟨e.entries.map fun p => (f p.1, p.2.relabel f)⟩

@[simp] theorem relabel_empty : empty.relabel f = empty := rfl

@[simp] theorem relabel_bind (e : Bindings) (x : String) (t : Term) :
    (e.bind x t).relabel f = (e.relabel f).bind (f x) (t.relabel f) := rfl

@[simp] theorem size_relabel (e : Bindings) : (e.relabel f).size = e.size := by
  simp [size, relabel]

theorem relabel_id (e : Bindings) : e.relabel id = e := by
  simp [relabel, Term.relabel_id]

theorem relabel_relabel (e : Bindings) : (e.relabel f).relabel g = e.relabel (g ∘ f) := by
  simp [relabel, Term.relabel_relabel]

/-- A name is looked up among other names. -/
theorem get?_relabel (hf : Function.Injective f) (e : Bindings) (x : String) :
    (e.relabel f).get? (f x) = (e.get? x).map (Term.relabel f) := by
  obtain ⟨entries⟩ := e
  simp only [get?, relabel]
  induction entries with
  | nil => rfl
  | cons p entries ih =>
      obtain ⟨y, t⟩ := p
      have hxy : (f x == f y) = (x == y) := by
        rw [Bool.eq_iff_iff, beq_iff_eq, beq_iff_eq, hf.eq_iff]
      simp only [List.map_cons, List.lookup_cons, hxy, ih]
      cases x == y <;> rfl

theorem isBound_relabel (hf : Function.Injective f) (e : Bindings) (t : Term) :
    (e.relabel f).isBound (t.relabel f) = e.isBound t := by
  cases t <;> simp [isBound, get?_relabel hf]

theorem walkF_relabel (hf : Function.Injective f) (e : Bindings) (fuel : Nat) (t : Term) :
    (e.relabel f).walkF fuel (t.relabel f) = (e.walkF fuel t).relabel f := by
  induction fuel generalizing t with
  | zero => rfl
  | succ fuel ih =>
      cases t with
      | var x =>
          simp only [Term.relabel_var, walkF, get?_relabel hf]
          cases e.get? x with
          | none => rfl
          | some u => exact ih u
      | _ => simp [walkF]

/-- **A walk through relabelled bindings** comes to the relabelled end. -/
theorem walk_relabel (hf : Function.Injective f) (e : Bindings) (t : Term) :
    (e.relabel f).walk (t.relabel f) = (e.walk t).relabel f := by
  cases t with
  | var x =>
      have h := walkF_relabel hf e (e.size + 1) (.var x)
      simpa [walk] using h
  | _ => simp [walk]

theorem substF_relabel (hf : Function.Injective f) (e : Bindings) (depth : Nat) (t : Term) :
    (e.relabel f).substF depth (t.relabel f) = (e.substF depth t).relabel f := by
  induction depth generalizing t with
  | zero => rfl
  | succ depth ih =>
      have hmap : ∀ ts : List Term, (ts.map (Term.relabel f)).map ((e.relabel f).substF depth) =
          (ts.map (e.substF depth)).map (Term.relabel f) := by
        intro ts
        simp [ih]
      simp only [substF, walk_relabel hf]
      cases e.walk t <;>
        simp only [Term.relabel_number, Term.relabel_atom, Term.relabel_var,
          Term.relabel_compound, Term.relabel_list, Term.relabel_partialList, Term.relabel_expr,
          Term.relabel_joinTail, hmap, ih]

/-- **Substituting relabelled bindings** gives the relabelled term. -/
theorem subst_relabel (hf : Function.Injective f) (e : Bindings) (t : Term) :
    (e.relabel f).subst (t.relabel f) = (e.subst t).relabel f := substF_relabel hf e levels t

end Bindings

/-! ### Unification -/

/-- What a unification comes to, under other names. -/
def Unified.relabel (f : String → String) (u : Unified) : Unified :=
  u.map (Option.map (Bindings.relabel f))

@[simp] theorem relabel_solved (e : Bindings) :
    (Unified.solved e).relabel f = .solved (e.relabel f) := rfl

@[simp] theorem relabel_clash : Unified.clash.relabel f = .clash := rfl

theorem andThen_relabel {u : Unified} {next next' : Bindings → Unified}
    (h : ∀ e, next' (e.relabel f) = (next e).relabel f) :
    (u.relabel f).andThen next' = (u.andThen next).relabel f := by
  rcases u with cause | _ | e
  · rfl
  · rfl
  · exact h e

/-- A unification of relabelled terms is the relabelled one. -/
def Relabels (f : String → String) (step : Term → Term → Bindings → Unified) : Prop :=
  ∀ s t e, step (s.relabel f) (t.relabel f) (e.relabel f) = (step s t e).relabel f

section Unify

variable {step : Term → Term → Bindings → Unified} (hstep : Relabels f step)
include hstep

theorem unifyZip_relabel (as bs : List Term) (e : Bindings) :
    unifyZip step (as.map (Term.relabel f)) (bs.map (Term.relabel f)) (e.relabel f) =
      (unifyZip step as bs e).relabel f := by
  induction as generalizing bs e with
  | nil => rfl
  | cons a as ih =>
      cases bs with
      | nil => rfl
      | cons b bs =>
          simp only [List.map_cons, unifyZip, hstep a b e]
          exact andThen_relabel (ih bs)

theorem unifyEnds_relabel (as : List Term) (s : Option Term) (bs : List Term) (t : Option Term)
    (e : Bindings) :
    unifyEnds step (as.map (Term.relabel f)) (s.map (Term.relabel f)) (bs.map (Term.relabel f))
      (t.map (Term.relabel f)) (e.relabel f) = (unifyEnds step as s bs t e).relabel f := by
  rcases as with _ | ⟨a, as⟩
  · rcases bs with _ | ⟨b, bs⟩
    · rcases s with _ | s <;> rcases t with _ | t
      · rfl
      · exact hstep (.list []) t e
      · exact hstep s (.list []) e
      · exact hstep s t e
    · rcases s with _ | s
      · rfl
      · have h := hstep s (.listOf (b :: bs) t) e
        rwa [Term.relabel_listOf] at h
  · rcases t with _ | t
    · rfl
    · have h := hstep (.listOf (a :: as) s) t e
      rwa [Term.relabel_listOf] at h

theorem unifyLists_relabel (as : List Term) (s : Option Term) (bs : List Term) (t : Option Term)
    (e : Bindings) :
    unifyLists step (as.map (Term.relabel f)) (s.map (Term.relabel f)) (bs.map (Term.relabel f))
      (t.map (Term.relabel f)) (e.relabel f) = (unifyLists step as s bs t e).relabel f := by
  simp only [unifyLists, List.length_map, ← List.map_drop, unifyZip_relabel hstep]
  exact andThen_relabel (unifyEnds_relabel hstep _ _ _ _)

/-- Two terms that were walked, under other names. -/
theorem unifyShapes_relabel (hf : Function.Injective f) : Relabels f (unifyShapes step) := by
  intro s t e
  cases s <;> cases t <;>
    simp only [Term.relabel_number, Term.relabel_atom, Term.relabel_var, Term.relabel_compound,
      Term.relabel_list, Term.relabel_partialList, Term.relabel_expr, unifyShapes]
  case var.var x y =>
    by_cases h : x = y
    · simp [h]
    · simp [h, hf.eq_iff]
  case list.list as bs => exact unifyLists_relabel hstep as none bs none e
  case list.partialList as bs t => exact unifyLists_relabel hstep as none bs (some t) e
  case partialList.list as s bs => exact unifyLists_relabel hstep as (some s) bs none e
  case partialList.partialList as s bs t =>
    exact unifyLists_relabel hstep as (some s) bs (some t) e
  case compound.compound name as name' bs =>
    rw [List.length_map, List.length_map]
    split
    · exact unifyZip_relabel hstep as bs e
    · rfl
  case expr.expr op l r op' l' r' =>
    split
    · rw [hstep l l' e]
      exact andThen_relabel (hstep r r')
    · rfl
  all_goals first | rfl | (split <;> rfl) | simp

end Unify

/-- **A unification of relabelled terms is the relabelled unification.** -/
theorem unifyF_relabel (hf : Function.Injective f) (depth : Nat) :
    Relabels f (unifyF depth) := by
  induction depth with
  | zero => exact fun _ _ _ => rfl
  | succ depth ih =>
      intro s t e
      simp only [unifyF, Bindings.walk_relabel hf, Bindings.isBound_relabel hf]
      split
      · rfl
      · exact unifyShapes_relabel ih hf _ _ _

theorem unify_relabel (hf : Function.Injective f) (s t : Term) (e : Bindings) :
    unify (s.relabel f) (t.relabel f) (e.relabel f) = (unify s t e).relabel f :=
  unifyF_relabel hf unificationDepth s t e

end RhythmLogic
