/-
**Unifiers, and the completeness of unification.**

An assignment under which both sides of an equation have the same value is a *unifier* of it.  A
unification has no occurs check, so its terms may grow as it goes down; but under a unifier their
values shrink, since the children of a term have smaller values than the term.  So a unification of
terms that have a unifier ends, it succeeds, and every unifier satisfies what it binds.

This is so for terms that are *regular*: a list with a tail has an item, and the numbers are such
that the tolerance is exact on them.  A list without items has the value of its tail, and down such
lists the values need not shrink.

Main definitions:

* `Term.Regular` — no empty list with a tail, and no number outside of a given range;
* `Bindings.Models` — **what a unification keeps** of regular bindings that an assignment satisfies;
* `Bindings.Built` — bindings that unifications have made.

Main results:

* `Splits.values` — the children of terms of one value have the same values, and smaller ones;
* `Solves.models`, `Solves.values` — **the unifiers of the equations are the assignments that
  satisfy the bindings that are found**;
* `unifyF_ends` — the unification of terms that have a unifier ends;
* `unify_complete` — **a unification finds the most general bindings**.
-/

import RhythmLogic.Proofs.Expansion
import RhythmLogic.Proofs.Values

set_option autoImplicit false

namespace RhythmLogic

/-! ### Regular terms -/

namespace Term

variable {N : Float → Prop}

/-- A number is in a range. -/
def InRange (N : Float → Prop) (t : Term) : Prop := ∀ x, t = .number x → N x

/-- **A part of a regular term**: no empty list with a tail, and no number outside of the range. -/
def Regular (N : Float → Prop) (t : Term) : Prop := t.HasItems ∧ t.InRange N

theorem stable_inRange : Stable (InRange N) where
  nil x := by simp
  cons a items tail x := by cases tail <;> simp [listOf]

theorem stable_regular : Stable (Regular N) where
  nil := ⟨stable_hasItems.nil, stable_inRange.nil⟩
  cons a items tail := ⟨stable_hasItems.cons a items tail, stable_inRange.cons a items tail⟩

theorem regular_var (x : String) : (Term.var x).Regular N :=
  ⟨fun tail => by simp, fun y => by simp⟩

theorem Everywhere.full {t : Term} (h : t.Everywhere (Regular N)) : t.Full :=
  full_iff.2 (h.mono fun _ hu => hu.1)

/-- A list with a tail has an item, if it is regular. -/
theorem Everywhere.items_ne_nil {items : List Term} {tail : Term}
    (h : (Term.partialList items tail).Everywhere (Regular N)) : items ≠ [] := by
  rintro rfl
  exact h.self.1 tail rfl

end Term

open Term

variable {ν : Float → Float} {N : Float → Prop} {θ : String → Term} {s t u v : Term}
  {eqs : List Equation} {e e' : Bindings}

/-! ### The values of children -/

theorem zip_of_map_eq {F : Term → Term} {as bs : List Term} (h : as.map F = bs.map F) :
    ∀ p ∈ as.zip bs, F p.1 = F p.2 := by
  have hlen : as.length = bs.length := by simpa using congrArg List.length h
  rw [← List.forall₂_eq_eq_eq] at h
  exact (forall₂_map_iff hlen).1 h

/-- Items in pairs are smaller than a row that has the left ones. -/
theorem size_lt_of_mem_zip {F : Term → Term} {as bs : List Term} {p : Equation}
    (hp : p ∈ as.zip bs) : (F p.1).size < allSize (as.map F) + 1 :=
  Nat.lt_succ_of_le (size_le_allSize (List.mem_map_of_mem (List.of_mem_zip hp).1))

/-- **The equations between two lists of one value**, when their items and tails are joined to it:
items and tails have the same values, and they are smaller than the lists. -/
theorem values_of_joinTail {as bs : List Term} {s t : Term} (hlen : as.length = bs.length)
    (hne : as ≠ []) (hs : (s.value ν θ).HasItems) (ht : (t.value ν θ).HasItems)
    (heq : joinTail (as.map (value ν θ)) (s.value ν θ) =
      joinTail (bs.map (value ν θ)) (t.value ν θ)) :
    ∀ p ∈ as.zip bs ++ [(s, t)], p.1.value ν θ = p.2.value ν θ ∧
      (p.1.value ν θ).size < (joinTail (as.map (value ν θ)) (s.value ν θ)).size := by
  obtain ⟨hitems, htail⟩ := joinTail_inj (by simpa using hlen) hs ht heq
  intro p hp
  rcases List.mem_append.1 hp with hp | hp
  · have ha : p.1.value ν θ ∈ as.map (value ν θ) := List.mem_map_of_mem (List.of_mem_zip hp).1
    exact ⟨zip_of_map_eq hitems p hp, size_item_lt_joinTail ha _⟩
  · rw [List.mem_singleton] at hp
    subst hp
    exact ⟨htail, size_lt_joinTail (by simpa using hne) _⟩

/-- **The children of two terms of one value have the same values,** and smaller ones. -/
theorem Splits.values (h : Splits s t eqs) (hs : s.Everywhere (Regular N))
    (ht : t.Everywhere (Regular N)) (hθ : ∀ x, (θ x).Full)
    (heq : s.value ν θ = t.value ν θ) :
    ∀ p ∈ eqs, p.1.value ν θ = p.2.value ν θ ∧ (p.1.value ν θ).size < (s.value ν θ).size := by
  have hregular := h.equationsIn stable_regular.hereditary hs ht
  -- no side of an equation between children is an empty list with a tail
  have hitems : ∀ p ∈ eqs, (p.1.value ν θ).HasItems ∧ (p.2.value ν θ).HasItems := fun p hp =>
    ⟨(hregular p hp).1.full.value hθ, (hregular p hp).2.full.value hθ⟩
  cases h with
  | number | atom => simp
  | compound hlen =>
      rw [value_compound, value_compound] at heq
      exact fun p hp => ⟨zip_of_map_eq (Term.compound.inj heq).2 p hp,
        by simpa [size] using size_lt_of_mem_zip hp⟩
  | expr =>
      rw [value_expr, value_expr] at heq
      obtain ⟨-, hl, hr⟩ := Term.expr.inj heq
      simp only [List.forall_mem_cons, value_expr, size]
      exact ⟨⟨hl, by omega⟩, ⟨hr, by omega⟩, by simp⟩
  | lists hlen =>
      rw [value_list, value_list] at heq
      exact fun p hp => ⟨zip_of_map_eq (Term.list.inj heq) p hp,
        by simpa [size] using size_lt_of_mem_zip hp⟩
  | @tails as bs s t hlen =>
      obtain ⟨hsi, hti⟩ := hitems (s, t) (by simp)
      rw [value_partialList, value_partialList] at heq
      rw [value_partialList]
      exact values_of_joinTail hlen hs.items_ne_nil hsi hti heq
  | @leftTail as bs rest s t hlen hrest =>
      obtain ⟨hsi, hti⟩ := hitems (s, Term.listOf rest t) (by simp)
      rw [value_partialList,
        (valuation_value ν θ).listOf_append hereditary_true trivial hrest] at heq
      rw [value_partialList]
      exact values_of_joinTail hlen hs.items_ne_nil hsi hti heq
  | @rightTail as bs rest s t hlen hrest =>
      obtain ⟨hsi, hti⟩ := hitems (Term.listOf rest s, t) (by simp)
      have hne : as ≠ [] := by
        rintro rfl
        exact ht.items_ne_nil (List.length_eq_zero_iff.1 hlen.symm)
      rw [value_partialList,
        (valuation_value ν θ).listOf_append hereditary_true trivial hrest] at heq
      rw [(valuation_value ν θ).listOf_append hereditary_true trivial hrest]
      exact values_of_joinTail hlen hne hsi hti heq

/-! ### Terms of one value do not clash -/

/-- Joined items are a list. -/
theorem ne_joinTail (h : t.list? = none) (items : List Term) (tail : Term) :
    t ≠ joinTail items tail := by
  rintro rfl
  simp [joinTail_eq_listOf] at h

/-- No list has more items than a proper list of its value. -/
theorem length_le_of_value_eq {as bs : List Term} {s : Option Term}
    (h : (Term.listOf as s).value ν θ = (Term.list bs).value ν θ) : as.length ≤ bs.length := by
  rw [value_list] at h
  cases s with
  | none =>
      rw [Term.listOf, value_list] at h
      have hlen := congrArg List.length (Term.list.inj h)
      simp only [List.length_map] at hlen
      omega
  | some s =>
      rw [Term.listOf, value_partialList, joinTail_eq_listOf] at h
      obtain ⟨hitems, -⟩ := listOf_inj (t := none).1 h
      have hlen := congrArg List.length hitems
      simp only [List.length_append, List.length_map] at hlen
      omega

theorem listEquations?_of_value_eq {as bs : List Term} {s t : Option Term}
    (h : (Term.listOf as s).value ν θ = (Term.listOf bs t).value ν θ) :
    ∃ eqs, listEquations? as s bs t = some eqs := by
  refine exists_listEquations? ?_ ?_
  · rintro rfl
    exact length_le_of_value_eq h.symm
  · rintro rfl
    exact length_le_of_value_eq h

/-- **Terms with a shape and of one value have equations.** -/
theorem equations?_of_value_eq (hN : Exact ν N) (hs : s.InRange N) (ht : t.InRange N)
    (hsv : s.isVar = false) (htv : t.isVar = false) (h : s.value ν θ = t.value ν θ) :
    ∃ eqs, s.equations? t = some eqs := by
  cases s <;> cases t <;> simp only [Term.isVar, reduceCtorEq] at hsv htv <;>
    simp only [Term.equations?]
  case list.list | list.partialList | partialList.list | partialList.partialList =>
    exact listEquations?_of_value_eq h
  case number.number x y =>
    have hxy : closeEnough x y = true :=
      (hN x y (hs x rfl) (ht y rfl)).2 (Term.number.inj h)
    exact ⟨[], if_pos hxy⟩
  case atom.atom x y =>
    obtain rfl := Term.atom.inj h
    exact ⟨[], by simp⟩
  case compound.compound f as g bs =>
    rw [value_compound, value_compound] at h
    obtain ⟨rfl, hargs⟩ := Term.compound.inj h
    have hlen : as.length = bs.length := by simpa using congrArg List.length hargs
    exact ⟨as.zip bs, by simp [hlen]⟩
  case expr.expr o l r p m s =>
    obtain ⟨rfl, -, -⟩ := Term.expr.inj h
    exact ⟨[(l, m), (r, s)], by simp⟩
  all_goals
    simp only [value_number, value_atom, value_compound, value_list, value_partialList, value_expr,
      reduceCtorEq] at h
  all_goals
    first
    | exact absurd h (ne_joinTail rfl _ _)
    | exact absurd h.symm (ne_joinTail rfl _ _)

/-! ### Unifiers -/

/-- **What a unification keeps** of regular bindings, and of an assignment that satisfies them. -/
structure Bindings.Models (ν : Float → Float) (N : Float → Prop) (θ : String → Term)
    (e : Bindings) : Prop where
  walksEnd : e.WalksEnd
  regular : e.Everywhere (Regular N)
  satisfied : e.SatisfiedBy ν θ

/-- An assignment is a **unifier** of regular equations. -/
structure Unifies (ν : Float → Float) (N : Float → Prop) (θ : String → Term)
    (eqs : List Equation) : Prop where
  regular : EquationsIn (Term.Everywhere (Regular N)) eqs
  values : ∀ p ∈ eqs, p.1.value ν θ = p.2.value ν θ

theorem unifies_cons : Unifies ν N θ ((s, t) :: eqs) ↔
    (s.Everywhere (Regular N) ∧ t.Everywhere (Regular N) ∧ s.value ν θ = t.value ν θ) ∧
      Unifies ν N θ eqs := by
  constructor
  · intro ⟨hregular, hvalues⟩
    obtain ⟨⟨hs, ht⟩, hrest⟩ := equationsIn_cons.1 hregular
    obtain ⟨heq, hmore⟩ := List.forall_mem_cons.1 hvalues
    exact ⟨⟨hs, ht, heq⟩, hrest, hmore⟩
  · intro ⟨⟨hs, ht, heq⟩, hrest, hmore⟩
    exact ⟨equationsIn_cons.2 ⟨⟨hs, ht⟩, hrest⟩, List.forall_mem_cons.2 ⟨heq, hmore⟩⟩

theorem unifies_append {eqs' : List Equation} (h : Unifies ν N θ eqs)
    (h' : Unifies ν N θ eqs') : Unifies ν N θ (eqs ++ eqs') where
  regular := equationsIn_append.2 ⟨h.regular, h'.regular⟩
  values p hp := (List.mem_append.1 hp).elim (h.values p) (h'.values p)

/-- What two terms of one value stand for has one value. -/
theorem Bindings.Models.settles (h : e.Models ν N θ) (hs : e.Settles s u)
    (hreg : s.Everywhere (Regular N)) :
    u.Everywhere (Regular N) ∧ s.value ν θ = u.value ν θ :=
  ⟨hs.everywhere h.regular hreg, h.satisfied.settles hs⟩

/-- **A unifier of the equations satisfies all bindings that are found,** and there are some. -/
theorem Solves.models (hN : Exact ν N) (hθ : ∀ x, (θ x).Full) {r : Option Bindings}
    (h : Solves eqs e r) (heqs : Unifies ν N θ eqs) (he : e.Models ν N θ) :
    ∃ e', r = some e' ∧ e'.Models ν N θ := by
  induction h with
  | done => exact ⟨_, rfl, he⟩
  | same _ _ _ ih => exact ih (unifies_cons.1 heqs).2 he
  | bindLeft hs ht hne _ ih =>
      obtain ⟨⟨hsr, htr, heq⟩, hrest⟩ := unifies_cons.1 heqs
      obtain ⟨hx, hsv⟩ := he.settles hs hsr
      obtain ⟨hu, htv⟩ := he.settles ht htr
      exact ih hrest ⟨he.walksEnd.bind hs.free ht.isBound hne, he.regular.bind hx.self hu,
        he.satisfied.bind (hsv.symm.trans (heq.trans htv))⟩
  | bindRight hs hu ht _ ih =>
      obtain ⟨⟨hsr, htr, heq⟩, hrest⟩ := unifies_cons.1 heqs
      obtain ⟨hur, hsv⟩ := he.settles hs hsr
      obtain ⟨hy, htv⟩ := he.settles ht htr
      refine ih hrest ⟨he.walksEnd.bind ht.free hs.isBound ?_, he.regular.bind hy.self hur,
        he.satisfied.bind (htv.symm.trans (heq.symm.trans hsv))⟩
      rintro rfl
      cases hu
  | split hs ht hsplit _ ih =>
      obtain ⟨⟨hsr, htr, heq⟩, hrest⟩ := unifies_cons.1 heqs
      obtain ⟨hu, hsv⟩ := he.settles hs hsr
      obtain ⟨hv, htv⟩ := he.settles ht htr
      have huv := hsv.symm.trans (heq.trans htv)
      have hchildren : Unifies ν N θ _ := ⟨hsplit.equationsIn stable_regular.hereditary hu hv,
        fun p hp => (hsplit.values hu hv hθ huv p hp).1⟩
      exact ih (unifies_append hchildren hrest) he
  | clash hs ht hu hv hnone =>
      obtain ⟨⟨hsr, htr, heq⟩, -⟩ := unifies_cons.1 heqs
      obtain ⟨hur, hsv⟩ := he.settles hs hsr
      obtain ⟨hvr, htv⟩ := he.settles ht htr
      -- two shapes of one value have equations, so this rule is never used
      obtain ⟨eqs, heqs⟩ := equations?_of_value_eq hN hur.self.2 hvr.self.2 hu hv
        (hsv.symm.trans (heq.trans htv))
      simp [hnone] at heqs

/-- Values see through bindings that the assignment satisfies. -/
theorem seesThrough_value (he : e.Everywhere (InRange N)) (hsat : e.SatisfiedBy ν θ) :
    SeesThrough e (Term.Everywhere (InRange N)) (Term.value ν θ) :=
  fun x t hx _ => ⟨(he x t hx).2, hsat x t hx⟩

/-- **What satisfies the bindings that are found is a unifier of the equations.**  Nothing is
assumed of their lists. -/
theorem Solves.values (hN : Exact ν N) {r : Option Bindings} (h : Solves eqs e r)
    (hr : r = some e') (heqs : EquationsIn (Term.Everywhere (InRange N)) eqs)
    (he : e.Everywhere (InRange N)) (hsat : e'.SatisfiedBy ν θ) :
    ∀ p ∈ eqs, p.1.value ν θ = p.2.value ν θ := by
  have he' : e'.Everywhere (InRange N) := h.everywhere hr stable_inRange heqs he
  have hvaluation : Valuation (Term.Everywhere (InRange N)) (Term.value ν θ) :=
    (valuation_value ν θ).mono fun _ _ => trivial
  refine h.related congruence_eq (fun _ => rfl) stable_inRange.hereditary hvaluation
    (seesThrough_value he' hsat) ?_ hr (Bindings.le_refl e') heqs
  intro x y hx hy hxy
  exact congrArg Term.number ((hN x y (hx.self x rfl) (hy.self y rfl)).1 hxy)

/-! ### Unifications end -/

/-- Equations are worked off, if the values of their sides are small enough for `step`. -/
theorem runEquations_ends {n : Nat} (hN : Exact ν N) (hθ : ∀ x, (θ x).Full)
    (hstep : ∀ s t e, Unifies ν N θ [(s, t)] → (s.value ν θ).size < n → e.Models ν N θ →
      ∃ r, unifyF n s t e = .ok r)
    (heqs : Unifies ν N θ eqs) (hsize : ∀ p ∈ eqs, (p.1.value ν θ).size < n)
    (he : e.Models ν N θ) : ∃ r, runEquations (unifyF n) eqs e = .ok r := by
  induction eqs generalizing e with
  | nil => exact ⟨_, rfl⟩
  | cons p rest ih =>
      obtain ⟨s, t⟩ := p
      obtain ⟨hst, hrest⟩ := unifies_cons.1 heqs
      obtain ⟨hs, hsizes⟩ := List.forall_mem_cons.1 hsize
      have hone : Unifies ν N θ [(s, t)] := unifies_cons.2 ⟨hst, by simp, by simp⟩
      obtain ⟨r, hr⟩ := hstep s t e hone hs he
      -- the unifier survives the first equation, so that the rest has one as well
      obtain ⟨e', rfl, he'⟩ := (solves_of_unifyF hr).models hN hθ hone he
      rw [runEquations_cons, hr]
      exact ih hrest hsizes he'

/-- **The unification of terms that have a unifier ends.**  It goes down as deep as their value at
most: the children have smaller values, and the walks end. -/
theorem unifyF_ends (hN : Exact ν N) (hθ : ∀ x, (θ x).Full) (n : Nat) : ∀ s t e,
    Unifies ν N θ [(s, t)] → (s.value ν θ).size < n → e.Models ν N θ →
      ∃ r, unifyF n s t e = .ok r := by
  induction n with
  | zero => intro s t e _ h; omega
  | succ n ih =>
      intro s t e hst hsize he
      obtain ⟨⟨hsr, htr, heq⟩, -⟩ := unifies_cons.1 hst
      obtain ⟨u, hs⟩ := he.walksEnd s
      obtain ⟨v, ht⟩ := he.walksEnd t
      obtain ⟨hur, hsv⟩ := he.settles hs hsr
      obtain ⟨hvr, htv⟩ := he.settles ht htr
      have huv := hsv.symm.trans (heq.trans htv)
      rw [unifyF_of_settles hs ht]
      -- a variable is bound at once; two shapes of one value have equations of smaller values
      by_cases hu : u.isVar = true
      · cases u <;> simp only [Term.isVar, Bool.false_eq_true] at hu
        next x =>
        by_cases hv : v = .var x
        · subst hv
          exact ⟨_, unifyShapes_var_self x e⟩
        · exact ⟨_, unifyShapes_var_left hv e⟩
      by_cases hv : v.isVar = true
      · cases v <;> simp only [Term.isVar, Bool.false_eq_true] at hv
        next y => exact ⟨_, unifyShapes_var_right (by simpa using hu) y e⟩
      obtain ⟨eqs, heqs⟩ := equations?_of_value_eq hN hur.self.2 hvr.self.2 (by simpa using hu)
        (by simpa using hv) huv
      have hsplit := splits_of_equations? heqs
      have hvalues := hsplit.values hur hvr hθ huv
      rw [unifyShapes_eq_run heqs]
      refine runEquations_ends hN hθ ih ⟨hsplit.equationsIn stable_regular.hereditary hur hvr,
        fun p hp => (hvalues p hp).1⟩ (fun p hp => ?_) he
      have := (hvalues p hp).2
      rw [hsv] at hsize
      omega

/-! ### Expansions are finite -/

namespace Bindings

/-- A term expands like what it stands for. -/
theorem Fits.of_trail {names : List String} {n : Nat} (h : e.Trail names t u)
    (hu : e.Fits n u) : e.Fits n t := by
  induction h with
  | stay => exact hu
  | follow hx _ ih => exact .bound hx (ih hu)

/-- Finitely many finite expansions have a common bound. -/
theorem exists_fits_all {ts : List Term} (h : ∀ t ∈ ts, ∃ n, e.Fits n t) :
    ∃ n, ∀ t ∈ ts, e.Fits n t := by
  induction ts with
  | nil => exact ⟨0, by simp⟩
  | cons t ts ih =>
      obtain ⟨ht, hts⟩ := List.forall_mem_cons.1 h
      obtain ⟨m, hm⟩ := ht
      obtain ⟨n, hn⟩ := ih hts
      exact ⟨max m n, List.forall_mem_cons.2 ⟨hm.mono (Nat.le_max_left m n),
        fun a ha => (hn a ha).mono (Nat.le_max_right m n)⟩⟩

/-- The expansion of a term with a shape is finite if those of its children are. -/
theorem exists_fits_compound {f : String} {args : List Term}
    (h : ∀ a ∈ args, ∃ n, e.Fits n a) : ∃ n, e.Fits n (.compound f args) := by
  obtain ⟨n, hn⟩ := exists_fits_all h
  exact ⟨n + 1, .compound hn⟩

theorem exists_fits_list {items : List Term} (h : ∀ a ∈ items, ∃ n, e.Fits n a) :
    ∃ n, e.Fits n (.list items) := by
  obtain ⟨n, hn⟩ := exists_fits_all h
  exact ⟨n + 1, .list hn⟩

theorem exists_fits_partialList {items : List Term} {tail : Term}
    (h : ∀ a ∈ items, ∃ n, e.Fits n a) (htail : ∃ n, e.Fits n tail) :
    ∃ n, e.Fits n (.partialList items tail) := by
  obtain ⟨n, hn⟩ := exists_fits_all (List.forall_mem_cons.2 ⟨htail, h⟩)
  obtain ⟨htail, hitems⟩ := List.forall_mem_cons.1 hn
  exact ⟨n + 1, .partialList hitems htail⟩

theorem exists_fits_expr {op : Op} {l r : Term} (hl : ∃ n, e.Fits n l) (hr : ∃ n, e.Fits n r) :
    ∃ n, e.Fits n (.expr op l r) := by
  have hboth : ∀ t ∈ [l, r], ∃ n, e.Fits n t := by simpa using ⟨hl, hr⟩
  obtain ⟨n, hn⟩ := exists_fits_all hboth
  exact ⟨n + 1, .expr (hn l (by simp)) (hn r (by simp))⟩

/-- A regular term expands to a finite one: the children of what it stands for have smaller
values. -/
theorem Models.fits (he : e.Models ν N θ) (ht : t.Everywhere (Regular N)) :
    ∃ n, e.Fits n t := by
  induction hsize : (t.value ν θ).size using Nat.strongRecOn generalizing t with
  | ind size ih =>
    subst hsize
    obtain ⟨u, names, htrail, hend⟩ := he.walksEnd t
    obtain ⟨hu, htu⟩ := he.settles ⟨names, htrail, hend⟩ ht
    rw [htu] at ih
    -- the measure is the value of what the term stands for, since a walk changes no value
    have hchild : ∀ c : Term, c.Everywhere (Regular N) →
        (c.value ν θ).size < (u.value ν θ).size → ∃ n, e.Fits n c := fun c hc hlt =>
      ih _ hlt hc rfl
    suffices hfit : ∃ n, e.Fits n u by
      obtain ⟨n, hn⟩ := hfit
      exact ⟨n, .of_trail htrail hn⟩
    cases u with
    | number x => exact ⟨1, .number⟩
    | atom name => exact ⟨1, .atom⟩
    | var x => exact ⟨1, .free (isBound_var_eq_false.1 hend)⟩
    | compound f args =>
        refine exists_fits_compound fun a ha => hchild a ((everywhere_compound.1 hu).2 a ha) ?_
        have := size_le_allSize (List.mem_map_of_mem (f := Term.value ν θ) ha)
        simp only [value_compound, Term.size]
        omega
    | list items =>
        refine exists_fits_list fun a ha => hchild a ((everywhere_list.1 hu).2 a ha) ?_
        have := size_le_allSize (List.mem_map_of_mem (f := Term.value ν θ) ha)
        simp only [value_list, Term.size]
        omega
    | partialList items tail =>
        obtain ⟨-, hitems, htail⟩ := everywhere_partialList.1 hu
        rw [value_partialList] at hchild
        exact exists_fits_partialList
          (fun a ha => hchild a (hitems a ha)
            (size_item_lt_joinTail (List.mem_map_of_mem ha) _))
          (hchild tail htail (size_lt_joinTail (by simpa using hu.items_ne_nil) _))
    | expr op l r =>
        obtain ⟨-, hl, hr⟩ := everywhere_expr.1 hu
        rw [value_expr, Term.size] at hchild
        exact exists_fits_expr (hchild l hl (by omega)) (hchild r hr (by omega))

/-- Bindings are acyclic if their variables expand to something finite. -/
theorem acyclic_of_var (h : ∀ x, ∃ n, e.Fits n (.var x)) : e.Acyclic := by
  intro t
  induction t with
  | number x => exact ⟨1, .number⟩
  | atom name => exact ⟨1, .atom⟩
  | var x => exact h x
  | compound f args ih => exact exists_fits_compound ih
  | list items ih => exact exists_fits_list ih
  | partialList items tail ih ih' => exact exists_fits_partialList ih ih'
  | expr op l r ihl ihr => exact exists_fits_expr ihl ihr

/-- **Regular bindings that an assignment satisfies are acyclic.** -/
theorem Models.acyclic (he : e.Models ν N θ) : e.Acyclic :=
  acyclic_of_var fun x => he.fits (everywhere_var.2 (regular_var x))

/-! ### Bindings that unifications have made -/

/-- **Bindings that unifications have made,** of any terms and one after the other. -/
inductive Built : Bindings → Prop where
  | empty : Built empty
  | unified {e e' : Bindings} {depth : Nat} {s t : Term} :
      Built e → unifyF depth s t e = .ok (some e') → Built e'

theorem Built.walksEnd (h : e.Built) : e.WalksEnd := by
  induction h with
  | empty => exact walksEnd_empty
  | unified _ h ih => exact (solves_of_unifyF h).walksEnd rfl ih

/-- A term occurs in what is bound. -/
def Mentions (u : Term) (e : Bindings) : Prop := ∃ x t, e.get? x = some t ∧ u.Occurs t

end Bindings

/-- A full term is regular, for every range that its numbers are in. -/
theorem Term.Full.regular (h : t.Full) (hN : ∀ x, (Term.number x).Occurs t → N x) :
    t.Everywhere (Regular N) :=
  fun u hu => ⟨full_iff.1 h u hu, fun x hux => hN x (hux ▸ hu)⟩

/-- **Unification is complete and most general.**  Let `a`, `b` and `e` hold no empty list with a
tail, and let the tolerance be exact on their numbers.  If an assignment satisfies what is bound in
`e` and makes `a` and `b` equal, then their unification ends within the depth of their value, it
succeeds, what it binds is acyclic, and the assignment satisfies all of it. -/
theorem unify_complete {a b : Term} (ha : a.Full) (hb : b.Full) (he : e.Built)
    (hfull : ∀ tail, ¬ e.Mentions (.partialList [] tail)) (hθ : ∀ x, (θ x).Full)
    (hN : Exact ν fun x => (Term.number x).Occurs a ∨ (Term.number x).Occurs b ∨
      e.Mentions (.number x))
    (hsat : e.SatisfiedBy ν θ) (heq : Term.Equal ν (a.inst θ) (b.inst θ)) :
    ∃ e', (∀ n, ((a.inst θ).joined ν).size < n → unifyF n a b e = .ok (some e')) ∧
      e'.Acyclic ∧ e'.SatisfiedBy ν θ := by
  let N : Float → Prop := fun x => (Term.number x).Occurs a ∨ (Term.number x).Occurs b ∨
    e.Mentions (.number x)
  have har : a.Everywhere (Regular N) := ha.regular fun _ => .inl
  have hbr : b.Everywhere (Regular N) := hb.regular fun _ h => .inr (.inl h)
  have her : e.Everywhere (Regular N) := fun x t hx =>
    ⟨regular_var x, Full.regular (fun tail h => hfull tail ⟨x, t, hx, h⟩)
      fun y hy => .inr (.inr ⟨x, t, hx, hy⟩)⟩
  have hab : Unifies ν N θ [(a, b)] := unifies_cons.2 ⟨⟨har, hbr, heq⟩, by simp, by simp⟩
  have hmodels : e.Models ν N θ := ⟨he.walksEnd, her, hsat⟩
  obtain ⟨r, hr⟩ := unifyF_ends hN hθ _ a b e hab (Nat.lt_succ_self _) hmodels
  obtain ⟨e', rfl, he'⟩ := (solves_of_unifyF hr).models hN hθ hab hmodels
  exact ⟨e', fun n hn => unifyF_mono hn hr, he'.acyclic, he'.satisfied⟩

/-- The tail of a list is bound to a list with a tail before, and the item of that one is free. -/
theorem unify_complete_boundTail :
    let a : Term := .compound "f" [.var "X", .partialList [.number 1] (.var "T")]
    let b : Term := .compound "f" [.list [.number 2], .list [.number 1, .var "X"]]
    let e : Bindings := Bindings.empty.bind "T" (.partialList [.var "Y"] (.var "U"))
    let θ : String → Term := fun x =>
      if x = "T" then .list [.list [.number 2]] else if x = "U" then .list []
      else .list [.number 2]
    ∃ e', (∀ n, 7 < n → unifyF n a b e = .ok (some e')) ∧ e'.Acyclic ∧ e'.SatisfiedBy id θ := by
  intro a b e θ
  have he : e.Built := .unified .empty
    (rfl : unifyF 1 (.var "T") (.partialList [.var "Y"] (.var "U")) Bindings.empty = _)
  have hget : ∀ x t, e.get? x = some t → x = "T" ∧ t = .partialList [.var "Y"] (.var "U") := by
    intro x t hx
    rw [Bindings.get?_bind] at hx
    split at hx
    · next h => exact ⟨h, (Option.some.inj hx).symm⟩
    · simp at hx
  have hθ : ∀ x, (θ x).Full := by
    intro x
    simp only [θ]
    split_ifs <;> rw [full_iff] <;> simp [HasItems]
  let P : Term → Prop := fun u => u.HasItems ∧ ∀ x, u = .number x → x = 1 ∨ x = 2
  have hparts : ∀ u, u.Occurs a ∨ u.Occurs b ∨ e.Mentions u → P u := by
    rintro u (h | h | ⟨x, t, hx, h⟩)
    · have ha : a.Everywhere P := by simp [a, P, HasItems]
      exact ha u h
    · have hb : b.Everywhere P := by simp [b, P, HasItems]
      exact hb u h
    · obtain ⟨rfl, rfl⟩ := hget x t hx
      have ht : (Term.partialList [.var "Y"] (.var "U")).Everywhere P := by simp [P, HasItems]
      exact ht u h
  have hN : Exact id fun x => (Term.number x).Occurs a ∨ (Term.number x).Occurs b ∨
      e.Mentions (.number x) := by
    intro x y hx hy
    rcases (hparts _ hx).2 x rfl with rfl | rfl <;> rcases (hparts _ hy).2 y rfl with rfl | rfl <;>
      decide +kernel
  have hsat : e.SatisfiedBy id θ := by
    intro x t hx
    obtain ⟨rfl, rfl⟩ := hget x t hx
    rfl
  have hempty : ∀ tail, ¬ P (.partialList [] tail) := fun tail h => h.1 tail rfl
  exact unify_complete (fun tail h => hempty tail (hparts _ (.inl h)))
    (fun tail h => hempty tail (hparts _ (.inr (.inl h)))) he
    (fun tail h => hempty tail (hparts _ (.inr (.inr h)))) hθ hN hsat rfl

end RhythmLogic
