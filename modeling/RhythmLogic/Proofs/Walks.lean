/-
**The theory of walks: bindings that grow, and following variables through them.**

A walk follows a *trail* of bound names.  It ends where a term has a shape or is a free variable,
and since a trail that ends visits no name twice, the fuel of `Bindings.walk` is always enough for
it.  Bindings grow by names that are free, so what a name stands for never changes, and a trail
stays a trail.

Main definitions:

* `e ≤ e'` — every name that `e` binds stands for the same in `e'`;
* `Bindings.Trail`, `Bindings.Settles` — following names, and following them to the end;
* `Bindings.WalksEnd` — no walk runs in a circle;
* `Bindings.Everywhere` — a property of the names and of all parts of the terms that are bound;
* `Rooted` — a property that does not depend on the children of a term.

Main results:

* `Bindings.Settles.walk_eq` — **a walk that ends is found**, whatever its length;
* `Bindings.settles_walk` — a walk that does not come out at a bound variable has ended;
* `Bindings.WalksEnd.bind` — a free name may be bound to the end of a walk;
* `Bindings.everywhere_substF` — substitution keeps what does not depend on children.
-/

import RhythmLogic.Proofs.Terms
import Mathlib.Data.List.Perm.Subperm

set_option autoImplicit false

namespace RhythmLogic

namespace Bindings

variable {e e' : Bindings} {x : String} {s t u v : Term}

/-! ### Growth -/

/-- Every name that `e` binds stands for the same in `e'`. -/
instance : LE Bindings := ⟨fun e e' => ∀ x t, e.get? x = some t → e'.get? x = some t⟩

theorem le_refl (e : Bindings) : e ≤ e := fun _ _ h => h

theorem le_trans {e₁ e₂ e₃ : Bindings} (h : e₁ ≤ e₂) (h' : e₂ ≤ e₃) : e₁ ≤ e₃ :=
  fun x t ht => h' x t (h x t ht)

/-- Binding a free name keeps what is bound. -/
theorem le_bind (hx : e.get? x = none) (t : Term) : e ≤ e.bind x t := by
  intro y u hy
  have hne : y ≠ x := by
    rintro rfl
    simp [hx] at hy
  rwa [get?_bind_of_ne e t hne]

/-- A name that is bound later is free before, or stands for the same. -/
theorem get?_of_le (h : e ≤ e') (hx : e'.get? x = some t) :
    e.get? x = none ∨ e.get? x = some t := by
  cases hget : e.get? x with
  | none => exact .inl rfl
  | some u =>
      rw [h x u hget, Option.some.injEq] at hx
      exact .inr (congrArg some hx)

/-- A name that is free later is free before. -/
theorem get?_eq_none_of_le (h : e ≤ e') (hx : e'.get? x = none) : e.get? x = none := by
  refine Option.eq_none_iff_forall_ne_some.2 fun u hu => ?_
  rw [h x u hu] at hx
  cases hx

theorem get?_bind (e : Bindings) (x y : String) (t : Term) :
    (e.bind x t).get? y = if y = x then some t else e.get? y := by
  split
  · next h => rw [h, get?_bind_self]
  · next h => exact get?_bind_of_ne e t h

@[simp] theorem isBound_var : e.isBound (.var x) = (e.get? x).isSome := rfl

theorem isBound_var_eq_false : e.isBound (.var x) = false ↔ e.get? x = none := by
  simp

/-- A term with a shape is not bound. -/
theorem isBound_of_isVar (h : t.isVar = false) : e.isBound t = false := by
  cases t <;> first | rfl | simp [Term.isVar] at h

/-! ### Trails -/

/-- `e.Trail names t u` says that the walk from `t` follows `names` and comes to `u`. -/
inductive Trail (e : Bindings) : List String → Term → Term → Prop where
  | stay {t : Term} : Trail e [] t t
  | follow {x : String} {names : List String} {t u : Term} :
      e.get? x = some t → Trail e names t u → Trail e (x :: names) (.var x) u

/-- **The walk from `t` ends at `u`**: a term with a shape, or a free variable. -/
def Settles (e : Bindings) (t u : Term) : Prop := ∃ names, e.Trail names t u ∧ e.isBound u = false

/-- No walk runs in a circle. -/
def WalksEnd (e : Bindings) : Prop := ∀ t, ∃ u, e.Settles t u

theorem Trail.mono {names : List String} (h : e.Trail names t u) (he : e ≤ e') :
    e'.Trail names t u := by
  induction h with
  | stay => exact .stay
  | follow hx _ ih => exact .follow (he _ _ hx) ih

theorem Trail.append {xs ys : List String} (h : e.Trail xs s t) (h' : e.Trail ys t u) :
    e.Trail (xs ++ ys) s u := by
  induction h with
  | stay => exact h'
  | follow hx _ ih => exact .follow hx (ih h')

/-- Only one trail ends, and it ends at one term. -/
theorem Trail.unique {xs ys : List String} (h : e.Trail xs t u) (hu : e.isBound u = false)
    (h' : e.Trail ys t v) (hv : e.isBound v = false) : xs = ys ∧ u = v := by
  induction h generalizing ys with
  | stay =>
      cases h' with
      | stay => exact ⟨rfl, rfl⟩
      | follow hx _ => simp [hx] at hu
  | follow hx h ih =>
      cases h' with
      | stay => simp [hx] at hv
      | follow hx' h' =>
          rw [hx, Option.some.injEq] at hx'
          subst hx'
          obtain ⟨rfl, rfl⟩ := ih hu h'
          exact ⟨rfl, rfl⟩

theorem Settles.unique (h : e.Settles t u) (h' : e.Settles t v) : u = v := by
  obtain ⟨_, h, hu⟩ := h
  obtain ⟨_, h', hv⟩ := h'
  exact (h.unique hu h' hv).2

theorem settles_self (h : e.isBound t = false) : e.Settles t t := ⟨[], .stay, h⟩

/-- A term with a shape is where its walk ends. -/
theorem settles_shape (h : t.isVar = false) : e.Settles t t := settles_self (isBound_of_isVar h)

theorem Settles.follow (hx : e.get? x = some t) (h : e.Settles t u) : e.Settles (.var x) u := by
  obtain ⟨names, h, hu⟩ := h
  exact ⟨x :: names, .follow hx h, hu⟩

/-! ### Trails and the fuel of a walk -/

/-- From every name of a trail a shorter trail leads to the same end. -/
theorem Trail.of_mem {names : List String} (h : e.Trail names t u) (hx : x ∈ names) :
    ∃ rest, e.Trail rest (.var x) u ∧ rest.length ≤ names.length := by
  induction h with
  | stay => simp at hx
  | follow hy h ih =>
      rcases List.mem_cons.1 hx with rfl | hx
      · exact ⟨_, .follow hy h, Nat.le_refl _⟩
      · obtain ⟨rest, hrest, hlen⟩ := ih hx
        exact ⟨rest, hrest, Nat.le_succ_of_le hlen⟩

/-- A trail that ends visits no name twice: the second visit would have the same trail to the end
as the first one. -/
theorem Trail.nodup {names : List String} (h : e.Trail names t u) (hu : e.isBound u = false) :
    names.Nodup := by
  induction h with
  | stay => exact List.nodup_nil
  | @follow y names t u hy h ih =>
      refine List.nodup_cons.2 ⟨fun hmem => ?_, ih hu⟩
      -- the second visit would leave a trail that is the whole one, and shorter
      obtain ⟨rest, hrest, hlen⟩ := h.of_mem hmem
      obtain ⟨rfl, -⟩ := (Trail.follow hy h).unique hu hrest hu
      exact Nat.not_succ_le_self _ hlen

/-- A trail visits names that have entries. -/
theorem Trail.subset {names : List String} (h : e.Trail names t u) :
    names ⊆ e.entries.map Prod.fst := by
  induction h with
  | stay => simp
  | @follow y names t u hy _ ih =>
      refine List.cons_subset.2 ⟨?_, ih⟩
      by_contra hmem
      have hnone : e.get? y = none := by
        refine List.lookup_eq_none_iff.2 fun p hp => ?_
        have hne : y ≠ p.1 := fun h => hmem (h ▸ List.mem_map_of_mem hp)
        simpa using hne
      simp [hnone] at hy

theorem Trail.length_le {names : List String} (h : e.Trail names t u)
    (hu : e.isBound u = false) : names.length ≤ e.size := by
  have hle := ((h.nodup hu).subperm h.subset).length_le
  simpa [size] using hle

theorem walkF_of_trail {names : List String} (h : e.Trail names t u) (hu : e.isBound u = false)
    {fuel : Nat} (hf : names.length < fuel) : e.walkF fuel t = u := by
  induction h generalizing fuel with
  | @stay t =>
      obtain ⟨n, rfl⟩ : ∃ n, fuel = n + 1 := ⟨fuel - 1, by omega⟩
      cases t with
      | var y => simp [walkF, isBound_var_eq_false.1 hu]
      | _ => rfl
  | @follow y names t u hy _ ih =>
      obtain ⟨n, rfl⟩ : ∃ n, fuel = n + 1 := ⟨fuel - 1, by omega⟩
      simp only [walkF, hy]
      exact ih hu (by simpa using hf)

/-- **A walk that ends is found**: the entries are fuel enough for it. -/
theorem Settles.walk_eq (h : e.Settles t u) : e.walk t = u := by
  obtain ⟨names, h, hu⟩ := h
  have hlt : names.length < e.size + 1 := Nat.lt_succ_of_le (h.length_le hu)
  cases t with
  | var y => exact walkF_of_trail h hu hlt
  | _ =>
      cases h
      rfl

/-- However much fuel it has, a walk follows a trail. -/
theorem trail_walkF (fuel : Nat) (t : Term) : ∃ names, e.Trail names t (e.walkF fuel t) := by
  induction fuel generalizing t with
  | zero => exact ⟨[], .stay⟩
  | succ fuel ih =>
      cases t with
      | var y =>
          cases hy : e.get? y with
          | none => exact ⟨[], by simpa [walkF, hy] using Trail.stay⟩
          | some t =>
              obtain ⟨names, h⟩ := ih t
              exact ⟨y :: names, by simpa [walkF, hy] using Trail.follow hy h⟩
      | _ => exact ⟨[], .stay⟩

/-- A walk that does not come out at a bound variable has ended. -/
theorem settles_walk (h : e.isBound (e.walk t) = false) : e.Settles t (e.walk t) := by
  cases t with
  | var y =>
      obtain ⟨names, htrail⟩ := trail_walkF (e := e) (e.size + 1) (.var y)
      exact ⟨names, htrail, h⟩
  | _ => exact settles_shape rfl

/-! ### Binding the end of a walk -/

theorem walksEnd_empty : empty.WalksEnd := by
  intro t
  refine ⟨t, settles_self ?_⟩
  cases t <;> rfl

/-- A walk that ended elsewhere than at a free name ends there when the name is bound as well. -/
theorem Settles.bind_of_ne (h : e.Settles t u) (hx : e.get? x = none) (hu : u ≠ .var x)
    (v : Term) : (e.bind x v).Settles t u := by
  obtain ⟨names, h, hend⟩ := h
  refine ⟨names, h.mono (le_bind hx v), ?_⟩
  cases u with
  | var y =>
      have hyx : y ≠ x := fun h => hu (congrArg Term.var h)
      rw [isBound_var, get?_bind_of_ne e v hyx]
      exact hend
  | _ => rfl

/-- A walk that ended at a free name goes on to what the name is bound to. -/
theorem Settles.bind_self (h : e.Settles t (.var x)) (hu : e.isBound u = false)
    (hne : u ≠ .var x) : (e.bind x u).Settles t u := by
  obtain ⟨names, h, hend⟩ := h
  have hx := isBound_var_eq_false.1 hend
  obtain ⟨-, -, hfree⟩ := (settles_self hu).bind_of_ne hx hne u
  exact ⟨names ++ [x], (h.mono (le_bind hx u)).append (.follow (get?_bind_self e x u) .stay), hfree⟩

/-- **A free name may be bound to the end of a walk,** unless that is the name itself: a walk that
came to the name goes one step further, and no other walk is longer than before. -/
theorem WalksEnd.bind (h : e.WalksEnd) (hx : e.get? x = none) (ht : e.isBound t = false)
    (hne : t ≠ .var x) : (e.bind x t).WalksEnd := by
  intro s
  obtain ⟨u, hu⟩ := h s
  by_cases hux : u = .var x
  · subst hux
    exact ⟨t, hu.bind_self ht hne⟩
  · exact ⟨u, hu.bind_of_ne hx hux t⟩

/-! ### What is bound -/

/-- The names that are bound have a property, as variables, and so have all parts of what they
stand for. -/
def Everywhere (P : Term → Prop) (e : Bindings) : Prop :=
  ∀ x t, e.get? x = some t → P (.var x) ∧ t.Everywhere P

variable {P Q : Term → Prop}

theorem everywhere_empty : empty.Everywhere P := by
  intro x t h
  simp at h

theorem Everywhere.mono (h : e.Everywhere P) (hPQ : ∀ u, P u → Q u) : e.Everywhere Q :=
  fun x t hx => ⟨hPQ _ (h x t hx).1, (h x t hx).2.mono hPQ⟩

theorem Everywhere.bind (h : e.Everywhere P) (hx : P (.var x)) (ht : t.Everywhere P) :
    (e.bind x t).Everywhere P := by
  intro y u hy
  rw [get?_bind] at hy
  split at hy
  · next hyx =>
      subst hyx
      rw [Option.some.injEq] at hy
      exact ⟨hx, hy ▸ ht⟩
  · exact h y u hy

theorem Trail.everywhere {names : List String} (h : e.Trail names t u) (he : e.Everywhere P)
    (ht : t.Everywhere P) : u.Everywhere P := by
  induction h with
  | stay => exact ht
  | follow hx _ ih => exact ih (he _ _ hx).2

theorem Settles.everywhere (h : e.Settles t u) (he : e.Everywhere P) (ht : t.Everywhere P) :
    u.Everywhere P := by
  obtain ⟨names, h, -⟩ := h
  exact h.everywhere he ht

theorem everywhere_walk (he : e.Everywhere P) (ht : t.Everywhere P) :
    (e.walk t).Everywhere P := by
  cases t with
  | var x =>
      obtain ⟨names, h⟩ := trail_walkF (e := e) (e.size + 1) (.var x)
      exact h.everywhere he ht
  | _ => exact ht

end Bindings

/-! ### What substitution keeps -/

/-- A property that does not depend on what the children of a term are.  A list with a tail may come
to be joined, with as many items in front. -/
structure Rooted (P : Term → Prop) : Prop where
  compound : ∀ {f args args'}, P (.compound f args) → P (.compound f args')
  list : ∀ {items items'}, P (.list items) → P (.list items')
  joinTail : ∀ {items items' tail tail'}, P (.partialList items tail) →
    items'.length = items.length → P (Term.joinTail items' tail')
  expr : ∀ {op l l' r r'}, P (.expr op l r) → P (.expr op l' r')

/-- **Substitution makes new terms of old constructors only.** -/
theorem Bindings.everywhere_substF {P : Term → Prop} {e : Bindings} {t : Term} (hP : Rooted P)
    (he : e.Everywhere P) (depth : Nat) (ht : t.Everywhere P) :
    (e.substF depth t).Everywhere P := by
  induction depth generalizing t with
  | zero => exact ht
  | succ depth ih =>
      have hmap : ∀ ts : List Term, (∀ u ∈ ts, u.Everywhere P) →
          ∀ u ∈ ts.map (e.substF depth), u.Everywhere P := by
        intro ts hts
        rw [List.forall_mem_map]
        exact fun u hu => ih (hts u hu)
      have hwalk := everywhere_walk he ht
      simp only [substF]
      cases hw : e.walk t <;> rw [hw] at hwalk
      case compound name args =>
        rw [Term.everywhere_compound] at hwalk ⊢
        exact ⟨hP.compound hwalk.1, hmap _ hwalk.2⟩
      case list items =>
        rw [Term.everywhere_list] at hwalk ⊢
        exact ⟨hP.list hwalk.1, hmap _ hwalk.2⟩
      case partialList items tail =>
        rw [Term.everywhere_partialList] at hwalk
        exact Term.everywhere_joinTail (hP.joinTail hwalk.1 (List.length_map _)) (hmap _ hwalk.2.1)
          (ih hwalk.2.2)
      case expr op l r =>
        rw [Term.everywhere_expr] at hwalk ⊢
        exact ⟨hP.expr hwalk.1, ih hwalk.2.1, ih hwalk.2.2⟩
      all_goals exact hwalk

end RhythmLogic
