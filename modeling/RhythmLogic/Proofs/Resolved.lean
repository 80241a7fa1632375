/-
**What a substitution leaves unresolved.**

The levels of a substitution are there for cyclic bindings, whose expansion would not end.  They
are counted, though, and not recognised as a circle, and so they cut off what is finite as well.
What counts as a level is a child of a term, and the tail of a list is one: a list that was built a
link at a time is as deep as it is long, although the list that it stands for has no depth to speak
of.  A chain of variables counts nothing, however long it is.

Within the levels everything is resolved: what is left are free variables, and no list has a list as
its tail.  With one link more than the levels allow, a variable that is bound is left in a list that
is finite.

Main definitions:

* `Bindings.Resolved` — a part of a term with which nothing is left to do;
* `Bindings.linked` — a list that was built one link at a time.

Main results:

* `subst_resolved` — **within the levels, a substitution resolves everything**;
* `Bindings.substF_linked_short`, `Bindings.substF_linked_long` — a list that was built by links is
  read as the list that it stands for, or is cut off after as many items as there are levels;
* `subst_not_resolved` — a list of 2049 links is not resolved.
-/

import RhythmLogic.Proofs.Renaming
import RhythmLogic.Proofs.Unifiers

set_option autoImplicit false

namespace RhythmLogic

open Bindings

variable {e : Bindings} {t u : Term} {x : String} {k m n : ℕ}

/-! ### Resolved terms -/

namespace Bindings

/-- **Nothing is left to do** with a part of a term: it is no variable that stands for something,
and no list that goes on as a list. -/
structure Resolved (e : Bindings) (u : Term) : Prop where
  unbound : e.isBound u = false
  joined : ∀ items tail, u = .partialList items tail → tail.list? = none

theorem resolved_of_ne (h : u.isVar = false) (hne : ∀ items tail, u ≠ .partialList items tail) :
    e.Resolved u :=
  ⟨isBound_of_isVar h, fun items tail hu => absurd hu (hne items tail)⟩

/-- A free variable has nothing behind it. -/
theorem resolved_free (hx : e.get? x = none) : e.Resolved (.var x) :=
  ⟨isBound_var_eq_false.2 hx, fun _ _ h => nomatch h⟩

/-- Joining leaves no list as a tail, if the tail itself has none. -/
theorem Resolved.joinTail (h : e.Resolved t) (items : List Term) :
    e.Resolved (Term.joinTail items t) := by
  refine ⟨isBound_of_isVar (Term.isVar_joinTail items t), fun more rest heq => ?_⟩
  cases t
  case list => cases heq
  case partialList bs tail =>
    cases heq
    exact h.joined bs rest rfl
  all_goals
    cases heq
    rfl

/-- **Within the levels, everything is resolved,** by induction on the expansion. -/
theorem Fits.resolved (h : e.Fits n t) : (e.substF n t).Everywhere e.Resolved := by
  induction h with
  | number => exact Term.everywhere_number.2 (resolved_of_ne rfl fun _ _ => by simp)
  | atom => exact Term.everywhere_atom.2 (resolved_of_ne rfl fun _ _ => by simp)
  | free hx =>
      rw [substF_free hx]
      exact Term.everywhere_var.2 (resolved_free hx)
  | bound hx h ih =>
      rw [h.substF_bound hx]
      exact ih
  | compound _ ih =>
      exact Term.everywhere_compound.2
        ⟨resolved_of_ne rfl fun _ _ => by simp, List.forall_mem_map.2 ih⟩
  | list _ ih =>
      exact Term.everywhere_list.2
        ⟨resolved_of_ne rfl fun _ _ => by simp, List.forall_mem_map.2 ih⟩
  | partialList _ _ ih ih' =>
      exact Term.everywhere_joinTail (ih'.self.joinTail _) (List.forall_mem_map.2 ih) ih'
  | expr _ _ ihl ihr =>
      exact Term.everywhere_expr.2 ⟨resolved_of_ne rfl fun _ _ => by simp, ihl, ihr⟩

/-! ### Lists that were built one link at a time -/

/-- What the variable of a link stands for: the empty list, or an item and the link before. -/
def link : ℕ → Term
  | 0 => .list []
  | k + 1 => .partialList [.atom "a"] (.var (renamed k "T"))

/-- **A list of `n` links,** each of them bound by a unification of its own. -/
def linked : ℕ → Bindings
  | 0 => empty.bind (renamed 0 "T") (link 0)
  | n + 1 => (linked n).bind (renamed (n + 1) "T") (link (n + 1))

theorem isVar_link (k : ℕ) : (link k).isVar = false := by
  cases k <;> rfl

theorem get?_linked (n k : ℕ) :
    (linked n).get? (renamed k "T") = if k ≤ n then some (link k) else none := by
  have hname : ∀ m, renamed k "T" = renamed m "T" ↔ k = m :=
    fun m => ⟨fun h => (renamed_inj h).1, fun h => h ▸ rfl⟩
  induction n with
  | zero =>
      simp only [linked, get?_bind, hname, Nat.le_zero, get?_empty]
      split
      · next h => rw [h]
      · rfl
  | succ n ih =>
      simp only [linked, get?_bind, hname, ih]
      by_cases hk : k = n + 1
      · simp [hk]
      · have hle : k ≤ n + 1 ↔ k ≤ n := by omega
        simp [hk, hle]

/-- No other names are bound. -/
theorem get?_linked_eq_none (hx : ∀ k, x ≠ renamed k "T") (n : ℕ) :
    (linked n).get? x = none := by
  induction n with
  | zero => rw [linked, get?_bind_of_ne _ _ (hx 0), get?_empty]
  | succ n ih => rw [linked, get?_bind_of_ne _ _ (hx (n + 1)), ih]

/-- A free name on the left is bound by a unification with a shape. -/
theorem unifyF_bind (hx : e.get? x = none) (hu : u.isVar = false) :
    unifyF 1 (.var x) u e = .ok (some (e.bind x u)) := by
  have hx' := settles_self (isBound_var_eq_false.2 hx)
  have hu' := settles_shape (e := e) hu
  have hne : u ≠ .var x := by
    rintro rfl
    cases hu
  rw [unifyF_of_settles hx' hu', unifyShapes_var_left hne]
  rfl

theorem built_linked (n : ℕ) : (linked n).Built := by
  induction n with
  | zero => exact .unified .empty (unifyF_bind rfl (isVar_link 0))
  | succ n ih =>
      exact .unified ih (unifyF_bind (by simp [get?_linked]) (isVar_link (n + 1)))

/-- A link is as deep as the list that is left of it. -/
theorem fits_linked (hk : k ≤ n) : (linked n).Fits (k + 1) (.var (renamed k "T")) := by
  have hget : (linked n).get? (renamed k "T") = some (link k) := by rw [get?_linked, if_pos hk]
  refine .bound hget ?_
  induction k with
  | zero => exact .list (by simp)
  | succ k ih =>
      have hbefore : (linked n).get? (renamed k "T") = some (link k) := by
        rw [get?_linked, if_pos (Nat.le_of_succ_le hk)]
      exact .partialList (List.forall_mem_singleton.2 .atom)
        (.bound hbefore (ih (Nat.le_of_succ_le hk) hbefore))

theorem acyclic_linked (n : ℕ) : (linked n).Acyclic := by
  refine acyclic_of_var fun x => ?_
  by_cases hx : ∃ k, x = renamed k "T"
  · obtain ⟨k, rfl⟩ := hx
    by_cases hk : k ≤ n
    · exact ⟨k + 1, fits_linked hk⟩
    · exact ⟨1, .free (by rw [get?_linked, if_neg hk])⟩
  · exact ⟨1, .free (get?_linked_eq_none (fun k hk => hx ⟨k, hk⟩) n)⟩

/-- One level of a link. -/
theorem substF_link (hk : k ≤ n) (m : ℕ) :
    (linked n).substF (m + 1) (.var (renamed k "T")) = (linked n).substF (m + 1) (link k) := by
  have hget : (linked n).get? (renamed k "T") = some (link k) := by rw [get?_linked, if_pos hk]
  have hlink := settles_shape (e := linked n) (isVar_link k)
  exact substF_congr (by rw [(hlink.follow hget).walk_eq, hlink.walk_eq]) m

/-- The levels suffice: the list is read as a whole. -/
theorem substF_linked_short (hk : k ≤ n) (hm : k < m) :
    (linked n).substF m (.var (renamed k "T")) = .list (List.replicate k (.atom "a")) := by
  induction k generalizing m with
  | zero =>
      obtain ⟨m, rfl⟩ : ∃ j, m = j + 1 := ⟨m - 1, by omega⟩
      rw [substF_link hk]
      rfl
  | succ k ih =>
      obtain ⟨m, rfl⟩ : ∃ j, m = j + 2 := ⟨m - 2, by omega⟩
      rw [substF_link hk, link, substF_partialList, ih (by omega) (by omega)]
      rfl

/-- **The levels do not suffice:** the list is cut off after as many items as there are levels, and
goes on as a variable that is bound. -/
theorem substF_linked_long (hk : m + 1 + k ≤ n) :
    (linked n).substF (m + 1) (.var (renamed (m + 1 + k) "T")) =
      .partialList (List.replicate (m + 1) (.atom "a")) (.var (renamed k "T")) := by
  induction m with
  | zero =>
      have hlast : 0 + 1 + k = k + 1 := by omega
      rw [hlast, substF_link (by omega), link, substF_partialList]
      rfl
  | succ m ih =>
      have hnext : m + 1 + 1 + k = (m + 1 + k) + 1 := by omega
      rw [hnext, substF_link (by omega), link, substF_partialList, ih (by omega)]
      rfl

end Bindings

/-! ### Full resolution -/

/-- **Within the levels, a substitution resolves everything.**  Let the full expansion of a term be
finite and nest no deeper than the levels of a substitution, where a child of a term is one level
further down, and so is an item or the tail of a list, and following variables counts nothing.  Then
after substitution no variable occurs that is bound, and no list has a list as its tail. -/
theorem subst_resolved (h : e.Fits levels t) :
    (∀ x, (Term.var x).Occurs (e.subst t) → e.get? x = none) ∧
      ∀ items tail, (Term.partialList items tail).Occurs (e.subst t) → tail.list? = none := by
  have hresolved : (e.subst t).Everywhere e.Resolved := h.resolved
  exact ⟨fun x hx => isBound_var_eq_false.1 (hresolved _ hx).unbound,
    fun items tail hlist => (hresolved _ hlist).joined items tail rfl⟩

/-- A list of 2048 links goes as deep as the levels allow. -/
theorem subst_resolved_linked :
    let e := linked 2048
    let t : Term := .var (renamed 2048 "T")
    e.Fits levels t ∧ e.subst t = .list (List.replicate 2048 (.atom "a")) ∧
      (∀ x, (Term.var x).Occurs (e.subst t) → e.get? x = none) ∧
      ∀ items tail, (Term.partialList items tail).Occurs (e.subst t) → tail.list? = none := by
  intro e t
  have hfit : e.Fits levels t := fits_linked (Nat.le_refl _)
  exact ⟨hfit, substF_linked_short (Nat.le_refl _) (Nat.lt_succ_self 2048), subst_resolved hfit⟩

/-- **A list of 2049 links is not resolved,** although it was built by unifications and its
expansion is finite: the variable of its last link is bound and is left in it. -/
theorem subst_not_resolved :
    let e := linked 2049
    let t : Term := .var (renamed 2049 "T")
    e.Built ∧ e.Acyclic ∧
      e.subst t = .partialList (List.replicate 2049 (.atom "a")) (.var (renamed 0 "T")) ∧
      (Term.var (renamed 0 "T")).Occurs (e.subst t) ∧ e.get? (renamed 0 "T") = some (.list []) := by
  intro e t
  have hsubst : e.subst t =
      .partialList (List.replicate 2049 (.atom "a")) (.var (renamed 0 "T")) :=
    substF_linked_long (m := 2048) (k := 0) (Nat.le_refl _)
  refine ⟨built_linked 2049, acyclic_linked 2049, hsubst, ?_, get?_linked 2049 0⟩
  rw [hsubst]
  exact .tail .here

end RhythmLogic
