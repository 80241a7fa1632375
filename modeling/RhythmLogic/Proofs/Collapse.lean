/-
**Collapsing: derivations over full terms.**

A derivation may use clause instances with lists that have a tail but no item, even where the
program and what is derived have none.  No unification makes such lists, so a search does not find
these instances.  It need not: an empty list with a tail can be *collapsed* to its tail, everywhere
at once, and a derivation stays one.

Main definitions:

* `Term.attach` — items in front of a term, which no items leave as it is;
* `Term.collapse` — a term with its empty lists replaced by their tails.

Main results:

* `Term.value_collapse` — collapsing what an assignment gives collapses the values of full terms;
* `Derivable.collapse` — **what a full program derives is derived over full terms**.
-/

import RhythmLogic.Proofs.Derivations

set_option autoImplicit false

namespace RhythmLogic

namespace Term

variable {ν : Float → Float} {σ θ : String → Term}

/-! ### Attached items -/

/-- Items in front of a term.  No items leave the term as it is. -/
def attach : List Term → Term → Term
  | [], t => t
  | a :: items, t => joinTail (a :: items) t

theorem attach_of_ne_nil {items : List Term} (h : items ≠ []) (t : Term) :
    attach items t = joinTail items t := by
  cases items with
  | nil => exact absurd rfl h
  | cons a items => rfl

/-- Items may be attached in two portions. -/
theorem attach_attach (as bs : List Term) (t : Term) :
    attach as (attach bs t) = attach (as ++ bs) t := by
  cases as with
  | nil => rfl
  | cons a as =>
      cases bs with
      | nil => rw [List.append_nil]; rfl
      | cons b bs => exact joinTail_joinTail (a :: as) (b :: bs) t

/-- In front of a proper list, items are attached like they are joined. -/
theorem attach_list (as bs : List Term) : attach as (list bs) = list (as ++ bs) := by
  cases as <;> rfl

/-! ### Collapsing -/

mutual

/-- A term with its empty lists replaced by their tails, and the tails of other lists joined. -/
def collapse : Term → Term
  | number x => number x
  | atom name => atom name
  | var name => var name
  | compound f args => compound f (collapseAll args)
  | list items => list (collapseAll items)
  | partialList items tail => attach (collapseAll items) (collapse tail)
  | expr op l r => expr op (collapse l) (collapse r)

/-- Several terms, collapsed. -/
def collapseAll : List Term → List Term
  | [] => []
  | t :: ts => collapse t :: collapseAll ts

end

@[simp] theorem collapseAll_eq_map (ts : List Term) : collapseAll ts = ts.map collapse := by
  induction ts with
  | nil => rfl
  | cons t ts ih => simp [collapseAll, ih]

/-- Joined items collapse to attached ones. -/
theorem collapse_joinTail (items : List Term) (t : Term) :
    (joinTail items t).collapse = attach (items.map collapse) t.collapse := by
  cases t with
  | list more => simp [joinTail, collapse, attach_list]
  | partialList more tail => simp [joinTail, collapse, attach_attach]
  | _ => simp [joinTail, collapse]

theorem joined_joinTail (items : List Term) (t : Term) :
    (joinTail items t).joined ν = joinTail (items.map (joined ν)) (t.joined ν) := by
  cases t with
  | list more => simp [joinTail, joined]
  | partialList more tail =>
      change (partialList (items ++ more) tail).joined ν = _
      simp only [joined, joinedAll_eq_map, joinTail_joinTail, List.map_append]
  | _ => simp [joinTail, joined]

theorem joined_attach (items : List Term) (t : Term) :
    (attach items t).joined ν = attach (items.map (joined ν)) (t.joined ν) := by
  cases items with
  | nil => rfl
  | cons a items => exact joined_joinTail (a :: items) t

/-- It does not matter whether a term is joined or collapsed first. -/
theorem joined_collapse (t : Term) : t.collapse.joined ν = (t.joined ν).collapse := by
  induction t with
  | number | atom | var => rfl
  | compound f args ih => simpa [collapse, joined] using ih
  | list items ih => simpa [collapse, joined] using ih
  | partialList items tail ih ih' =>
      have hitems : (items.map collapse).map (joined ν) = (items.map (joined ν)).map collapse := by
        simpa using ih
      simp only [collapse, joined, collapseAll_eq_map, joinedAll_eq_map, joined_attach,
        collapse_joinTail, hitems, ih']
  | expr op l r ihl ihr => simp only [collapse, joined, ihl, ihr]

/-- **Collapsing what an assignment gives collapses the values of full terms.** -/
theorem value_collapse {t : Term} (h : t.Full) :
    t.value ν (fun x => (σ x).collapse) = (t.value ν σ).collapse := by
  rw [full_iff] at h
  induction t with
  | number | atom => rfl
  | var x => exact joined_collapse (σ x)
  | compound f args ih =>
      have hargs := (everywhere_compound.1 h).2
      simpa [collapse] using fun a ha => ih a ha (hargs a ha)
  | list items ih =>
      have hitems := (everywhere_list.1 h).2
      simpa [collapse] using fun a ha => ih a ha (hitems a ha)
  | partialList items tail ih ih' =>
      obtain ⟨hself, hitems, htail⟩ := everywhere_partialList.1 h
      -- with an item, attaching is joining
      have hne : items ≠ [] := by
        rintro rfl
        exact hself tail rfl
      have hmap : items.map (value ν fun x => (σ x).collapse) =
          (items.map (value ν σ)).map collapse := by
        simpa using fun a ha => ih a ha (hitems a ha)
      rw [value_partialList, value_partialList, collapse_joinTail,
        attach_of_ne_nil (by simpa using hne), hmap, ih' htail]
  | expr op l r ihl ihr =>
      obtain ⟨-, hl, hr⟩ := everywhere_expr.1 h
      simp only [value_expr, collapse, ihl hl, ihr hr]

/-- Nothing collapses in a full term once it is joined: it is an instance of itself. -/
theorem Full.collapse_joined {t : Term} (h : t.Full) : (t.joined ν).collapse = t.joined ν := by
  have hvalue : t.value ν var = (t.value ν var).collapse := @value_collapse ν var t h
  rw [Term.value, inst_self] at hvalue
  exact hvalue.symm

/-! ### What collapsing keeps -/

/-- A property of parts that lists with items have is had by attached items. -/
theorem everywhere_attach {P : Term → Prop} (hP : Stable P) {items : List Term} {t : Term}
    (hitems : ∀ a ∈ items, a.Everywhere P) (ht : t.Everywhere P) :
    (attach items t).Everywhere P := by
  cases items with
  | nil => exact ht
  | cons a items =>
      rw [attach, joinTail_eq_listOf, List.cons_append, everywhere_listOf]
      refine ⟨hP.cons a _ _, ?_, ?_⟩
      · rw [← List.cons_append]
        intro b hb
        rcases List.mem_append.1 hb with hb | hb
        · exact hitems b hb
        · cases t <;> simp only [front, List.not_mem_nil] at hb
          · exact (everywhere_list.1 ht).2 b hb
          · exact (everywhere_partialList.1 ht).2.1 b hb
      · intro b hb
        cases t <;> simp only [back, Option.mem_def, Option.some.injEq, reduceCtorEq] at hb <;>
          first
          | exact hb ▸ ht
          | exact hb ▸ (everywhere_partialList.1 ht).2.2

/-- A property of parts that all compounds and expressions have, and all lists with items, is kept
by collapsing. -/
theorem everywhere_collapse {P : Term → Prop} (hP : Stable P) (hlist : ∀ items, P (.list items))
    (hcompound : ∀ f args, P (.compound f args)) (hexpr : ∀ op l r, P (.expr op l r)) {t : Term}
    (h : ∀ u, u.Occurs t → (∀ items tail, u ≠ .partialList items tail) → P u) :
    t.collapse.Everywhere P := by
  induction t with
  | number => exact everywhere_number.2 (h _ .here (by simp))
  | atom => exact everywhere_atom.2 (h _ .here (by simp))
  | var => exact everywhere_var.2 (h _ .here (by simp))
  | compound f args ih =>
      simp only [collapse, collapseAll_eq_map, everywhere_compound, List.forall_mem_map]
      exact ⟨hcompound f _, fun a ha => ih a ha fun u hu => h u (.arg ha hu)⟩
  | list items ih =>
      simp only [collapse, collapseAll_eq_map, everywhere_list, List.forall_mem_map]
      exact ⟨hlist _, fun a ha => ih a ha fun u hu => h u (.item ha hu)⟩
  | partialList items tail ih ih' =>
      rw [collapse, collapseAll_eq_map]
      refine everywhere_attach hP ?_ (ih' fun u hu => h u (.tail hu))
      rw [List.forall_mem_map]
      exact fun a ha => ih a ha fun u hu => h u (.partialItem ha hu)
  | expr op l r ihl ihr =>
      rw [collapse, everywhere_expr]
      exact ⟨hexpr op _ _, ihl fun u hu => h u (.left hu), ihr fun u hu => h u (.right hu)⟩

/-- **A term is full once it is collapsed.** -/
theorem full_collapse (t : Term) : t.collapse.Full := by
  refine full_iff.2 (everywhere_collapse stable_hasItems ?_ ?_ ?_ fun u _ hu tail => hu [] tail)
  · intro items tail; simp
  · intro f args tail; simp
  · intro op l r tail; simp

theorem allGround_iff {ts : List Term} : allGround ts = true ↔ ∀ t ∈ ts, t.isGround = true := by
  induction ts with
  | nil => simp [allGround]
  | cons t ts ih => simp [allGround, ih]

/-- A term is ground when no part of it is a variable. -/
theorem isGround_iff {t : Term} :
    t.isGround = true ↔ t.Everywhere fun u => ∀ x, u ≠ .var x := by
  induction t with
  | number | atom | var => simp [isGround]
  | compound f args ih =>
      simp only [isGround, allGround_iff, everywhere_compound]
      exact ⟨fun h => ⟨by simp, fun a ha => (ih a ha).1 (h a ha)⟩,
        fun h a ha => (ih a ha).2 (h.2 a ha)⟩
  | list items ih =>
      simp only [isGround, allGround_iff, everywhere_list]
      exact ⟨fun h => ⟨by simp, fun a ha => (ih a ha).1 (h a ha)⟩,
        fun h a ha => (ih a ha).2 (h.2 a ha)⟩
  | partialList items tail ih ih' =>
      simp only [isGround, Bool.and_eq_true, allGround_iff, everywhere_partialList, ih']
      exact ⟨fun h => ⟨by simp, fun a ha => (ih a ha).1 (h.1 a ha), h.2⟩,
        fun h => ⟨fun a ha => (ih a ha).2 (h.2.1 a ha), h.2.2⟩⟩
  | expr op l r ihl ihr => simp [isGround, ihl, ihr]

theorem isGround_collapse {t : Term} (h : t.isGround = true) : t.collapse.isGround = true := by
  have hstable : Stable fun u => ∀ x, u ≠ .var x :=
    ⟨by simp, fun a items tail => by cases tail <;> simp [listOf]⟩
  exact isGround_iff.2 (everywhere_collapse hstable (by simp) (by simp) (by simp)
    fun u hu _ => isGround_iff.1 h u hu)

end Term

open Term

/-! ### Derivations -/

variable {ν : Float → Float} {p : Program}

/-- **What a full program derives is derived over full terms,** up to the collapsing of what is
derived. -/
theorem Derivable.collapse (hp : ∀ tail, ¬ p.Mentions (.partialList [] tail)) {h : Nat}
    {g g' : Term}
    (hg : Derivable ν p (fun u => u.isGround = true) h g)
    (hg' : g'.joined ν = (g.joined ν).collapse) :
    Derivable ν p (fun u => u.isGround = true ∧ u.Full) h g' := by
  induction hg generalizing g' with
  | @equality h s t heq =>
      have hpair : g'.joined ν = .compound "=" [(s.joined ν).collapse, (t.joined ν).collapse] := hg'
      obtain ⟨a, b, rfl, ha, hb⟩ := eq_equation_of_joined hpair
      exact .equality (ha.trans ((congrArg Term.collapse heq).trans hb.symm))
  | @clause h g c f σ hc hf hne hσ heq _ ih =>
      have hfull : ∀ t, t.Occurs c.head ∨ CallsMention c.body t →
          ∀ tail, t ≠ .partialList [] tail :=
        fun t ht tail htail => hp tail ⟨c, hc, htail ▸ ht⟩
      have hhead : c.head.Full := fun tail ht => hfull _ (.inl ht) tail rfl
      have hbody : ∀ t, .call t ∈ c.body → t.Full :=
        fun t ht tail htail => hfull _ (.inr ⟨t, ht, htail⟩) tail rfl
      -- the same clause is used, with what the assignment gives collapsed
      refine .clause hc hf hne (fun x => ⟨isGround_collapse (hσ x), full_collapse (σ x)⟩) ?_
        fun t ht => ih t ht (value_collapse (hbody t ht))
      calc g'.joined ν = (g.joined ν).collapse := hg'
        _ = (c.head.value ν σ).collapse := congrArg Term.collapse heq
        _ = c.head.value ν fun x => (σ x).collapse := (value_collapse hhead).symm

/-- A full term that a full program derives is derived over full terms. -/
theorem Derivable.full (hp : ∀ tail, ¬ p.Mentions (.partialList [] tail)) {h : Nat} {g : Term}
    (hg : Derivable ν p (fun u => u.isGround = true) h g) (hfull : g.Full) :
    Derivable ν p (fun u => u.isGround = true ∧ u.Full) h g :=
  hg.collapse hp hfull.collapse_joined.symm

end RhythmLogic
