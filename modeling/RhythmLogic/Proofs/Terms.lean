/-
**The theory of terms: induction, parts and size.**

A term holds lists of terms, so the induction principle that its declaration brings along speaks of
lists.  Here it is restated with one hypothesis for each child.  A *part* of a term is the term
itself or a part of one of its children; what is said of the numbers, the variables or the empty
lists that occur in a term is said of its parts.

Main definitions:

* `Term.induct` — induction over terms, a case for each constructor;
* `Term.Occurs` — a term is a part of another one;
* `Term.Everywhere` — all parts of a term have a property;
* `Term.Full` — every list with a tail has an item;
* `Term.size` — the number of nodes.

Main results:

* `Term.everywhere_compound` and its companions — a property holds everywhere in a term exactly
  when it holds of the term and everywhere in its children;
* `Term.size_lt_joinTail` — the tail of a list with items is smaller than the list, also when the
  two are joined.
-/

import RhythmLogic.Bindings

set_option autoImplicit false

namespace RhythmLogic

namespace Term

/-! ### Induction -/

/-- Induction over terms.  The children of a term are what the hypotheses speak of. -/
@[elab_as_elim, induction_eliminator]
theorem induct {motive : Term → Prop} (number : ∀ x, motive (.number x))
    (atom : ∀ name, motive (.atom name)) (var : ∀ name, motive (.var name))
    (compound : ∀ f args, (∀ a ∈ args, motive a) → motive (.compound f args))
    (list : ∀ items, (∀ a ∈ items, motive a) → motive (.list items))
    (partialList : ∀ items tail, (∀ a ∈ items, motive a) → motive tail →
      motive (.partialList items tail))
    (expr : ∀ op l r, motive l → motive r → motive (.expr op l r)) (t : Term) : motive t :=
  match t with
  | .number x => number x
  | .atom name => atom name
  | .var name => var name
  | .compound f args => compound f args fun a _ =>
      induct number atom var compound list partialList expr a
  | .list items => list items fun a _ =>
      induct number atom var compound list partialList expr a
  | .partialList items tail => partialList items tail
      (fun a _ => induct number atom var compound list partialList expr a)
      (induct number atom var compound list partialList expr tail)
  | .expr op l r => expr op l r (induct number atom var compound list partialList expr l)
      (induct number atom var compound list partialList expr r)

/-! ### Parts -/

/-- `u.Occurs t` says that `u` is `t` or a part of a child of `t`. -/
inductive Occurs (u : Term) : Term → Prop where
  | here : Occurs u u
  | arg {f : String} {args : List Term} {a : Term} :
      a ∈ args → Occurs u a → Occurs u (.compound f args)
  | item {items : List Term} {a : Term} : a ∈ items → Occurs u a → Occurs u (.list items)
  | partialItem {items : List Term} {tail a : Term} :
      a ∈ items → Occurs u a → Occurs u (.partialList items tail)
  | tail {items : List Term} {tail : Term} : Occurs u tail → Occurs u (.partialList items tail)
  | left {op : Op} {l r : Term} : Occurs u l → Occurs u (.expr op l r)
  | right {op : Op} {l r : Term} : Occurs u r → Occurs u (.expr op l r)

/-- All parts of a term have a property. -/
def Everywhere (P : Term → Prop) (t : Term) : Prop := ∀ u, u.Occurs t → P u

/-- Every list with a tail has an item. -/
def Full (t : Term) : Prop := ∀ tail, ¬ (Term.partialList [] tail).Occurs t

variable {P Q : Term → Prop}

theorem Everywhere.self {t : Term} (h : t.Everywhere P) : P t := h t .here

theorem Everywhere.mono {t : Term} (h : t.Everywhere P) (hPQ : ∀ u, P u → Q u) :
    t.Everywhere Q := fun u hu => hPQ u (h u hu)

@[simp] theorem everywhere_number {x : Float} :
    (Term.number x).Everywhere P ↔ P (.number x) := by
  refine ⟨Everywhere.self, fun h u hu => ?_⟩
  cases hu
  exact h

@[simp] theorem everywhere_atom {name : String} :
    (Term.atom name).Everywhere P ↔ P (.atom name) := by
  refine ⟨Everywhere.self, fun h u hu => ?_⟩
  cases hu
  exact h

@[simp] theorem everywhere_var {name : String} :
    (Term.var name).Everywhere P ↔ P (.var name) := by
  refine ⟨Everywhere.self, fun h u hu => ?_⟩
  cases hu
  exact h

@[simp] theorem everywhere_compound {f : String} {args : List Term} :
    (Term.compound f args).Everywhere P ↔
      P (.compound f args) ∧ ∀ a ∈ args, a.Everywhere P := by
  refine ⟨fun h => ⟨h.self, fun a ha u hu => h u (.arg ha hu)⟩, fun h u hu => ?_⟩
  cases hu with
  | here => exact h.1
  | arg ha hu => exact h.2 _ ha u hu

@[simp] theorem everywhere_list {items : List Term} :
    (Term.list items).Everywhere P ↔ P (.list items) ∧ ∀ a ∈ items, a.Everywhere P := by
  refine ⟨fun h => ⟨h.self, fun a ha u hu => h u (.item ha hu)⟩, fun h u hu => ?_⟩
  cases hu with
  | here => exact h.1
  | item ha hu => exact h.2 _ ha u hu

@[simp] theorem everywhere_partialList {items : List Term} {tail : Term} :
    (Term.partialList items tail).Everywhere P ↔
      P (.partialList items tail) ∧ (∀ a ∈ items, a.Everywhere P) ∧ tail.Everywhere P := by
  refine ⟨fun h => ⟨h.self, fun a ha u hu => h u (.partialItem ha hu), fun u hu => h u (.tail hu)⟩,
    fun h u hu => ?_⟩
  cases hu with
  | here => exact h.1
  | partialItem ha hu => exact h.2.1 _ ha u hu
  | tail hu => exact h.2.2 u hu

@[simp] theorem everywhere_expr {op : Op} {l r : Term} :
    (Term.expr op l r).Everywhere P ↔
      P (.expr op l r) ∧ l.Everywhere P ∧ r.Everywhere P := by
  refine ⟨fun h => ⟨h.self, fun u hu => h u (.left hu), fun u hu => h u (.right hu)⟩,
    fun h u hu => ?_⟩
  cases hu with
  | here => exact h.1
  | left hu => exact h.2.1 u hu
  | right hu => exact h.2.2 u hu

/-- A list with an optional tail, a constructor at a time. -/
theorem everywhere_listOf {items : List Term} {tail : Option Term} :
    (listOf items tail).Everywhere P ↔
      P (listOf items tail) ∧ (∀ a ∈ items, a.Everywhere P) ∧ ∀ t ∈ tail, t.Everywhere P := by
  cases tail <;> simp [listOf]

theorem isVar_joinTail (items : List Term) (tail : Term) :
    (joinTail items tail).isVar = false := by
  cases tail <;> rfl

/-- Joining adds no parts but the list that is made. -/
theorem everywhere_joinTail {items : List Term} {tail : Term} (hself : P (joinTail items tail))
    (hitems : ∀ a ∈ items, a.Everywhere P) (htail : tail.Everywhere P) :
    (joinTail items tail).Everywhere P := by
  cases tail
  case list more =>
    obtain ⟨-, hmore⟩ := everywhere_list.1 htail
    exact everywhere_list.2 ⟨hself, List.forall_mem_append.2 ⟨hitems, hmore⟩⟩
  case partialList more rest =>
    obtain ⟨-, hmore, hrest⟩ := everywhere_partialList.1 htail
    exact everywhere_partialList.2 ⟨hself, List.forall_mem_append.2 ⟨hitems, hmore⟩, hrest⟩
  all_goals exact everywhere_partialList.2 ⟨hself, hitems, htail⟩

/-! ### Size -/

mutual

/-- The number of nodes of a term. -/
def size : Term → Nat
  | number _ | atom _ | var _ => 1
  | compound _ args => allSize args + 1
  | list items => allSize items + 1
  | partialList items tail => allSize items + size tail + 1
  | expr _ l r => size l + size r + 1

/-- The number of nodes of several terms. -/
def allSize : List Term → Nat
  | [] => 0
  | t :: ts => size t + allSize ts

end

theorem size_pos (t : Term) : 0 < t.size := by
  cases t <;> simp [size]

@[simp] theorem allSize_append (ts us : List Term) :
    allSize (ts ++ us) = allSize ts + allSize us := by
  induction ts with
  | nil => simp [allSize]
  | cons t ts ih => simp [allSize, ih]; omega

theorem size_le_allSize {t : Term} {ts : List Term} (h : t ∈ ts) : t.size ≤ allSize ts := by
  induction ts with
  | nil => simp at h
  | cons u us ih =>
      rcases List.mem_cons.1 h with rfl | h
      · simp [allSize]
      · have := ih h
        simp only [allSize]
        omega

/-- A row with a term has a node. -/
theorem allSize_pos {ts : List Term} (h : ts ≠ []) : 0 < allSize ts := by
  obtain ⟨t, us, rfl⟩ := List.exists_cons_of_ne_nil h
  have := size_pos t
  simp only [allSize]
  omega

/-- Joining saves the node of a tail that is a list. -/
theorem size_joinTail (items : List Term) (tail : Term) :
    (joinTail items tail).size = allSize items + tail.size ∨
      (joinTail items tail).size = allSize items + tail.size + 1 := by
  cases tail <;> simp [joinTail, size] <;> omega

/-- The tail of a list with items is smaller than the list. -/
theorem size_lt_joinTail {items : List Term} (h : items ≠ []) (tail : Term) :
    tail.size < (joinTail items tail).size := by
  have := allSize_pos h
  have := size_joinTail items tail
  omega

/-- An item of a list is smaller than the list. -/
theorem size_item_lt_joinTail {items : List Term} {a : Term} (h : a ∈ items) (tail : Term) :
    a.size < (joinTail items tail).size := by
  have := size_le_allSize h
  have := size_pos tail
  have := size_joinTail items tail
  omega

end Term

end RhythmLogic
