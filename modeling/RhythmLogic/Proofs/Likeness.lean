/-
**Equality of terms, and the equations between their children.**

Two terms are compared as trees: constructor by constructor, items in pairs, and numbers with the
tolerance.  A unification compares lists portion by portion, in the way they happen to be cut, and
it goes on with what one list has left and the tail of the other one.  The trees that are compared
have their tails joined and show no cuts.

Both come to the same, as long as the tails are no empty lists that go on.  Alike lists have alike
items and an alike end, so comparing joined lists is comparing what stands in front, and then the
tails.  This is false of empty lists with a tail: joined to items they vanish, and next to another
term they do not.

Main definitions:

* `Term.Alike` — the relation that the comparison decides;
* `Term.Kind`, `Term.kind` — the constructor of a term, both kinds of lists being one.

Main results:

* `Term.Alike.symm` — **it does not matter which term comes first**, tolerance included;
* `Term.alike_joinTail` — joined lists are alike just when their items are, and their tails;
* `Splits.alike_iff` — **two terms are alike, once they are read, just when the two sides of all
  equations between their children are**;
* `exists_equations?_of_alike` — terms that are alike, once they are read, do not clash.
-/

import RhythmLogic.Builtin.Comparison
import RhythmLogic.Proofs.Tolerance
import RhythmLogic.Proofs.Values

set_option autoImplicit false

namespace RhythmLogic

/-! ### Alike terms -/

/-- Appended rows are related portion by portion. -/
theorem forall₂_append_iff {α β : Type} {R : α → β → Prop} {as as' : List α} {bs bs' : List β}
    (hlen : as.length = bs.length) :
    List.Forall₂ R (as ++ as') (bs ++ bs') ↔ List.Forall₂ R as bs ∧ List.Forall₂ R as' bs' := by
  refine ⟨fun h => ⟨?_, ?_⟩, fun h => List.rel_append h.1 h.2⟩
  · have hfirst := List.forall₂_take_append _ bs bs' h
    rwa [← hlen, List.take_left] at hfirst
  · have hrest := List.forall₂_drop_append _ bs bs' h
    rwa [← hlen, List.drop_left] at hrest

namespace Term

variable {s t : Term} {as bs : List Term}

/-- Two terms are equal as trees, up to the tolerance. -/
abbrev Alike (s t : Term) : Prop := s.alike t = true

theorem allAlike_iff : allAlike as bs = true ↔ List.Forall₂ Alike as bs := by
  induction as generalizing bs with
  | nil => cases bs <;> simp [allAlike]
  | cons a as ih => cases bs <;> simp [allAlike, ih]

/-- Two lists are alike if their items are, in pairs, and their tails. -/
theorem alike_listOf {s t : Option Term} :
    (listOf as s).Alike (listOf bs t) ↔ List.Forall₂ Alike as bs ∧ Option.Rel Alike s t := by
  cases s <;> cases t <;> simp [listOf, Alike, alike, allAlike_iff]

/-- **Whether two terms are alike does not depend on which one comes first.** -/
theorem Alike.symm (h : s.Alike t) : t.Alike s := by
  have hrows : ∀ {as bs : List Term}, (∀ a ∈ as, ∀ {t : Term}, a.Alike t → t.Alike a) →
      allAlike as bs = true → allAlike bs as = true := by
    intro as bs ih hrow
    rw [allAlike_iff] at hrow ⊢
    induction hrow with
    | nil => exact .nil
    | cons hab _ ih' =>
        rw [List.forall_mem_cons] at ih
        exact .cons (ih.1 hab) (ih' ih.2)
  induction s generalizing t with
  | number x =>
      cases t <;> simp only [Alike, alike, Bool.false_eq_true] at h ⊢
      rwa [closeEnough_comm]
  | atom | var =>
      cases t <;> simp only [Alike, alike, Bool.false_eq_true] at h ⊢
      rwa [Bool.beq_comm]
  | compound f args ih =>
      cases t <;> simp only [Alike, alike, Bool.false_eq_true, Bool.and_eq_true] at h ⊢
      exact ⟨by rw [Bool.beq_comm]; exact h.1, hrows ih h.2⟩
  | list items ih =>
      cases t <;> simp only [Alike, alike, Bool.false_eq_true] at h ⊢
      exact hrows ih h
  | partialList items tail ih ih' =>
      cases t <;> simp only [Alike, alike, Bool.false_eq_true, Bool.and_eq_true] at h ⊢
      exact ⟨hrows ih h.1, ih' h.2⟩
  | expr op l r ihl ihr =>
      cases t <;> simp only [Alike, alike, Bool.false_eq_true, Bool.and_eq_true] at h ⊢
      exact ⟨⟨by rw [Bool.beq_comm]; exact h.1.1, ihl h.1.2⟩, ihr h.2⟩

theorem alike_comm (s t : Term) : s.alike t = t.alike s := by
  rw [Bool.eq_iff_iff]
  exact ⟨Alike.symm, Alike.symm⟩

/-- Front and back decide, but for empty lists with a tail. -/
theorem alike_iff_front_back (hs : s.HasItems) (ht : t.HasItems) :
    s.Alike t ↔ List.Forall₂ Alike s.front t.front ∧ Option.Rel Alike s.back t.back := by
  -- a list with a tail has items in front, and what is no list has none
  cases s
  case list items => cases t <;> simp [Alike, alike, allAlike_iff, front, back]
  case partialList items tail =>
    have hne : items ≠ [] := fun h => hs tail (by rw [h])
    cases t <;> simp [Alike, alike, allAlike_iff, front, back, hne]
  all_goals
    cases t
    case partialList items tail =>
      have hne : items ≠ [] := fun h => ht tail (by rw [h])
      simp [Alike, alike, front, hne]
    all_goals simp [Alike, alike, front, back]

/-- **Joined lists are alike** just when their items are, and their tails. -/
theorem alike_joinTail (hlen : as.length = bs.length) (hs : s.HasItems) (ht : t.HasItems) :
    (joinTail as s).Alike (joinTail bs t) ↔ List.Forall₂ Alike as bs ∧ s.Alike t := by
  rw [joinTail_eq_listOf, joinTail_eq_listOf, alike_listOf, forall₂_append_iff hlen,
    alike_iff_front_back hs ht, and_assoc]

/-- The items in front of an end are those that the list starts with. -/
theorem exists_joinEnd_eq (items : List Term) (tail : Option Term) :
    ∃ more rest, joinEnd items tail = listOf (items ++ more) rest := by
  cases tail with
  | none => exact ⟨[], none, by simp [joinEnd, listOf]⟩
  | some tail => exact ⟨tail.front, tail.back, joinTail_eq_listOf items tail⟩

/-- A list that is alike to a proper one has no more items in front of its end. -/
theorem length_le_of_alike {s : Option Term} (h : (joinEnd as s).Alike (.list bs)) :
    as.length ≤ bs.length := by
  obtain ⟨more, rest, heq⟩ := exists_joinEnd_eq as s
  rw [heq] at h
  have hlen := (alike_listOf (t := none).1 h).1.length_eq
  rw [List.length_append] at hlen
  omega

/-! ### Kinds -/

/-- The kinds of terms.  Both kinds of lists are one, for the tail of a list may come to its end
when it is read. -/
inductive Kind where
  | number
  | atom
  | var
  | compound
  | list
  | expr

/-- The kind of a term. -/
def kind : Term → Kind
  | .number _ => .number
  | .atom _ => .atom
  | .var _ => .var
  | .compound _ _ => .compound
  | .list _ | .partialList _ _ => .list
  | .expr _ _ _ => .expr

theorem Alike.kind_eq (h : s.Alike t) : s.kind = t.kind := by
  cases s <;> cases t <;> first | rfl | simp [Alike, alike] at h

theorem kind_joinEnd (items : List Term) (tail : Option Term) :
    (joinEnd items tail).kind = .list := by
  obtain ⟨more, rest, heq⟩ := exists_joinEnd_eq items tail
  rw [heq]
  cases rest <;> rfl

end Term

open Term

variable {D : Term → Prop} {F : Term → Term} {s t : Term} {eqs : List Equation}

/-- Reading a term with a shape does not change its kind. -/
theorem Valuation.kind_eq (hF : Valuation D F)
    (hnumber : ∀ x, D (.number x) → F (.number x) = .number x) (hs : D s)
    (hshape : s.isVar = false) : (F s).kind = s.kind := by
  cases s with
  | number x => rw [hnumber x hs]
  | atom => rw [hF.atom hs]
  | var => cases hshape
  | compound =>
      rw [hF.compound hs]
      rfl
  | list items => exact (congrArg kind (hF.listOf items none hs)).trans (kind_joinEnd _ _)
  | partialList items tail =>
      exact (congrArg kind (hF.listOf items (some tail) hs)).trans (kind_joinEnd _ _)
  | expr =>
      rw [hF.expr hs]
      rfl

/-! ### Equations between children -/

/-- Lists that were cut after as many items are alike if the equations between them hold. -/
theorem alike_joinTail_map {as bs : List Term} (hlen : as.length = bs.length)
    (hs : (F s).HasItems) (ht : (F t).HasItems) :
    (joinTail (as.map F) (F s)).Alike (joinTail (bs.map F) (F t)) ↔
      ∀ p ∈ as.zip bs ++ [(s, t)], (F p.1).Alike (F p.2) := by
  rw [alike_joinTail (by simpa using hlen) hs ht, forall₂_map_iff hlen, List.forall_mem_append,
    List.forall_mem_singleton]

/-- **Two terms are alike, once they are read,** just when the two sides of all equations between
their children are. -/
theorem Splits.alike_iff (hD : Hereditary D) (hF : Valuation D F)
    (hnumber : ∀ x, D (.number x) → F (.number x) = .number x)
    (hitems : ∀ u, D u → (F u).HasItems) (h : Splits s t eqs) (hs : D s) (ht : D t) :
    (F s).Alike (F t) ↔ ∀ p ∈ eqs, (F p.1).Alike (F p.2) := by
  have heqs := h.equationsIn hD hs ht
  cases h with
  | number hxy => simpa [hnumber _ hs, hnumber _ ht, Alike, alike] using hxy
  | atom => simp [hF.atom hs, Alike, alike]
  | compound hlen =>
      rw [← forall₂_map_iff hlen, hF.compound hs, hF.compound ht]
      simp [Alike, alike, allAlike_iff]
  | expr =>
      rw [hF.expr hs, hF.expr ht]
      simp [Alike, alike]
  | @lists as bs hlen =>
      have hleft : F (.list as) = .list (as.map F) := hF.listOf as none hs
      have hright : F (.list bs) = .list (bs.map F) := hF.listOf bs none ht
      rw [← forall₂_map_iff hlen, hleft, hright]
      simp [Alike, alike, allAlike_iff]
  | @tails as bs s t hlen =>
      obtain ⟨hsD, htD⟩ := heqs (s, t) (by simp)
      rw [hF.partialList hs, hF.partialList ht,
        alike_joinTail_map hlen (hitems s hsD) (hitems t htD)]
  | @leftTail as bs rest s t hlen hrest =>
      obtain ⟨hsD, htD⟩ := heqs (s, listOf rest t) (by simp)
      rw [hF.partialList hs, hF.listOf_append hD ht hrest,
        alike_joinTail_map hlen (hitems s hsD) (hitems _ htD)]
  | @rightTail as bs rest s t hlen hrest =>
      obtain ⟨hsD, htD⟩ := heqs (listOf rest s, t) (by simp)
      rw [hF.partialList ht, hF.listOf_append hD hs hrest,
        alike_joinTail_map hlen (hitems _ hsD) (hitems t htD)]

theorem exists_listEquations?_of_alike (hF : Valuation D F) {as bs : List Term}
    {s t : Option Term} (hs : D (listOf as s)) (ht : D (listOf bs t))
    (h : (F (listOf as s)).Alike (F (listOf bs t))) :
    ∃ eqs, listEquations? as s bs t = some eqs := by
  rw [hF.listOf as s hs, hF.listOf bs t ht] at h
  refine exists_listEquations? ?_ ?_
  · rintro rfl
    simpa using length_le_of_alike h.symm
  · rintro rfl
    simpa using length_le_of_alike h

/-- **Terms that are alike, once they are read, do not clash:** they have equations. -/
theorem exists_equations?_of_alike (hF : Valuation D F)
    (hnumber : ∀ x, D (.number x) → F (.number x) = .number x) (hs : D s) (ht : D t)
    (hsv : s.isVar = false) (htv : t.isVar = false) (h : (F s).Alike (F t)) :
    ∃ eqs, s.equations? t = some eqs := by
  have hkind : s.kind = t.kind := by
    rw [← hF.kind_eq hnumber hs hsv, ← hF.kind_eq hnumber ht htv]
    exact h.kind_eq
  cases s <;> cases t <;> simp only [kind, reduceCtorEq] at hkind
  case list.list | list.partialList | partialList.list | partialList.partialList =>
    exact exists_listEquations?_of_alike hF hs ht h
  case number.number x y =>
    rw [hnumber x hs, hnumber y ht] at h
    exact ⟨[], if_pos h⟩
  case atom.atom =>
    rw [hF.atom hs, hF.atom ht] at h
    exact ⟨[], if_pos h⟩
  case var.var => cases hsv
  case compound.compound f as g bs =>
    rw [hF.compound hs, hF.compound ht, Alike, alike, Bool.and_eq_true, allAlike_iff] at h
    have hlen : as.length = bs.length := by simpa using h.2.length_eq
    exact ⟨as.zip bs, if_pos (by simp [hlen, h.1])⟩
  case expr.expr =>
    rw [hF.expr hs, hF.expr ht, Alike, alike, Bool.and_eq_true, Bool.and_eq_true] at h
    exact ⟨_, if_pos h.1.1⟩

end RhythmLogic
