/-
**Valuations of terms, which join the tails of lists.**

The same list can be cut into items and a tail in several ways, and a unification recuts the lists
it meets.  What does not depend on the cuts is a *valuation*: a function on terms that goes through
every shape and joins a list with the value of its tail.  Substituting bindings is a valuation, as
long as the levels suffice, and so is the value under an assignment.  If a valuation takes the two
sides of all equations between the children of two terms to related terms, it takes the two terms
to related terms.

Main definitions:

* `Term.joinEnd` — items in front of the value of an end: none, or a tail;
* `Congruence` — a relation that goes through shapes, and through the joining of tails;
* `Valuation` — a function that goes through the shapes of the terms in a domain;
* `SeesThrough` — a valuation does not tell a name that is bound from what it stands for.

Main results:

* `Term.joinTail_joinEnd` — items may be joined in two portions;
* `Splits.related` — the equations between children carry a relation up to their parents, whichever
  way the lists were cut;
* `Solves.related` — **equations that were worked off stay true**, for a valuation that sees through
  the bindings.
-/

import RhythmLogic.Proofs.Equations
import Mathlib.Data.List.Forall2

set_option autoImplicit false

namespace RhythmLogic

/-! ### Joining -/

/-- Items in front of the end of a list. -/
def Term.joinEnd (items : List Term) : Option Term → Term
  | none => .list items
  | some tail => joinTail items tail

/-- **Items may be joined in two portions.** -/
theorem Term.joinTail_joinTail (as bs : List Term) (t : Term) :
    joinTail as (joinTail bs t) = joinTail (as ++ bs) t := by
  cases t <;> simp [joinTail]

theorem Term.joinTail_joinEnd (as bs : List Term) (t : Option Term) :
    joinTail as (joinEnd bs t) = joinEnd (as ++ bs) t := by
  cases t with
  | none => rfl
  | some t => exact joinTail_joinTail as bs t

/-! ### Relations and valuations -/

/-- A relation between terms that goes through shapes, and through the joining of tails. -/
structure Congruence (R : Term → Term → Prop) : Prop where
  atom : ∀ name, R (.atom name) (.atom name)
  compound : ∀ {f as bs}, List.Forall₂ R as bs → R (.compound f as) (.compound f bs)
  list : ∀ {as bs}, List.Forall₂ R as bs → R (.list as) (.list bs)
  joinTail : ∀ {as bs s t}, List.Forall₂ R as bs → R s t →
    R (Term.joinTail as s) (Term.joinTail bs t)
  expr : ∀ {op l l' r r'}, R l l' → R r r' → R (.expr op l r) (.expr op l' r')

/-- Equality goes through everything. -/
theorem congruence_eq : Congruence Eq where
  atom _ := rfl
  compound h := by rw [List.forall₂_eq_eq_eq] at h; rw [h]
  list h := by rw [List.forall₂_eq_eq_eq] at h; rw [h]
  joinTail h h' := by rw [List.forall₂_eq_eq_eq] at h; rw [h, h']
  expr h h' := by rw [h, h']

/-- **A valuation of the terms in `D`**: a function that goes through shapes and joins tails. -/
structure Valuation (D : Term → Prop) (F : Term → Term) : Prop where
  atom : ∀ {name}, D (.atom name) → F (.atom name) = .atom name
  compound : ∀ {f args}, D (.compound f args) → F (.compound f args) = .compound f (args.map F)
  listOf : ∀ items tail, D (Term.listOf items tail) →
    F (Term.listOf items tail) = Term.joinEnd (items.map F) (tail.map F)
  expr : ∀ {op l r}, D (.expr op l r) → F (.expr op l r) = .expr op (F l) (F r)

/-! ### From children to parents -/

variable {R : Term → Term → Prop} {D : Term → Prop} {F : Term → Term}

/-- Rows of values are related just when their pairs are. -/
theorem forall₂_map_iff {as bs : List Term} (hlen : as.length = bs.length) :
    List.Forall₂ R (as.map F) (bs.map F) ↔ ∀ p ∈ as.zip bs, R (F p.1) (F p.2) := by
  rw [List.forall₂_map_left_iff, List.forall₂_map_right_iff, List.forall₂_iff_zip]
  exact ⟨fun h _ hp => h.2 hp, fun h => ⟨hlen, fun hp => h _ hp⟩⟩

theorem joinTail_map_of_equations (hR : Congruence R) {as bs : List Term} {s t : Term}
    (hlen : as.length = bs.length) (h : ∀ p ∈ as.zip bs ++ [(s, t)], R (F p.1) (F p.2)) :
    R (Term.joinTail (as.map F) (F s)) (Term.joinTail (bs.map F) (F t)) := by
  simp only [List.mem_append, List.mem_singleton] at h
  exact hR.joinTail ((forall₂_map_iff hlen).2 fun p hp => h p (.inl hp)) (h (s, t) (.inr rfl))

/-- A valuation is one of every smaller domain. -/
theorem Valuation.mono {D' : Term → Prop} (hF : Valuation D F) (h : ∀ t, D' t → D t) :
    Valuation D' F where
  atom ht := hF.atom (h _ ht)
  compound ht := hF.compound (h _ ht)
  listOf items tail ht := hF.listOf items tail (h _ ht)
  expr ht := hF.expr (h _ ht)

theorem Valuation.partialList (hF : Valuation D F) {items : List Term} {tail : Term}
    (h : D (.partialList items tail)) :
    F (.partialList items tail) = Term.joinTail (items.map F) (F tail) :=
  hF.listOf items (some tail) h

/-- The value of a list has the values of its first items in front of what is left. -/
theorem Valuation.listOf_append (hD : Hereditary D) (hF : Valuation D F) {items rest : List Term}
    {tail : Option Term} (h : D (Term.listOf (items ++ rest) tail))
    (hrest : rest ≠ [] ∨ tail = none) :
    F (Term.listOf (items ++ rest) tail) =
      Term.joinTail (items.map F) (F (Term.listOf rest tail)) := by
  rw [hF.listOf _ _ h, hF.listOf _ _ (hD.rest h hrest), Term.joinTail_joinEnd, List.map_append]

/-- **The equations between children carry a relation up to their parents.** -/
theorem Splits.related (hR : Congruence R) (hD : Hereditary D) (hF : Valuation D F) {s t : Term}
    {eqs : List Equation} (h : Splits s t eqs) (hs : D s) (ht : D t)
    (hnumber : ∀ x y, s = .number x → t = .number y → closeEnough x y = true → R (F s) (F t))
    (heqs : ∀ p ∈ eqs, R (F p.1) (F p.2)) : R (F s) (F t) := by
  cases h with
  | number hxy => exact hnumber _ _ rfl rfl hxy
  | atom =>
      rw [hF.atom hs]
      exact hR.atom _
  | compound hlen =>
      rw [hF.compound hs, hF.compound ht]
      exact hR.compound ((forall₂_map_iff hlen).2 heqs)
  | @expr op l r l' r' =>
      rw [hF.expr hs, hF.expr ht]
      exact hR.expr (heqs (l, l') (by simp)) (heqs (r, r') (by simp))
  | @lists as bs hlen =>
      have hleft : F (.list as) = .list (as.map F) := hF.listOf as none hs
      have hright : F (.list bs) = .list (bs.map F) := hF.listOf bs none ht
      rw [hleft, hright]
      exact hR.list ((forall₂_map_iff hlen).2 heqs)
  | tails hlen =>
      rw [hF.partialList hs, hF.partialList ht]
      exact joinTail_map_of_equations hR hlen heqs
  | leftTail hlen hrest =>
      rw [hF.partialList hs, hF.listOf_append hD ht hrest]
      exact joinTail_map_of_equations hR hlen heqs
  | rightTail hlen hrest =>
      rw [hF.partialList ht, hF.listOf_append hD hs hrest]
      exact joinTail_map_of_equations hR hlen heqs

/-! ### Along a unification -/

/-- A valuation sees through bindings when a bound name has the value of what it stands for. -/
def SeesThrough (E : Bindings) (D : Term → Prop) (F : Term → Term) : Prop :=
  ∀ x u, E.get? x = some u → D (.var x) → D u ∧ F (.var x) = F u

variable {e e' E : Bindings} {s t u : Term}

theorem SeesThrough.trail (hE : SeesThrough E D F) (he : e ≤ E) {names : List String}
    (h : e.Trail names s u) (hs : D s) : D u ∧ F s = F u := by
  induction h with
  | stay => exact ⟨hs, rfl⟩
  | follow hx _ ih =>
      obtain ⟨ht, heq⟩ := hE _ _ (he _ _ hx) hs
      obtain ⟨hu, heq'⟩ := ih ht
      exact ⟨hu, heq.trans heq'⟩

/-- What a term stands for at some time has the value of the term, then and later. -/
theorem SeesThrough.settles (hE : SeesThrough E D F) (he : e ≤ E) (h : e.Settles s u)
    (hs : D s) : D u ∧ F s = F u := by
  obtain ⟨names, h, -⟩ := h
  exact hE.trail he h hs

/-- **Equations that were worked off stay true under all later bindings** `E`, for every valuation
that sees through them. -/
theorem Solves.related (hR : Congruence R) (hrefl : ∀ t, R t t) (hD : Hereditary D)
    (hF : Valuation D F) (hE : SeesThrough E D F)
    (hnumber : ∀ x y, D (.number x) → D (.number y) → closeEnough x y = true →
      R (F (.number x)) (F (.number y)))
    {eqs : List Equation} {r : Option Bindings} (h : Solves eqs e r) (hr : r = some e')
    (hle : e' ≤ E) (heqs : EquationsIn D eqs) : ∀ p ∈ eqs, R (F p.1) (F p.2) := by
  induction h with
  | done => simp
  | @same s t x rest e r hs ht h ih =>
      obtain ⟨⟨hsD, htD⟩, hrest⟩ := equationsIn_cons.1 heqs
      have he : e ≤ E := Bindings.le_trans (h.le hr) hle
      have heq : F s = F t :=
        (hE.settles he hs hsD).2.trans (hE.settles he ht htD).2.symm
      exact List.forall_mem_cons.2 ⟨heq ▸ hrefl _, ih hr hrest⟩
  | @bindLeft s t u x rest e r hs ht _ h ih =>
      obtain ⟨⟨hsD, htD⟩, hrest⟩ := equationsIn_cons.1 heqs
      have hbind : e.bind x u ≤ E := Bindings.le_trans (h.le hr) hle
      have he : e ≤ E := Bindings.le_trans (Bindings.le_bind hs.free u) hbind
      have hx : E.get? x = some u := hbind x u (Bindings.get?_bind_self e x u)
      obtain ⟨hxD, hsx⟩ := hE.settles he hs hsD
      have heq : F s = F t :=
        calc F s = F (.var x) := hsx
          _ = F u := (hE x u hx hxD).2
          _ = F t := (hE.settles he ht htD).2.symm
      exact List.forall_mem_cons.2 ⟨heq ▸ hrefl _, ih hr hrest⟩
  | @bindRight s t u y rest e r hs _ ht h ih =>
      obtain ⟨⟨hsD, htD⟩, hrest⟩ := equationsIn_cons.1 heqs
      have hbind : e.bind y u ≤ E := Bindings.le_trans (h.le hr) hle
      have he : e ≤ E := Bindings.le_trans (Bindings.le_bind ht.free u) hbind
      have hy : E.get? y = some u := hbind y u (Bindings.get?_bind_self e y u)
      obtain ⟨hyD, hty⟩ := hE.settles he ht htD
      have heq : F s = F t :=
        calc F s = F u := (hE.settles he hs hsD).2
          _ = F (.var y) := (hE y u hy hyD).2.symm
          _ = F t := hty.symm
      exact List.forall_mem_cons.2 ⟨heq ▸ hrefl _, ih hr hrest⟩
  | @split s t u v eqs rest e r hs ht hsplit h ih =>
      obtain ⟨⟨hsD, htD⟩, hrest⟩ := equationsIn_cons.1 heqs
      have he : e ≤ E := Bindings.le_trans (h.le hr) hle
      obtain ⟨huD, hsu⟩ := hE.settles he hs hsD
      obtain ⟨hvD, htv⟩ := hE.settles he ht htD
      have hchildren := hsplit.equationsIn hD huD hvD
      have hall := ih hr (equationsIn_append.2 ⟨hchildren, hrest⟩)
      have huv : R (F u) (F v) := by
        refine hsplit.related hR hD hF huD hvD ?_ fun p hp => hall p (List.mem_append_left rest hp)
        rintro x y rfl rfl hxy
        exact hnumber x y huD hvD hxy
      rw [List.forall_mem_cons, hsu, htv]
      exact ⟨huv, fun p hp => hall p (List.mem_append_right eqs hp)⟩
  | clash => cases hr

end RhythmLogic
