/-
**Full expansions, and the soundness of unification.**

Bindings are triangular: what a name stands for may itself mention bound names.  The *full
expansion* of a term replaces them all the way down, and it is finite unless a binding is cyclic.
`Bindings.subst` computes it as long as it nests no deeper than the levels that a substitution
reaches.  Under bindings with that property a unification that succeeds has made its two terms the
same.

Numbers need a word.  A unification takes numbers that are less than the tolerance apart for the
same, so the terms that it made the same may differ in corresponding numbers by less than that.

Main definitions:

* `Bindings.Fits` — the full expansion of a term is finite, and nests no deeper than given;
* `Bindings.Acyclic` — all full expansions are finite;
* `Term.Near` — the same, up to numbers that are less than the tolerance apart.

Main results:

* `Bindings.valuation_substF` — **substitution is a valuation** of the terms that fit its levels;
* `Solves.near` — equations that were worked off stay true under all later bindings;
* `unify_sound` — **what was unified is the same after substitution**.
-/

import RhythmLogic.Proofs.Valuations

set_option autoImplicit false

namespace RhythmLogic

namespace Bindings

variable {e e' : Bindings} {s t u : Term} {m n : Nat}

/-! ### Full expansions -/

/-- `e.Fits n t` says that the full expansion of `t` is finite and has at most `n` levels.  The
root is a level, and so are the items and the tail of a list, each time that one hangs below. -/
inductive Fits (e : Bindings) : Nat → Term → Prop where
  | number {n : Nat} {x : Float} : Fits e (n + 1) (.number x)
  | atom {n : Nat} {name : String} : Fits e (n + 1) (.atom name)
  | free {n : Nat} {x : String} : e.get? x = none → Fits e (n + 1) (.var x)
  | bound {n : Nat} {x : String} {t : Term} : e.get? x = some t → Fits e n t → Fits e n (.var x)
  | compound {n : Nat} {f : String} {args : List Term} : (∀ a ∈ args, Fits e n a) →
      Fits e (n + 1) (.compound f args)
  | list {n : Nat} {items : List Term} : (∀ a ∈ items, Fits e n a) →
      Fits e (n + 1) (.list items)
  | partialList {n : Nat} {items : List Term} {tail : Term} : (∀ a ∈ items, Fits e n a) →
      Fits e n tail → Fits e (n + 1) (.partialList items tail)
  | expr {n : Nat} {op : Op} {l r : Term} : Fits e n l → Fits e n r →
      Fits e (n + 1) (.expr op l r)

/-- **All full expansions are finite.** -/
def Acyclic (e : Bindings) : Prop := ∀ t, ∃ n, e.Fits n t

/-- Every term has a level. -/
theorem Fits.exists_level (h : e.Fits n t) : ∃ k, n = k + 1 := by
  induction h with
  | bound _ _ ih => exact ih
  | _ => exact ⟨_, rfl⟩

theorem Fits.succ (h : e.Fits n t) : e.Fits (n + 1) t := by
  induction h with
  | number => exact .number
  | atom => exact .atom
  | free hx => exact .free hx
  | bound hx _ ih => exact .bound hx ih
  | compound _ ih => exact .compound ih
  | list _ ih => exact .list ih
  | partialList _ _ ih ih' => exact .partialList ih ih'
  | expr _ _ ihl ihr => exact .expr ihl ihr

theorem Fits.mono (h : e.Fits n t) (hle : n ≤ m) : e.Fits m t := by
  induction hle with
  | refl => exact h
  | step _ ih => exact ih.succ

theorem fits_listOf {items : List Term} {tail : Option Term} :
    e.Fits (n + 1) (Term.listOf items tail) ↔
      (∀ a ∈ items, e.Fits n a) ∧ ∀ t ∈ tail, e.Fits n t := by
  cases tail with
  | none =>
      refine ⟨fun h => ?_, fun h => .list h.1⟩
      cases h with
      | list hitems => exact ⟨hitems, by simp⟩
  | some tail =>
      refine ⟨fun h => ?_, fun h => .partialList h.1 (h.2 tail rfl)⟩
      cases h with
      | partialList hitems htail => exact ⟨hitems, by simpa using htail⟩

/-- To fit is hereditary: what a list has left is no deeper than the list. -/
theorem hereditary_fits (e : Bindings) (n : Nat) : Hereditary (e.Fits n) where
  arg h a ha := by
    cases h with
    | compound h => exact (h a ha).succ
  side h := by
    cases h with
    | expr hl hr => exact ⟨hl.succ, hr.succ⟩
  item items tail h a ha := by
    obtain ⟨k, rfl⟩ := h.exists_level
    exact ((fits_listOf.1 h).1 a ha).succ
  tail h := by
    cases h with
    | partialList _ h => exact h.succ
  rest h _ := by
    obtain ⟨k, rfl⟩ := h.exists_level
    obtain ⟨hitems, htail⟩ := fits_listOf.1 h
    exact fits_listOf.2 ⟨fun a ha => hitems a (List.mem_append_right _ ha), htail⟩

/-! ### Walks under full expansions -/

/-- What a term stands for expands with it. -/
theorem Fits.trail {names : List String} (h : e.Fits n t) (ht : e.Trail names t u) :
    e.Fits n u := by
  induction ht with
  | stay => exact h
  | @follow x names t u hx _ ih =>
      cases h with
      | free hfree => simp [hx] at hfree
      | bound hx' h =>
          rw [hx, Option.some.injEq] at hx'
          subst hx'
          exact ih h

/-- The walk from a term whose expansion is finite ends. -/
theorem Fits.settles (h : e.Fits n t) : ∃ u, e.Settles t u := by
  induction h with
  | free hx => exact ⟨_, settles_self (isBound_var_eq_false.2 hx)⟩
  | bound hx _ ih =>
      obtain ⟨u, hu⟩ := ih
      exact ⟨u, hu.follow hx⟩
  | _ => exact ⟨_, settles_shape rfl⟩

@[simp] theorem substF_compound (e : Bindings) (n : Nat) (f : String) (args : List Term) :
    e.substF (n + 1) (.compound f args) = .compound f (args.map (e.substF n)) := rfl

@[simp] theorem substF_list (e : Bindings) (n : Nat) (items : List Term) :
    e.substF (n + 1) (.list items) = .list (items.map (e.substF n)) := rfl

@[simp] theorem substF_partialList (e : Bindings) (n : Nat) (items : List Term) (tail : Term) :
    e.substF (n + 1) (.partialList items tail) =
      Term.joinTail (items.map (e.substF n)) (e.substF n tail) := rfl

@[simp] theorem substF_expr (e : Bindings) (n : Nat) (op : Op) (l r : Term) :
    e.substF (n + 1) (.expr op l r) = .expr op (e.substF n l) (e.substF n r) := rfl

theorem substF_congr (h : e.walk s = e.walk t) (n : Nat) :
    e.substF (n + 1) s = e.substF (n + 1) t := by
  simp only [substF, h]

/-- A substitution does not see a walk. -/
theorem Fits.substF_trail {names : List String} (h : e.Fits n t) (ht : e.Trail names t u) :
    e.substF n t = e.substF n u := by
  -- both walks end where the walk from `u` ends, and a substitution starts with a walk
  obtain ⟨k, rfl⟩ := h.exists_level
  obtain ⟨v, names', hv, hfree⟩ := (h.trail ht).settles
  have hwalk : e.walk u = v := Settles.walk_eq ⟨names', hv, hfree⟩
  have hwalk' : e.walk t = v := Settles.walk_eq ⟨names ++ names', ht.append hv, hfree⟩
  exact substF_congr (hwalk'.trans hwalk.symm) k

/-- A variable that is bound is read as what it stands for. -/
theorem Fits.substF_bound {x : String} (hx : e.get? x = some t) (h : e.Fits n t) :
    e.substF n (.var x) = e.substF n t :=
  (Fits.bound hx h).substF_trail (.follow hx .stay)

/-- A free variable is read as itself. -/
theorem substF_free {x : String} (hx : e.get? x = none) (n : Nat) :
    e.substF n (.var x) = .var x := by
  cases n with
  | zero => rfl
  | succ n => simp only [substF, (settles_self (isBound_var_eq_false.2 hx)).walk_eq]

/-! ### Substitution as a valuation -/

/-- **More levels change nothing,** once the full expansion fits. -/
theorem Fits.substF_succ (h : e.Fits n t) : e.substF (n + 1) t = e.substF n t := by
  induction h with
  | number | atom => rfl
  | free hx => rw [substF_free hx, substF_free hx]
  | bound hx h ih => rw [h.succ.substF_bound hx, h.substF_bound hx, ih]
  | compound _ ih => rw [substF_compound, substF_compound, List.map_congr_left ih]
  | list _ ih => rw [substF_list, substF_list, List.map_congr_left ih]
  | partialList _ _ ih ih' =>
      rw [substF_partialList, substF_partialList, List.map_congr_left ih, ih']
  | expr _ _ ihl ihr => rw [substF_expr, substF_expr, ihl, ihr]

/-- **Substitution is a valuation** of the terms that fit its levels. -/
theorem valuation_substF (e : Bindings) (n : Nat) : Valuation (e.Fits n) (e.substF n) where
  atom h := by
    obtain ⟨k, rfl⟩ := h.exists_level
    rfl
  compound h := by
    cases h with
    | compound h =>
        rw [substF_compound, List.map_congr_left fun a ha => (h a ha).substF_succ]
  listOf items tail h := by
    obtain ⟨k, rfl⟩ := h.exists_level
    obtain ⟨hitems, htail⟩ := fits_listOf.1 h
    have hmap : items.map (e.substF (k + 1)) = items.map (e.substF k) :=
      List.map_congr_left fun a ha => (hitems a ha).substF_succ
    cases tail with
    | none => exact congrArg Term.list hmap.symm
    | some tail =>
        rw [hmap, Option.map_some, (htail tail rfl).substF_succ]
        rfl
  expr h := by
    cases h with
    | expr hl hr => rw [substF_expr, hl.substF_succ, hr.substF_succ]

end Bindings

/-! ### The same up to numbers that are close -/

/-- **The same, except that corresponding numbers may be less than the tolerance apart.** -/
inductive Term.Near : Term → Term → Prop where
  | number {x y : Float} : x = y ∨ closeEnough x y = true → Near (.number x) (.number y)
  | atom {name : String} : Near (.atom name) (.atom name)
  | var {name : String} : Near (.var name) (.var name)
  | compound {f : String} {as bs : List Term} : List.Forall₂ Near as bs →
      Near (.compound f as) (.compound f bs)
  | list {as bs : List Term} : List.Forall₂ Near as bs → Near (.list as) (.list bs)
  | partialList {as bs : List Term} {s t : Term} : List.Forall₂ Near as bs → Near s t →
      Near (.partialList as s) (.partialList bs t)
  | expr {op : Op} {l l' r r' : Term} : Near l l' → Near r r' →
      Near (.expr op l r) (.expr op l' r')

namespace Term

theorem Near.refl (t : Term) : t.Near t := by
  induction t with
  | number x => exact .number (.inl rfl)
  | atom => exact .atom
  | var => exact .var
  | compound f args ih => exact .compound (List.forall₂_same.2 ih)
  | list items ih => exact .list (List.forall₂_same.2 ih)
  | partialList items tail ih ih' => exact .partialList (List.forall₂_same.2 ih) ih'
  | expr op l r ihl ihr => exact .expr ihl ihr

/-- Nearness survives the joining of tails: near tails are cut alike. -/
theorem Near.joinTail {as bs : List Term} {s t : Term} (h : List.Forall₂ Near as bs)
    (h' : s.Near t) : (Term.joinTail as s).Near (Term.joinTail bs t) := by
  cases h' with
  | list hmore => exact .list (List.rel_append h hmore)
  | partialList hmore hrest => exact .partialList (List.rel_append h hmore) hrest
  | number hxy => exact .partialList h (.number hxy)
  | atom => exact .partialList h .atom
  | var => exact .partialList h .var
  | compound hargs => exact .partialList h (.compound hargs)
  | expr hl hr => exact .partialList h (.expr hl hr)

theorem congruence_near : Congruence Near where
  atom _ := .atom
  compound := .compound
  list := .list
  joinTail := Near.joinTail
  expr := .expr

end Term

/-! ### Soundness -/

variable {e e' E : Bindings} {n : Nat}

/-- Substitution sees through its bindings. -/
theorem Bindings.seesThrough_substF (E : Bindings) (n : Nat) :
    SeesThrough E (E.Fits n) (E.substF n) := by
  intro x u hx h
  have htrail : E.Trail [x] (.var x) u := .follow hx .stay
  exact ⟨h.trail htrail, h.substF_trail htrail⟩

/-- Substitution takes both sides of the equations that were worked off to near terms. -/
theorem Solves.near {eqs : List Equation} {r : Option Bindings} (h : Solves eqs e r)
    (hr : r = some e') (hE : e' ≤ E) (heqs : EquationsIn (E.Fits n) eqs) :
    ∀ p ∈ eqs, (E.substF n p.1).Near (E.substF n p.2) := by
  refine h.related Term.congruence_near Term.Near.refl (Bindings.hereditary_fits E n)
    (Bindings.valuation_substF E n) (Bindings.seesThrough_substF E n) ?_ hr hE heqs
  intro x y hx _ hxy
  obtain ⟨k, rfl⟩ := hx.exists_level
  exact .number (.inr hxy)

/-- **Unification is sound.**  When two terms were unified, and their full expansions under the
bindings that were found are finite and within the levels of a substitution, then substitution makes
them the same, up to numbers that are less than the tolerance apart.  Nothing is assumed of the
terms, of the bindings that the unification started from, or of its depth. -/
theorem unify_sound {depth : Nat} {a b : Term} (h : unifyF depth a b e = .ok (some e'))
    (ha : e'.Fits Bindings.levels a) (hb : e'.Fits Bindings.levels b) :
    (e'.subst a).Near (e'.subst b) :=
  (solves_of_unifyF h).near rfl (Bindings.le_refl e') (by simp [ha, hb]) (a, b) (by simp)

/-- Two lists with tails, of different lengths and with numbers that are close: the tail of the
shorter one becomes what the longer one has left, with the end that was bound before. -/
theorem unify_sound_partialLists :
    let a : Term := .partialList [.number 1] (.var "T")
    let b : Term := .partialList [.number 1.0000000001, .atom "a"] (.var "U")
    let e : Bindings := ⟨[("U", .list [.atom "b"])]⟩
    let e' := e.bind "T" (.partialList [.atom "a"] (.var "U"))
    unifyF 3 a b e = .ok (some e') ∧ (e'.subst a).Near (e'.subst b) := by
  intro a b e e'
  have h : unifyF 3 a b e = .ok (some e') := rfl
  have hU : e'.Fits 2 (.var "U") := .bound rfl (.list (List.forall_mem_singleton.2 .atom))
  have hT : e'.Fits 3 (.var "T") :=
    .bound rfl (.partialList (List.forall_mem_singleton.2 .atom) hU)
  have ha : e'.Fits 4 a := .partialList (List.forall_mem_singleton.2 .number) hT
  have hb : e'.Fits 3 b :=
    .partialList (List.forall_mem_cons.2 ⟨.number, List.forall_mem_singleton.2 .atom⟩) hU
  exact ⟨h, unify_sound h (ha.mono (by decide)) (hb.mono (by decide))⟩

end RhythmLogic
