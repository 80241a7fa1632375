/-
**Equality and unification of ground terms.**

A goal `eq(a, b)` reads both terms and compares the two trees, and a goal `a = b` unifies the terms
as they are.  The two never meet the same lists: a reading joins their tails, and a unification
follows the tails through the bindings, with what is left of the other list on the other side.

Where nothing is free, they are one test.  The comparison of two terms comes down to the comparison
of both sides of their equations, for a reading is a valuation; the unification works off the same
equations, one after the other, and binds nothing.  It ends since one side of each equation is a
child, so that the levels of both sides together go down.  What clashes was not alike: alike terms
have equations.

The goal `distinct(l)` makes the test on all pairs of items of one list.

Main definitions:

* `Bindings.ReadsGround` — **a term that is ground once it is read**;
* `Bindings.Within` — two terms whose expansions have few levels, together;
* `Unified.test`, `tested` — unifications and searches that find what they started from, or nothing.

Main results:

* `Bindings.hereditary_readsGround`, `Bindings.ReadsGround.items` — the children of such a term, and
  the items that are read of it, are such terms;
* `unifyF_ground` — **ground terms are unified by comparing what they are read as**;
* `allDistinct_iff_getElem` — what `distinct` tests, for places in any order;
* `ground_equality` — **`eq` and `=` agree on ground terms**, and `distinct` makes the same test.
-/

import RhythmLogic.CommandLine.Mixer
import RhythmLogic.Proofs.Collapse
import RhythmLogic.Proofs.Likeness
import RhythmLogic.Proofs.Substitution

set_option autoImplicit false

namespace RhythmLogic

open Bindings Term

variable {D : Term → Prop} {F : Term → Term} {e : Bindings} {s t u v : Term}
  {eqs : List Equation} {depth m n : Nat}

/-! ### Ground values -/

theorem Term.isGround_joinTail {items : List Term} :
    (joinTail items t).isGround = true ↔
      (∀ a ∈ items, a.isGround = true) ∧ t.isGround = true := by
  cases t <;> simp [joinTail, isGround, allGround_iff, and_assoc, or_imp, forall_and]

theorem Term.isGround_joinEnd {items : List Term} {tail : Option Term} :
    (joinEnd items tail).isGround = true ↔
      (∀ a ∈ items, a.isGround = true) ∧ ∀ t ∈ tail, t.isGround = true := by
  cases tail with
  | none => simp [joinEnd, isGround, allGround_iff]
  | some tail => simp [joinEnd, isGround_joinTail]

theorem Hereditary.and {D' : Term → Prop} (h : Hereditary D) (h' : Hereditary D') :
    Hereditary fun t => D t ∧ D' t where
  arg ht a ha := ⟨h.arg ht.1 a ha, h'.arg ht.2 a ha⟩
  side ht := ⟨⟨(h.side ht.1).1, (h'.side ht.2).1⟩, (h.side ht.1).2, (h'.side ht.2).2⟩
  item items tail ht a ha := ⟨h.item items tail ht.1 a ha, h'.item items tail ht.2 a ha⟩
  tail ht := ⟨h.tail ht.1, h'.tail ht.2⟩
  rest ht hrest := ⟨h.rest ht.1 hrest, h'.rest ht.2 hrest⟩

/-- The children of a term with a ground value have ground values. -/
theorem Valuation.hereditary_ground (hD : Hereditary D) (hF : Valuation D F) :
    Hereditary fun t => D t ∧ (F t).isGround = true where
  arg h a ha := by
    obtain ⟨ht, hground⟩ := h
    rw [hF.compound ht, isGround, allGround_iff, List.forall_mem_map] at hground
    exact ⟨hD.arg ht a ha, hground a ha⟩
  side h := by
    obtain ⟨ht, hground⟩ := h
    rw [hF.expr ht, isGround, Bool.and_eq_true] at hground
    exact ⟨⟨(hD.side ht).1, hground.1⟩, (hD.side ht).2, hground.2⟩
  item items tail h a ha := by
    obtain ⟨ht, hground⟩ := h
    rw [hF.listOf items tail ht, isGround_joinEnd, List.forall_mem_map] at hground
    exact ⟨hD.item items tail ht a ha, hground.1 a ha⟩
  tail h := by
    obtain ⟨ht, hground⟩ := h
    rw [hF.partialList ht, isGround_joinTail] at hground
    exact ⟨hD.tail ht, hground.2⟩
  rest h hrest := by
    obtain ⟨ht, hground⟩ := h
    rw [hF.listOf_append hD ht hrest, isGround_joinTail] at hground
    exact ⟨hD.rest ht hrest, hground.2⟩

namespace Bindings

/-- **A term that is ground once it is read:** it expands within the levels of a substitution, no
variable is left, and the lists in it that have a tail have items. -/
structure ReadsGround (e : Bindings) (t : Term) : Prop where
  fits : e.Fits levels t
  ground : (e.subst t).isGround = true
  full : t.Full

theorem readsGround_iff : e.ReadsGround t ↔
    (e.Fits levels t ∧ (e.subst t).isGround = true) ∧ t.Everywhere HasItems :=
  ⟨fun h => ⟨⟨h.fits, h.ground⟩, full_iff.1 h.full⟩, fun h => ⟨h.1.1, h.1.2, full_iff.2 h.2⟩⟩

theorem hereditary_readsGround (e : Bindings) : Hereditary e.ReadsGround := by
  have hground := (valuation_substF e levels).hereditary_ground (hereditary_fits e levels)
  have heq : e.ReadsGround = fun t =>
      (e.Fits levels t ∧ (e.subst t).isGround = true) ∧ t.Everywhere HasItems :=
    funext fun _ => propext readsGround_iff
  rw [heq]
  exact hground.and stable_hasItems.hereditary

theorem rooted_hasItems : Rooted HasItems where
  compound _ tail := by simp
  list _ tail := by simp
  joinTail h hlen := by
    refine hasItems_joinTail (fun hnil => ?_) _
    rw [hnil, List.length_nil, eq_comm, List.length_eq_zero_iff] at hlen
    exact h _ (by rw [hlen])
  expr _ tail := by simp

/-- Bindings that mention no empty list with a tail have none anywhere. -/
theorem everywhere_hasItems (h : ∀ tail, ¬ e.Mentions (.partialList [] tail)) :
    e.Everywhere HasItems := fun x t hx =>
  ⟨fun tail => by simp, full_iff.1 fun tail ht => h tail ⟨x, t, hx, ht⟩⟩

/-- What is read of a full term is full. -/
theorem full_subst (he : e.Everywhere HasItems) (ht : t.Full) : (e.subst t).Full :=
  full_iff.2 (everywhere_substF rooted_hasItems he levels (full_iff.1 ht))

namespace ReadsGround

theorem settles (h : e.ReadsGround t) (he : e.Everywhere HasItems) (hu : e.Settles t u) :
    e.ReadsGround u ∧ e.subst t = e.subst u := by
  obtain ⟨hfit, heq⟩ := h.fits.substF_walk (le_refl e) hu
  exact ⟨⟨hfit, (congrArg isGround heq).symm.trans h.ground,
    full_iff.2 (hu.everywhere he (full_iff.1 h.full))⟩, heq⟩

theorem hasItems (h : e.ReadsGround t) (he : e.Everywhere HasItems) : (e.subst t).HasItems :=
  (full_iff.1 (full_subst he h.full)).self

/-- A walk from a term that reads ground ends at a shape. -/
theorem isVar_eq_false (h : e.ReadsGround u) (hu : e.isBound u = false) : u.isVar = false := by
  cases u with
  | var x =>
      have hground := h.ground
      rw [subst, substF_free (isBound_var_eq_false.1 hu)] at hground
      cases hground
  | _ => rfl

/-- What was read reads ground again, as itself. -/
theorem read (h : e.ReadsGround t) (he : e.Everywhere HasItems) : e.ReadsGround (e.subst t) where
  fits := h.fits.substF (le_refl e)
  ground := (congrArg isGround (substF_substF (le_refl e) h.fits)).trans h.ground
  full := full_subst he h.full

/-- The items that are read of a list read ground, and as themselves. -/
theorem items (h : e.ReadsGround t) (he : e.Everywhere HasItems) {items : List Term}
    (hread : e.subst t = .list items) : ∀ a ∈ items, e.ReadsGround a ∧ e.subst a = a := by
  have hlist : e.ReadsGround (.list items) := hread ▸ h.read he
  have hitems := subst_list_of_subst (le_refl e) h.fits hread
  rw [hread, Term.list.injEq] at hitems
  have hself : items.map e.subst = items.map id := by rw [List.map_id, ← hitems]
  exact fun a ha => ⟨(hereditary_readsGround e).item items none hlist a ha,
    List.map_inj_left.1 hself a ha⟩

end ReadsGround

/-! ### Depth -/

/-- The expansions of two terms have no more levels, together, than a given depth. -/
def Within (e : Bindings) (depth : Nat) (p : Equation) : Prop :=
  ∃ m n, e.Fits m p.1 ∧ e.Fits n p.2 ∧ m + n ≤ depth

theorem Within.settles (h : e.Within depth (s, t)) (hu : e.Settles s u) (hv : e.Settles t v) :
    e.Within depth (u, v) := by
  obtain ⟨m, n, hs, ht, hle⟩ := h
  exact ⟨m, n, (hs.substF_walk (le_refl e) hu).1, (ht.substF_walk (le_refl e) hv).1, hle⟩

/-- Rows of terms with fewer levels are within a smaller depth, pair by pair. -/
theorem within_zip {as bs : List Term} (ha : ∀ a ∈ as, e.Fits m a) (hb : ∀ b ∈ bs, e.Fits n b)
    (hle : m + n ≤ depth) : ∀ p ∈ as.zip bs, e.Within depth p := fun _ hp =>
  ⟨m, n, ha _ (List.of_mem_zip hp).1, hb _ (List.of_mem_zip hp).2, hle⟩

theorem Within.zip {as bs : List Term} {s t : Option Term}
    (h : e.Within (depth + 1) (listOf as s, listOf bs t)) : ∀ p ∈ as.zip bs, e.Within depth p := by
  obtain ⟨m, n, hs, ht, hle⟩ := h
  obtain ⟨m, rfl⟩ := hs.exists_level
  obtain ⟨n, rfl⟩ := ht.exists_level
  exact within_zip (fits_listOf.1 hs).1 (fits_listOf.1 ht).1 (by omega)

end Bindings

/-- **The equations between children are within a smaller depth:** one side of each is a child. -/
theorem Splits.within (h : Splits s t eqs) (hst : e.Within (depth + 1) (s, t)) :
    ∀ p ∈ eqs, e.Within depth p := by
  obtain ⟨m, n, hs, ht, hle⟩ := hst
  have hright := hereditary_fits e n
  cases h with
  | number | atom => simp
  | compound =>
      cases hs with
      | compound has => exact within_zip has (hright.arg ht) (by omega)
  | expr =>
      cases hs with
      | expr hl hr =>
          simp only [List.forall_mem_cons]
          exact ⟨⟨_, n, hl, (hright.side ht).1, by omega⟩, ⟨_, n, hr, (hright.side ht).2, by omega⟩,
            by simp⟩
  | @lists as bs =>
      cases hs with
      | list has => exact within_zip has (hright.item bs none ht) (by omega)
  | @tails as bs s t =>
      cases hs with
      | partialList has hs =>
          exact List.forall_mem_append.2
            ⟨within_zip has (hright.item bs (some t) ht) (by omega),
              List.forall_mem_singleton.2 ⟨_, n, hs, hright.tail ht, by omega⟩⟩
  | @leftTail as bs rest s t _ hrest =>
      have hbs : ∀ b ∈ bs, e.Fits n b := fun b hb =>
        hright.item (bs ++ rest) t ht b (List.mem_append_left rest hb)
      cases hs with
      | partialList has hs =>
          exact List.forall_mem_append.2 ⟨within_zip has hbs (by omega),
            List.forall_mem_singleton.2 ⟨_, n, hs, hright.rest ht hrest, by omega⟩⟩
  | @rightTail as bs rest s t _ hrest =>
      have hleft := hereditary_fits e m
      have has : ∀ a ∈ as, e.Fits m a := fun a ha =>
        hleft.item (as ++ rest) s hs a (List.mem_append_left rest ha)
      cases ht with
      | partialList hbs ht =>
          exact List.forall_mem_append.2 ⟨within_zip has hbs (by omega),
            List.forall_mem_singleton.2 ⟨m, _, hleft.rest hs hrest, ht, by omega⟩⟩

/-! ### Unification of ground terms -/

/-- The answer of a unification that binds nothing. -/
def Unified.test (holds : Bool) (e : Bindings) : Unified := if holds then .solved e else .clash

/-- Equations that bind nothing are all tested, up to the first one that fails. -/
theorem runEquations_test {step : Term → Term → Bindings → Unified} {holds : Equation → Bool}
    (h : ∀ p ∈ eqs, step p.1 p.2 e = .test (holds p) e) :
    runEquations step eqs e = .test (eqs.all holds) e := by
  induction eqs with
  | nil => rfl
  | cons p eqs ih =>
      obtain ⟨hp, heqs⟩ := List.forall_mem_cons.1 h
      rw [runEquations_cons p.1 p.2, hp, List.all_cons]
      cases holds p with
      | false => rfl
      | true => exact ih heqs

/-- A row that binds nothing answers, so what clashes after it does clash. -/
theorem andThen_clash_of_test {holds : Bool} :
    (Unified.test holds e).andThen (fun _ => .clash) = .clash := by
  cases holds <;> rfl

/-- **Two shapes that read ground are unified by comparing what they are read as,** if `step` does
so with all pairs of terms within a smaller depth. -/
theorem unifyShapes_ground {step : Term → Term → Bindings → Unified} (he : e.Everywhere HasItems)
    (hstep : ∀ p : Equation, e.Within depth p → e.ReadsGround p.1 → e.ReadsGround p.2 →
      step p.1 p.2 e = .test ((e.subst p.1).alike (e.subst p.2)) e)
    (huv : e.Within (depth + 1) (u, v)) (hu : e.ReadsGround u) (hv : e.ReadsGround v)
    (hushape : u.isVar = false) (hvshape : v.isVar = false) :
    unifyShapes step u v e = .test ((e.subst u).alike (e.subst v)) e := by
  have hD := hereditary_readsGround e
  have hF : Valuation e.ReadsGround e.subst := (valuation_substF e levels).mono fun _ h => h.fits
  have hrun : ∀ eqs, EquationsIn e.ReadsGround eqs → (∀ p ∈ eqs, e.Within depth p) →
      runEquations step eqs e =
        .test (eqs.all fun p => (e.subst p.1).alike (e.subst p.2)) e := fun eqs hground hwithin =>
    runEquations_test fun p hp => hstep p (hwithin p hp) (hground p hp).1 (hground p hp).2
  cases heqs : u.equations? v with
  | some eqs =>
      have hsplit := splits_of_equations? heqs
      rw [unifyShapes_eq_run heqs, hrun eqs (hsplit.equationsIn hD hu hv) (hsplit.within huv)]
      congr 1
      rw [Bool.eq_iff_iff, List.all_eq_true]
      exact (hsplit.alike_iff hD hF (fun _ _ => rfl) (fun _ h => h.hasItems he) hu hv).symm
  | none =>
      have hdiffer : (e.subst u).alike (e.subst v) = false := by
        by_contra halike
        obtain ⟨eqs, hsome⟩ := exists_equations?_of_alike hF (fun _ _ => rfl) hu hv hushape hvshape
          (by simpa using halike)
        simp [heqs] at hsome
      rw [hdiffer]
      -- two lists clash at their ends, after the items that both have, which bind nothing
      have hclash := @unifyShapes_eq_clash step u v hushape hvshape heqs e
      obtain heq | ⟨as, s, bs, t, rfl, rfl, heq⟩ := hclash
      · exact heq
      · rw [heq, hrun _ (equationsIn_zip (hD.item as s hu) (hD.item bs t hv)) huv.zip,
          andThen_clash_of_test]
        rfl

/-- **Ground terms are unified by comparing what they are read as,** and nothing is bound. -/
theorem unifyF_ground (he : e.Everywhere HasItems) (depth : Nat) : ∀ p : Equation,
    e.Within depth p → e.ReadsGround p.1 → e.ReadsGround p.2 →
      unifyF depth p.1 p.2 e = .test ((e.subst p.1).alike (e.subst p.2)) e := by
  induction depth with
  | zero =>
      rintro p ⟨m, n, hs, -, hle⟩
      obtain ⟨k, rfl⟩ := hs.exists_level
      omega
  | succ depth ih =>
      rintro ⟨s, t⟩ hst hs ht
      obtain ⟨u, hu⟩ := hs.fits.settles
      obtain ⟨v, hv⟩ := ht.fits.settles
      obtain ⟨hug, hsu⟩ := hs.settles he hu
      obtain ⟨hvg, htv⟩ := ht.settles he hv
      rw [unifyF_of_settles hu hv, hsu, htv]
      exact unifyShapes_ground he ih (hst.settles hu hv) hug hvg (hug.isVar_eq_false hu.isBound)
        (hvg.isVar_eq_false hv.isBound)

/-- The depth of a unification is enough for all terms that a substitution resolves. -/
theorem unify_ground (he : e.Everywhere HasItems) (hs : e.ReadsGround s) (ht : e.ReadsGround t) :
    unify s t e = .test ((e.subst s).alike (e.subst t)) e :=
  unifyF_ground he _ (s, t) ⟨levels, levels, hs.fits, ht.fits, by decide⟩ hs ht

/-! ### Searches that test -/

/-- The result of a search that tests and changes nothing: the bindings that it started from, or
none. -/
def tested (holds : Bool) (e : Bindings) (s : Progress) : Found :=
  .ok (if holds then [e] else [], { s with warned := false })

theorem tested_inj {a b : Bool} {s : Progress} : tested a e s = tested b e s ↔ a = b := by
  cases a <;> cases b <;> simp [tested]

variable {k : Knowledge} {b : Builtin} {name : String} {args : List Term} {s : Progress}

/-- A search for a builtin that only tests. -/
theorem solve_test {holds : Bool} (hb : k.builtins.find? name args.length = some b)
    (hrun : b.run k.bpm args e = Body.succeedIf holds e) :
    solve k [.call (.compound name args)] e s = tested holds e s := by
  have hcall : b.call k.bpm args e s.world = ⟨if holds then [e] else [], s.world, none⟩ := by
    simp only [Builtin.call, hrun]
    cases holds <;> rfl
  have hbudget : searchBudget = searchBudget - 2 + 1 + 1 := rfl
  rw [solve, hbudget]
  simp only [pendingAt, List.map_cons, List.map_nil, solveF, callTerm, walk, functor?, hb,
    callBuiltin, Term.args, hcall]
  cases holds <;> rfl

theorem unifyInto_test {holds : Bool} {a b : Term} (h : unify a b e = .test holds e) :
    Body.unifyInto e a b = Body.succeedIf holds e := by
  simp only [Body.unifyInto, h]
  cases holds <;> rfl

theorem allDistinct_iff {items : List Term} :
    allDistinct items = true ↔ items.Pairwise fun a b => a.alike b = false := by
  induction items with
  | nil => simp [allDistinct]
  | cons t rest ih => simp [allDistinct, ih]

/-- The order of two places does not matter, as it does not matter which term comes first. -/
theorem allDistinct_iff_getElem {items : List Term} :
    allDistinct items = true ↔ ∀ i j (hi : i < items.length) (hj : j < items.length), i ≠ j →
      items[i].alike items[j] = false := by
  rw [allDistinct_iff, List.pairwise_iff_getElem]
  refine ⟨fun h i j hi hj hne => ?_, fun h i j hi hj hlt => h i j hi hj hlt.ne⟩
  rcases Nat.lt_or_gt_of_ne hne with hlt | hlt
  · exact h i j hi hj hlt
  · rw [alike_comm]
    exact h j i hj hi hlt

section Standard

variable (hk : k.builtins = .standard)
include hk

/-- `eq` tests whether the values are alike. -/
theorem solve_equal (a b : Term) (e : Bindings) (s : Progress) :
    solve k [.call (.compound "eq" [a, b])] e s = tested ((e.subst a).alike (e.subst b)) e s :=
  solve_test (b := .equal) (by rw [hk]; rfl) rfl

theorem solve_unification {a b : Term} (he : e.Everywhere HasItems) (ha : e.ReadsGround a)
    (hb : e.ReadsGround b) (s : Progress) :
    solve k [.call (.compound "=" [a, b])] e s = tested ((e.subst a).alike (e.subst b)) e s :=
  solve_test (b := .unification) (by rw [hk]; rfl) (unifyInto_test (unify_ground he ha hb))

theorem solve_distinct {l : Term} {items : List Term} (hread : e.subst l = .list items)
    (s : Progress) :
    solve k [.call (.compound "distinct" [l])] e s = tested (allDistinct items) e s :=
  solve_test (b := .distinct) (by rw [hk]; rfl) (by
    simp only [Builtin.distinct, Body.properList, hread, pure_bind])

end Standard

/-- **On ground terms, equality and unification are one test.**  Let no empty list with a tail occur
in the bindings, nor in the terms, and let the terms be ground once they are read, within the levels
of a substitution.

* The goals `eq(a, b)` and `a = b` both find the bindings that they started from if what is read is
  alike, and nothing if it is not.  Neither binds or changes anything.
* The same test decides `distinct`: of a list that is read as `items`, it succeeds just when no two
  items at different places unify. -/
theorem ground_equality (hk : k.builtins = .standard)
    (hfull : ∀ tail, ¬ e.Mentions (.partialList [] tail)) (s : Progress) :
    (∀ a b, e.ReadsGround a → e.ReadsGround b →
      solve k [.call (.compound "eq" [a, b])] e s = tested ((e.subst a).alike (e.subst b)) e s ∧
        solve k [.call (.compound "=" [a, b])] e s =
          tested ((e.subst a).alike (e.subst b)) e s) ∧
    ∀ l items, e.ReadsGround l → e.subst l = .list items →
      solve k [.call (.compound "distinct" [l])] e s = tested (allDistinct items) e s ∧
        (allDistinct items = true ↔
          ∀ i j (hi : i < items.length) (hj : j < items.length), i ≠ j →
            solve k [.call (.compound "=" [items[i], items[j]])] e s = tested false e s) := by
  have he := everywhere_hasItems hfull
  refine ⟨fun a b ha hb => ⟨solve_equal hk a b e s, solve_unification hk he ha hb s⟩, ?_⟩
  intro l items hl hread
  refine ⟨solve_distinct hk hread s, ?_⟩
  -- the items are read as themselves, so the test of two items is the one that `distinct` makes
  have hpair : ∀ i j (hi : i < items.length) (hj : j < items.length),
      solve k [.call (.compound "=" [items[i], items[j]])] e s =
        tested (items[i].alike items[j]) e s := by
    intro i j hi hj
    obtain ⟨hgi, hri⟩ := hl.items he hread _ (List.getElem_mem hi)
    obtain ⟨hgj, hrj⟩ := hl.items he hread _ (List.getElem_mem hj)
    rw [solve_unification hk he hgi hgj, hri, hrj]
  simp only [hpair, tested_inj]
  exact allDistinct_iff_getElem

/-- Three lists that are cut in different places, of which the first and the last are alike up to
the tolerance. -/
theorem ground_equality_cuts :
    let e : Bindings := (Bindings.empty.bind "T" (.list [.number 2])).bind "U"
      (.partialList [.number 1.0000000001] (.var "T"))
    let a : Term := .partialList [.number 1] (.var "T")
    let b : Term := .partialList [.number 1, .number 2] (.var "T")
    let k : Knowledge := ⟨⟨[]⟩, .standard, 8, 120⟩
    let s : Progress := ⟨⟨.empty, .ofSeed 0, []⟩, 0, false⟩
    solve k [.call (.compound "eq" [a, .var "U"])] e s = .ok ([e], s) ∧
      solve k [.call (.compound "=" [a, .var "U"])] e s = .ok ([e], s) ∧
      solve k [.call (.compound "=" [a, b])] e s = .ok ([], s) ∧
      solve k [.call (.compound "distinct" [.list [a, b]])] e s = .ok ([e], s) ∧
      solve k [.call (.compound "distinct" [.list [a, b, .var "U"]])] e s = .ok ([], s) := by
  intro e a b k s
  have hfull : ∀ tail, ¬ e.Mentions (.partialList [] tail) := by
    rintro tail ⟨x, t, hx, ht⟩
    have hbound : t = .partialList [.number 1.0000000001] (.var "T") ∨ t = .list [.number 2] := by
      simp only [e, Bindings.get?_bind, Bindings.get?_empty] at hx
      split at hx
      · exact .inl (Option.some.inj hx).symm
      split at hx
      · exact .inr (Option.some.inj hx).symm
      · cases hx
    have hitems : t.Full := by
      rcases hbound with rfl | rfl <;> exact full_iff.2 (by simp [HasItems])
    exact hitems tail ht
  have hT : e.Fits 2 (.var "T") := .bound rfl (.list (List.forall_mem_singleton.2 .number))
  have ha : e.Fits 3 a := .partialList (List.forall_mem_singleton.2 .number) hT
  have hb : e.Fits 3 b := .partialList
    (List.forall_mem_cons.2 ⟨.number, List.forall_mem_singleton.2 .number⟩) hT
  have hU : e.Fits 3 (.var "U") :=
    .bound rfl (.partialList (List.forall_mem_singleton.2 .number) hT)
  have hreads : ∀ t, e.Fits 4 t → (e.subst t).isGround = true → t.Full → e.ReadsGround t :=
    fun t ht hg hf => ⟨ht.mono (by decide), hg, hf⟩
  have hga := hreads a ha.succ rfl (full_iff.2 (by simp [a, HasItems]))
  have hgb := hreads b hb.succ rfl (full_iff.2 (by simp [b, HasItems]))
  have hgU := hreads (.var "U") hU.succ rfl (full_iff.2 (by simp [HasItems]))
  have htwo := hreads (.list [a, b]) (.list (by simp [ha, hb])) rfl
    (full_iff.2 (by simp [a, b, HasItems]))
  have hthree := hreads (.list [a, b, .var "U"]) (.list (by simp [ha, hb, hU])) rfl
    (full_iff.2 (by simp [a, b, HasItems]))
  -- what the three terms are read as
  let a' : Term := .list [.number 1, .number 2]
  let b' : Term := .list [.number 1, .number 2, .number 2]
  let u' : Term := .list [.number 1.0000000001, .number 2]
  have hyes : a'.alike u' = true := by decide +kernel
  have hno : a'.alike b' = false := by decide +kernel
  have hpair : allDistinct [a', b'] = true := by
    simp only [allDistinct, List.any_cons, List.any_nil, hno]
    rfl
  have htriple : allDistinct [a', b', u'] = false := by
    simp only [allDistinct, List.any_cons, List.any_nil, hno, hyes]
    rfl
  obtain ⟨htest, hdistinct⟩ := ground_equality (k := k) rfl hfull s
  obtain ⟨heq, hunify⟩ := htest a (.var "U") hga hgU
  have hclash := (htest a b hga hgb).2
  have hsucceeds := (hdistinct _ [a', b'] htwo rfl).1
  have hfails := (hdistinct _ [a', b', u'] hthree rfl).1
  have haU : (e.subst a).alike (e.subst (.var "U")) = true := hyes
  have hab : (e.subst a).alike (e.subst b) = false := hno
  rw [haU] at heq hunify
  rw [hab] at hclash
  rw [hpair] at hsucceeds
  rw [htriple] at hfails
  exact ⟨heq, hunify, hclash, hsucceeds, hfails⟩

end RhythmLogic
