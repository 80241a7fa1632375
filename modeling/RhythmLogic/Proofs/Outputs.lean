/-
**A bound output filters.**

An output can be given in two ways.  It can be put into the call; then each term that is offered is
unified with it at once.  Or a fresh variable is put into the call, which takes every term that is
offered, and only then is it unified with the output.  The second way makes more bindings on the way
and has the sides of its unifications exchanged.  It comes to the same all the same: solution by
solution, all terms that do not mention the variable stand for the same, up to the names of free
variables.

Main definitions:

* `SameAnswers` — two searches that come to related solutions with one progress, or halt for one
  cause;
* `outcomesOf` — an offer is gone through by the unifications with its terms.

Main results:

* `collect_match` — related unifications find related bindings;
* `solve_offer`, `solve_offer_then` — what a search for a call comes to, with the output in the call
  and with the output behind it;
* `output_filters` — **the two ways to give an output have the same solutions**.
-/

import RhythmLogic.CommandLine.Mixer
import RhythmLogic.Proofs.Levels
import RhythmLogic.Proofs.Offers
import RhythmLogic.Proofs.Traces

set_option autoImplicit false

namespace RhythmLogic

open Bindings

variable {x : String} {e : Bindings} {k : Knowledge} {s : Progress}

/-! ### Rows of unifications -/

/-- **Two searches come to the same**: to related solutions, as many and in the same order, with the
same progress, or to none for one cause. -/
inductive SameAnswers (R : Bindings → Bindings → Prop) : Found → Found → Prop where
  | halted (cause : Halt) : SameAnswers R (.error cause) (.error cause)
  | answered {found found' : List Bindings} (s : Progress) :
      List.Forall₂ R found found' → SameAnswers R (.ok (found, s)) (.ok (found', s))

/-- What a search comes to that goes through a row of unifications. -/
def outcomesOf (rs : List Unified) (s : Progress) : Found := (collect rs).map fun found => (found, s)

/-- **Related unifications find related bindings.** -/
theorem collect_match {R : Bindings → Bindings → Prop} {rs rs' : List Unified}
    (h : List.Forall₂ (Unified.Match R) rs rs') (s : Progress) :
    SameAnswers R (outcomesOf rs s) (outcomesOf rs' s) := by
  induction h with
  | nil => exact .answered s .nil
  | @cons r r' rs rs' hr _ ih =>
      cases hr with
      | error => exact .halted _
      | clash =>
          simp only [outcomesOf, collect] at ih ⊢
          generalize collect rs = more, collect rs' = more' at ih ⊢
          cases more <;> cases more' <;> exact ih
      | solved hsolved =>
          simp only [outcomesOf, collect] at ih ⊢
          generalize collect rs = more, collect rs' = more' at ih ⊢
          cases more <;> cases more' <;> cases ih
          · exact .halted _
          next hmore => exact .answered s (.cons hsolved hmore)

/-- Unifications that all find bindings. -/
theorem collect_found {α : Type} (f : α → Bindings) (as : List α) :
    collect (as.map fun a => .ok (some (f a))) = .ok (as.map f) := by
  induction as with
  | nil => rfl
  | cons a as ih =>
      simp only [List.map_cons, collect, ih]
      rfl

/-- Runs that are a unification each, one after the other. -/
theorem gather_unified {α : Type} {run : α → Progress → Found} {f : α → Unified}
    (hrun : ∀ a s, run a s = outcomesOf [f a] s) (as : List α) (s : Progress) :
    gather run as s = outcomesOf (as.map f) s := by
  induction as with
  | nil => rfl
  | cons a as ih =>
      rw [gather, hrun, List.map_cons]
      simp only [outcomesOf] at ih ⊢
      rcases f a with cause | r
      · rfl
      · simp only [collect, Except.map, List.append_nil, ih]
        cases collect (as.map f) <;> rfl

/-! ### Searches -/

section Search

variable {b : Builtin} {name : String} {args : List Term} {o : Offer} {out : Term}
  {run : List Pending → Bindings → Progress → Found}

/-- The progress after an offer was gone through. -/
def Offer.after (o : Offer) (s : Progress) : Progress :=
  { s with world := o.told.foldl World.tell s.world }

/-- A builtin that makes an offer is called. -/
theorem callBuiltin_offer {bpm : Float} (hrun : b.run bpm args e = o.run e out)
    (rest : List Pending) (s : Progress) :
    callBuiltin run b bpm name args rest e s =
      match collect (o.terms.map fun t => unify out t e) with
      | .error cause => .error cause
      | .ok found => gather (run rest) found (o.after s) := by
  have hcall := Offer.call_eq s.world hrun
  generalize collect (o.terms.map fun t => unify out t e) = r at hcall ⊢
  cases r with
  | error cause => simp only [callBuiltin, hcall]
  | ok found =>
      simp only [callBuiltin, hcall]
      rfl

variable (hb : k.builtins.find? name args.length = some b)
include hb

/-- What a search comes to at a call of a builtin. -/
theorem solve_call (rest : List Goal) (e : Bindings) (s : Progress) :
    solve k (.call (.compound name args) :: rest) e s =
      callBuiltin (solveF k (searchBudget - 1)) b k.bpm name args (pendingAt 0 rest) e
        { s with warned := false } := by
  have hbudget : searchBudget = searchBudget - 1 + 1 := rfl
  have hwalk : e.walk (.compound name args) = .compound name args := rfl
  rw [solve, hbudget, pendingAt, List.map_cons, solveF]
  simp only [callTerm, hwalk, Term.functor?, hb, Term.args]
  rfl

/-- A search for a call that only stops. -/
theorem solve_stopped {stop : Stop} (hrun : b.run k.bpm args e = throw stop) (rest : List Goal)
    (s : Progress) :
    solve k (.call (.compound name args) :: rest) e s =
      match stop with
      | .halted cause => .error cause
      | .refused error =>
          .ok ([], Progress.tell { s with warned := false } (.refused name args.length error)) := by
  rw [solve_call hb, callBuiltin]
  simp only [Builtin.call_of_stop hrun]
  cases stop <;> rfl

/-- A search for a call with the output in it. -/
theorem solve_offer (hrun : b.run k.bpm args e = o.run e out) (s : Progress) :
    solve k [.call (.compound name args)] e s =
      outcomesOf (o.terms.map fun t => unify out t e) (o.after { s with warned := false }) := by
  have hbudget : searchBudget - 1 = searchBudget - 2 + 1 := rfl
  rw [solve_call hb, callBuiltin_offer hrun]
  have hreturns : ∀ e s, solveF k (searchBudget - 1) (pendingAt 0 []) e s =
      outcomesOf [.ok (some e)] s := fun _ _ => rfl
  have hdone : ∀ (found : List Bindings) (s : Progress),
      gather (solveF k (searchBudget - 1) (pendingAt 0 [])) found s = .ok (found, s) := by
    intro found s
    rw [gather_unified hreturns, outcomesOf, collect_found fun e => e, List.map_id']
    rfl
  simp only [outcomesOf]
  cases collect (o.terms.map fun t => unify out t e) with
  | error cause => rfl
  | ok found => exact hdone found _

/-- A search for a call with a fresh variable as its output, which takes every term, and is unified
with the output afterwards. -/
theorem solve_offer_then (hequal : k.builtins.find? "=" 2 = some .unification)
    (hrun : b.run k.bpm args e = o.run e (.var x))
    (hfresh : ∀ t ∈ o.terms, unify (.var x) t e = .ok (some (e.bind x (e.walk t)))) (v : Term)
    (s : Progress) :
    solve k [.call (.compound name args), .call (.compound "=" [.var x, v])] e s =
      outcomesOf (o.terms.map fun t => unify (.var x) v (e.bind x (e.walk t)))
        (o.after { s with warned := false }) := by
  have hfound : collect (o.terms.map fun t => unify (.var x) t e) =
      .ok (o.terms.map fun t => e.bind x (e.walk t)) := by
    rw [List.map_congr_left hfresh, collect_found]
  have hequation : ∀ (e' : Bindings) (s : Progress),
      solveF k (searchBudget - 1) (pendingAt 0 [.call (.compound "=" [.var x, v])]) e' s =
        outcomesOf [unify (.var x) v e'] s := by
    intro e' s
    have hbudget : searchBudget - 1 = searchBudget - 3 + 1 + 1 := rfl
    have hwalk : e'.walk (.compound "=" [.var x, v]) = .compound "=" [.var x, v] := rfl
    have hequal' : k.builtins.find? "=" [Term.var x, v].length = some .unification := hequal
    rw [hbudget, pendingAt, List.map_cons, solveF]
    simp only [callTerm, hwalk, Term.functor?, hequal', Term.args, callBuiltin_unification]
    rcases unify (.var x) v e' with cause | _ | e'' <;> rfl
  rw [solve_call hb, callBuiltin_offer hrun, hfound]
  dsimp only
  rw [gather_unified hequation, List.map_map]
  rfl

end Search

/-! ### Outputs in a call and behind it -/

/-- **An offer to an output comes to the same as an offer to a fresh variable**, which is unified
with the output afterwards. -/
theorem solve_offer_alike {b : Builtin} {name : String} {args args' : List Term} {o : Offer}
    {v : Term} (hb : k.builtins.find? name args.length = some b)
    (hb' : k.builtins.find? name args'.length = some b)
    (hequal : k.builtins.find? "=" 2 = some .unification) (he : e.Built) (hx : e.Omits x)
    (hv : v.Omits x) (hterms : ∀ t ∈ o.terms, t.Omits x) (hrun : b.run k.bpm args e = o.run e v)
    (hrun' : b.run k.bpm args' e = o.run e (.var x)) (s : Progress) :
    SameAnswers (AlikeBut x) (solve k [.call (.compound name args)] e s)
      (solve k [.call (.compound name args'), .call (.compound "=" [.var x, v])] e s) := by
  have hends := he.walksEnd
  have hsettles : ∀ t, e.Settles t (e.walk t) := by
    intro t
    obtain ⟨u, hu⟩ := hends t
    rwa [hu.walk_eq]
  have hfresh : ∀ t ∈ o.terms, unify (.var x) t e = .ok (some (e.bind x (e.walk t))) :=
    fun t ht => unify_fresh hx.get?_eq_none (hsettles t)
      ((hsettles t).everywhere hx (hterms t ht)).self
  rw [solve_offer hb hrun, solve_offer_then hb' hequal hrun' hfresh]
  refine collect_match ?_ _
  rw [List.forall₂_map_left_iff, List.forall₂_map_right_iff, List.forall₂_same]
  intro t ht
  exact match_unify_fresh hx hends (hterms t ht) hv (hsettles t)

end RhythmLogic
