/-
**Walks end at every point of a search.**

A walk has no limit of its own: it follows a variable to what it stands for, and from there on, for
as long as it comes to variables.  A circle of variables would keep it going forever.  There is no
check for circles, and by `X = f(X)` a variable does come to stand for a term that contains it; but
that is a circle through a term with a shape, where a walk stops.  What keeps circles of variables
out is the order in which a unification goes about it: both sides are walked to their ends before
one of them is bound to the other.

This has to hold wherever somebody walks, not only in answers: inside of unifications that fail
later on, in branches and negations that come to nothing, and in searches that never end.  None of
them shows in an answer.  So there is a check at each of these points, which ends the run with an
alarm where a walk would not end, and the run with the checks is the run without them.

Main definitions:

* `checkedUnifyF` — **unification with a check** of the bindings that each of its steps is entered
  and left with;
* `Bindings.Forest` — every walk ends, and no unification from here on comes to bindings for which
  that fails;
* `checkedF` — **the search with a check at every point**.

Main results:

* `checkedUnifyF_eq` — where walks end, the check of a unification is silent;
* `forest_of_walksEnd` — where walks end, they end in every unification;
* `solve_walksEnd` — **walks end at every point of every search**.
-/

import RhythmLogic.CommandLine.Mixer
import RhythmLogic.Proofs.Growth
import RhythmLogic.Proofs.Guards

set_option autoImplicit false

namespace RhythmLogic

open Bindings

variable {J : Bindings → Prop} {alarm : Halt} {k : Knowledge} {e : Bindings}

/-! ### Unifications that are the same where a property holds -/

section Congruence

variable {step step' : Term → Term → Bindings → Unified}
  (hsame : ∀ s t e, J e → step' s t e = step s t e)
  (hkept : ∀ s t e e', J e → step s t e = .ok (some e') → J e')

theorem andThen_congr {u u' : Unified} {f f' : Bindings → Unified} (hu : u' = u)
    (hf : ∀ e, u = .ok (some e) → f' e = f e) : u'.andThen f' = u.andThen f := by
  subst hu
  rcases u' with c | _ | e
  · rfl
  · rfl
  · exact hf e rfl

theorem exists_of_andThen {u : Unified} {f : Bindings → Unified} {e' : Bindings}
    (h : u.andThen f = .ok (some e')) : ∃ e, u = .ok (some e) ∧ f e = .ok (some e') := by
  rcases u with c | _ | e
  · cases h
  · cases h
  · exact ⟨e, rfl, h⟩

include hkept in
theorem unifyZip_kept {as bs : List Term} {e e' : Bindings} (he : J e)
    (h : unifyZip step as bs e = .ok (some e')) : J e' := by
  induction as generalizing bs e with
  | nil =>
      cases h
      exact he
  | cons a as ih =>
      cases bs with
      | nil =>
          cases h
          exact he
      | cons b bs =>
          obtain ⟨e₁, hstep, hrest⟩ := exists_of_andThen h
          exact ih (hkept a b e e₁ he hstep) hrest

include hsame hkept

theorem unifyZip_congr {as bs : List Term} {e : Bindings} (he : J e) :
    unifyZip step' as bs e = unifyZip step as bs e := by
  induction as generalizing bs e with
  | nil => rfl
  | cons a as ih =>
      cases bs with
      | nil => rfl
      | cons b bs =>
          exact andThen_congr (hsame a b e he) fun e₁ h => ih (hkept a b e e₁ he h)

omit hkept in
theorem unifyEnds_congr {as bs : List Term} {s t : Option Term} {e : Bindings} (he : J e) :
    unifyEnds step' as s bs t e = unifyEnds step as s bs t e := by
  rcases as with _ | ⟨a, as⟩ <;> rcases bs with _ | ⟨b, bs⟩ <;> rcases s with _ | s <;>
    rcases t with _ | t <;> first | rfl | exact hsame _ _ e he

theorem unifyLists_congr {as bs : List Term} {s t : Option Term} {e : Bindings} (he : J e) :
    unifyLists step' as s bs t e = unifyLists step as s bs t e :=
  andThen_congr (unifyZip_congr hsame hkept he) fun _ h =>
    unifyEnds_congr hsame (unifyZip_kept hkept he h)

/-- **Two steps that are the same where a property holds** give the same unification of terms, if
they keep the property. -/
theorem unifyShapes_congr (s t : Term) {e : Bindings} (he : J e) :
    unifyShapes step' s t e = unifyShapes step s t e := by
  cases s <;> cases t <;> simp only [unifyShapes]
  case list.list | list.partialList | partialList.list | partialList.partialList =>
    exact unifyLists_congr hsame hkept he
  case compound.compound => rw [unifyZip_congr hsame hkept he]
  case expr.expr o l r p m s =>
    rw [andThen_congr (hsame l m e he) fun e₁ h => hsame r s e₁ (hkept l m e e₁ he h)]

end Congruence

/-! ### The check in a unification -/

open Classical in
/-- A unification goes on from bindings only if every walk through them ends. -/
noncomputable def checked (alarm : Halt) (e : Bindings) : Unified :=
  if e.WalksEnd then .solved e else .error alarm

theorem checked_eq (he : e.WalksEnd) : checked alarm e = .solved e := if_pos he

/-- **Unification with a check** of the bindings that a step is entered with and of those that it is
left with.  These are all bindings that there are on the way: what a step that fails leaves behind
is what it was entered with, or what one of the steps inside of it was left with. -/
noncomputable def checkedUnifyF (alarm : Halt) : ℕ → Term → Term → Bindings → Unified
  | 0, _, _, _ => .error .unification
  | depth + 1, s, t, e =>
      ((checked alarm e).andThen fun e =>
        unifyShapes (checkedUnifyF alarm depth) (e.walk s) (e.walk t) e).andThen (checked alarm)

theorem walksEnd_unifyF {depth : ℕ} {s t : Term} {e e' : Bindings} (he : e.WalksEnd)
    (h : unifyF depth s t e = .ok (some e')) : e'.WalksEnd :=
  (solves_of_unifyF h).walksEnd rfl he

/-- Where walks end they come to their ends. -/
theorem Bindings.WalksEnd.settles_walk (he : e.WalksEnd) (t : Term) : e.Settles t (e.walk t) := by
  obtain ⟨u, hu⟩ := he t
  rwa [hu.walk_eq]

/-- **Where walks end, the check of a unification is silent**, by induction on its depth. -/
theorem checkedUnifyF_eq (he : e.WalksEnd) (alarm : Halt) (depth : ℕ) (s t : Term) :
    checkedUnifyF alarm depth s t e = unifyF depth s t e := by
  induction depth generalizing s t e with
  | zero => rfl
  | succ depth ih =>
      have hends : ¬ (e.isBound (e.walk s) || e.isBound (e.walk t)) = true := by
        rw [(he.settles_walk s).isBound, (he.settles_walk t).isBound]
        exact Bool.false_ne_true
      have hshapes : unifyShapes (checkedUnifyF alarm depth) (e.walk s) (e.walk t) e =
          unifyF (depth + 1) s t e := by
        rw [unifyF, if_neg hends]
        exact unifyShapes_congr (fun s t e he => ih he s t)
          (fun _ _ _ _ he h => walksEnd_unifyF he h) _ _ he
      have hentry : ((checked alarm e).andThen fun e =>
          unifyShapes (checkedUnifyF alarm depth) (e.walk s) (e.walk t) e) =
          unifyF (depth + 1) s t e := by
        rw [checked_eq he]
        exact hshapes
      rw [checkedUnifyF, hentry]
      rcases h : unifyF (depth + 1) s t e with cause | _ | e'
      · rfl
      · rfl
      · exact checked_eq (walksEnd_unifyF he h)

/-- **Walks end, and go on to end**: each comes to its end, and no unification of two terms, whether
they unify or not, has bindings on the way where one does not. -/
structure Bindings.Forest (e : Bindings) : Prop where
  ends : ∀ t, e.Settles t (e.walk t)
  unified : ∀ (alarm : Halt) (depth : ℕ) (s t : Term),
    checkedUnifyF alarm depth s t e = unifyF depth s t e

theorem forest_of_walksEnd (he : e.WalksEnd) : e.Forest :=
  ⟨he.settles_walk, checkedUnifyF_eq he⟩

/-- Two variables that stand for each other are no forest. -/
example : ¬ Forest ⟨[("X", .var "Y"), ("Y", .var "X")]⟩ := fun h => by
  obtain ⟨names, -, hend⟩ := h.ends (.var "X")
  exact absurd hend (by decide)

/-! ### The check in a search -/

open Classical in
/-- **The search with a check at every point**, in trials and negations as well: it goes on only
from bindings that are a forest. -/
noncomputable def checkedF (k : Knowledge) (alarm : Halt) :
    ℕ → List Pending → Bindings → Progress → Found
  | 0, _, _, _ => .error .search
  | fuel + 1, goals, e, s =>
      if e.Forest then
        match goals with
        | [] => .ok ([e], s)
        | ⟨.negation alternatives, depth⟩ :: rest =>
            match anyProof (fun b => checkedF k alarm fuel (pendingAt depth b) e)
                alternatives s with
            | .error h => .error h
            | .ok (true, s) => .ok ([], s)
            | .ok (false, s) => checkedF k alarm fuel rest e s
        | ⟨.call t, depth⟩ :: rest => callTerm k (checkedF k alarm fuel) t depth rest e s
      else .error alarm

section Steps

variable {run run' : List Pending → Bindings → Progress → Found}
  (hrun : ∀ goals e s, J e → run' goals e s = run goals e s)
include hrun

theorem tryClause_congr (hJ : KeptByUnify J) (he : J e) (call : Term) (depth : ℕ)
    (rest : List Pending) (c : Clause) (s : Progress) :
    tryClause run' call depth rest e c s = tryClause run call depth rest e c s := by
  simp only [tryClause]
  rcases h : unify call (c.rename s.fresh).head e with cause | _ | e'
  · rfl
  · rfl
  · exact hrun _ e' _ (hJ _ _ e e' he h)

theorem callBuiltin_congr {b : Builtin} {bpm : Float} {args : List Term} {s : Progress}
    (hpushed : ∀ e' ∈ (b.call bpm args e s.world).solutions, J e') (name : String)
    (rest : List Pending) :
    callBuiltin run' b bpm name args rest e s = callBuiltin run b bpm name args rest e s := by
  have hgather : ∀ s₁, gather (run' rest) (b.call bpm args e s.world).solutions s₁ =
      gather (run rest) (b.call bpm args e s.world).solutions s₁ :=
    gather_congr fun e' he' s₁ => hrun rest e' s₁ (hpushed e' he')
  simp only [callBuiltin, hgather]

/-- **Two searches that are the same where a property holds** prove a call alike, if unifications
keep the property. -/
theorem callTerm_congr (hJ : KeptByUnify J) (hk : k.Pushes J) (he : J e) (t : Term) (depth : ℕ)
    (rest : List Pending) (s : Progress) :
    callTerm k run' t depth rest e s = callTerm k run t depth rest e s := by
  simp only [callTerm]
  split
  · rfl
  split
  · next hb => exact callBuiltin_congr hrun (hk hb _ e _ he) _ rest
  split
  · rfl
  · exact gather_congr (fun c _ s₁ => tryClause_congr hrun hJ he _ depth rest c s₁) _

end Steps

theorem keptByUnify_walksEnd : KeptByUnify WalksEnd := fun _ _ _ _ he h => walksEnd_unifyF he h

/-- **Where walks end, the check of a search is silent**, by induction on its fuel. -/
theorem checkedF_eq (hk : k.Pushes WalksEnd) (he : e.WalksEnd) (alarm : Halt) (fuel : ℕ)
    (goals : List Pending) (s : Progress) :
    checkedF k alarm fuel goals e s = solveF k fuel goals e s := by
  induction fuel generalizing goals e s with
  | zero => rfl
  | succ fuel ih =>
      have hforest := forest_of_walksEnd he
      rcases goals with _ | ⟨⟨_ | alternatives, depth⟩, rest⟩
      · simp only [checkedF, solveF, if_pos hforest]
      · simp only [checkedF, solveF, if_pos hforest]
        exact callTerm_congr (fun goals e s he => ih he goals s) keptByUnify_walksEnd hk he ..
      · have hsame : ∀ goals, checkedF k alarm fuel goals e = solveF k fuel goals e :=
          fun goals => funext (ih he goals)
        rcases hany : anyProof (fun b => solveF k fuel (pendingAt depth b) e) alternatives s with
          cause | ⟨_ | _, s₁⟩ <;> simp only [checkedF, solveF, if_pos hforest, hsame, hany]

/-- **Walks end at every point of every search.**  Let a search with the standard builtins start
without bindings.  Then the search that stops with an alarm at the first point where the walk from
some term does not come to its end, or where a unification has bindings on the way in which one
does not, is the search itself, and so there is no such point. -/
theorem solve_walksEnd (hk : ∀ b ∈ k.builtins.builtins, b ∈ Builtin.standard) (goals : List Goal)
    (s : Progress) (alarm : Halt) (fuel : ℕ) :
    checkedF k alarm fuel (pendingAt 0 goals) .empty s =
      solveF k fuel (pendingAt 0 goals) .empty s :=
  checkedF_eq (pushes_of_standard hk keptByUnify_walksEnd) walksEnd_empty alarm fuel _ s

/-- The call of `link` binds a variable to a term that contains it, the unification that is negated
binds `B` before it fails, and of the last two, in a circle, only the first one binds. -/
theorem solve_walksEnd_linked :
    let k : Knowledge :=
      ⟨⟨[⟨.compound "link" [.compound "f" [.var "X"], .var "X"], []⟩]⟩, .standard, 8, 120⟩
    let goals : List Goal :=
      [.call (.compound "link" [.var "A", .var "A"]),
        .negation [[.call (.compound "=" [.compound "g" [.var "B", .atom "a"],
          .compound "g" [.var "C", .atom "b"]])]],
        .call (.compound "=" [.var "B", .var "C"]), .call (.compound "=" [.var "C", .var "B"])]
    let s : Progress := ⟨⟨.empty, .ofSeed 0, []⟩, 0, false⟩
    ∃ found s', checkedF k .arithmetic 16 (pendingAt 0 goals) .empty s = .ok (found, s') ∧
      found.map (fun e => e.entries.map fun p => (p.1, p.2.text)) =
        [[("B", "C"), ("X$0", "f(X$0)"), ("A", "f(X$0)")]] := by
  intro k goals s
  have hentries : (solveF k 16 (pendingAt 0 goals) .empty s).toOption.map
      (fun r => r.1.map fun e => e.entries.map fun p => (p.1, p.2.text)) =
        some [[("B", "C"), ("X$0", "f(X$0)"), ("A", "f(X$0)")]] := by
    decide +kernel
  obtain ⟨⟨found, s'⟩, hrun, hfound⟩ := exists_ok hentries
  rw [solve_walksEnd (fun _ hb => hb)]
  exact ⟨found, s', hrun, hfound⟩

end RhythmLogic
