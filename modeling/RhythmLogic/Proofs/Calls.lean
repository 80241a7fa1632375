/-
**Calls: what the search does with one goal.**

A search that may use no builtin but unification has four ways to go on at a call: what is called
has no name and arity, it is an equation, it is nested too deep, or it is tried with the clauses of
its predicate.  The relation `Called` says this once, so that what is proved of a search goes by
these cases and not by the code.

Main definitions:

* `AllCalls`, `PendingIn` — pending goals without a negation, and the parts of what they call;
* `Knowledge.Permits` — a predicate that is unification, a builtin that halts, or no builtin;
* `Called` — **what a call comes to**.

Main results:

* `gather_cons`, `mem_gather` — the runs that solutions come from;
* `callBuiltin_unification` — the search goes on with the bindings of a unification;
* `called_of_callTerm` — whatever a search answers at a call is one of the four cases.
-/

import RhythmLogic.Proofs.Derivations
import RhythmLogic.Proofs.Renaming
import RhythmLogic.Search

set_option autoImplicit false

namespace RhythmLogic

/-! ### Pending goals -/

/-- No pending goal is a negation. -/
def AllCalls (goals : List Pending) : Prop := ∀ g ∈ goals, ∃ t, g.goal = .call t

/-- The terms that pending goals call have a property everywhere. -/
def PendingIn (P : Term → Prop) (goals : List Pending) : Prop :=
  ∀ t depth, ⟨.call t, depth⟩ ∈ goals → t.Everywhere P

section Pending

variable {P : Term → Prop} {depth n : Nat} {goals : List Goal} {g : Pending}
  {rest : List Pending} {c : Clause}

theorem mem_pendingAt : g ∈ pendingAt depth goals ↔ g.goal ∈ goals ∧ g.depth = depth := by
  simp only [pendingAt, List.mem_map]
  constructor
  · rintro ⟨goal, hgoal, rfl⟩
    exact ⟨hgoal, rfl⟩
  · rintro ⟨hgoal, rfl⟩
    exact ⟨g.goal, hgoal, rfl⟩

theorem AllCalls.tail (h : AllCalls (g :: rest)) : AllCalls rest :=
  fun g' hg => h g' (List.mem_cons_of_mem g hg)

theorem PendingIn.tail (h : PendingIn P (g :: rest)) : PendingIn P rest :=
  fun t depth ht => h t depth (List.mem_cons_of_mem g ht)

theorem allCalls_pendingAt (h : Definite goals) : AllCalls (pendingAt depth goals) :=
  fun g hg => h g.goal (mem_pendingAt.1 hg).1

theorem pendingIn_pendingAt (h : ∀ t, .call t ∈ goals → t.Everywhere P) :
    PendingIn P (pendingAt depth goals) :=
  fun t _ ht => h t (mem_pendingAt.1 ht).1

/-- The body of a clause without a negation has none under fresh names either. -/
theorem definite_rename (h : Definite c.body) (n : Nat) : Definite (c.rename n).body := by
  intro g hg
  rw [Clause.rename, renameBody_eq_map, List.mem_map] at hg
  obtain ⟨g', hg', rfl⟩ := hg
  obtain ⟨t, rfl⟩ := h g' hg'
  exact ⟨t.rename n, rfl⟩

/-- After a clause was used no goal is a negation. -/
theorem AllCalls.body (h : AllCalls rest) (hc : Definite c.body) :
    AllCalls (pendingAt depth (c.rename n).body ++ rest) := fun g hg =>
  (List.mem_append.1 hg).elim (allCalls_pendingAt (definite_rename hc n) g) (h g)

/-- After a clause was used the pending goals have the parts of its renamed body, and those that
were there. -/
theorem PendingIn.body (h : PendingIn P rest)
    (hc : ∀ t, .call t ∈ c.body → (t.rename n).Everywhere P) :
    PendingIn P (pendingAt depth (c.rename n).body ++ rest) := by
  intro t d ht
  rcases List.mem_append.1 ht with ht | ht
  · obtain ⟨u, hu, rfl⟩ := call_mem_renameBody.1 (mem_pendingAt.1 ht).1
    exact hc u hu
  · exact h t d ht

end Pending

/-! ### One after the other -/

section Gather

variable {α : Type} {run : α → Progress → Found} {x : α} {xs : List α} {s s' : Progress}
  {found : List Bindings}

/-- What something can be computed of came to an answer. -/
theorem exists_ok {ε β : Type} {r : Except ε α} {f : α → β} {b : β}
    (h : r.toOption.map f = some b) : ∃ a, r = .ok a ∧ f a = b := by
  cases r with
  | error => cases h
  | ok a => exact ⟨a, rfl, Option.some.inj h⟩

theorem gather_cons : gather run (x :: xs) s = .ok (found, s') ↔
    ∃ part s₁ more, run x s = .ok (part, s₁) ∧ gather run xs s₁ = .ok (more, s') ∧
      found = part ++ more := by
  simp only [gather]
  constructor
  · intro h
    split at h
    · cases h
    next part s₁ hx =>
    split at h
    · cases h
    next more s₂ hxs =>
    cases h
    exact ⟨part, s₁, more, hx, hxs, rfl⟩
  · rintro ⟨part, s₁, more, hx, hxs, rfl⟩
    simp only [hx, hxs]

/-- A solution comes from one of the runs. -/
theorem mem_gather (h : gather run xs s = .ok (found, s')) {e : Bindings} (he : e ∈ found) :
    ∃ x ∈ xs, ∃ s₁ part s₂, run x s₁ = .ok (part, s₂) ∧ e ∈ part := by
  induction xs generalizing s found with
  | nil =>
      cases h
      cases he
  | cons x xs ih =>
      obtain ⟨part, s₁, more, hx, hxs, rfl⟩ := gather_cons.1 h
      rcases List.mem_append.1 he with he | he
      · exact ⟨x, List.mem_cons_self, s, part, s₁, hx, he⟩
      · obtain ⟨y, hy, hrun⟩ := ih hxs he
        exact ⟨y, List.mem_cons_of_mem x hy, hrun⟩

end Gather

/-! ### Builtins -/

variable {k : Knowledge} {run : List Pending → Bindings → Progress → Found} {t : Term}
  {depth : Nat} {rest : List Pending} {e : Bindings} {s : Progress}
  {found : List Bindings × Progress}

/-- **The search goes on with the bindings of a unification.** -/
theorem callBuiltin_unification (bpm : Float) (name : String) (a b : Term) :
    callBuiltin run .unification bpm name [a, b] rest e s =
      match unify a b e with
      | .error cause => .error cause
      | .ok r => gather (run rest) r.toList s := by
  rcases hab : unify a b e with cause | _ | e' <;>
    simp only [callBuiltin, Builtin.call, Builtin.unification, Body.unifyInto, hab] <;> rfl

/-- A builtin that is misused has no solutions. -/
theorem callBuiltin_misused {b : Builtin} (hb : b.run = fun _ _ _ => Body.misused) (bpm : Float)
    (name : String) (args : List Term) :
    callBuiltin run b bpm name args rest e s = .error .arguments := by
  simp only [callBuiltin, Builtin.call, hb]
  rfl

/-- The predicate `name/arity` is unification, a builtin that halts the search, or no builtin. -/
def Knowledge.Permits (k : Knowledge) (name : String) (arity : Nat) : Prop :=
  ∀ b, k.builtins.find? name arity = some b →
    b = .unification ∨ b.run = fun _ _ _ => Body.misused

/-- A table finds builtins of the name and arity that are asked for. -/
theorem name_of_find? {table : BuiltinTable} {name : String} {arity : Nat} {b : Builtin}
    (h : table.find? name arity = some b) : b.arity = arity ∧ b.name = name := by
  simpa using List.find?_some h

/-- A table with other runs for its builtins has a builtin where the table has one. -/
theorem find?_map {g : Builtin → Builtin} (hname : ∀ b, (g b).name = b.name)
    (harity : ∀ b, (g b).arity = b.arity) (table : BuiltinTable) (name : String) (arity : Nat) :
    BuiltinTable.find? ⟨table.builtins.map g⟩ name arity = (table.find? name arity).map g := by
  rw [BuiltinTable.find?, List.find?_map]
  congr 2
  funext b
  rw [Function.comp_apply, hname, harity]

/-! ### Calls -/

/-- An equation is what is called with two arguments and the name of one. -/
theorem eq_compound_of_functor? {t : Term} {name : String} (h : t.functor? = some (name, 2)) :
    ∃ a b, t = .compound name [a, b] := by
  cases t <;> simp only [Term.functor?, Option.some.injEq, Prod.mk.injEq, reduceCtorEq] at h
  case atom => simp at h
  case compound f args =>
    obtain ⟨rfl, hargs⟩ := h
    rcases args with _ | ⟨a, _ | ⟨b, _ | ⟨c, args⟩⟩⟩ <;> simp at hargs
    exact ⟨a, b, rfl⟩

/-- **What a call comes to**, when it uses no builtin but unification. -/
inductive Called (k : Knowledge) (run : List Pending → Bindings → Progress → Found) (t : Term)
    (depth : Nat) (rest : List Pending) (e : Bindings) (s : Progress) :
    List Bindings × Progress → Prop where
  /-- What is called has no name and arity. -/
  | uncallable {s' : Progress} : (e.walk t).functor? = none → s'.fresh = s.fresh →
      Called k run t depth rest e s ([], s')
  /-- An equation is called, and its sides are unified. -/
  | equality {a b : Term} {r : Option Bindings} {found : List Bindings × Progress} :
      e.walk t = .compound "=" [a, b] → unify a b e = .ok r →
      gather (run rest) r.toList s = .ok found → Called k run t depth rest e s found
  /-- The call is nested too deep. -/
  | pruned {name : String} {arity : Nat} {s' : Progress} :
      (e.walk t).functor? = some (name, arity) → k.builtins.find? name arity = none →
      k.maxDepth ≤ depth → s'.fresh = s.fresh → Called k run t depth rest e s ([], s')
  /-- The clauses of the predicate are tried. -/
  | tried {name : String} {arity : Nat} {s₁ : Progress} {found : List Bindings × Progress} :
      (e.walk t).functor? = some (name, arity) → k.builtins.find? name arity = none →
      depth < k.maxDepth → s₁.fresh = s.fresh →
      gather (tryClause run (e.walk t) depth rest e) (k.program.clausesOf name arity) s₁ =
        .ok found →
      Called k run t depth rest e s found

/-- **Whatever a search answers at a call is one of the four cases.** -/
theorem called_of_callTerm
    (hk : ∀ name arity, (e.walk t).functor? = some (name, arity) → k.Permits name arity)
    (h : callTerm k run t depth rest e s = .ok found) : Called k run t depth rest e s found := by
  simp only [callTerm] at h
  split at h
  · next hnone =>
      cases h
      exact .uncallable hnone rfl
  next name arity hsome =>
  split at h
  · next b hb =>
      -- the builtin is unification, with two arguments by its entry, or it halts the search
      rcases hk name arity hsome b hb with rfl | hmisused
      · obtain ⟨rfl, rfl⟩ : 2 = arity ∧ "=" = name := name_of_find? hb
        obtain ⟨a, b, hab⟩ := eq_compound_of_functor? hsome
        rw [hab, Term.args, callBuiltin_unification] at h
        split at h
        · cases h
        next r hr => exact .equality hab hr h
      · rw [callBuiltin_misused hmisused] at h
        cases h
  next hb =>
  split at h
  · next hdeep =>
      cases h
      refine .pruned hsome hb hdeep ?_
      simp only [prune]
      split <;> rfl
  · next hdeep =>
      refine .tried hsome hb (Nat.lt_of_not_le hdeep) ?_ h
      split <;> rfl

/-- A trial that answers is a unification with the head, and the search for the body if there is
any. -/
theorem tryClause_eq_ok {call : Term} {c : Clause}
    (h : tryClause run call depth rest e c s = .ok found) :
    ∃ r, unify call (c.rename s.fresh).head e = .ok r ∧
      match r with
      | none => found = ([], { s with fresh := s.fresh + 1 })
      | some e₁ => run (pendingAt (depth + 1) (c.rename s.fresh).body ++ rest) e₁
          { s with fresh := s.fresh + 1 } = .ok found := by
  simp only [tryClause] at h
  split at h
  · cases h
  · next hr =>
      cases h
      exact ⟨none, hr, rfl⟩
  · next e₁ hr => exact ⟨some e₁, hr, h⟩

end RhythmLogic
