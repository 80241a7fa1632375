/-
**Guards: searches that use no builtin but unification.**

Whether a search uses a builtin depends on what its variables come to stand for, since a goal may be
called through a variable.  It is told by a *guard*: a table in which all builtins but unification
halt the search.  A search that does not change when it is guarded uses none of them.  Where every
term that is called is written as an equation or as a call of a predicate that is no builtin, no
search changes.

Main definitions:

* `BuiltinTable.only`, `Knowledge.guarded` — the guard;
* `CallsOnlyUnification` — **a search that the guard does not change**;
* `Knowledge.Provable` — an equation, or a call of a predicate that is no builtin;
* `Knowledge.AllProvable`, `PendingProvable` — goals that call nothing else.

Main results:

* `permits_guarded` — a guarded search uses no builtin but unification;
* `callsOnlyUnification_of_allProvable` — **programs and goals that call nothing else**.
-/

import RhythmLogic.Proofs.Calls

set_option autoImplicit false

namespace RhythmLogic

variable {k : Knowledge} {goals : List Goal} {rest : List Pending} {c : Clause} {depth n : Nat}

/-! ### The guard -/

/-- **The guard**: a table in which every builtin but `name/arity` halts the search. -/
def BuiltinTable.only (table : BuiltinTable) (name : String) (arity : Nat) : BuiltinTable :=
  ⟨table.builtins.map fun b =>
    if b.arity == arity && b.name == name then b else { b with run := fun _ _ _ => Body.misused }⟩

/-- What a search works with, when every builtin but unification halts it. -/
def Knowledge.guarded (k : Knowledge) : Knowledge := { k with builtins := k.builtins.only "=" 2 }

@[simp] theorem guarded_program (k : Knowledge) : k.guarded.program = k.program := rfl

@[simp] theorem guarded_maxDepth (k : Knowledge) : k.guarded.maxDepth = k.maxDepth := rfl

@[simp] theorem guarded_bpm (k : Knowledge) : k.guarded.bpm = k.bpm := rfl

/-- **A search uses no builtin but unification**: it does not change when it is guarded. -/
def CallsOnlyUnification (k : Knowledge) (goals : List Goal) (s : Progress) : Prop :=
  solve k.guarded goals .empty s = solve k goals .empty s

/-- A guard has a builtin where the table has one: the same one, or one that halts the search. -/
theorem find?_only (table : BuiltinTable) (name : String) (arity : Nat) (name' : String)
    (arity' : Nat) : (table.only name arity).find? name' arity' =
      (table.find? name' arity').map fun b =>
        if b.arity == arity && b.name == name then b
        else { b with run := fun _ _ _ => Body.misused } :=
  find?_map (fun b => by split <;> rfl) (fun b => by split <;> rfl) table name' arity'

/-- A guarded search uses no builtin but unification, whatever it calls. -/
theorem permits_guarded (h : k.builtins.find? "=" 2 = some .unification) (name : String)
    (arity : Nat) : k.guarded.Permits name arity := by
  intro b hb
  rw [Knowledge.guarded, find?_only] at hb
  obtain ⟨b', hb', rfl⟩ := Option.map_eq_some_iff.1 hb
  obtain ⟨rfl, rfl⟩ := name_of_find? hb'
  split
  · next hname =>
      simp only [Bool.and_eq_true, beq_iff_eq] at hname
      rw [hname.1, hname.2, h, Option.some.injEq] at hb'
      exact .inl hb'.symm
  · exact .inr rfl

/-! ### Goals that call nothing else -/

/-- What may be called in a search without other builtins than unification: an equation, or a
predicate that is no builtin. -/
def Knowledge.Provable (k : Knowledge) (t : Term) : Prop :=
  ∃ name arity, t.functor? = some (name, arity) ∧
    ((name = "=" ∧ arity = 2) ∨ k.builtins.find? name arity = none)

/-- All goals are calls that may be proved. -/
def Knowledge.AllProvable (k : Knowledge) (goals : List Goal) : Prop :=
  ∀ g ∈ goals, ∃ t, g = .call t ∧ k.Provable t

/-- All pending goals are calls that may be proved. -/
def PendingProvable (k : Knowledge) (goals : List Pending) : Prop :=
  ∀ g ∈ goals, ∃ t, g.goal = .call t ∧ k.Provable t

theorem PendingProvable.tail {g : Pending} (h : PendingProvable k (g :: rest)) :
    PendingProvable k rest := fun g' hg => h g' (List.mem_cons_of_mem g hg)

theorem pendingProvable_pendingAt (h : k.AllProvable goals) :
    PendingProvable k (pendingAt depth goals) := fun g hg => h g.goal (mem_pendingAt.1 hg).1

/-- Renaming does not change what is called. -/
theorem Knowledge.AllProvable.rename (h : k.AllProvable c.body) (n : Nat) :
    k.AllProvable (c.rename n).body := by
  intro g hg
  rw [Clause.rename, renameBody_eq_map, List.mem_map] at hg
  obtain ⟨g', hg', rfl⟩ := hg
  obtain ⟨t, rfl, name, arity, hf, hname⟩ := h g' hg'
  exact ⟨t.rename n, rfl, name, arity, (Term.functor?_rename n t).trans hf, hname⟩

theorem PendingProvable.body (h : PendingProvable k rest) (hc : k.AllProvable c.body) :
    PendingProvable k (pendingAt depth (c.rename n).body ++ rest) := fun g hg =>
  (List.mem_append.1 hg).elim (pendingProvable_pendingAt (hc.rename n) g) (h g)

/-! ### The guard changes nothing -/

theorem gather_congr {α : Type} {run run' : α → Progress → Found} {xs : List α}
    (h : ∀ x ∈ xs, ∀ s, run x s = run' x s) (s : Progress) :
    gather run xs s = gather run' xs s := by
  induction xs generalizing s with
  | nil => rfl
  | cons x xs ih =>
      obtain ⟨hx, hxs⟩ := List.forall_mem_cons.1 h
      simp only [gather, hx, ih hxs]

/-- The guard keeps what may be called. -/
theorem find?_guarded {name : String} {arity : Nat}
    (h : (name = "=" ∧ arity = 2) ∨ k.builtins.find? name arity = none) :
    k.guarded.builtins.find? name arity = k.builtins.find? name arity := by
  rw [Knowledge.guarded, find?_only]
  rcases h with ⟨rfl, rfl⟩ | hnone
  · cases hb : k.builtins.find? "=" 2 with
    | none => rfl
    | some b =>
        obtain ⟨harity, hname⟩ := name_of_find? hb
        simp [harity, hname]
  · rw [hnone]
    rfl

/-- **A search that calls only what may be called is not changed by the guard.** -/
theorem solveF_guarded (hcalls : ∀ c ∈ k.program.clauses, k.AllProvable c.body) (fuel : Nat)
    {goals : List Pending} (h : PendingProvable k goals) (e : Bindings) (s : Progress) :
    solveF k.guarded fuel goals e s = solveF k fuel goals e s := by
  induction fuel generalizing goals e s with
  | zero => rfl
  | succ fuel ih =>
      rcases goals with _ | ⟨⟨goal, depth⟩, rest⟩
      · rfl
      obtain ⟨t, rfl, name, arity, hf, hname⟩ := h _ List.mem_cons_self
      -- what may be proved has a name, so it is no variable and the walk stays at it
      have hwalk : e.walk t = t := by
        cases t <;> first | rfl | cases hf
      have hrest : solveF k.guarded fuel rest = solveF k fuel rest := by
        funext e s
        exact ih h.tail e s
      have htry : ∀ c ∈ k.program.clausesOf name arity, ∀ s,
          tryClause (solveF k.guarded fuel) t depth rest e c s =
            tryClause (solveF k fuel) t depth rest e c s := by
        intro c hc s
        have hbody := hcalls c (List.mem_of_mem_filter hc)
        simp only [tryClause, ih (h.tail.body hbody)]
      simp only [solveF, callTerm, hwalk, hf, find?_guarded hname, callBuiltin, hrest,
        guarded_program, guarded_maxDepth, guarded_bpm, gather_congr htry]
      rfl

/-- **Programs and goals that call nothing else** make searches that use no builtin but
unification. -/
theorem callsOnlyUnification_of_allProvable
    (hcalls : ∀ c ∈ k.program.clauses, k.AllProvable c.body) (hgoals : k.AllProvable goals)
    (s : Progress) : CallsOnlyUnification k goals s :=
  solveF_guarded hcalls searchBudget (pendingProvable_pendingAt hgoals) .empty _

end RhythmLogic
