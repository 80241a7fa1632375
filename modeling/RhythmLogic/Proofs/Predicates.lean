/-
**Predicates: what a search sees of its program.**

A search asks its program for the clauses of one predicate at a time, and only for predicates that
are no builtins.  Which predicates it asks for is not written down anywhere: goals are called
through variables, and what these stand for is computed while the search runs.  But whatever is
asked for, a program answers by its predicates.  So two programs that define them alike are the same
for every search, in all that it comes to: solutions with their names, memory, chance, notices, and
also where it comes to no answer.  A clause that is no part of a predicate, or of one that a builtin
hides, is never seen, and clauses of different predicates may stand in any order.

The names are the same since a clause that is not asked for is not tried, and counts as no trial.

Main definitions:

* `Program.DefinesAlike` — **programs with the same predicates**, builtins apart;
* `Program.visible` — the clauses that a search may ask for;
* `Knowledge.withProgram` — the same knowledge with another program.

Main results:

* `definesAlike_visible`, `definesAlike_swap` — what is not seen may be dropped, and clauses of
  different predicates may change places;
* `solve_definesAlike` — **a search sees the predicates of its program, and nothing else**.
-/

import RhythmLogic.CommandLine.Mixer
import RhythmLogic.Proofs.Guards

set_option autoImplicit false

namespace RhythmLogic

variable {k : Knowledge} {table : BuiltinTable} {p q : Program}

/-! ### Predicates -/

namespace Program

/-- **Two programs define the predicates alike**: each predicate that is no builtin has the same
clauses in both, in the same order. -/
def DefinesAlike (table : BuiltinTable) (p q : Program) : Prop :=
  ∀ name arity, table.find? name arity = none → p.clausesOf name arity = q.clausesOf name arity

/-- A head that can be called, with a name and arity that no builtin has. -/
def sees (table : BuiltinTable) (c : Clause) : Bool :=
  match c.head.functor? with
  | none => false
  | some (name, arity) => (table.find? name arity).isNone

/-- **The clauses that a search may ask for**: those whose head can be called and is no builtin. -/
def visible (table : BuiltinTable) (p : Program) : Program := ⟨p.clauses.filter (sees table)⟩

/-- Clauses that are never seen may be dropped. -/
theorem definesAlike_visible (table : BuiltinTable) (p : Program) :
    DefinesAlike table p (p.visible table) := by
  intro name arity hnone
  rw [clausesOf, clausesOf, visible, List.filter_filter]
  refine List.filter_congr fun c _ => ?_
  by_cases hc : c.head.functor? = some (name, arity)
  · simp [sees, hc, hnone]
  · simp [hc]

/-- Neighbours of different predicates may change places. -/
theorem definesAlike_swap (table : BuiltinTable) (before after : List Clause) {c d : Clause}
    (hcd : c.head.functor? ≠ d.head.functor?) :
    DefinesAlike table ⟨before ++ c :: d :: after⟩ ⟨before ++ d :: c :: after⟩ := by
  intro name arity _
  simp only [clausesOf, List.filter_append, List.append_cancel_left_eq]
  by_cases hc : c.head.functor? = some (name, arity)
  · have hd : d.head.functor? ≠ some (name, arity) := fun hd => hcd (hc.trans hd.symm)
    simp [hc, hd]
  · simp [List.filter_cons, hc]

end Program

/-! ### The search -/

/-- What a search works with, with another program. -/
def Knowledge.withProgram (k : Knowledge) (p : Program) : Knowledge := { k with program := p }

@[simp] theorem withProgram_program (k : Knowledge) (p : Program) :
    (k.withProgram p).program = p := rfl

@[simp] theorem withProgram_builtins (k : Knowledge) (p : Program) :
    (k.withProgram p).builtins = k.builtins := rfl

@[simp] theorem withProgram_bpm (k : Knowledge) (p : Program) :
    (k.withProgram p).bpm = k.bpm := rfl

@[simp] theorem withProgram_maxDepth (k : Knowledge) (p : Program) :
    (k.withProgram p).maxDepth = k.maxDepth := rfl

/-- **A call sees the clauses of its predicate**, and none where it is a builtin. -/
theorem callTerm_definesAlike (h : p.DefinesAlike k.builtins q)
    (run : List Pending → Bindings → Progress → Found) (t : Term) (depth : Nat)
    (rest : List Pending) (e : Bindings) (s : Progress) :
    callTerm (k.withProgram p) run t depth rest e s =
      callTerm (k.withProgram q) run t depth rest e s := by
  simp only [callTerm, withProgram_program, withProgram_builtins, withProgram_bpm]
  rcases (e.walk t).functor? with _ | ⟨name, arity⟩
  · rfl
  rcases hb : k.builtins.find? name arity with _ | b
  · simp only [hb, h name arity hb]
    rfl
  · simp only [hb]

/-- **A search sees the predicates of its program.** -/
theorem solveF_definesAlike (h : p.DefinesAlike k.builtins q) (fuel : Nat) :
    solveF (k.withProgram p) fuel = solveF (k.withProgram q) fuel := by
  induction fuel with
  | zero => rfl
  | succ fuel ih =>
      funext goals e s
      rcases goals with _ | ⟨⟨t | alternatives, depth⟩, rest⟩
      · rfl
      · simp only [solveF, ih]
        exact callTerm_definesAlike h _ t depth rest e s
      · simp only [solveF, ih]

/-- **A search sees the predicates of its program, and nothing else.**  Whatever the builtins, the
limit, the goals, the bindings, the memory and the chance are: two programs that define each
predicate alike that is no builtin make the same search, with the same solutions under the same
names, the same memory, chance, number of trials and notices.  In particular clauses whose head is a
builtin or cannot be called are never seen, and it does not matter how the clauses of different
predicates are mixed. -/
theorem solve_definesAlike (k : Knowledge) (goals : List Goal) (e : Bindings) (s : Progress) :
    (∀ p q : Program, p.DefinesAlike k.builtins q →
      solve (k.withProgram p) goals e s = solve (k.withProgram q) goals e s) ∧
    (∀ p : Program, solve (k.withProgram p) goals e s =
      solve (k.withProgram (p.visible k.builtins)) goals e s) ∧
    (∀ (before after : List Clause) (c d : Clause), c.head.functor? ≠ d.head.functor? →
      solve (k.withProgram ⟨before ++ c :: d :: after⟩) goals e s =
        solve (k.withProgram ⟨before ++ d :: c :: after⟩) goals e s) := by
  have hsolve : ∀ p q : Program, p.DefinesAlike k.builtins q →
      solve (k.withProgram p) goals e s = solve (k.withProgram q) goals e s := by
    intro p q h
    rw [solve, solve, solveF_definesAlike h]
  refine ⟨hsolve, fun p => ?_, fun before after c d hcd => ?_⟩
  · exact hsolve _ _ (p.definesAlike_visible k.builtins)
  · exact hsolve _ _ (Program.definesAlike_swap k.builtins before after hcd)

/-- A goal that stands for a variable is called, and a negation follows.  Of the two programs one
mixes the predicates, and has a clause for a builtin and one that cannot be called. -/
theorem solve_definesAlike_mixed :
    let first : Clause := ⟨.compound "q" [.atom "a"], []⟩
    let second : Clause := ⟨.compound "q" [.atom "b"], []⟩
    let call : Clause := ⟨.compound "p" [.var "X"], [.call (.compound "q" [.var "X"])]⟩
    let hidden : Clause := ⟨.compound "=" [.atom "a", .var "X"], []⟩
    let p : Program := ⟨[first, call, hidden, ⟨.number 7, []⟩, second]⟩
    let q : Program := ⟨[first, second, call]⟩
    let k : Knowledge := ⟨.empty, .standard, 4, 120⟩
    let goals : List Goal :=
      [.call (.var "G"), .negation [[.call (.compound "=" [.var "U", .atom "a"])]]]
    let e : Bindings := Bindings.empty.bind "G" (.compound "p" [.var "U"])
    let s : Progress := ⟨⟨.empty, .ofSeed 0, []⟩, 0, false⟩
    p.DefinesAlike k.builtins q ∧ second.head.functor? ≠ call.head.functor? ∧
      ∃ found s', found.length = 1 ∧ s'.fresh = 3 ∧
        solve (k.withProgram p) goals e s = .ok (found, s') ∧
        solve (k.withProgram (p.visible k.builtins)) goals e s = .ok (found, s') ∧
        solve (k.withProgram q) goals e s = .ok (found, s') ∧
        solve (k.withProgram ⟨[first, call, second]⟩) goals e s = .ok (found, s') := by
  intro first second call hidden p q k goals e s
  obtain ⟨hprograms, hvisible, hswap⟩ := solve_definesAlike k goals e s
  have halike : p.DefinesAlike k.builtins q := by
    intro name arity hnone
    have hne : ("=", 2) ≠ (name, arity) := by
      rintro ⟨⟩
      cases hnone
    by_cases hp : ("p", 1) = (name, arity)
    · cases hp
      rfl
    · simp [p, q, first, second, call, hidden, Program.clausesOf, Term.functor?, hne, hp,
        List.filter_cons]
  have hne : second.head.functor? ≠ call.head.functor? := by decide
  have hcount : (solve (k.withProgram p) goals e s).toOption.map
      (fun r => (r.1.length, r.2.fresh)) = some (1, 3) := by
    decide +kernel
  obtain ⟨⟨found, s'⟩, hrun, hfound⟩ := exists_ok hcount
  obtain ⟨hlength, hfresh⟩ := Prod.mk.inj hfound
  have hrun' := (hprograms p q halike).symm.trans hrun
  exact ⟨halike, hne, found, s', hlength, hfresh, hrun, (hvisible p).symm.trans hrun, hrun',
    (hswap [first] [] second call hne).symm.trans hrun'⟩

end RhythmLogic
