/-
**Clauses are tried apart: a name of a trial is in use nowhere.**

Before a clause is tried its variables get the number of the trial in their names.  A clause that is
tried must not share a variable with the bindings, with the goal that is called or with a goal that
is still pending, for else the trial would link what has nothing to do with each other.  Pending are
not only the goals that are left: while a negation is decided, the goals that it is one of wait.

This speaks of every point of a search, of those in other branches, in negations and in trials that
find nothing as well, and the answer of the search does not show them.  So it is said with a watch.
The watched search stops with an alarm at any point where the next trial of some clause would not be
apart, and that it is the search itself says that no such point is ever reached, whatever the search
comes to.

Main definitions:

* `Term.occurrences`, `Goal.occurrences`, `Clause.occurrences` — names of variables, as they occur;
* `StandardizedApart` — **a copy of a clause shares no variable** with bindings and goals, and links
  the variables that the clause links;
* `watchedF` — the search with a watch at every point.

Main results:

* `standardizedApart_rename` — the copy for a trial is apart from whatever is from before it;
* `addsNoNames_of_standard` — builtins move variables around, but make none up;
* `watchedF_eq` — at points that only have names from before the next trial, the watch is silent;
* `solve_standardizesApart` — **every trial of every search is standardized apart**.
-/

import RhythmLogic.CommandLine.Mixer
import RhythmLogic.Proofs.Numbers
import RhythmLogic.Proofs.Trials

set_option autoImplicit false

namespace RhythmLogic

open Term (Numbered)

variable {k : Knowledge} {n fuel depth : ℕ} {alarm : Halt} {e : Bindings}
  {goals rest waiting pending : List Pending}

/-! ### Occurrences -/

namespace Term

mutual

/-- **The names of the variables of a term**, as they occur from left to right. -/
def occurrences : Term → List String
  | .number _ => []
  | .atom _ => []
  | .var x => [x]
  | .compound _ args => occurrencesAll args
  | .list items => occurrencesAll items
  | .partialList items tail => occurrencesAll items ++ occurrences tail
  | .expr _ l r => occurrences l ++ occurrences r

/-- The names of the variables of several terms. -/
def occurrencesAll : List Term → List String
  | [] => []
  | t :: ts => occurrences t ++ occurrencesAll ts

end

@[simp] theorem occurrencesAll_eq_flatMap (ts : List Term) :
    occurrencesAll ts = ts.flatMap occurrences := by
  induction ts with
  | nil => rfl
  | cons t ts ih => simp [occurrencesAll, ih]

/-- What occurs is a part. -/
theorem occurs_of_mem_occurrences {x : String} {t : Term} (hx : x ∈ t.occurrences) :
    (var x).Occurs t := by
  induction t with
  | number | atom => cases hx
  | var y =>
      rw [occurrences, List.mem_singleton] at hx
      exact hx ▸ .here
  | compound f args ih =>
      simp only [occurrences, occurrencesAll_eq_flatMap, List.mem_flatMap] at hx
      obtain ⟨a, ha, hx⟩ := hx
      exact .arg ha (ih a ha hx)
  | list items ih =>
      simp only [occurrences, occurrencesAll_eq_flatMap, List.mem_flatMap] at hx
      obtain ⟨a, ha, hx⟩ := hx
      exact .item ha (ih a ha hx)
  | partialList items tail ih ih' =>
      simp only [occurrences, occurrencesAll_eq_flatMap, List.mem_append, List.mem_flatMap] at hx
      rcases hx with ⟨a, ha, hx⟩ | hx
      · exact .partialItem ha (ih a ha hx)
      · exact .tail (ih' hx)
  | expr op l r ihl ihr =>
      rw [occurrences, List.mem_append] at hx
      exact hx.elim (fun hx => .left (ihl hx)) (fun hx => .right (ihr hx))

/-- The occurrences in a copy for a trial are those of the term, renamed. -/
theorem occurrences_rename (n : ℕ) (t : Term) :
    (t.rename n).occurrences = t.occurrences.map (renamed n) := by
  have hflatMap : ∀ ts : List Term,
      (∀ u ∈ ts, (u.rename n).occurrences = u.occurrences.map (renamed n)) →
      (ts.map (rename n)).flatMap occurrences = (ts.flatMap occurrences).map (renamed n) := by
    intro ts hts
    rw [List.flatMap_map, List.map_flatMap]
    exact List.flatMap_congr hts
  induction t with
  | number | atom | var => rfl
  | compound f args ih | list items ih =>
      simp only [rename, occurrences, renameAll_eq_map, occurrencesAll_eq_flatMap, hflatMap _ ih]
  | partialList items tail ih ih' =>
      simp only [rename, occurrences, renameAll_eq_map, occurrencesAll_eq_flatMap, hflatMap _ ih,
        ih', List.map_append]
  | expr op l r ihl ihr => simp only [rename, occurrences, ihl, ihr, List.map_append]

end Term

namespace Goal

mutual

/-- **The names of the variables of a goal**, as they occur from left to right. -/
def occurrences : Goal → List String
  | .call t => t.occurrences
  | .negation alternatives => alternativesOccurrences alternatives

/-- The names of the variables of several goals. -/
def bodyOccurrences : List Goal → List String
  | [] => []
  | g :: gs => occurrences g ++ bodyOccurrences gs

/-- The names of the variables of several bodies. -/
def alternativesOccurrences : List (List Goal) → List String
  | [] => []
  | b :: bs => bodyOccurrences b ++ alternativesOccurrences bs

end

@[simp] theorem bodyOccurrences_eq_flatMap (goals : List Goal) :
    bodyOccurrences goals = goals.flatMap occurrences := by
  induction goals with
  | nil => rfl
  | cons g goals ih => simp [bodyOccurrences, ih]

@[simp] theorem alternativesOccurrences_eq_flatMap (alternatives : List (List Goal)) :
    alternativesOccurrences alternatives =
      alternatives.flatMap fun b => b.flatMap occurrences := by
  induction alternatives with
  | nil => rfl
  | cons b bs ih => simp [alternativesOccurrences, ih]

theorem mentions_of_mem_occurrences {x : String} {g : Goal} (hx : x ∈ g.occurrences) :
    g.Mentions (.var x) := by
  induction g with
  | call t => exact .call (Term.occurs_of_mem_occurrences hx)
  | negation alternatives ih =>
      simp only [occurrences, alternativesOccurrences_eq_flatMap, List.mem_flatMap] at hx
      obtain ⟨b, hb, g, hg, hx⟩ := hx
      exact .negation hb hg (ih b hb g hg hx)

theorem occurrences_rename (n : ℕ) (g : Goal) :
    (g.rename n).occurrences = g.occurrences.map (renamed n) := by
  induction g with
  | call t => exact Term.occurrences_rename n t
  | negation alternatives ih =>
      simp only [rename, occurrences, renameAlternatives_eq_map,
        alternativesOccurrences_eq_flatMap, List.flatMap_map, List.map_flatMap]
      exact List.flatMap_congr fun b hb => List.flatMap_congr fun g hg => ih b hb g hg

end Goal

/-- **The names of the variables of a clause**, as they occur from left to right. -/
def Clause.occurrences (c : Clause) : List String :=
  c.head.occurrences ++ c.body.flatMap Goal.occurrences

theorem Clause.occurrences_rename (n : ℕ) (c : Clause) :
    (c.rename n).occurrences = c.occurrences.map (renamed n) := by
  have hbody : ∀ g ∈ c.body, (g.rename n).occurrences = g.occurrences.map (renamed n) :=
    fun g _ => Goal.occurrences_rename n g
  simp only [occurrences, rename, renameBody_eq_map, Term.occurrences_rename, List.map_append,
    List.flatMap_map, List.map_flatMap, List.flatMap_congr hbody]

/-! ### Apart -/

/-- **A copy `c'` of a clause is standardized apart**: its variables are neither bound, nor in a
term that something is bound to, nor in a pending goal; and it has as many occurrences of variables
as the clause, with two of one name exactly where the clause has two of one name. -/
structure StandardizedApart (c c' : Clause) (pending : List Pending) (e : Bindings) : Prop where
  unbound : ∀ x ∈ c'.occurrences, ∀ p ∈ e.entries, x ≠ p.1
  values : ∀ x ∈ c'.occurrences, ∀ p ∈ e.entries, x ∉ p.2.occurrences
  pending : ∀ x ∈ c'.occurrences, ∀ p ∈ pending, x ∉ p.goal.occurrences
  length : c'.occurrences.length = c.occurrences.length
  linked : ∀ i j : ℕ, c'.occurrences[i]? = c'.occurrences[j]? ↔
    c.occurrences[i]? = c.occurrences[j]?

/-- A name of a trial is none from before it. -/
theorem not_numbered_renamed (n : ℕ) (w : String) :
    ¬ (Term.var (renamed n w)).Numbered (Set.Iio n) := fun h =>
  Nat.lt_irrefl n (h n w rfl)

/-- **The copy for a trial is apart** from all goals and bindings from before it. -/
theorem standardizedApart_rename (hpending : PendingEverywhere (Numbered (Set.Iio n)) pending)
    (he : e.Before n) (c : Clause) : StandardizedApart c (c.rename n) pending e := by
  have hnew : ∀ x ∈ (c.rename n).occurrences, ¬ (Term.var x).Numbered (Set.Iio n) := by
    rw [Clause.occurrences_rename, List.forall_mem_map]
    exact fun w _ => not_numbered_renamed n w
  have hinj : Function.Injective (renamed n) := fun _ _ h => (renamed_inj h).2
  constructor
  case unbound =>
    rintro x hx p hp rfl
    exact hnew _ hx (he p hp).1
  case values =>
    exact fun x hx p hp hmem =>
      hnew x hx ((he p hp).2 _ (Term.occurs_of_mem_occurrences hmem))
  case pending =>
    exact fun x hx p hp hmem =>
      hnew x hx (hpending p hp _ (Goal.mentions_of_mem_occurrences hmem))
  case length => rw [Clause.occurrences_rename, List.length_map]
  case linked =>
    intro i j
    simp only [Clause.occurrences_rename, List.getElem?_map]
    exact (Option.map_injective hinj).eq_iff

/-! ### The watch -/

open Classical in
/-- **The watch at one point of a search**: the run is only made if every clause of the program,
tried next, would be apart from the goals and bindings. -/
noncomputable def watch (k : Knowledge) (alarm : Halt) (pending : List Pending) (e : Bindings)
    (run : Progress → Found) (s : Progress) : Found :=
  if ∀ c ∈ k.program.clauses, StandardizedApart c (c.rename s.fresh) pending e then run s
  else .error alarm

/-- Proves a term that is called, with a watch before each of the trials. -/
noncomputable def watchedCall (k : Knowledge) (alarm : Halt)
    (run : List Pending → Bindings → Progress → Found) (waiting : List Pending) (t : Term)
    (depth : ℕ) (rest : List Pending) (e : Bindings) (s : Progress) : Found :=
  let call := e.walk t
  match call.functor? with
  | none => .ok ([], s.tell (if call.isVar then .unbound t else .notCallable call))
  | some (name, arity) =>
      match k.builtins.find? name arity with
      | some b => callBuiltin run b k.bpm name call.args rest e s
      | none =>
          if k.maxDepth ≤ depth then .ok ([], prune k.maxDepth call s)
          else
            let clauses := k.program.clausesOf name arity
            let s := if clauses.isEmpty then s.tell (.undefinedCall name arity) else s
            gather (fun c => watch k alarm (⟨.call call, depth⟩ :: (rest ++ waiting)) e
              (tryClause run call depth rest e c)) clauses s

/-- **The search with a watch at every point.**  The goals that wait for a negation to be decided
are handed down to the search for its alternatives. -/
noncomputable def watchedF (k : Knowledge) (alarm : Halt) :
    ℕ → List Pending → List Pending → Bindings → Progress → Found
  | 0, _, _, _, _ => .error .search
  | fuel + 1, waiting, goals, e, s =>
      watch k alarm (goals ++ waiting) e (fun s =>
        match goals with
        | [] => .ok ([e], s)
        | ⟨.negation alternatives, depth⟩ :: rest =>
            match anyProof (fun b => watchedF k alarm fuel (goals ++ waiting) (pendingAt depth b) e)
                alternatives s with
            | .error h => .error h
            | .ok (true, s) => .ok ([], s)
            | .ok (false, s) => watchedF k alarm fuel waiting rest e s
        | ⟨.call t, depth⟩ :: rest =>
            watchedCall k alarm (watchedF k alarm fuel waiting) waiting t depth rest e s) s

theorem watch_eq (hpending : PendingEverywhere (Numbered (Set.Iio n)) pending) (he : e.Before n)
    (run : Progress → Found) {s : Progress} (hs : n ≤ s.fresh) :
    watch k alarm pending e run s = run s := by
  have hpending' : PendingEverywhere (Numbered (Set.Iio s.fresh)) pending :=
    hpending.mono fun u hu => hu.mono (Set.Iio_subset_Iio hs)
  exact if_pos fun c _ => standardizedApart_rename hpending' (he.mono hs) c

/-- A goal with the name of the trial that comes next raises the alarm. -/
example (run : Progress → Found) :
    watch ⟨⟨[⟨.compound "p" [.var "X"], []⟩]⟩, .standard, 8, 120⟩ alarm
        [⟨.call (.compound "p" [.var "X$3"]), 0⟩] .empty run ⟨⟨.empty, .ofSeed 0, []⟩, 3, false⟩ =
      .error alarm :=
  if_neg fun h =>
    (h _ List.mem_cons_self).pending "X$3" (by decide) _ List.mem_cons_self (by decide)

/-! ### Builtins -/

/-- **No builtin makes a name up**: the numbers in what it pushes are numbers of its arguments or of
the bindings. -/
def Knowledge.AddsNoNames (k : Knowledge) : Prop :=
  ∀ {name : String} {arity : ℕ} {b : Builtin}, k.builtins.find? name arity = some b →
    ∀ (S : Set ℕ) (args : List Term) (e : Bindings) (w : World),
      (∀ a ∈ args, a.Everywhere (Numbered S)) → e.AllEntries (Numbered S) →
        ∀ e' ∈ (b.call k.bpm args e w).solutions, e'.AllEntries (Numbered S)

/-- **The standard builtins make no name up**, those that remember or draw included. -/
theorem addsNoNames_of_standard (hk : ∀ b ∈ k.builtins.builtins, b ∈ Builtin.standard) :
    k.AddsNoNames := by
  intro name arity b hb S args e w hargs he
  -- relabelling that changes nothing, so that what is left of the matching are the numbers
  have hM := matching_relabel Function.injective_id (ofVariables_numbered S)
  have hT : ∀ s t : Term, t = s.relabel id ∧ s.Everywhere (Numbered S) → s = t := by
    rintro s t ⟨rfl, -⟩
    exact s.relabel_id.symm
  have hkeeps :=
    keeps_of_mem_standard hM Body.seenAlike_eq hT b (hk b (List.mem_of_find?_eq_some hb))
  have hself : List.Forall₂ (fun t t' : Term => t' = t.relabel id ∧ t.Everywhere (Numbered S))
      args args :=
    List.forall₂_same.2 fun a ha => ⟨a.relabel_id.symm, hargs a ha⟩
  obtain ⟨hsolutions, -⟩ := hkeeps.call k.bpm hself ⟨e.relabel_id.symm, he⟩ w w rfl
  exact (forall₂_eq_and_iff.1 hsolutions).2

/-! ### One after the other -/

section Loops

variable {α : Type} {run run' : α → Progress → Found} {xs : List α} {s : Progress}

/-- Runs that are the same from some number of trials on are the same one after the other. -/
theorem gather_eq_of_fresh (hrun : ∀ x, Advances (run x))
    (h : ∀ x ∈ xs, ∀ s : Progress, n ≤ s.fresh → run' x s = run x s) (hs : n ≤ s.fresh) :
    gather run' xs s = gather run xs s := by
  induction xs generalizing s with
  | nil => rfl
  | cons x xs ih =>
      obtain ⟨hx, hxs⟩ := List.forall_mem_cons.1 h
      simp only [gather, hx s hs]
      rcases hr : run x s with cause | ⟨part, s₁⟩
      · rfl
      · simp only [ih hxs (hs.trans (hrun x _ _ _ hr))]

theorem anyProof_eq_of_fresh (hrun : ∀ x, Advances (run x))
    (h : ∀ x ∈ xs, ∀ s : Progress, n ≤ s.fresh → run' x s = run x s) (hs : n ≤ s.fresh) :
    anyProof run' xs s = anyProof run xs s := by
  induction xs generalizing s with
  | nil => rfl
  | cons x xs ih =>
      obtain ⟨hx, hxs⟩ := List.forall_mem_cons.1 h
      simp only [anyProof, hx s hs]
      rcases hr : run x s with cause | ⟨part, s₁⟩
      · rfl
      · simp only [ih hxs (hs.trans (hrun x _ _ _ hr))]

end Loops

/-! ### The watch is silent -/

/-- Searches with `fuel` do not come to an alarm from names from before the next trial. -/
def Silent (k : Knowledge) (alarm : Halt) (fuel : ℕ) : Prop :=
  ∀ (waiting goals : List Pending) (e : Bindings) (s : Progress),
    PendingEverywhere (Numbered (Set.Iio s.fresh)) (goals ++ waiting) → e.Before s.fresh →
    watchedF k alarm fuel waiting goals e s = solveF k fuel goals e s

section Steps

variable (hsilent : Silent k alarm fuel)
include hsilent

/-- At later trials the names are from before the next one as well. -/
theorem Silent.later (hpending : PendingEverywhere (Numbered (Set.Iio n)) (goals ++ waiting))
    (he : e.Before n) {s : Progress} (hs : n ≤ s.fresh) :
    watchedF k alarm fuel waiting goals e s = solveF k fuel goals e s :=
  hsilent waiting goals e s (hpending.mono fun _ hu => hu.mono (Set.Iio_subset_Iio hs))
    (he.mono hs)

variable (hpending : PendingEverywhere (Numbered (Set.Iio n)) (rest ++ waiting)) (he : e.Before n)
include hpending he

/-- **A trial without an alarm.**  After it the names are from before the trial that comes next. -/
theorem tryClause_silent {call : Term} (hcall : call.Everywhere (Numbered (Set.Iio n)))
    (c : Clause) {s : Progress} (hs : n ≤ s.fresh) :
    tryClause (watchedF k alarm fuel waiting) call depth rest e c s =
      tryClause (solveF k fuel) call depth rest e c s := by
  have hold : ∀ u : Term, u.Numbered (Set.Iio n) → u.Numbered (Set.Iio s.fresh) :=
    fun u hu => hu.mono (Set.Iio_subset_Iio hs)
  have hnext : insert s.fresh (Set.Iio s.fresh) ⊆ Set.Iio (s.fresh + 1) := by
    rintro i (rfl | hi)
    · exact Nat.lt_succ_self _
    · exact Nat.lt_succ_of_lt hi
  simp only [tryClause]
  rcases hu : unify call (c.rename s.fresh).head e with cause | _ | e₁
  · rfl
  · rfl
  · obtain ⟨he₁, hpending₁⟩ := numbered_trial (hcall.mono hold) (he.mono hs)
      (hpending.mono hold) (depth + 1) hu
    rw [← List.append_assoc] at hpending₁
    exact hsilent waiting _ e₁ { s with fresh := s.fresh + 1 }
      (hpending₁.mono fun u hu => hu.mono hnext) (he₁.mono fun u hu => hu.mono hnext)

theorem callBuiltin_silent (hk : k.AddsNoNames) {name : String} {arity : ℕ} {b : Builtin}
    (hb : k.builtins.find? name arity = some b) {args : List Term}
    (hargs : ∀ a ∈ args, a.Everywhere (Numbered (Set.Iio n))) {s : Progress} (hs : n ≤ s.fresh) :
    callBuiltin (watchedF k alarm fuel waiting) b k.bpm name args rest e s =
      callBuiltin (solveF k fuel) b k.bpm name args rest e s := by
  have hpushed := hk hb _ args e s.world hargs he
  have hgather : ∀ t : Progress, n ≤ t.fresh →
      gather (watchedF k alarm fuel waiting rest) (b.call k.bpm args e s.world).solutions t =
        gather (solveF k fuel rest) (b.call k.bpm args e s.world).solutions t := fun t ht =>
    gather_eq_of_fresh (solveF_advances k fuel rest)
      (fun e' he' _ ht' => hsilent.later hpending (hpushed e' he') ht') ht
  simp only [callBuiltin]
  split
  · rfl
  all_goals
    refine hgather _ ?_
    exact hs

theorem watchedCall_eq (hk : k.AddsNoNames) {t : Term}
    (ht : t.Everywhere (Numbered (Set.Iio n))) {s : Progress} (hs : n ≤ s.fresh) :
    watchedCall k alarm (watchedF k alarm fuel waiting) waiting t depth rest e s =
      callTerm k (solveF k fuel) t depth rest e s := by
  have hcall := Bindings.everywhere_walk he.everywhere ht
  simp only [watchedCall, callTerm]
  generalize e.walk t = call at hcall ⊢
  rcases hf : call.functor? with _ | ⟨name, arity⟩
  · rfl
  rcases hb : k.builtins.find? name arity with _ | b
  · simp only [hb]
    split
    · rfl
    · have htrial : ∀ c ∈ k.program.clausesOf name arity, ∀ s : Progress, n ≤ s.fresh →
          watch k alarm (⟨.call call, depth⟩ :: (rest ++ waiting)) e
              (tryClause (watchedF k alarm fuel waiting) call depth rest e c) s =
            tryClause (solveF k fuel) call depth rest e c s := by
        intro c _ s hs
        have hwatched := pendingEverywhere_cons (p := ⟨.call call, depth⟩).2
          ⟨Goal.everywhere_call.2 hcall, hpending⟩
        rw [watch_eq hwatched he _ hs]
        exact tryClause_silent hsilent hpending he hcall c hs
      refine gather_eq_of_fresh (tryClause_advances k fuel _ _ _ _) htrial ?_
      split <;> exact hs
  · simp only [hb]
    exact callBuiltin_silent hsilent hpending he hk hb hcall.args hs

end Steps

/-- **The watch is silent** wherever all names are from before the next trial. -/
theorem watchedF_eq (hk : k.AddsNoNames) (alarm : Halt) (fuel : ℕ) : Silent k alarm fuel := by
  induction fuel with
  | zero => exact fun _ _ _ _ _ _ => rfl
  | succ fuel ih =>
      intro waiting goals e s hpending he
      rw [watchedF, watch_eq hpending he _ (Nat.le_refl _)]
      rcases goals with _ | ⟨⟨goal, depth⟩, rest⟩
      · rfl
      have hsplit := hpending
      rw [List.cons_append, pendingEverywhere_cons] at hsplit
      obtain ⟨hgoal, hrest⟩ := hsplit
      cases goal with
      | call t =>
          exact watchedCall_eq ih hrest he hk (Goal.everywhere_call.1 hgoal) (Nat.le_refl _)
      | negation alternatives =>
          rw [Goal.everywhere_negation] at hgoal
          have halternative : ∀ b ∈ alternatives, ∀ t : Progress, s.fresh ≤ t.fresh →
              watchedF k alarm fuel (⟨.negation alternatives, depth⟩ :: rest ++ waiting)
                (pendingAt depth b) e t = solveF k fuel (pendingAt depth b) e t := by
            intro b hb t ht
            refine Silent.later ih (pendingEverywhere_append.2 ⟨?_, hpending⟩) he ht
            exact pendingEverywhere_pendingAt.2 (hgoal b hb)
          have hadvances : ∀ b, Advances (solveF k fuel (pendingAt depth b) e) :=
            fun b => solveF_advances k fuel _ e
          simp only [solveF, anyProof_eq_of_fresh hadvances halternative (Nat.le_refl s.fresh)]
          rcases hany : anyProof (fun b => solveF k fuel (pendingAt depth b) e) alternatives s with
            cause | ⟨_ | _, s₁⟩
          · rfl
          · exact Silent.later ih hrest he (anyProof_fresh_le hadvances hany)
          · rfl

/-- **Clauses are always tried apart.**  Let a search with the standard builtins start without
bindings, at any number of trials, for goals without names of trials to come.  Then the search that
stops with an alarm at the first point where a clause, tried next, would not be standardized apart
is the search itself, and so there is no such point: not in a branch that finds nothing, not in a
negation, and not in a search that does not come to an answer. -/
theorem solve_standardizesApart (hk : ∀ b ∈ k.builtins.builtins, b ∈ Builtin.standard)
    {goals : List Goal} {s : Progress} (hgoals : GoalsBefore s.fresh goals) (alarm : Halt)
    (fuel : ℕ) :
    watchedF k alarm fuel [] (pendingAt 0 goals) .empty s =
      solveF k fuel (pendingAt 0 goals) .empty s := by
  refine watchedF_eq (addsNoNames_of_standard hk) alarm fuel [] _ _ s ?_ Bindings.allEntries_empty
  rw [List.append_nil]
  exact pendingEverywhere_pendingAt.2 hgoals

/-- The search for all numbers without a greater one, after three trials were made: every number is
tried, and for each of them the negation tries the clause that compares two. -/
theorem solve_standardizesApart_negation :
    let k : Knowledge :=
      ⟨⟨[⟨.compound "n" [.number 1], []⟩, ⟨.compound "n" [.number 2], []⟩,
          ⟨.compound "under" [.var "X", .var "Y"],
            [.call (.compound "n" [.var "Y"]), .call (.compound "<" [.var "X", .var "Y"])]⟩]⟩,
        .standard, 8, 120⟩
    let goals : List Goal :=
      [.call (.compound "n" [.var "X"]),
        .negation [[.call (.compound "under" [.var "X", .var "Y"])]]]
    let s : Progress := ⟨⟨.empty, .ofSeed 0, []⟩, 3, false⟩
    ∃ found s', watchedF k .arithmetic 16 [] (pendingAt 0 goals) .empty s = .ok (found, s') ∧
      found.length = 1 ∧ s'.fresh = 11 := by
  intro k goals s
  have hgoals : ∀ g ∈ goals, g.Everywhere (Term.NamedIn ["X", "Y"]) := by
    simp [goals, Term.NamedIn]
  have hcount : (solveF k 16 (pendingAt 0 goals) .empty s).toOption.map
      (fun r => (r.1.length, r.2.fresh)) = some (1, 11) := by
    decide +kernel
  obtain ⟨⟨found, s'⟩, hrun, hfound⟩ := exists_ok hcount
  rw [solve_standardizesApart (fun _ hb => hb) fun g hg =>
    (hgoals g hg).mono fun u hu => hu.numbered (by decide) _]
  exact ⟨found, s', hrun, Prod.mk.inj hfound⟩

end RhythmLogic
