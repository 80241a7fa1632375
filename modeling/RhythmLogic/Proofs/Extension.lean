/-
**Extension: more clauses and more room only add solutions.**

Where nothing is negated, a program that knows more finds more: clauses may be put in anywhere, and
calls may be nested deeper, and every solution is still found, in the same order.  The search of the
smaller program is not a part of that of the greater one, since every trial of a clause that was put
in, and every call that is not pruned any more, takes numbers, so that all later trials have other
ones.  But it is one up to a permutation of the numbers, as for searches that follow each other, and
where the greater search goes on in ways that the smaller one does not have, only its numbers go on.

This too is one induction over the search, at goals and bindings that are the same up to a
permutation that is known on the numbers in use.  It goes from the greater search to the smaller
one: if the greater search comes to an answer then so does the smaller one, as it does less.

Main definitions:

* `Knowledge.Extends` — the same knowledge with more clauses and more room;
* `Bindings.Renumbered` — bindings up to a permutation that is known on the numbers in use;
* `Embeds` — **a run does a part of what another one does**, and answers if that one does.

Main results:

* `gather_embeds` — runs one after the other, with further runs in between;
* `solveF_embeds` — a search is embedded in that of a greater program;
* `solve_extends` — **more clauses and more room only add solutions**.
-/

import RhythmLogic.CommandLine.Mixer
import RhythmLogic.Proofs.Conjunction

set_option autoImplicit false

namespace RhythmLogic

open Term (Numbered)

variable {k k' : Knowledge} {S S' : Set ℕ} {σ τ : Equiv.Perm ℕ} {n fuel depth : ℕ}
  {goals : List Pending} {e e' : Bindings} {s t : Progress}

/-! ### Knowing more -/

/-- **The knowledge `k'` extends `k`**: clauses were put in anywhere, and calls may be nested
deeper. -/
structure Knowledge.Extends (k' k : Knowledge) : Prop where
  clauses : k.program.clauses.Sublist k'.program.clauses
  maxDepth : k.maxDepth ≤ k'.maxDepth
  builtins : k'.builtins = k.builtins
  bpm : k'.bpm = k.bpm

/-- The clauses of a predicate are among those that it has in the extension. -/
theorem Knowledge.Extends.clausesOf (h : k'.Extends k) (name : String) (arity : ℕ) :
    (k.program.clausesOf name arity).Sublist (k'.program.clausesOf name arity) :=
  h.clauses.filter _

theorem Knowledge.Extends.steady (h : k'.Extends k) : k'.steady.Extends k.steady :=
  ⟨h.clauses, h.maxDepth, congrArg BuiltinTable.steady h.builtins, h.bpm⟩

/-! ### Solutions among others -/

/-- **Bindings are the same up to a permutation** that goes on from `σ` on the numbers in `S`. -/
def Bindings.Renumbered (S : Set ℕ) (σ : Equiv.Perm ℕ) (e e' : Bindings) : Prop :=
  ∃ τ : Equiv.Perm ℕ, (∀ i ∈ S, τ i = σ i) ∧ e' = e.relabel (renumber τ)

theorem Bindings.Renumbered.mono (h : e.Renumbered S' τ e') (hS : S ⊆ S')
    (hτ : ∀ i ∈ S, τ i = σ i) : e.Renumbered S σ e' := by
  obtain ⟨υ, hυ, rfl⟩ := h
  exact ⟨υ, fun i hi => (hυ i (hS hi)).trans (hτ i hi), rfl⟩

section Rows

variable {R R' : Bindings → Bindings → Prop} {found found' more more' : List Bindings}

theorem sublistForall₂_mono (h : List.SublistForall₂ R found found')
    (hR : ∀ a a', R a a' → R' a a') : List.SublistForall₂ R' found found' := by
  induction h with
  | nil => exact .nil
  | cons ha _ ih => exact .cons (hR _ _ ha) ih
  | cons_right _ ih => exact .cons_right ih

/-- Rows that are among others, one after the other. -/
theorem sublistForall₂_append (h : List.SublistForall₂ R found found')
    (h' : List.SublistForall₂ R more more') :
    List.SublistForall₂ R (found ++ more) (found' ++ more') := by
  obtain ⟨l, hl, hsub⟩ := List.sublistForall₂_iff.1 h
  obtain ⟨l', hl', hsub'⟩ := List.sublistForall₂_iff.1 h'
  exact List.sublistForall₂_iff.2 ⟨l ++ l', List.rel_append hl hl', hsub.append hsub'⟩

end Rows

/-! ### Runs that are a part of others -/

/-- **The first run does a part of what the second one does**: from linked numbers, if the second
one answers, so does the first one, and its solutions are among those of the second one, in order
and up to the numbers. -/
def Embeds (S : Set ℕ) (σ : Equiv.Perm ℕ) (run run' : Progress → Found) : Prop :=
  ∀ s t found' t', Linked S σ s.fresh t.fresh → run' t = .ok (found', t') →
    ∃ found s', run s = .ok (found, s') ∧
      List.SublistForall₂ (Bindings.Renumbered S σ) found found'

/-- A run without solutions is a part of every run. -/
theorem embeds_nothing {run run' : Progress → Found} {f : Progress → Progress}
    (h : ∀ s, run s = .ok ([], f s)) : Embeds S σ run run' :=
  fun s _ _ _ _ _ => ⟨[], f s, h s, .nil⟩

/-- **Runs one after the other**, each a part of another run, which may be made among further
ones. -/
theorem gather_embeds {α β : Type} {run : α → Progress → Found} {run' : β → Progress → Found}
    {xs : List α} {ys : List β} (hrun : ∀ x, Advances (run x)) (hrun' : ∀ y, Advances (run' y))
    (h : List.SublistForall₂ (fun x y => Embeds S σ (run x) (run' y)) xs ys) :
    Embeds S σ (gather run xs) (gather run' ys) := by
  induction h with
  | nil => exact embeds_nothing fun s => rfl
  | @cons x y xs ys hxy _ ih =>
      intro s t found' t' hlinked ht
      obtain ⟨part', t₁, more', hy, hys, rfl⟩ := gather_cons.1 ht
      obtain ⟨part, s₁, hx, hpart⟩ := hxy s t part' t₁ hlinked hy
      have hlinked' := hlinked.mono (hrun x _ _ _ hx) (hrun' y _ _ _ hy)
      obtain ⟨more, s₂, hxs, hmore⟩ := ih s₁ t₁ more' t' hlinked' hys
      exact ⟨part ++ more, s₂, gather_cons.2 ⟨part, s₁, more, hx, hxs, rfl⟩,
        sublistForall₂_append hpart hmore⟩
  | @cons_right y xs ys _ ih =>
      -- a further run only takes numbers of the second search
      intro s t found' t' hlinked ht
      obtain ⟨part', t₁, more', hy, hys, rfl⟩ := gather_cons.1 ht
      have hlinked' := hlinked.mono (Nat.le_refl _) (hrun' y _ _ _ hy)
      obtain ⟨more, s₂, hxs, hmore⟩ := ih s t₁ more' t' hlinked' hys
      have hnothing : List.SublistForall₂ (Bindings.Renumbered S σ) [] part' := .nil
      exact ⟨more, s₂, hxs, sublistForall₂_append hnothing hmore⟩

/-! ### The search -/

/-- Searches with some fuel are a part of those with more knowledge, from whatever goals without a
negation. -/
def SearchEmbeds (k k' : Knowledge) (fuel : ℕ) : Prop :=
  ∀ (goals : List Pending) (e : Bindings) (S : Set ℕ) (σ : Equiv.Perm ℕ), AllCalls goals →
    PendingEverywhere (Numbered S) goals → e.AllEntries (Numbered S) →
    Embeds S σ (solveF k fuel goals e)
      (solveF k' fuel (goals.map (.map (Term.relabel (renumber σ)))) (e.relabel (renumber σ)))

section Steps

variable (hfuel : SearchEmbeds k k' fuel) (hcalls : AllCalls goals)
  (hgoals : PendingEverywhere (Numbered S) goals) (he : e.AllEntries (Numbered S))
include hfuel hcalls hgoals he

/-- A trial of a clause is a part of the trial of it with the number of the other search. -/
theorem tryClause_embeds {call : Term} (hcall : call.Everywhere (Numbered S)) {c : Clause}
    (hc : Definite c.body) :
    Embeds S σ (tryClause (solveF k fuel) call depth goals e c)
      (tryClause (solveF k' fuel) (call.relabel (renumber σ)) depth
        (goals.map (.map (Term.relabel (renumber σ)))) (e.relabel (renumber σ)) c) := by
  intro s t found' t' hlinked h
  obtain ⟨τ, hτ, hlinked', hunify, hpending⟩ := hlinked.exists_trial hcall he hgoals depth c
  simp only [tryClause, hunify, hpending] at h ⊢
  rcases hu : unify call (c.rename s.fresh).head e with cause | _ | e₁ <;> rw [hu] at h
  · cases h
  · exact ⟨[], _, rfl, .nil⟩
  · obtain ⟨he₁, hnumbered⟩ := numbered_trial hcall he hgoals (depth + 1) hu
    obtain ⟨found, s', hrun, hfound⟩ := hfuel _ e₁ _ τ (hcalls.body hc) hnumbered he₁
      { s with fresh := s.fresh + 1 } { t with fresh := t.fresh + 1 } found' t' hlinked' h
    exact ⟨found, s', hrun, sublistForall₂_mono hfound fun a a' ha =>
      ha.mono (Set.subset_insert _ _) hτ⟩

/-- A call of a builtin is a part of the call of it with the same arguments up to the numbers. -/
theorem callBuiltin_embeds (hk : k.Parametric) {name : String} {arity : ℕ} {b : Builtin}
    (hb : k.builtins.find? name arity = some b) {args : List Term}
    (hargs : ∀ a ∈ args, a.Everywhere (Numbered S)) (bpm : Float) :
    Embeds S σ (callBuiltin (solveF k fuel) b bpm name args goals e)
      (callBuiltin (solveF k' fuel) b bpm name (args.map (Term.relabel (renumber σ)))
        (goals.map (.map (Term.relabel (renumber σ)))) (e.relabel (renumber σ))) := by
  intro s t found' t' hlinked h
  obtain ⟨cause, -, hhalts⟩ | ⟨solutions, s₁, t₁, hs₁, ht₁, hnumbered, hs, ht⟩ :=
    callBuiltin_renumber hk hb hargs he bpm (solveF k fuel) (solveF k' fuel) goals
      (goals.map (.map (Term.relabel (renumber σ)))) s t
  · rw [hhalts] at h
    cases h
  · rw [ht] at h
    rw [hs]
    have hembeds : List.SublistForall₂ (fun a a' => Embeds S σ (solveF k fuel goals a)
        (solveF k' fuel (goals.map (.map (Term.relabel (renumber σ)))) a'))
        solutions (solutions.map (Bindings.relabel (renumber σ))) := by
      refine List.sublistForall₂_iff.2 ⟨_, ?_, .refl _⟩
      exact List.forall₂_map_right_iff.2 <| List.forall₂_same.2 fun a ha =>
        hfuel goals a S σ hcalls hgoals (hnumbered a ha)
    exact gather_embeds (solveF_advances k fuel _) (solveF_advances k' fuel _) hembeds _ _ _ _
      (hlinked.mono (Nat.le_of_eq hs₁.symm) (Nat.le_of_eq ht₁.symm)) h

/-- A call is a part of the same call with more knowledge. -/
theorem callTerm_embeds (hk : k.Parametric) (hext : k'.Extends k)
    (hdefinite : k'.program.Definite) {u : Term} (hterm : u.Everywhere (Numbered S)) :
    Embeds S σ (callTerm k (solveF k fuel) u depth goals e)
      (callTerm k' (solveF k' fuel) (u.relabel (renumber σ)) depth
        (goals.map (.map (Term.relabel (renumber σ)))) (e.relabel (renumber σ))) := by
  intro s t found' t' hlinked h
  have hcall := Bindings.everywhere_walk he.everywhere hterm
  simp only [callTerm, Bindings.walk_relabel (renumber_injective σ.injective), Term.functor?_relabel,
    Term.args_relabel, hext.builtins, hext.bpm] at h ⊢
  generalize e.walk u = call at h hcall ⊢
  rcases hf : call.functor? with _ | ⟨name, arity⟩ <;> rw [hf] at h
  · exact ⟨[], _, rfl, .nil⟩
  rcases hb : k.builtins.find? name arity with _ | b
  · simp only [hb] at h ⊢
    by_cases hdeep : k.maxDepth ≤ depth
    · exact ⟨[], _, if_pos hdeep, .nil⟩
    · have hdeep' : ¬ k'.maxDepth ≤ depth := fun hle => hdeep (hext.maxDepth.trans hle)
      rw [if_neg hdeep'] at h
      rw [if_neg hdeep]
      have htrials : List.SublistForall₂ (fun c c' => Embeds S σ
          (tryClause (solveF k fuel) call depth goals e c)
          (tryClause (solveF k' fuel) (call.relabel (renumber σ)) depth
            (goals.map (.map (Term.relabel (renumber σ)))) (e.relabel (renumber σ)) c'))
          (k.program.clausesOf name arity) (k'.program.clausesOf name arity) := by
        refine List.sublistForall₂_iff.2
          ⟨k.program.clausesOf name arity, List.forall₂_same.2 fun c hc => ?_,
            hext.clausesOf name arity⟩
        have hc' : c ∈ k'.program.clauses :=
          List.mem_of_mem_filter ((hext.clausesOf name arity).subset hc)
        exact tryClause_embeds hfuel hcalls hgoals he hcall (hdefinite c hc')
      have hgather := gather_embeds (tryClause_advances k fuel _ _ _ _)
        (tryClause_advances k' fuel _ _ _ _) htrials
      refine hgather _ _ _ _ ?_ h
      refine hlinked.mono (Nat.le_of_eq ?_) (Nat.le_of_eq ?_) <;> split <;> rfl
  · simp only [hb] at h ⊢
    exact callBuiltin_embeds hfuel hcalls hgoals he hk hb hcall.args k.bpm _ _ _ _ hlinked h

end Steps

/-- **A search is a part of the search with more knowledge.** -/
theorem solveF_embeds (hk : k.Parametric) (hext : k'.Extends k) (hdefinite : k'.program.Definite)
    (fuel : ℕ) : SearchEmbeds k k' fuel := by
  induction fuel with
  | zero =>
      intro goals e S σ _ _ _ s t found' t' _ h
      cases h
  | succ fuel ih =>
      intro goals e S σ hcalls hgoals he s t found' t' hlinked h
      rcases goals with _ | ⟨⟨goal, depth⟩, goals⟩
      · cases h
        exact ⟨[e], s, rfl, .cons ⟨σ, fun _ _ => rfl, rfl⟩ .nil⟩
      obtain ⟨u, rfl⟩ : ∃ u, goal = .call u := hcalls _ List.mem_cons_self
      rw [pendingEverywhere_cons] at hgoals
      exact callTerm_embeds ih hcalls.tail hgoals.2 he hk hext hdefinite
        (Goal.everywhere_call.1 hgoals.1) s t found' t' hlinked h

/-- Where all builtins are parametric, a search with more knowledge has the solutions of a search
among its own. -/
theorem solve_extends_of_parametric (hk : k.Parametric) (hext : k'.Extends k)
    (hdefinite : k'.program.Definite) {goals : List Goal} (hcalls : Definite goals)
    (hgoals : GoalsBefore n goals) (he : e.Before n) (hs : n ≤ s.fresh) (ht : n ≤ t.fresh)
    {found' : List Bindings} {t' : Progress} (h : solve k' goals e t = .ok (found', t')) :
    ∃ found s', solve k goals e s = .ok (found, s') ∧
      List.SublistForall₂ (Bindings.Variant n) found found' := by
  have hself : ∀ i ∈ Set.Iio n, Equiv.refl ℕ i = i := fun _ _ => rfl
  have hlinked : Linked (Set.Iio n) (Equiv.refl ℕ) s.fresh t.fresh :=
    ⟨fun i hi => Nat.lt_of_lt_of_le hi hs, fun i hi => Nat.lt_of_lt_of_le hi ht⟩
  have hpending : PendingEverywhere (Numbered (Set.Iio n)) (pendingAt 0 goals) :=
    pendingEverywhere_pendingAt.2 hgoals
  have hembeds := solveF_embeds hk hext hdefinite searchBudget (pendingAt 0 goals) e _
    (Equiv.refl ℕ) (allCalls_pendingAt hcalls) hpending he
  rw [map_relabel_renumber_eq_self hself hpending, Bindings.relabel_renumber_eq_self hself he]
    at hembeds
  obtain ⟨found, s', hrun, hfound⟩ :=
    hembeds { s with warned := false } { t with warned := false } found' t' hlinked h
  refine ⟨found, s', hrun, sublistForall₂_mono hfound ?_⟩
  rintro a _ ⟨τ, hτ, rfl⟩
  exact variant_relabel hτ a

/-- **More clauses and more room only add solutions.**  Let a program with the standard builtins
have no negation, and let its clauses be those of a smaller program with others put in anywhere.
Let the goals have no negation either, and let them and the bindings have no name of the trial `n`
or of a later one.  If the search with the greater program and a limit comes to an answer without a
builtin that remembers or draws, then the search with the smaller program and the same or a smaller
limit comes to an answer as well; and its solutions are among those of the first one, in the same
order, up to the numbers of the trials that were made. -/
theorem solve_extends (hk : ∀ b ∈ k.builtins.builtins, b ∈ Builtin.standard)
    (hext : k'.Extends k) (hdefinite : k'.program.Definite) {goals : List Goal}
    (hcalls : Definite goals) (hgoals : GoalsBefore n goals) (he : e.Before n) (hs : n ≤ s.fresh)
    (ht : n ≤ t.fresh) (hsteady : solve k'.steady goals e t = solve k' goals e t)
    {found' : List Bindings} {t' : Progress} (h : solve k' goals e t = .ok (found', t')) :
    ∃ found s', solve k goals e s = .ok (found, s') ∧
      List.SublistForall₂ (Bindings.Variant n) found found' := by
  obtain ⟨found, s', hrun, hfound⟩ := solve_extends_of_parametric (s := s) (parametric_steady hk)
    hext.steady hdefinite hcalls hgoals he hs ht (hsteady.trans h)
  exact ⟨found, s', solve_refines_steady k goals e s _ hrun, hfound⟩

/-- A number is nothing or one more than a number.  Something else to start from is put in, and
calls may be nested once more: the two solutions of the smaller program are among six. -/
theorem solve_extends_number :
    let nothing : Clause := ⟨.compound "n" [.atom "z"], []⟩
    let other : Clause := ⟨.compound "n" [.var "X"], [.call (.compound "=" [.var "X", .atom "w"])]⟩
    let more : Clause :=
      ⟨.compound "n" [.compound "s" [.var "X"]], [.call (.compound "n" [.var "X"])]⟩
    let k : Knowledge := ⟨⟨[nothing, more]⟩, .standard, 2, 120⟩
    let k' : Knowledge := ⟨⟨[nothing, other, more]⟩, .standard, 3, 120⟩
    let goals : List Goal :=
      [.call (.compound "n" [.var "U"]), .call (.compound "=" [.var "V", .var "U"])]
    let e : Bindings := Bindings.empty.bind "Z" (.atom "b")
    let s : Progress := ⟨⟨.empty, .ofSeed 0, []⟩, 0, false⟩
    let t : Progress := ⟨⟨.empty, .ofSeed 0, []⟩, 7, false⟩
    k'.Extends k ∧ ∃ found s' found' t', solve k goals e s = .ok (found, s') ∧
      solve k' goals e t = .ok (found', t') ∧ found.length = 2 ∧ found'.length = 6 ∧
      List.SublistForall₂ (Bindings.Variant 0) found found' := by
  intro nothing other more k k' goals e s t
  have hext : k'.Extends k :=
    ⟨.cons_cons nothing (.cons other (.refl _)), by decide, rfl, rfl⟩
  have hcount : ((solve k goals e s).toOption.map fun r => r.1.length) = some 2 := by
    decide +kernel
  have hcount' : ((solve k'.steady goals e t).toOption.map fun r => r.1.length) = some 6 := by
    decide +kernel
  obtain ⟨⟨found, s'⟩, hrun, hlength⟩ := exists_ok hcount
  obtain ⟨⟨found', t'⟩, hguarded, hlength'⟩ := exists_ok hcount'
  have hrun' := solve_refines_steady k' goals e t _ hguarded
  let P : Term → Prop := Term.NamedIn ["U", "V", "Z"]
  have hP : ∀ u, P u → u.Numbered (Set.Iio 0) := fun u hu => hu.numbered (by decide) _
  have hgoals : ∀ g ∈ goals, g.Everywhere P := by simp [goals, P, Term.NamedIn]
  have he : e.AllEntries P :=
    .bind Bindings.allEntries_empty (by simp [P, Term.NamedIn]) (by simp [P, Term.NamedIn])
  obtain ⟨found₁, s₁, hrun₁, hfound⟩ :=
    solve_extends (k := k) (s := s) (fun _ hb => hb) hext
      (by simp [k', nothing, other, more, Program.Definite, Definite])
      (by simp [goals, Definite]) (fun g hg => (hgoals g hg).mono hP) (he.mono hP) (Nat.zero_le _)
      (Nat.zero_le _) (hguarded.trans hrun'.symm) hrun'
  have hsame := hrun₁.symm.trans hrun
  cases hsame
  exact ⟨hext, found, s', found', t', hrun, hrun', hlength, hlength', hfound⟩

end RhythmLogic
