/-
**Refinement: a search with fewer restrictions keeps its answers.**

A search is restricted by its fuel, by builtins that halt it, and by the limit on the nesting of
calls.  Under fewer restrictions it comes to the same answer, if it came to one.  For the limit this
is not true of all answers, since a search goes on after it has pruned a call.  So it is said of the
answers whose progress has a given property, one that a search cannot bring about: if it holds at
the end of a run then it held at the start.  That is what carries the statement from a run to those
before it.  That nothing was pruned is such a property; for fuel and builtins the trivial one will
do.

Main definitions:

* `Progress.Backward` — what holds at the end of a run held at the start;
* `RefinesWhere`, `RunRefines` — **a run that gives the answers of another one**, those whose
  progress has a property, and all of them;
* `RestrictsWhere`, `Restricts` — the same knowledge, but for builtins that halt and calls that are
  pruned, and but for builtins that halt.

Main results:

* `solveF_refinesWhere` — **more fuel and fewer restrictions keep the answers** with the property;
* `solveF_refines` — with the same limit they keep all answers.
-/

import RhythmLogic.Proofs.Changes

set_option autoImplicit false

namespace RhythmLogic

variable {k k' : Knowledge} {P : Progress → Prop} {m n : Nat}

/-! ### Answers that are kept -/

/-- What holds at the end held at the start. -/
def Progress.Backward (P : Progress → Prop) (s s' : Progress) : Prop := P s' → P s

theorem Progress.Backward.refl (s : Progress) : s.Backward P s := id

theorem Progress.Backward.trans {s s₁ s₂ : Progress} (h : s.Backward P s₁)
    (h' : s₁.Backward P s₂) : s.Backward P s₂ := fun hs => h (h' hs)

/-- `run'` gives every answer of `run` whose progress has a property. -/
def RefinesWhere (P : Progress → Prop) (run' run : Progress → Found) : Prop :=
  ∀ s found s', run s = .ok (found, s') → P s' → run' s = .ok (found, s')

/-- `run'` gives every answer that `run` gives. -/
def RunRefines (run' run : Progress → Found) : Prop := ∀ s r, run s = .ok r → run' s = .ok r

theorem refinesWhere_true {run run' : Progress → Found} :
    RefinesWhere (fun _ => True) run' run ↔ RunRefines run' run :=
  ⟨fun h s r hr => h s r.1 r.2 hr trivial, fun h s found s' hr _ => h s (found, s') hr⟩

/-- What always holds held before. -/
theorem moves_backward_true (run : Progress → Found) :
    Moves (Progress.Backward fun _ => True) run := fun _ _ _ _ => id

/-! ### Restrictions -/

/-- **The knowledge `k` is `k'` with more restrictions**: some builtins halt, and calls may be pruned
that `k'` goes on with, but then an answer with the property comes from no pruned call. -/
structure RestrictsWhere (P : Progress → Prop) (k k' : Knowledge) : Prop where
  program : k.program = k'.program
  bpm : k.bpm = k'.bpm
  builtins : ∀ name arity, k.builtins.find? name arity = k'.builtins.find? name arity ∨
    ∃ b, k.builtins.find? name arity = some b ∧ b.run = fun _ _ _ => Body.misused
  maxDepth : k.maxDepth ≤ k'.maxDepth
  /-- The same calls are pruned, or a pruned call takes the property away. -/
  pruned : k.maxDepth = k'.maxDepth ∨ ∀ limit call s, ¬ P (prune limit call s)
  /-- Nothing that a search does brings the property about. -/
  backward : Allows k (Progress.Backward P)

/-- `k` is `k'`, but for builtins that halt. -/
structure Restricts (k k' : Knowledge) : Prop where
  program : k.program = k'.program
  maxDepth : k.maxDepth = k'.maxDepth
  bpm : k.bpm = k'.bpm
  builtins : ∀ name arity, k.builtins.find? name arity = k'.builtins.find? name arity ∨
    ∃ b, k.builtins.find? name arity = some b ∧ b.run = fun _ _ _ => Body.misused

theorem Restricts.refl (k : Knowledge) : Restricts k k := ⟨rfl, rfl, rfl, fun _ _ => .inl rfl⟩

/-- Where the limit is the same, the trivial property will do. -/
theorem Restricts.restrictsWhere (h : Restricts k k') : RestrictsWhere (fun _ => True) k k' where
  program := h.program
  bpm := h.bpm
  builtins := h.builtins
  maxDepth := Nat.le_of_eq h.maxDepth
  pruned := .inl h.maxDepth
  backward :=
    { refl := fun _ => id
      trans := fun _ _ => id
      trial := fun _ => id
      tell := fun _ _ => id
      prune := fun _ _ _ => id
      builtin := fun _ _ _ _ => id }

/-! ### Runs one after the other -/

section Loops

variable {α : Type} {run run' : α → Progress → Found} {xs : List α}

theorem gather_refinesWhere (hback : ∀ x, Moves (Progress.Backward P) (run x))
    (h : ∀ x ∈ xs, RefinesWhere P (run' x) (run x)) :
    RefinesWhere P (gather run' xs) (gather run xs) := by
  induction xs with
  | nil => exact fun _ _ _ hs _ => hs
  | cons x xs ih =>
      intro s found s' hs hP
      obtain ⟨hx, hxs⟩ := List.forall_mem_cons.1 h
      obtain ⟨part, s₁, more, hpart, hmore, rfl⟩ := gather_cons.1 hs
      have hP₁ : P s₁ := gather_moves .refl .trans hback xs _ _ _ hmore hP
      exact gather_cons.2 ⟨part, s₁, more, hx _ _ _ hpart hP₁, ih hxs _ _ _ hmore hP, rfl⟩

/-- A negation is decided alike. -/
theorem anyProof_refinesWhere (hback : ∀ x, Moves (Progress.Backward P) (run x))
    (h : ∀ x, RefinesWhere P (run' x) (run x)) {s s' : Progress} {b : Bool}
    (hs : anyProof run xs s = .ok (b, s')) (hP : P s') : anyProof run' xs s = .ok (b, s') := by
  induction xs generalizing s with
  | nil => exact hs
  | cons x xs ih =>
      simp only [anyProof] at hs ⊢
      split at hs
      · cases hs
      next found s₁ hx =>
      split at hs
      · next hempty =>
          have hP₁ : P s₁ := anyProof_moves .refl .trans hback hs hP
          rw [h x _ _ _ hx hP₁]
          exact (if_pos hempty).trans (ih hs)
      · next hempty =>
          cases hs
          rw [h x _ _ _ hx hP]
          exact if_neg hempty

theorem gather_refines (h : ∀ x ∈ xs, RunRefines (run' x) (run x)) :
    RunRefines (gather run' xs) (gather run xs) :=
  refinesWhere_true.1 <| gather_refinesWhere (fun x => moves_backward_true (run x)) fun x hx =>
    refinesWhere_true.2 (h x hx)

theorem anyProof_refines (h : ∀ x, RunRefines (run' x) (run x)) {s : Progress}
    {r : Bool × Progress} (hs : anyProof run xs s = .ok r) : anyProof run' xs s = .ok r :=
  anyProof_refinesWhere (fun x => moves_backward_true (run x))
    (fun x => refinesWhere_true.2 (h x)) hs trivial

end Loops

/-! ### The search -/

section Calls

variable {run run' : List Pending → Bindings → Progress → Found}
  (hback : ∀ goals e, Moves (Progress.Backward P) (run goals e))
  (hrun : ∀ goals e, RefinesWhere P (run' goals e) (run goals e))

include hrun in
theorem tryClause_refinesWhere (call : Term) (depth : Nat) (rest : List Pending) (e : Bindings)
    (c : Clause) : RefinesWhere P (tryClause run' call depth rest e c)
      (tryClause run call depth rest e c) := by
  intro s found s' h hP
  simp only [tryClause] at h ⊢
  split at h
  · cases h
  · exact h
  · exact hrun _ _ _ _ _ h hP

theorem tryClause_refines (hrun : ∀ goals e, RunRefines (run' goals e) (run goals e))
    (call : Term) (depth : Nat) (rest : List Pending) (e : Bindings) (c : Clause) :
    RunRefines (tryClause run' call depth rest e c) (tryClause run call depth rest e c) :=
  refinesWhere_true.1 <|
    tryClause_refinesWhere (fun goals e => refinesWhere_true.2 (hrun goals e)) call depth rest e c

include hback hrun

theorem callBuiltin_refinesWhere (b : Builtin) (bpm : Float) (name : String) (args : List Term)
    (rest : List Pending) (e : Bindings) : RefinesWhere P
      (callBuiltin run' b bpm name args rest e) (callBuiltin run b bpm name args rest e) := by
  intro s found s' h hP
  simp only [callBuiltin] at h ⊢
  split at h
  · cases h
  all_goals exact gather_refinesWhere (hback rest) (fun e _ => hrun rest e) _ _ _ h hP

theorem callTerm_refinesWhere (hk : RestrictsWhere P k k') (t : Term) (depth : Nat)
    (rest : List Pending) (e : Bindings) : RefinesWhere P (callTerm k' run' t depth rest e)
      (callTerm k run t depth rest e) := by
  intro s found s' h hP
  simp only [callTerm, hk.program, hk.bpm] at h ⊢
  split at h
  · exact h
  next name arity hf =>
  rcases hk.builtins name arity with hsame | ⟨b, hb, hmisused⟩
  · rw [hsame] at h
    split at h
    · exact callBuiltin_refinesWhere hback hrun _ _ _ _ _ _ _ _ _ h hP
    split at h
    · next hdeep =>
        rcases hk.pruned with heq | hspoiled
        · rw [← heq]
          exact (if_pos hdeep).trans h
        · -- the answer of a call that was pruned is none of those that are kept
          cases h
          exact absurd hP (hspoiled _ _ _)
    · next hdeep =>
        have hdeep' : ¬ k'.maxDepth ≤ depth := fun hle => hdeep (Nat.le_trans hk.maxDepth hle)
        exact (if_neg hdeep').trans (gather_refinesWhere (tryClause_moves hk.backward hback _ _ _ _)
          (fun c _ => tryClause_refinesWhere hrun _ _ _ _ c) _ _ _ h hP)
  · -- a builtin that halts gives no answer
    rw [hb] at h
    simp only [callBuiltin_misused hmisused] at h
    cases h

end Calls

/-- **More fuel and fewer restrictions keep the answers** that have the property. -/
theorem solveF_refinesWhere (hk : RestrictsWhere P k k') (hmn : m ≤ n) (goals : List Pending)
    (e : Bindings) : RefinesWhere P (solveF k' n goals e) (solveF k m goals e) := by
  have hback : ∀ m goals e, Moves (Progress.Backward P) (solveF k m goals e) :=
    solveF_moves hk.backward
  induction m generalizing n goals e with
  | zero =>
      intro s found s' h
      cases h
  | succ m ih =>
      obtain ⟨n, rfl⟩ : ∃ n', n = n' + 1 := ⟨n - 1, by omega⟩
      have hrun : ∀ goals e, RefinesWhere P (solveF k' n goals e) (solveF k m goals e) :=
        ih (Nat.le_of_succ_le_succ hmn)
      intro s found s' h hP
      rcases goals with _ | ⟨⟨t | alternatives, depth⟩, rest⟩ <;> simp only [solveF] at h ⊢
      · exact h
      · exact callTerm_refinesWhere (hback m) hrun hk t depth rest e _ _ _ h hP
      · split at h
        · cases h
        · next hany =>
            cases h
            rw [anyProof_refinesWhere (fun b => hback m _ e) (fun b => hrun _ e) hany hP]
        · next hany =>
            have hP₁ := hback m rest e _ _ _ h hP
            rw [anyProof_refinesWhere (fun b => hback m _ e) (fun b => hrun _ e) hany hP₁]
            exact hrun _ _ _ _ _ h hP

/-- **More fuel and fewer restrictions keep every answer**, where the same calls are pruned. -/
theorem solveF_refines (hk : Restricts k k') (hmn : m ≤ n) (goals : List Pending) (e : Bindings) :
    RunRefines (solveF k' n goals e) (solveF k m goals e) :=
  refinesWhere_true.1 (solveF_refinesWhere hk.restrictsWhere hmn goals e)

end RhythmLogic
